import LegacyVault.Library.Workers
import LegacyVault.Notifications

/-!
# Runs of the notification job

`createNotificationWorkflowHandler`, any number of executions at a time. An
execution reserves the delivery of its recipient, sends an email under the
identifier of the delivery, and records what the provider answers. Any call
may fail, an answer may be lost, an execution may stop, and a job may be
delivered again.

Every statement acts at one moment, and a transaction writes with one
statement only. Which recipient a job has, and what the provider answers, is
left open.
-/

namespace LegacyVault

open JsonText RowTransaction RowTransaction.Program Store Workers

/-! ## Statements -/

/-- Update a delivery by its identifier. -/
def updateDelivery (context : TenantContext) (deliveryId : Identifier)
    (change : NotificationDeliveryRow → Option NotificationDeliveryRow) :
    Transaction (Option NotificationDeliveryRow) := do
  let found : Option ((Identifier × Identifier) × NotificationDeliveryRow) ←
    select (fun σ : Vault => (σ.scan .notificationDeliveries).find?
      (fun entry : (Identifier × Identifier) × NotificationDeliveryRow =>
        context.sees entry.2 && entry.2.id == deliveryId))
  match found with
  | some entry => updateRow (S := vaultSchema) .notificationDeliveries entry.1 change
  | none => pure none

/-- The change `completeNotificationDelivery` makes to the delivery. -/
def sentDelivery (providerMessageId : String) (delivery : NotificationDeliveryRow) :
    Option NotificationDeliveryRow :=
  if delivery.status ≠ .sent then
    some { delivery with
      status := .sent
      providerMessageId := some providerMessageId
      version := delivery.version + 1 }
  else none

/-- The change `recordNotificationDeliveryFailure` makes to the delivery. -/
def failedDelivery (delivery : NotificationDeliveryRow) : Option NotificationDeliveryRow :=
  if delivery.status ≠ .sent then
    some { delivery with status := .failed, version := delivery.version + 1 }
  else none

/-- `completeNotificationDelivery`, its update. -/
def completeNotificationDelivery (context : TenantContext) (deliveryId : Identifier)
    (providerMessageId : String) : Transaction (Option NotificationDeliveryRow) :=
  updateDelivery context deliveryId (sentDelivery providerMessageId)

/-- `completeNotificationDelivery`, after an update of no row. -/
def confirmNotificationDelivery (context : TenantContext) (deliveryId : Identifier)
    (providerMessageId : String) : Transaction Unit := do
  let existing ← select (fun σ : Vault => (σ.rowsOf .notificationDeliveries).any
    (fun delivery : NotificationDeliveryRow =>
      context.sees delivery && delivery.id == deliveryId && delivery.status == .sent &&
        delivery.providerMessageId == some providerMessageId))
  if existing then pure () else failWith "notification completion conflict"

/-- `recordNotificationDeliveryFailure`. -/
def recordNotificationDeliveryFailure (context : TenantContext) (deliveryId : Identifier) :
    Transaction (Option NotificationDeliveryRow) :=
  updateDelivery context deliveryId failedDelivery

/-! ## Executions -/

/-- `NotificationEmailSender.send`'s input. -/
structure NotificationEmail where
  to_ : String
  subject : String
  text : String
  html : String
  idempotencyKey : Identifier

/-- The email of a reserved delivery. -/
def annualReviewEmail (reportUrl : Identifier → String) (delivery : ReservedNotification) :
    NotificationEmail where
  to_ := delivery.recipient.email
  subject := "Your Legacy Vault annual review is ready"
  text := "Your annual review is ready. Sign in to review it: " ++
    reportUrl delivery.recipient.reportId
  html := "<p>Your annual review is ready.</p><p><a href=\"" ++
    reportUrl delivery.recipient.reportId ++ "\">Sign in to review it</a></p>"
  idempotencyKey := delivery.deliveryId

/-- `WorkflowJobData`. -/
structure NotificationJob where
  context : TenantContext
  workflowId : Identifier

/-- Where an execution of the handler stands. -/
inductive NotifierControl where
  /-- Before `getNotificationDeliveryInput`. -/
  | reserving
  /-- In `email.send`. -/
  | sending (delivery : ReservedNotification)
  /-- In `completeNotificationDelivery`, before its update. -/
  | completing (deliveryId : Identifier) (providerMessageId : String)
  /-- In `completeNotificationDelivery`, after an update of no row. -/
  | confirming (deliveryId : Identifier) (providerMessageId : String)
  /-- Before `recordNotificationDeliveryFailure`. -/
  | failing (deliveryId : Identifier)
  | ended

/-- What is observed of the executions. -/
inductive NotifierEvent where
  /-- The provider is asked to send. -/
  | requested (execution : Nat) (workflowId recipientPersonId : Identifier)
      (email : NotificationEmail)
  /-- The provider has answered. -/
  | answered (execution : Nat) (deliveryId : Identifier) (providerMessageId : String)
  /-- The delivery is completed. -/
  | completed (execution : Nat) (deliveryId : Identifier) (providerMessageId : String)
  /-- The completion conflicts with another. -/
  | conflicted (execution : Nat) (deliveryId : Identifier) (providerMessageId : String)

/-- The committed rows and the executions of the handler. -/
abbrev Notifier := Workers Vault NotificationJob NotifierControl NotifierEvent

/-- The handler goes on from its reservation, unless there is nothing to send. -/
def Notifier.reserved (reportUrl : Identifier → String) (s : Notifier) (execution : Nat)
    (job : NotificationJob) : Option ReservedNotification → Notifier
  | none => s.enter execution job .ended
  | some delivery =>
    if delivery.status = .sent then s.enter execution job .ended
    else (s.observe [.requested execution job.workflowId delivery.recipient.personId
      (annualReviewEmail reportUrl delivery)]).enter execution job (.sending delivery)

/-- The handler goes on from its update. -/
def Notifier.updated (s : Notifier) (execution : Nat) (job : NotificationJob)
    (deliveryId : Identifier) (providerMessageId : String) :
    Option NotificationDeliveryRow → Notifier
  | some _ => (s.observe [.completed execution deliveryId providerMessageId]).enter execution job
      .ended
  | none => s.enter execution job (.confirming deliveryId providerMessageId)

/-- The calls of the handler whose errors it catches. -/
def NotifierControl.Catches (deliveryId : Identifier) : NotifierControl → Prop
  | sending delivery => delivery.deliveryId = deliveryId
  | completing id _ => id = deliveryId
  | confirming id _ => id = deliveryId
  | _ => False

/-- One statement, or one event of an execution. -/
inductive NotifierStep (reportUrl : Identifier → String) : Notifier → Notifier → Prop
  /-- A job is delivered. -/
  | start {s : Notifier} (execution : Nat) (job : NotificationJob)
      (hfree : s.executions execution = none) :
      NotifierStep reportUrl s (s.enter execution job .reserving)
  /-- A delivery is reserved, under a new identifier when there is none, for the recipient of
  some earlier moment. A row of another tenant fails the statement. -/
  | reserve {s : Notifier} {job : NotificationJob} {reserved : Option ReservedNotification}
      {ws : List (Write vaultSchema)} (execution : Nat) (deliveryId : Identifier)
      (hcontrol : s.executions execution = some (job, .reserving))
      (hid : ∀ k delivery, s.rows.get .notificationDeliveries k = some delivery →
        delivery.id ≠ deliveryId)
      (hreserve : (getNotificationDeliveryInput job.context job.workflowId deliveryId).Executes
        (fun _ => True) s.rows [] (.ok reserved) ws)
      (hvisible : ∀ delivery row, reserved = some delivery →
        s.rows.get .notificationDeliveries (job.workflowId, delivery.recipient.personId) =
          some row → job.context.sees row = true) :
      NotifierStep reportUrl s
        (Notifier.reserved reportUrl (s.withRows (s.rows.overlay ws)) execution job reserved)
  /-- The provider answers. -/
  | answer {s : Notifier} {job : NotificationJob} {delivery : ReservedNotification}
      (execution : Nat) (providerMessageId : String)
      (hcontrol : s.executions execution = some (job, .sending delivery)) :
      NotifierStep reportUrl s ((s.observe [.answered execution delivery.deliveryId
        providerMessageId]).enter execution job
          (.completing delivery.deliveryId providerMessageId))
  /-- The delivery is updated. -/
  | complete {s : Notifier} {job : NotificationJob} {deliveryId : Identifier}
      {providerMessageId : String} {updated : Option NotificationDeliveryRow} {rows : Vault}
      (execution : Nat)
      (hcontrol : s.executions execution = some (job, .completing deliveryId providerMessageId))
      (hcomplete : (completeNotificationDelivery job.context deliveryId
        providerMessageId).transact s.rows = (.ok updated, rows)) :
      NotifierStep reportUrl s (Notifier.updated (s.withRows rows) execution job deliveryId
        providerMessageId updated)
  /-- The delivery is updated, and the execution does not learn of it. -/
  | lose {s : Notifier} {job : NotificationJob} {deliveryId : Identifier}
      {providerMessageId : String} {updated : Option NotificationDeliveryRow} {rows : Vault}
      (execution : Nat)
      (hcontrol : s.executions execution = some (job, .completing deliveryId providerMessageId))
      (hcomplete : (completeNotificationDelivery job.context deliveryId
        providerMessageId).transact s.rows = (.ok updated, rows)) :
      NotifierStep reportUrl s ((s.withRows rows).enter execution job (.failing deliveryId))
  /-- The delivery has been sent under the same message. -/
  | confirm {s : Notifier} {job : NotificationJob} {deliveryId : Identifier}
      {providerMessageId : String} (execution : Nat)
      (hcontrol : s.executions execution = some (job, .confirming deliveryId providerMessageId))
      (hconfirm : ((confirmNotificationDelivery job.context deliveryId
        providerMessageId).transact s.rows).1 = .ok ()) :
      NotifierStep reportUrl s ((s.observe [.completed execution deliveryId
        providerMessageId]).enter execution job .ended)
  /-- The delivery has not been sent under the same message. -/
  | conflict {s : Notifier} {job : NotificationJob} {deliveryId : Identifier}
      {providerMessageId : String} {error : RepositoryError} (execution : Nat)
      (hcontrol : s.executions execution = some (job, .confirming deliveryId providerMessageId))
      (hconfirm : ((confirmNotificationDelivery job.context deliveryId
        providerMessageId).transact s.rows).1 = .error error) :
      NotifierStep reportUrl s ((s.observe [.conflicted execution deliveryId
        providerMessageId]).enter execution job (.failing deliveryId))
  /-- Sending or completing throws. -/
  | fail {s : Notifier} {job : NotificationJob} {control : NotifierControl}
      {deliveryId : Identifier} (execution : Nat)
      (hcontrol : s.executions execution = some (job, control))
      (hcatches : control.Catches deliveryId) :
      NotifierStep reportUrl s (s.enter execution job (.failing deliveryId))
  /-- A failure is recorded. -/
  | recordFailure {s : Notifier} {job : NotificationJob} {deliveryId : Identifier}
      (execution : Nat) (hcontrol : s.executions execution = some (job, .failing deliveryId)) :
      NotifierStep reportUrl s ((s.withRows ((recordNotificationDeliveryFailure job.context
        deliveryId).transact s.rows).2).enter execution job .ended)
  /-- An execution stops, at any point. -/
  | stop {s : Notifier} {job : NotificationJob} {control : NotifierControl} (execution : Nat)
      (hcontrol : s.executions execution = some (job, control)) :
      NotifierStep reportUrl s (s.enter execution job .ended)

/-- The notifier some steps later. -/
def NotifierLater (reportUrl : Identifier → String) : Notifier → Notifier → Prop :=
  Relation.ReflTransGen (NotifierStep reportUrl)

/-! ## What the statements do -/

/-- The rows of a notification, and their identifiers, are distinct. -/
structure DeliveriesDistinct (σ : Vault) : Prop where
  keyed : ∀ k delivery, σ.get .notificationDeliveries k = some delivery →
    k = (delivery.workflowId, delivery.recipientPersonId)
  ids : ∀ k k' delivery delivery', σ.get .notificationDeliveries k = some delivery →
    σ.get .notificationDeliveries k' = some delivery' → delivery.id = delivery'.id → k = k'

/-- A delivery that is updated is replaced by the change of it. -/
theorem updateDelivery_cases (context : TenantContext) (deliveryId : Identifier)
    (change : NotificationDeliveryRow → Option NotificationDeliveryRow) {σ : Vault}
    (hdistinct : DeliveriesDistinct σ) :
    ((updateDelivery context deliveryId change).transact σ = (.ok none, σ) ∧
      ∀ k delivery, σ.get .notificationDeliveries k = some delivery → delivery.id = deliveryId →
        context.sees delivery = true → change delivery = none) ∨
    ∃ k before after σ', σ.get .notificationDeliveries k = some before ∧
      before.id = deliveryId ∧ change before = some after ∧
      (updateDelivery context deliveryId change).transact σ = (.ok (some after), σ') ∧
      Replaces (S := vaultSchema) .notificationDeliveries k (some after) σ σ' := by
  cases hfound : (σ.scan .notificationDeliveries).find?
      (fun entry : (Identifier × Identifier) × NotificationDeliveryRow =>
        context.sees entry.2 && entry.2.id == deliveryId) with
  | none =>
    refine Or.inl ⟨?_, fun k delivery hdelivery hid hsees => ?_⟩
    · rw [transact, updateDelivery, run_bind, run_select, hfound]
      rfl
    · have hnot := List.find?_eq_none.mp hfound (k, delivery) (mem_scan.mpr hdelivery)
      exact absurd (by simp [hsees, hid]) hnot
  | some entry =>
    obtain ⟨k, before⟩ := entry
    have hbefore : σ.get .notificationDeliveries k = some before :=
      mem_scan.mp (List.mem_of_find?_eq_some hfound)
    have hid : before.id = deliveryId := by
      have hmatches := List.find?_some hfound
      simp only [Bool.and_eq_true, beq_iff_eq] at hmatches
      exact hmatches.2
    have hrun : (updateDelivery context deliveryId change).run σ =
        (updateRow (S := vaultSchema) (ε := RepositoryError) .notificationDeliveries k
          change).run σ := by
      rw [updateDelivery, run_bind, run_select, hfound]
    have hupdate := run_updateRow (S := vaultSchema) (ε := RepositoryError) (σ := σ)
      .notificationDeliveries k change
    rw [hbefore, Option.bind_some] at hupdate
    cases hafter : change before with
    | none =>
      rw [hafter] at hupdate
      refine Or.inl ⟨?_, fun k' delivery hdelivery hsame _ => ?_⟩
      · rw [transact, hrun, hupdate]
      · obtain rfl := hdistinct.ids k k' _ _ hbefore hdelivery (hid.trans hsame.symm)
        obtain rfl := Option.some.inj (hbefore.symm.trans hdelivery)
        exact hafter
    | some after =>
      rw [hafter] at hupdate
      refine Or.inr ⟨k, before, after, _, hbefore, hid, hafter, ?_, replaces_write σ⟩
      rw [transact, hrun, hupdate]
      rfl

/-- A delivery is confirmed when a row says so. -/
theorem confirmNotificationDelivery_transact {context : TenantContext} {deliveryId : Identifier}
    {providerMessageId : String} {σ : Vault} :
    ((confirmNotificationDelivery context deliveryId providerMessageId).transact σ).1 = .ok () ↔
      ∃ k delivery, σ.get .notificationDeliveries k = some delivery ∧
        context.sees delivery = true ∧ delivery.id = deliveryId ∧ delivery.status = .sent ∧
        delivery.providerMessageId = some providerMessageId := by
  have hrun : ((confirmNotificationDelivery context deliveryId providerMessageId).transact σ).1 =
      if (σ.rowsOf .notificationDeliveries).any (fun delivery : NotificationDeliveryRow =>
        context.sees delivery && delivery.id == deliveryId && delivery.status == .sent &&
          delivery.providerMessageId == some providerMessageId)
      then .ok () else .error (.error "notification completion conflict") := by
    rw [transact, confirmNotificationDelivery, run_bind, run_select]
    dsimp only
    split_ifs <;> rfl
  rw [hrun]
  split_ifs with hany
  · obtain ⟨delivery, hmem, hmatches⟩ := List.any_eq_true.mp hany
    obtain ⟨k, hdelivery⟩ := mem_rowsOf.mp hmem
    simp only [Bool.and_eq_true, beq_iff_eq] at hmatches
    obtain ⟨⟨⟨hsees, hid⟩, hstatus⟩, hmessage⟩ := hmatches
    exact iff_of_true rfl ⟨k, delivery, hdelivery, hsees, hid, hstatus, hmessage⟩
  · refine iff_of_false (by simp) ?_
    rintro ⟨k, delivery, hdelivery, hsees, hid, hstatus, hmessage⟩
    refine hany (List.any_eq_true.mpr ⟨delivery, mem_rowsOf.mpr ⟨k, hdelivery⟩, ?_⟩)
    simp [hsees, hid, hstatus, hmessage]

/-- The row of a reservation: the one that is there, or a new one. -/
def reservedRow (context : TenantContext) (workflowId deliveryId : Identifier) (σ : Vault)
    (recipient : NotificationRecipient) : NotificationDeliveryRow :=
  (σ.get .notificationDeliveries (workflowId, recipient.personId)).getD
    (pendingDelivery context workflowId deliveryId recipient)

/-- A reservation writes the row it returns. -/
theorem executes_reservation {context : TenantContext} {workflowId deliveryId : Identifier}
    {seen : Vault → Prop} {σ : Vault} {ws : List (Write vaultSchema)}
    {reserved : Option ReservedNotification}
    (h : (getNotificationDeliveryInput context workflowId deliveryId).Executes seen σ []
      (.ok reserved) ws) :
    (reserved = none ∧ ws = []) ∨ ∃ delivery, reserved = some delivery ∧
      delivery.deliveryId = (reservedRow context workflowId deliveryId σ delivery.recipient).id ∧
      delivery.status = (reservedRow context workflowId deliveryId σ delivery.recipient).status ∧
      ws = [⟨.notificationDeliveries, (workflowId, delivery.recipient.personId),
        some (reservedRow context workflowId deliveryId σ delivery.recipient)⟩] := by
  obtain ⟨recipient, ws₁, hselect, hrest⟩ := executes_bind_ok.mp h
  obtain ⟨σ₀, -, -, rfl⟩ := executes_select.mp hselect
  cases recipient with
  | none =>
    obtain ⟨hreserved, hws⟩ := hrest
    exact Or.inl ⟨Except.ok.inj hreserved, hws⟩
  | some recipient =>
    obtain ⟨written, ws₂, hput, hreserved⟩ := executes_bind_ok.mp hrest
    rcases executes_putRow.mp hput with ⟨row, hrow, hout, rfl⟩ | ⟨_, _, hnone, -, -⟩
    · obtain rfl := Option.some.inj hrow
      obtain rfl := Except.ok.inj hout
      obtain ⟨hreserved, rfl⟩ := hreserved
      obtain rfl := Except.ok.inj hreserved
      exact Or.inr ⟨_, rfl, rfl, rfl, rfl⟩
    · exact absurd hnone (by simp)

/-! ## Deliveries -/

/-- A delivery as a later moment has it. -/
structure NotificationDeliveryRow.Advances (before after : NotificationDeliveryRow) : Prop where
  id : after.id = before.id
  workflowId : after.workflowId = before.workflowId
  recipientPersonId : after.recipientPersonId = before.recipientPersonId
  sees : ∀ context : TenantContext, context.sees after = context.sees before
  /-- What is sent stays sent, under the same message. -/
  sent : before.status = .sent →
    after.status = .sent ∧ after.providerMessageId = before.providerMessageId

theorem NotificationDeliveryRow.Advances.refl (delivery : NotificationDeliveryRow) :
    delivery.Advances delivery := ⟨rfl, rfl, rfl, fun _ => rfl, fun h => ⟨h, rfl⟩⟩

theorem NotificationDeliveryRow.Advances.trans (a b c : NotificationDeliveryRow)
    (h : a.Advances b) (h' : b.Advances c) : a.Advances c where
  id := h'.id.trans h.id
  workflowId := h'.workflowId.trans h.workflowId
  recipientPersonId := h'.recipientPersonId.trans h.recipientPersonId
  sees := fun context => (h'.sees context).trans (h.sees context)
  sent := by
    intro hstatus
    obtain ⟨hbetween, hfirst⟩ := h.sent hstatus
    obtain ⟨hafter, hsecond⟩ := h'.sent hbetween
    exact ⟨hafter, hsecond.trans hfirst⟩

theorem sentDelivery_cases {providerMessageId : String} {before after : NotificationDeliveryRow}
    (h : sentDelivery providerMessageId before = some after) :
    before.Advances after ∧ after.status = .sent ∧
      after.providerMessageId = some providerMessageId := by
  unfold sentDelivery at h
  split at h
  · rename_i hunsent
    obtain rfl := Option.some.inj h
    exact ⟨⟨rfl, rfl, rfl, fun _ => rfl, fun hsent => absurd hsent hunsent⟩, rfl, rfl⟩
  · exact absurd h (by simp)

theorem failedDelivery_cases {before after : NotificationDeliveryRow}
    (h : failedDelivery before = some after) : before.Advances after ∧ after.status ≠ .sent := by
  unfold failedDelivery at h
  split at h
  · rename_i hunsent
    obtain rfl := Option.some.inj h
    exact ⟨⟨rfl, rfl, rfl, fun _ => rfl, fun hsent => absurd hsent hunsent⟩, by simp⟩
  · exact absurd h (by simp)

/-- The deliveries of an earlier moment are there, and have advanced. -/
abbrev DeliveriesAdvance (σ σ' : Vault) : Prop :=
  Keeps (S := vaultSchema) .notificationDeliveries NotificationDeliveryRow.Advances σ σ'

theorem DeliveriesAdvance.refl (σ : Vault) : DeliveriesAdvance σ σ :=
  (SameRows.refl (S := vaultSchema) .notificationDeliveries σ).keeps
    NotificationDeliveryRow.Advances.refl

/-- A delivery has been sent as this message. -/
def Delivered (σ : Vault) (deliveryId : Identifier) (providerMessageId : String) : Prop :=
  ∃ k delivery, σ.get .notificationDeliveries k = some delivery ∧ delivery.id = deliveryId ∧
    delivery.status = .sent ∧ delivery.providerMessageId = some providerMessageId

/-- A delivery is there for the tenant. -/
def ReservedFor (context : TenantContext) (σ : Vault) (deliveryId : Identifier) : Prop :=
  ∃ k delivery, σ.get .notificationDeliveries k = some delivery ∧ delivery.id = deliveryId ∧
    context.sees delivery = true

/-- The provider has answered a request under the identifier of a delivery. -/
def Answered (events : List NotifierEvent) (deliveryId : Identifier) (providerMessageId : String) :
    Prop :=
  ∃ execution, NotifierEvent.answered execution deliveryId providerMessageId ∈ events

section Later

variable {σ σ' : Vault} {events events' : List NotifierEvent} {deliveryId : Identifier}
  {providerMessageId : String} {context : TenantContext}

theorem Delivered.later (h : Delivered σ deliveryId providerMessageId)
    (hlater : DeliveriesAdvance σ σ') : Delivered σ' deliveryId providerMessageId := by
  obtain ⟨k, delivery, hdelivery, hid, hstatus, hmessage⟩ := h
  obtain ⟨after, hafter, hadvances⟩ := hlater k delivery hdelivery
  obtain ⟨hsent, hsame⟩ := hadvances.sent hstatus
  exact ⟨k, after, hafter, hadvances.id.trans hid, hsent, hsame.trans hmessage⟩

theorem ReservedFor.later (h : ReservedFor context σ deliveryId)
    (hlater : DeliveriesAdvance σ σ') : ReservedFor context σ' deliveryId := by
  obtain ⟨k, delivery, hdelivery, hid, hsees⟩ := h
  obtain ⟨after, hafter, hadvances⟩ := hlater k delivery hdelivery
  exact ⟨k, after, hafter, hadvances.id.trans hid, (hadvances.sees context).trans hsees⟩

theorem Answered.later (h : Answered events deliveryId providerMessageId)
    (hlater : events ⊆ events') : Answered events' deliveryId providerMessageId := by
  obtain ⟨execution, hanswered⟩ := h
  exact ⟨execution, hlater hanswered⟩

end Later

/-! ## Invariant -/

/-- What holds of the deliveries for what was observed. -/
structure DeliveriesSound (σ : Vault) (events : List NotifierEvent) : Prop where
  distinct : DeliveriesDistinct σ
  sent : ∀ k delivery, σ.get .notificationDeliveries k = some delivery →
    delivery.status = .sent → ∃ providerMessageId,
      delivery.providerMessageId = some providerMessageId ∧
        Answered events delivery.id providerMessageId

/-- Where an execution may stand. -/
def NotifierAllowed (σ : Vault) (events : List NotifierEvent) (execution : Nat)
    (job : NotificationJob) : NotifierControl → Prop
  | .sending delivery => ReservedFor job.context σ delivery.deliveryId
  | .completing deliveryId providerMessageId =>
    ReservedFor job.context σ deliveryId ∧
      NotifierEvent.answered execution deliveryId providerMessageId ∈ events
  | .confirming deliveryId providerMessageId =>
    NotifierEvent.answered execution deliveryId providerMessageId ∈ events ∧
      ∃ k delivery, σ.get .notificationDeliveries k = some delivery ∧ delivery.id = deliveryId ∧
        job.context.sees delivery = true ∧ delivery.status = .sent
  | _ => True

/-- What was observed, for the deliveries as they are. -/
structure EventsSound (σ : Vault) (events : List NotifierEvent) : Prop where
  /-- The provider is asked under the identifier of the delivery. -/
  requested : ∀ execution workflowId personId email,
    NotifierEvent.requested execution workflowId personId email ∈ events →
      ∃ delivery, σ.get .notificationDeliveries (workflowId, personId) = some delivery ∧
        delivery.id = email.idempotencyKey
  /-- A completed delivery is sent as the message that the execution was answered. -/
  completed : ∀ execution deliveryId providerMessageId,
    NotifierEvent.completed execution deliveryId providerMessageId ∈ events →
      NotifierEvent.answered execution deliveryId providerMessageId ∈ events ∧
        Delivered σ deliveryId providerMessageId
  /-- A conflict is between two answers of the provider. -/
  conflicted : ∀ execution deliveryId providerMessageId,
    NotifierEvent.conflicted execution deliveryId providerMessageId ∈ events →
      Answered events deliveryId providerMessageId ∧
        ∃ other, other ≠ providerMessageId ∧ Answered events deliveryId other

/-- What holds after any steps of the notifier. -/
structure NotifierInvariant (s : Notifier) : Prop where
  deliveries : DeliveriesSound s.rows s.events
  executions : s.Standing NotifierAllowed
  observed : EventsSound s.rows s.events

section Invariant

variable {reportUrl : Identifier → String} {s s' : Notifier}

theorem NotifierAllowed.later {σ σ' : Vault} {events events' : List NotifierEvent}
    {execution : Nat} {job : NotificationJob} {control : NotifierControl}
    (h : NotifierAllowed σ events execution job control) (hrows : DeliveriesAdvance σ σ')
    (hevents : events ⊆ events') : NotifierAllowed σ' events' execution job control := by
  cases control with
  | sending delivery => exact ReservedFor.later h hrows
  | completing deliveryId providerMessageId => exact ⟨h.1.later hrows, hevents h.2⟩
  | confirming deliveryId providerMessageId =>
    obtain ⟨hanswered, k, delivery, hdelivery, hid, hsees, hstatus⟩ := h
    obtain ⟨after, hafter, hadvances⟩ := hrows k delivery hdelivery
    exact ⟨hevents hanswered, k, after, hafter, hadvances.id.trans hid,
      (hadvances.sees job.context).trans hsees, (hadvances.sent hstatus).1⟩
  | reserving | failing | ended => trivial

theorem EventsSound.later {σ σ' : Vault} {events : List NotifierEvent} (h : EventsSound σ events)
    (hrows : DeliveriesAdvance σ σ') : EventsSound σ' events where
  requested := by
    intro execution workflowId personId email hrequested
    obtain ⟨delivery, hdelivery, hid⟩ := h.requested execution workflowId personId email hrequested
    obtain ⟨after, hafter, hadvances⟩ := hrows _ delivery hdelivery
    exact ⟨after, hafter, hadvances.id.trans hid⟩
  completed := by
    intro execution deliveryId providerMessageId hcompleted
    obtain ⟨hanswered, hdelivered⟩ := h.completed execution deliveryId providerMessageId hcompleted
    exact ⟨hanswered, hdelivered.later hrows⟩
  conflicted := h.conflicted

/-- The rows advance while the executions stand. -/
theorem NotifierInvariant.withRows (h : NotifierInvariant s) {rows : Vault}
    (hrows : DeliveriesAdvance s.rows rows) (hsound : DeliveriesSound rows s.events) :
    NotifierInvariant (s.withRows rows) where
  deliveries := hsound
  executions := h.executions.later rfl
    (fun _ _ _ hallowed => hallowed.later hrows (List.Subset.refl _))
  observed := h.observed.later hrows

/-- An execution goes on to where it may stand. -/
theorem NotifierInvariant.enter (h : NotifierInvariant s) {execution : Nat}
    {job : NotificationJob} {control : NotifierControl}
    (hcontrol : NotifierAllowed s.rows s.events execution job control) :
    NotifierInvariant (s.enter execution job control) :=
  ⟨h.deliveries, h.executions.enter hcontrol, h.observed⟩

/-- Something is observed that the deliveries bear out. -/
theorem NotifierInvariant.observe (h : NotifierInvariant s) {event : NotifierEvent}
    (hobserved : EventsSound s.rows (event :: s.events)) :
    NotifierInvariant (s.observe [event]) where
  deliveries := by
    refine ⟨h.deliveries.distinct, fun k delivery hdelivery hstatus => ?_⟩
    obtain ⟨message, hmessage, hanswered⟩ := h.deliveries.sent k delivery hdelivery hstatus
    exact ⟨message, hmessage, hanswered.later (List.subset_cons_self _ _)⟩
  executions := h.executions.later rfl (fun _ _ _ hallowed =>
    hallowed.later (DeliveriesAdvance.refl _) (List.subset_cons_self _ _))
  observed := hobserved

/-- Observing keeps what is borne out, up to the new event. -/
theorem EventsSound.cons {σ : Vault} {events : List NotifierEvent} {event : NotifierEvent}
    (h : EventsSound σ events)
    (hrequested : ∀ execution workflowId personId email,
      event = .requested execution workflowId personId email →
        ∃ delivery, σ.get .notificationDeliveries (workflowId, personId) = some delivery ∧
          delivery.id = email.idempotencyKey)
    (hcompleted : ∀ execution deliveryId providerMessageId,
      event = .completed execution deliveryId providerMessageId →
        NotifierEvent.answered execution deliveryId providerMessageId ∈ events ∧
          Delivered σ deliveryId providerMessageId)
    (hconflicted : ∀ execution deliveryId providerMessageId,
      event = .conflicted execution deliveryId providerMessageId →
        Answered events deliveryId providerMessageId ∧
          ∃ other, other ≠ providerMessageId ∧ Answered events deliveryId other) :
    EventsSound σ (event :: events) where
  requested := by
    intro execution workflowId personId email hmem
    rcases List.mem_cons.mp hmem with heq | hold
    · exact hrequested execution workflowId personId email heq.symm
    · exact h.requested execution workflowId personId email hold
  completed := by
    intro execution deliveryId providerMessageId hmem
    have hcompleted : NotifierEvent.answered execution deliveryId providerMessageId ∈ events ∧
        Delivered σ deliveryId providerMessageId := by
      rcases List.mem_cons.mp hmem with heq | hold
      · exact hcompleted execution deliveryId providerMessageId heq.symm
      · exact h.completed execution deliveryId providerMessageId hold
    exact ⟨List.mem_cons_of_mem _ hcompleted.1, hcompleted.2⟩
  conflicted := by
    intro execution deliveryId providerMessageId hmem
    have hconflict : Answered events deliveryId providerMessageId ∧
        ∃ other, other ≠ providerMessageId ∧ Answered events deliveryId other := by
      rcases List.mem_cons.mp hmem with heq | hold
      · exact hconflicted execution deliveryId providerMessageId heq.symm
      · exact h.conflicted execution deliveryId providerMessageId hold
    obtain ⟨hanswered, other, hother, hotherAnswered⟩ := hconflict
    exact ⟨hanswered.later (List.subset_cons_self _ _), other, hother,
      hotherAnswered.later (List.subset_cons_self _ _)⟩

/-- A delivery that is replaced by a later one advances, and stays distinct. -/
theorem DeliveriesDistinct.replaced {σ σ' : Vault} {k : Identifier × Identifier}
    {before after : NotificationDeliveryRow} (h : DeliveriesDistinct σ)
    (hbefore : σ.get .notificationDeliveries k = some before) (hadvances : before.Advances after)
    (hreplaces : Replaces (S := vaultSchema) .notificationDeliveries k (some after) σ σ') :
    DeliveriesAdvance σ σ' ∧ DeliveriesDistinct σ' := by
  have hget : ∀ k' delivery, σ'.get .notificationDeliveries k' = some delivery →
      ∃ old, σ.get .notificationDeliveries k' = some old ∧ old.Advances delivery := by
    intro k' delivery hdelivery
    rcases hreplaces.get_cases k' with ⟨rfl, hnew⟩ | ⟨-, hold⟩
    · obtain rfl := Option.some.inj (hnew.symm.trans hdelivery)
      exact ⟨before, hbefore, hadvances⟩
    · exact ⟨delivery, hold.symm.trans hdelivery, NotificationDeliveryRow.Advances.refl _⟩
  refine ⟨hreplaces.keeps NotificationDeliveryRow.Advances.refl (fun other hother => ?_),
    fun k' delivery hdelivery => ?_, fun k₁ k₂ delivery₁ delivery₂ h₁ h₂ hid => ?_⟩
  · obtain rfl := Option.some.inj (hbefore.symm.trans hother)
    exact hadvances
  · obtain ⟨old, hold, hmore⟩ := hget k' delivery hdelivery
    rw [hmore.workflowId, hmore.recipientPersonId]
    exact h.keyed k' old hold
  · obtain ⟨old₁, hold₁, hmore₁⟩ := hget k₁ delivery₁ h₁
    obtain ⟨old₂, hold₂, hmore₂⟩ := hget k₂ delivery₂ h₂
    refine h.ids k₁ k₂ old₁ old₂ hold₁ hold₂ ?_
    rw [← hmore₁.id, ← hmore₂.id]
    exact hid

/-- A delivery that is inserted under a new identifier keeps the others. -/
theorem DeliveriesDistinct.inserted {σ σ' : Vault} {delivery : NotificationDeliveryRow}
    (h : DeliveriesDistinct σ)
    (hfree : σ.get .notificationDeliveries (delivery.workflowId, delivery.recipientPersonId) =
      none)
    (hid : ∀ k other, σ.get .notificationDeliveries k = some other → other.id ≠ delivery.id)
    (hreplaces : Replaces (S := vaultSchema) .notificationDeliveries
      (delivery.workflowId, delivery.recipientPersonId) (some delivery) σ σ') :
    DeliveriesAdvance σ σ' ∧ DeliveriesDistinct σ' := by
  refine ⟨hreplaces.keeps NotificationDeliveryRow.Advances.refl (fun other hother => ?_),
    fun k row hrow => ?_, fun k₁ k₂ row₁ row₂ h₁ h₂ hsame => ?_⟩
  · exact absurd (hfree.symm.trans hother) (by simp)
  · rcases hreplaces.get_cases k with ⟨rfl, hnew⟩ | ⟨-, hold⟩
    · obtain rfl := Option.some.inj (hnew.symm.trans hrow)
      rfl
    · exact h.keyed k row (hold.symm.trans hrow)
  · rcases hreplaces.get_cases k₁ with ⟨hk₁, hnew₁⟩ | ⟨-, hold₁⟩ <;>
      rcases hreplaces.get_cases k₂ with ⟨hk₂, hnew₂⟩ | ⟨-, hold₂⟩
    · exact hk₁.trans hk₂.symm
    · obtain rfl := Option.some.inj (hnew₁.symm.trans h₁)
      exact absurd hsame.symm (hid k₂ row₂ (hold₂.symm.trans h₂))
    · obtain rfl := Option.some.inj (hnew₂.symm.trans h₂)
      exact absurd hsame (hid k₁ row₁ (hold₁.symm.trans h₁))
    · exact h.ids k₁ k₂ row₁ row₂ (hold₁.symm.trans h₁) (hold₂.symm.trans h₂) hsame

/-- An update of a delivery, by which only what was answered is sent. -/
theorem NotifierInvariant.update (h : NotifierInvariant s) {context : TenantContext}
    {deliveryId : Identifier} {change : NotificationDeliveryRow → Option NotificationDeliveryRow}
    {updated : Option NotificationDeliveryRow} {rows : Vault}
    (hupdate : (updateDelivery context deliveryId change).transact s.rows = (.ok updated, rows))
    (hadvances : ∀ before after, change before = some after → before.Advances after)
    (hsent : ∀ before after, change before = some after → after.status = .sent →
      ∃ providerMessageId, after.providerMessageId = some providerMessageId ∧
        Answered s.events deliveryId providerMessageId) :
    NotifierInvariant (s.withRows rows) ∧ DeliveriesAdvance s.rows rows := by
  rcases updateDelivery_cases context deliveryId change h.deliveries.distinct with
    ⟨hnone, -⟩ | ⟨k, before, after, σ', hbefore, hid, hchange, hsome, hreplaces⟩
  · obtain ⟨-, rfl⟩ := Prod.mk.inj (hnone.symm.trans hupdate)
    exact ⟨h, DeliveriesAdvance.refl _⟩
  · obtain ⟨-, rfl⟩ := Prod.mk.inj (hsome.symm.trans hupdate)
    have hadvance := hadvances before after hchange
    obtain ⟨hrows, hdistinct⟩ := h.deliveries.distinct.replaced hbefore hadvance hreplaces
    refine ⟨h.withRows hrows ⟨hdistinct, fun k' delivery hdelivery hstatus => ?_⟩, hrows⟩
    rcases hreplaces.get_cases k' with ⟨rfl, hnew⟩ | ⟨-, hold⟩
    · obtain rfl := Option.some.inj (hnew.symm.trans hdelivery)
      rw [hadvance.id, hid]
      exact hsent before after hchange hstatus
    · exact h.deliveries.sent k' delivery (hold.symm.trans hdelivery) hstatus

/-- A reservation finds the delivery of its recipient, or inserts one. -/
theorem NotifierInvariant.reserve (h : NotifierInvariant s) {context : TenantContext}
    {workflowId deliveryId : Identifier}
    (hid : ∀ k delivery, s.rows.get .notificationDeliveries k = some delivery →
      delivery.id ≠ deliveryId) (recipient : NotificationRecipient) {rows : Vault}
    (hreplaces : Replaces (S := vaultSchema) .notificationDeliveries
      (workflowId, recipient.personId)
      (some (reservedRow context workflowId deliveryId s.rows recipient)) s.rows rows) :
    NotifierInvariant (s.withRows rows) ∧ DeliveriesAdvance s.rows rows := by
  cases hfound : s.rows.get .notificationDeliveries (workflowId, recipient.personId) with
  | some delivery =>
    have hreserved : reservedRow context workflowId deliveryId s.rows recipient = delivery := by
      rw [reservedRow, hfound]
      rfl
    rw [hreserved] at hreplaces
    obtain ⟨hrows, hdistinct⟩ := h.deliveries.distinct.replaced hfound
      (NotificationDeliveryRow.Advances.refl _) hreplaces
    refine ⟨h.withRows hrows ⟨hdistinct, fun k row hrow hstatus => ?_⟩, hrows⟩
    rcases hreplaces.get_cases k with ⟨rfl, hnew⟩ | ⟨-, hold⟩
    · exact h.deliveries.sent _ row (hfound.trans (hnew.symm.trans hrow)) hstatus
    · exact h.deliveries.sent k row (hold.symm.trans hrow) hstatus
  | none =>
    have hreserved : reservedRow context workflowId deliveryId s.rows recipient =
        pendingDelivery context workflowId deliveryId recipient := by
      rw [reservedRow, hfound]
      rfl
    rw [hreserved] at hreplaces
    obtain ⟨hrows, hdistinct⟩ := @DeliveriesDistinct.inserted s.rows rows
      (pendingDelivery context workflowId deliveryId recipient) h.deliveries.distinct hfound hid
      hreplaces
    refine ⟨h.withRows hrows ⟨hdistinct, fun k row hrow hstatus => ?_⟩, hrows⟩
    rcases hreplaces.get_cases k with ⟨rfl, hnew⟩ | ⟨-, hold⟩
    · obtain rfl := Option.some.inj (hnew.symm.trans hrow)
      exact absurd hstatus (by simp [pendingDelivery])
    · exact h.deliveries.sent k row (hold.symm.trans hrow) hstatus

/-- The handler goes on from its reservation. -/
theorem NotifierInvariant.reserved (h : NotifierInvariant s) {execution : Nat}
    {job : NotificationJob} {reserved : Option ReservedNotification}
    (hreserved : ∀ delivery, reserved = some delivery → ∃ row,
      s.rows.get .notificationDeliveries (job.workflowId, delivery.recipient.personId) =
        some row ∧ row.id = delivery.deliveryId ∧ job.context.sees row = true) :
    NotifierInvariant (Notifier.reserved reportUrl s execution job reserved) := by
  cases reserved with
  | none => exact h.enter trivial
  | some delivery =>
    obtain ⟨row, hrow, hid, hsees⟩ := hreserved delivery rfl
    rw [Notifier.reserved]
    split_ifs with hsent
    · exact h.enter trivial
    · refine (h.observe (h.observed.cons ?_ ?_ ?_)).enter ?_
      · intro other workflowId personId email hevent
        obtain ⟨-, rfl, rfl, rfl⟩ := NotifierEvent.requested.inj hevent
        exact ⟨row, hrow, hid⟩
      · exact fun _ _ _ hevent => absurd hevent (by simp)
      · exact fun _ _ _ hevent => absurd hevent (by simp)
      · exact ⟨_, row, hrow, hid, hsees⟩

/-- The delivery is completed as the message that was answered. -/
theorem NotifierInvariant.completed (h : NotifierInvariant s) {execution : Nat}
    {deliveryId : Identifier} {providerMessageId : String}
    (hanswered : NotifierEvent.answered execution deliveryId providerMessageId ∈ s.events)
    (hdelivered : Delivered s.rows deliveryId providerMessageId) :
    NotifierInvariant (s.observe [.completed execution deliveryId providerMessageId]) := by
  refine h.observe (h.observed.cons ?_ ?_ ?_)
  · exact fun _ _ _ _ hevent => absurd hevent (by simp)
  · intro other id message hevent
    obtain ⟨rfl, rfl, rfl⟩ := NotifierEvent.completed.inj hevent
    exact ⟨hanswered, hdelivered⟩
  · exact fun _ _ _ hevent => absurd hevent (by simp)

/-- The update of `completeNotificationDelivery`: the delivery is sent as this message, or has
been sent before. -/
theorem NotifierInvariant.complete (h : NotifierInvariant s) {execution : Nat}
    {job : NotificationJob} {deliveryId : Identifier} {providerMessageId : String}
    {updated : Option NotificationDeliveryRow} {rows : Vault}
    (hcontrol : s.executions execution = some (job, .completing deliveryId providerMessageId))
    (hcomplete : (completeNotificationDelivery job.context deliveryId
      providerMessageId).transact s.rows = (.ok updated, rows)) :
    NotifierInvariant (s.withRows rows) ∧ DeliveriesAdvance s.rows rows ∧
      (updated = none → ∃ k delivery, rows.get .notificationDeliveries k = some delivery ∧
        delivery.id = deliveryId ∧ job.context.sees delivery = true ∧ delivery.status = .sent) ∧
      (updated ≠ none → Delivered rows deliveryId providerMessageId) := by
  obtain ⟨hreserved, hanswered⟩ := h.executions execution job _ hcontrol
  have hupdate := h.update hcomplete (fun _ _ hchange => (sentDelivery_cases hchange).1)
    (fun _ _ hchange _ => ⟨_, (sentDelivery_cases hchange).2.2, execution, hanswered⟩)
  refine ⟨hupdate.1, hupdate.2, fun hnone => ?_, fun hsome => ?_⟩
  · obtain ⟨k, delivery, hdelivery, hid, hsees⟩ := hreserved
    rcases updateDelivery_cases job.context deliveryId (sentDelivery providerMessageId)
      h.deliveries.distinct with
      ⟨hsame, hunchanged⟩ | ⟨_, _, _, _, _, _, _, hother, _⟩
    · obtain ⟨-, rfl⟩ := Prod.mk.inj (hsame.symm.trans hcomplete)
      have hstays := hunchanged k delivery hdelivery hid hsees
      refine ⟨k, delivery, hdelivery, hid, hsees, ?_⟩
      by_contra hunsent
      rw [sentDelivery, if_pos hunsent] at hstays
      exact absurd hstays (by simp)
    · obtain ⟨hresult, -⟩ := Prod.mk.inj (hother.symm.trans hcomplete)
      exact absurd (Except.ok.inj hresult) (by simp [hnone])
  · rcases updateDelivery_cases job.context deliveryId (sentDelivery providerMessageId)
      h.deliveries.distinct with
      ⟨hsame, -⟩ | ⟨k, before, after, _, _, hid, hchange, hother, hreplaces⟩
    · obtain ⟨hresult, -⟩ := Prod.mk.inj (hsame.symm.trans hcomplete)
      exact absurd (Except.ok.inj hresult).symm hsome
    · obtain ⟨-, rfl⟩ := Prod.mk.inj (hother.symm.trans hcomplete)
      obtain ⟨hadvances, hstatus, hmessage⟩ := sentDelivery_cases hchange
      exact ⟨k, after, hreplaces.row, hadvances.id.trans hid, hstatus, hmessage⟩

/-- Every step of the notifier keeps the invariant and lets the deliveries advance. -/
theorem NotifierInvariant.step (h : NotifierInvariant s) (hstep : NotifierStep reportUrl s s') :
    NotifierInvariant s' ∧ DeliveriesAdvance s.rows s'.rows := by
  cases hstep with
  | start execution job hfree => exact ⟨h.enter trivial, DeliveriesAdvance.refl _⟩
  | @reserve job reserved ws execution deliveryId hcontrol hid hreserve hvisible =>
    rcases executes_reservation hreserve with ⟨rfl, rfl⟩ | ⟨delivery, rfl, hdelivery, -, rfl⟩
    · exact ⟨h.enter trivial, DeliveriesAdvance.refl _⟩
    · have hreplaces := replaces_overlay_cons (S := vaultSchema) s.rows
        (t := .notificationDeliveries) (job.workflowId, delivery.recipient.personId)
        (some (reservedRow job.context job.workflowId deliveryId s.rows delivery.recipient)) []
      obtain ⟨hinvariant, hrows⟩ := h.reserve hid delivery.recipient hreplaces
      have hsees : job.context.sees (reservedRow job.context job.workflowId deliveryId s.rows
          delivery.recipient) = true := by
        cases hfound : s.rows.get .notificationDeliveries
            (job.workflowId, delivery.recipient.personId) with
        | some row =>
          rw [reservedRow, hfound]
          exact hvisible delivery row rfl hfound
        | none =>
          rw [reservedRow, hfound]
          exact TenantContext.sees_iff.mpr ⟨rfl, rfl⟩
      refine ⟨hinvariant.reserved (fun other hother => ?_), ?_⟩
      · obtain rfl := Option.some.inj hother
        exact ⟨_, hreplaces.row, hdelivery.symm, hsees⟩
      rw [Notifier.reserved]
      split_ifs
      · exact hrows
      · exact hrows
  | @answer job delivery execution providerMessageId hcontrol =>
    have hreserved := h.executions execution job _ hcontrol
    refine ⟨(h.observe (h.observed.cons ?_ ?_ ?_)).enter ⟨hreserved, List.mem_cons_self⟩,
      DeliveriesAdvance.refl _⟩
    · exact fun _ _ _ _ hevent => absurd hevent (by simp)
    · exact fun _ _ _ hevent => absurd hevent (by simp)
    · exact fun _ _ _ hevent => absurd hevent (by simp)
  | @complete job deliveryId providerMessageId updated rows execution hcontrol hcomplete =>
    obtain ⟨hinvariant, hrows, hnone, hsome⟩ := h.complete hcontrol hcomplete
    obtain ⟨-, hanswered⟩ := h.executions execution job _ hcontrol
    cases updated with
    | some after =>
      exact ⟨(hinvariant.completed hanswered (hsome (by simp))).enter trivial, hrows⟩
    | none => exact ⟨hinvariant.enter ⟨hanswered, hnone rfl⟩, hrows⟩
  | lose execution hcontrol hcomplete =>
    obtain ⟨hinvariant, hrows, -⟩ := h.complete hcontrol hcomplete
    exact ⟨hinvariant.enter trivial, hrows⟩
  | @confirm job deliveryId providerMessageId execution hcontrol hconfirm =>
    obtain ⟨hanswered, -⟩ := h.executions execution job _ hcontrol
    obtain ⟨k, delivery, hdelivery, -, hid, hstatus, hmessage⟩ :=
      confirmNotificationDelivery_transact.mp hconfirm
    have hcompleted := h.completed hanswered ⟨k, delivery, hdelivery, hid, hstatus, hmessage⟩
    exact ⟨hcompleted.enter trivial, DeliveriesAdvance.refl _⟩
  | @conflict job deliveryId providerMessageId error execution hcontrol hconfirm =>
    obtain ⟨hanswered, k, delivery, hdelivery, hid, hsees, hstatus⟩ :=
      h.executions execution job _ hcontrol
    obtain ⟨other, hother, hotherAnswered⟩ := h.deliveries.sent k delivery hdelivery hstatus
    have hne : other ≠ providerMessageId := by
      rintro rfl
      have hok : ((confirmNotificationDelivery job.context deliveryId other).transact
          s.rows).1 = .ok () :=
        confirmNotificationDelivery_transact.mpr
          ⟨k, delivery, hdelivery, hsees, hid, hstatus, hother⟩
      exact absurd (hconfirm.symm.trans hok) (by simp)
    refine ⟨(h.observe (h.observed.cons ?_ ?_ ?_)).enter trivial, DeliveriesAdvance.refl _⟩
    · exact fun _ _ _ _ hevent => absurd hevent (by simp)
    · exact fun _ _ _ hevent => absurd hevent (by simp)
    · intro otherExecution id message hevent
      obtain ⟨-, rfl, rfl⟩ := NotifierEvent.conflicted.inj hevent
      exact ⟨⟨execution, hanswered⟩, other, hne, hid ▸ hotherAnswered⟩
  | fail execution hcontrol hcatches => exact ⟨h.enter trivial, DeliveriesAdvance.refl _⟩
  | @recordFailure job deliveryId execution hcontrol =>
    obtain ⟨updated, hresult⟩ : ∃ updated, ((recordNotificationDeliveryFailure job.context
        deliveryId).transact s.rows).1 = .ok updated := by
      rcases updateDelivery_cases job.context deliveryId failedDelivery
        h.deliveries.distinct with
        ⟨hsame, -⟩ | ⟨_, _, after, _, _, _, _, hother, -⟩
      · exact ⟨none, congrArg Prod.fst hsame⟩
      · exact ⟨some after, congrArg Prod.fst hother⟩
    obtain ⟨hinvariant, hrows⟩ := h.update (Prod.ext hresult rfl)
      (fun _ _ hchange => (failedDelivery_cases hchange).1)
      (fun _ _ hchange hstatus => absurd hstatus (failedDelivery_cases hchange).2)
    exact ⟨hinvariant.enter trivial, hrows⟩
  | stop execution hcontrol => exact ⟨h.enter trivial, DeliveriesAdvance.refl _⟩

/-- Later steps keep the invariant and let the deliveries advance. -/
theorem NotifierInvariant.later (h : NotifierInvariant s) (hlater : NotifierLater reportUrl s s') :
    NotifierInvariant s' ∧ DeliveriesAdvance s.rows s'.rows := by
  induction hlater with
  | refl => exact ⟨h, DeliveriesAdvance.refl _⟩
  | tail _ hstep ih =>
    obtain ⟨hinvariant, hrows⟩ := ih
    obtain ⟨hnext, hmore⟩ := hinvariant.step hstep
    exact ⟨hnext, hrows.trans NotificationDeliveryRow.Advances.trans hmore⟩

end Invariant

theorem notifierInvariant_idle {init : Vault}
    (hnew : ∀ k, init.get .notificationDeliveries k = none) :
    NotifierInvariant (Workers.idle init) where
  deliveries :=
    ⟨⟨fun k _ h => absurd ((hnew k).symm.trans h) (by simp),
      fun k _ _ _ h => absurd ((hnew k).symm.trans h) (by simp)⟩,
      fun k _ h => absurd ((hnew k).symm.trans h) (by simp)⟩
  executions := standing_idle init
  observed :=
    ⟨fun _ _ _ _ h => absurd h List.not_mem_nil, fun _ _ _ h => absurd h List.not_mem_nil,
      fun _ _ _ h => absurd h List.not_mem_nil⟩

/-- The provider answers every request under one key with one message. -/
def OneMessagePerKey (events : List NotifierEvent) : Prop :=
  ∀ deliveryId message message', Answered events deliveryId message →
    Answered events deliveryId message' → message = message'

/-- However the notification job is run, there is one delivery for a workflow and a recipient, the
provider is asked under its identifier, and once sent it stays sent as the same message. When the
provider answers with one message for a key, no completion conflicts, and the delivery of an
execution that completes is sent as the message that this execution was answered. -/
theorem notifications_once {reportUrl : Identifier → String} {init : Vault}
    (hnew : ∀ k, init.get .notificationDeliveries k = none) {s : Notifier}
    (hrun : NotifierLater reportUrl (Workers.idle init) s) :
    (∀ k k' delivery delivery', s.rows.get .notificationDeliveries k = some delivery →
      s.rows.get .notificationDeliveries k' = some delivery' →
        delivery.workflowId = delivery'.workflowId →
          delivery.recipientPersonId = delivery'.recipientPersonId → k = k') ∧
      (∀ execution workflowId personId email,
        NotifierEvent.requested execution workflowId personId email ∈ s.events →
          ∃ delivery, s.rows.get .notificationDeliveries (workflowId, personId) = some delivery ∧
            delivery.workflowId = workflowId ∧ delivery.recipientPersonId = personId ∧
            delivery.id = email.idempotencyKey) ∧
      (∀ s', NotifierLater reportUrl s s' → ∀ k delivery,
        s.rows.get .notificationDeliveries k = some delivery → delivery.status = .sent →
          ∃ delivery', s'.rows.get .notificationDeliveries k = some delivery' ∧
            delivery'.id = delivery.id ∧ delivery'.status = .sent ∧
            delivery'.providerMessageId = delivery.providerMessageId) ∧
      (OneMessagePerKey s.events →
        (∀ execution deliveryId message,
          NotifierEvent.conflicted execution deliveryId message ∉ s.events) ∧
        ∀ execution deliveryId message,
          NotifierEvent.completed execution deliveryId message ∈ s.events →
            NotifierEvent.answered execution deliveryId message ∈ s.events ∧
              Delivered s.rows deliveryId message) := by
  obtain ⟨hinvariant, -⟩ := (notifierInvariant_idle hnew).later hrun
  have hdistinct := hinvariant.deliveries.distinct
  refine ⟨fun k k' delivery delivery' h h' hworkflow hperson => ?_,
    fun execution workflowId personId email hrequested => ?_,
    fun s' hlater k delivery hdelivery hstatus => ?_, fun hprovider => ⟨?_, ?_⟩⟩
  · rw [hdistinct.keyed k delivery h, hdistinct.keyed k' delivery' h', hworkflow, hperson]
  · obtain ⟨delivery, hdelivery, hid⟩ :=
      hinvariant.observed.requested execution workflowId personId email hrequested
    obtain ⟨hworkflow, hperson⟩ := Prod.mk.inj (hdistinct.keyed _ delivery hdelivery)
    exact ⟨delivery, hdelivery, hworkflow.symm, hperson.symm, hid⟩
  · obtain ⟨-, hrows⟩ := hinvariant.later hlater
    obtain ⟨after, hafter, hadvances⟩ := hrows k delivery hdelivery
    exact ⟨after, hafter, hadvances.id, hadvances.sent hstatus⟩
  · intro execution deliveryId message hconflicted
    obtain ⟨hanswered, other, hne, hother⟩ :=
      hinvariant.observed.conflicted execution deliveryId message hconflicted
    exact hne (hprovider deliveryId other message hother hanswered)
  · exact hinvariant.observed.completed

/-- The job of a workflow. -/
def exampleNotificationJob : NotificationJob :=
  ⟨⟨"organization-1", "household-1", "person-1"⟩, "workflow-1"⟩

/-- The rows of a completed annual review whose requester consents to transactional email. -/
def exampleReviewRows : Vault := Store.overlay Store.empty [
  ⟨.reports, "report-1", some ⟨"report-1", "organization-1", "household-1", some "workflow-1",
    .annualReview, .completed, (0 : Int), none, none, some "person-1", 1⟩⟩,
  ⟨.memberships, "membership-1", some ⟨"membership-1", "organization-1", "household-1",
    "person-1", .owner, true, some "user-1", 1⟩⟩,
  ⟨.users, "user-1", some ⟨"user-1", "person@example.com", true⟩⟩,
  ⟨.consents, "consent-1", some ⟨"consent-1", "organization-1", "household-1", "person-1",
    .transactionalEmail, "1", (0 : Int), none, 1⟩⟩]

/-- The reservation of the delivery. -/
def exampleReservation : ReservedNotification :=
  ⟨⟨"report-1", "person-1", "person@example.com"⟩, "delivery-1", .pending, none⟩

/-- Where the report of an email is found. -/
def exampleReportUrl (reportId : Identifier) : String :=
  "https://vault.example/reports/" ++ reportId

/-- In a run in which the provider answers and the delivery is completed, no completion conflicts
and the delivery is sent. -/
theorem notifications_once_example : ∃ s,
    NotifierLater exampleReportUrl (Workers.idle Store.empty) s ∧
      Delivered s.rows "delivery-1" "message-1" ∧ ∀ execution deliveryId message,
        NotifierEvent.conflicted execution deliveryId message ∉ s.events := by
  have hreserve : (getNotificationDeliveryInput exampleNotificationJob.context "workflow-1"
      "delivery-1").Executes (fun _ => True) Store.empty [] (.ok (some exampleReservation))
      [⟨.notificationDeliveries, ("workflow-1", "person-1"), some (pendingDelivery
        exampleNotificationJob.context "workflow-1" "delivery-1" exampleReservation.recipient)⟩] :=
    ⟨exampleReviewRows, trivial, Or.inl ⟨_, rfl, rfl, rfl⟩⟩
  have hstart : NotifierStep exampleReportUrl (Workers.idle Store.empty) _ :=
    .start 0 exampleNotificationJob rfl
  have hreserved := (Relation.ReflTransGen.single hstart).tail (.reserve 0 "delivery-1" rfl
    (fun _ _ h => nomatch h) hreserve (fun _ _ _ h => nomatch h))
  have hanswered := hreserved.tail (.answer 0 "message-1" rfl)
  have hcompleted := hanswered.tail (.complete 0 rfl rfl)
  have hmessage : ∀ deliveryId message, Answered [.completed 0 "delivery-1" "message-1",
      .answered 0 "delivery-1" "message-1", .requested 0 "workflow-1" "person-1"
        (annualReviewEmail exampleReportUrl exampleReservation)] deliveryId message →
      message = "message-1" := by
    rintro deliveryId message ⟨execution, hmem⟩
    obtain ⟨-, -, hmessage⟩ : execution = 0 ∧ deliveryId = "delivery-1" ∧
        message = "message-1" := by simpa using hmem
    exact hmessage
  obtain ⟨-, -, -, hprovider⟩ := notifications_once (fun _ => rfl) hcompleted
  obtain ⟨hconflicts, hdelivered⟩ := hprovider (fun _ message message' h h' =>
    (hmessage _ message h).trans (hmessage _ message' h').symm)
  exact ⟨_, hcompleted, (hdelivered 0 _ _ List.mem_cons_self).2, hconflicts⟩

end LegacyVault
