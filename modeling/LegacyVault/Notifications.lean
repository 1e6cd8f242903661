import LegacyVault.Consents

/-!
# Annual-review notifications

`getNotificationDeliveryInput`: who is notified of a completed annual review,
and the delivery that is reserved for them. A recipient is the requester of
the report, has an active membership with a verified account, and consents to
transactional email.

Among several such consents the order is by their time only. Sending is not
modelled.
-/

namespace LegacyVault

open RowTransaction RowTransaction.Program

/-- The recipient of a notification. -/
structure NotificationRecipient where
  reportId : Identifier
  personId : Identifier
  email : String
  deriving DecidableEq

/-- The completed annual reviews of a workflow. -/
def completedReviews (context : TenantContext) (workflowId : Identifier) (σ : Vault) :
    List ReportRow :=
  (σ.rowsOf .reports).filter (fun report : ReportRow =>
    context.sees report && report.workflowId == some workflowId &&
      report.kind == .annualReview && report.status == .completed)

/-- The verified addresses of a person's active memberships. -/
def verifiedEmails (context : TenantContext) (personId : Identifier) (σ : Vault) : List String :=
  ((σ.rowsOf .memberships).filter (fun membership : MembershipRow =>
    context.sees membership && membership.personId == personId && membership.active)).flatMap
      (fun membership : MembershipRow => ((σ.rowsOf .users).filter (fun user : UserRow =>
        membership.authUserId == some user.id && user.emailVerified)).map
          (fun user : UserRow => user.email))

/-- When a person granted transactional email, for the grants that are not withdrawn. -/
def emailGrants (context : TenantContext) (personId : Identifier) (σ : Vault) : List Instant :=
  ((σ.rowsOf .consents).filter (fun consent : ConsentRow =>
    consent.grants context personId .transactionalEmail)).map
      (fun consent : ConsentRow => consent.grantedAt)

/-- The recipients that are eligible for a workflow, with the times of their grants. -/
def eligibleRecipients (context : TenantContext) (workflowId : Identifier) (σ : Vault) :
    List (NotificationRecipient × Instant) :=
  (completedReviews context workflowId σ).flatMap (fun report =>
    report.requestedBy.toList.flatMap (fun personId =>
      (verifiedEmails context personId σ).flatMap (fun email =>
        (emailGrants context personId σ).map (fun grantedAt =>
          (⟨report.id, personId, email⟩, grantedAt)))))

/-- The eligible recipient with the latest grant. -/
def notificationRecipient (context : TenantContext) (workflowId : Identifier) (σ : Vault) :
    Option NotificationRecipient :=
  ((eligibleRecipients context workflowId σ).argmax Prod.snd).map Prod.fst

/-- A recipient has granted transactional email. -/
theorem notificationRecipient_grants {context : TenantContext} {workflowId : Identifier}
    {σ : Vault} {recipient : NotificationRecipient}
    (h : notificationRecipient context workflowId σ = some recipient) :
    ∃ id consent, σ.get .consents id = some consent ∧
      consent.grants context recipient.personId .transactionalEmail = true := by
  obtain ⟨⟨found, grantedAt⟩, hargmax, hfound⟩ := Option.map_eq_some_iff.mp h
  have hrecipient : found = recipient := hfound
  have hmem := List.argmax_mem hargmax
  simp only [eligibleRecipients, List.mem_flatMap, List.mem_map, Prod.mk.injEq] at hmem
  obtain ⟨report, -, personId, -, email, -, grantedAt', hgrant, hfields, -⟩ := hmem
  have hperson : recipient.personId = personId := by rw [← hrecipient, ← hfields]
  obtain ⟨consent, hconsent, -⟩ := List.mem_map.mp hgrant
  obtain ⟨hrow, hgrants⟩ := List.mem_filter.mp hconsent
  obtain ⟨id, hget⟩ := Store.mem_rowsOf.mp hrow
  rw [hperson]
  exact ⟨id, consent, hget, hgrants⟩

/-- A delivery and whom it is reserved for. -/
structure ReservedNotification where
  recipient : NotificationRecipient
  deliveryId : Identifier
  status : DeliveryStatus
  providerMessageId : Option String
  deriving DecidableEq

/-- The row `getNotificationDeliveryInput` inserts. -/
def pendingDelivery (context : TenantContext) (workflowId deliveryId : Identifier)
    (recipient : NotificationRecipient) : NotificationDeliveryRow where
  id := deliveryId
  organizationId := context.organizationId
  householdId := context.householdId
  workflowId := workflowId
  recipientPersonId := recipient.personId
  status := .pending
  providerMessageId := none
  version := 1

/-- `getNotificationDeliveryInput`. -/
def getNotificationDeliveryInput (context : TenantContext) (workflowId deliveryId : Identifier) :
    Transaction (Option ReservedNotification) := do
  let recipient ← select (notificationRecipient context workflowId)
  match recipient with
  | none => pure none
  | some recipient =>
    let reserved : Option NotificationDeliveryRow ← putRow (S := vaultSchema)
      .notificationDeliveries (workflowId, recipient.personId) (fun existing =>
        some (existing.getD (pendingDelivery context workflowId deliveryId recipient)))
    match reserved with
    | some delivery =>
      pure (some ⟨recipient, delivery.id, delivery.status, delivery.providerMessageId⟩)
    | none => failWith "notification delivery was not reserved"

/-- Reserving a delivery writes deliveries only. -/
theorem getNotificationDeliveryInput_leaves {t : VaultTable} (h : t ≠ .notificationDeliveries)
    (context : TenantContext) (workflowId deliveryId : Identifier) :
    (getNotificationDeliveryInput context workflowId deliveryId).Leaves t := by
  refine writes_bind (writes_select _) (fun recipient => ?_)
  cases recipient with
  | none => exact writes_commit _
  | some recipient =>
    refine writes_bind (writes_putRow (fun _ _ _ => h)) (fun reserved => ?_)
    cases reserved
    · exact writes_rollback _
    · exact writes_commit _

/-- A delivery is reserved for a recipient of rows that were committed before. -/
theorem executes_getNotificationDeliveryInput {context : TenantContext}
    {workflowId deliveryId : Identifier} {seen : Vault → Prop} {σ : Vault}
    {ws : List (Write vaultSchema)} {reserved : ReservedNotification}
    (h : (getNotificationDeliveryInput context workflowId deliveryId).Executes seen σ []
      (.ok (some reserved)) ws) :
    ∃ σ₀, seen σ₀ ∧ notificationRecipient context workflowId σ₀ = some reserved.recipient := by
  obtain ⟨recipient, ws₁, hselect, hrest⟩ := executes_bind_ok.mp h
  obtain ⟨σ₀, hseen, hrecipient, -⟩ := executes_select.mp hselect
  have hfound : recipient = notificationRecipient context workflowId σ₀ :=
    Except.ok.inj hrecipient
  cases recipient with
  | none => exact absurd hrest.1 (by simp)
  | some recipient =>
    obtain ⟨delivery, ws₂, -, hreserved⟩ := executes_bind_ok.mp hrest
    cases delivery with
    | none => exact absurd hreserved.1 (by simp)
    | some delivery =>
      have heq := Option.some.inj (Except.ok.inj hreserved.1)
      rw [heq]
      exact ⟨σ₀, hseen, hfound.symm⟩

end LegacyVault
