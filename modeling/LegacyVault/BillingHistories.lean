import LegacyVault.Billing

/-!
# Histories of billing events

Deliveries to one tenant, in any order and any number of times. All orders of
delivery lead to one subscription just when the latest events agree on it, and
likewise for every refund. The window of technical grace is bounded by the
first past-due event just when no later event comes while the subscription is
past due.
-/

namespace LegacyVault

open RowTransaction RowTransaction.Program Store

/-- Subscription events, processed one after the other. -/
def processBillingEvents (context : TenantContext) (σ : Vault)
    (deliveries : List (BillingDelivery NormalizedBillingEvent)) : Vault :=
  deliveries.foldl (fun σ delivery => ((processBillingEvent context delivery).transact σ).2) σ

/-- Refund events, processed one after the other. -/
def processRefundEvents (context : TenantContext) (σ : Vault)
    (deliveries : List (BillingDelivery NormalizedRefundEvent)) : Vault :=
  deliveries.foldl (fun σ delivery => ((processRefundEvent context delivery).transact σ).2) σ

/-- Each of the events is delivered at least once, and no other. -/
def Delivers {Event : Type} (events : List Event) (deliveries : List (BillingDelivery Event)) :
    Prop :=
  ∀ event, event ∈ deliveries.map BillingDelivery.event ↔ event ∈ events

/-! ## Convergence -/

/-- The access decision follows from provider time and content. -/
def decisionOf (cell : WithBot Instant × Option SubscriptionContent) (now : Instant) :
    BillingAccessDecision :=
  match cell with
  | (_, none) => deriveBillingAccess .inactive none none now
  | (time, some content) => deriveBillingAccess content.status (some content.plan)
      (time.recBotCoe none some) now

theorem getSubscription_decision (context : TenantContext) (now : Instant) (σ : Vault) :
    (getSubscription context now σ).decision =
      decisionOf (subscriptionCell (σ.get .subscriptions context.subscriptionKey)) now := by
  unfold getSubscription
  cases σ.get .subscriptions context.subscriptionKey with
  | none => rfl
  | some row =>
    simp only [subscriptionCell, decisionOf, SubscriptionRow.content]
    cases row.providerUpdatedAt <;> rfl

/-- All orders of delivery leave the same subscription and the same access at every instant. -/
def SubscriptionConverges (context : TenantContext) (σ : Vault)
    (events : List NormalizedBillingEvent) : Prop :=
  ∀ ds ds', Delivers events ds → Delivers events ds' →
    subscriptionCell ((processBillingEvents context σ ds).get .subscriptions
        context.subscriptionKey) =
      subscriptionCell ((processBillingEvents context σ ds').get .subscriptions
        context.subscriptionKey) ∧
    ∀ now, (getSubscription context now (processBillingEvents context σ ds)).decision =
      (getSubscription context now (processBillingEvents context σ ds')).decision

/-- All orders of delivery leave the same refunds. -/
def RefundsConverge (context : TenantContext) (σ : Vault) (events : List NormalizedRefundEvent) :
    Prop :=
  ∀ ds ds', Delivers events ds → Delivers events ds' → ∀ refundId,
    refundCell ((processRefundEvents context σ ds).get .billingRefunds refundId) =
      refundCell ((processRefundEvents context σ ds').get .billingRefunds refundId)

/-- The new events of the greatest provider time, if none is before the stored one, agree on the
subscription. -/
def LatestEventsAgree (context : TenantContext) (σ : Vault)
    (events : List NormalizedBillingEvent) : Prop :=
  ∀ e w e' w', (subscriptionRegister context σ).Decisive σ events e w →
    (subscriptionRegister context σ).Decisive σ events e' w' → w.2 = w'.2

/-- The new events of the greatest provider time of each refund agree on it. -/
def LatestRefundsAgree (context : TenantContext) (σ : Vault)
    (events : List NormalizedRefundEvent) : Prop :=
  ∀ refundId e w e' w', (refundRegister context refundId σ).Decisive σ events e w →
    (refundRegister context refundId σ).Decisive σ events e' w' → w.2 = w'.2

/-- Events with distinct ids are told apart by them. -/
theorem sameById_of_nodup {Event : Type} {id : Event → String} {events : List Event}
    (h : (events.map id).Nodup) : ∀ e ∈ events, ∀ e' ∈ events, id e = id e' → e = e' :=
  fun _ he _ he' heq => List.inj_on_of_nodup_map h he he' heq

theorem subscriptionConverges_iff (context : TenantContext) (σ : Vault)
    {events : List NormalizedBillingEvent} (hids : (events.map (·.externalEventId)).Nodup) :
    SubscriptionConverges context σ events ↔ LatestEventsAgree context σ events := by
  have hconverges := (subscriptionRegister context σ).convergent_iff (s := σ)
    (fun _ _ => rfl) (sameById_of_nodup hids)
  rw [LatestEventsAgree, ← hconverges]
  constructor
  · intro h ds ds' hds hds'
    exact (h ds ds' hds hds').1
  · intro h ds ds' hds hds'
    have hcell := h ds ds' hds hds'
    refine ⟨hcell, fun now => ?_⟩
    rw [getSubscription_decision, getSubscription_decision]
    exact congrArg (decisionOf · now) hcell

theorem refundsConverge_iff (context : TenantContext) (σ : Vault)
    {events : List NormalizedRefundEvent} (hids : (events.map (·.externalEventId)).Nodup) :
    RefundsConverge context σ events ↔ LatestRefundsAgree context σ events := by
  have hconverges := fun refundId => (refundRegister context refundId σ).convergent_iff (s := σ)
    rfl (sameById_of_nodup hids)
  constructor
  · intro h refundId
    exact (hconverges refundId).mp (fun ds ds' hds hds' => h ds ds' hds hds' refundId)
  · intro h ds ds' hds hds' refundId
    exact (hconverges refundId).mpr (h refundId) ds ds' hds hds'

/-- All orders in which events are delivered, with any number of duplicates, leave the same
subscription and refunds just when the latest events of each agree. -/
theorem billing_convergent_iff (context : TenantContext) (σ : Vault)
    {events : List NormalizedBillingEvent} {refunds : List NormalizedRefundEvent}
    (hids : (events.map (·.externalEventId)).Nodup)
    (hrefundIds : (refunds.map (·.externalEventId)).Nodup) :
    (SubscriptionConverges context σ events ∧ RefundsConverge context σ refunds) ↔
      LatestEventsAgree context σ events ∧ LatestRefundsAgree context σ refunds := by
  rw [subscriptionConverges_iff context σ hids, refundsConverge_iff context σ hrefundIds]

/-- The household of the examples. -/
def exampleBillingTenant : TenantContext := stripeContext "organization" "household"

/-- A subscription event of the examples. -/
def exampleBillingEvent (externalEventId : String) (status : SubscriptionStatus)
    (seconds : Nat) (hseconds : seconds ≤ 8640000000000) : NormalizedBillingEvent :=
  ⟨externalEventId, "customer.subscription.updated", seconds * 1000, "cus_1", "sub_1", status,
    "essential", none, none, false, none, rfl, decide_eq_true (by omega)⟩

/-- A delivery of the examples. -/
def exampleDeliveryOf {Event : Type} (event : Event) : BillingDelivery Event :=
  ⟨event, "billing-event", "subscription", 0⟩

/-- A subscription that becomes active and past due within one second. -/
theorem billing_diverges :
    ¬ SubscriptionConverges exampleBillingTenant Store.empty
      [exampleBillingEvent "evt_1" .active 1754000000 (by decide),
        exampleBillingEvent "evt_2" .pastDue 1754000000 (by decide)] := by
  intro h
  have hsame := (h
    [exampleDeliveryOf (exampleBillingEvent "evt_1" .active 1754000000 (by decide)),
      exampleDeliveryOf (exampleBillingEvent "evt_2" .pastDue 1754000000 (by decide))]
    [exampleDeliveryOf (exampleBillingEvent "evt_2" .pastDue 1754000000 (by decide)),
      exampleDeliveryOf (exampleBillingEvent "evt_1" .active 1754000000 (by decide))]
    (fun event => Iff.rfl) (fun event => by simp [exampleDeliveryOf, or_comm])).1
  have hstatus := congrArg (fun cell => cell.2.map SubscriptionContent.status) hsame
  exact absurd hstatus (by decide)

/-- Events of different seconds converge. -/
theorem billing_convergent_iff_example :
    SubscriptionConverges exampleBillingTenant Store.empty
      [exampleBillingEvent "evt_1" .active 1754000000 (by decide),
        exampleBillingEvent "evt_2" .pastDue 1754000001 (by decide)] := by
  have hlater : ∀ e w, (subscriptionRegister exampleBillingTenant Store.empty).Decisive Store.empty
      [exampleBillingEvent "evt_1" .active 1754000000 (by decide),
        exampleBillingEvent "evt_2" .pastDue 1754000001 (by decide)] e w →
      e = exampleBillingEvent "evt_2" .pastDue 1754000001 (by decide) := by
    intro e w h
    rcases List.mem_cons.mp h.mem with rfl | hmem
    · have hle := h.latest (exampleBillingEvent "evt_2" .pastDue 1754000001 (by decide))
        (List.mem_cons_of_mem _ (List.mem_singleton_self _)) _ ⟨rfl, nofun⟩
      obtain rfl := Option.some.inj h.fresh.write
      exact absurd hle (by decide)
    · exact List.mem_singleton.mp hmem
  refine ((@billing_convergent_iff exampleBillingTenant Store.empty _ [] (by decide)
    List.nodup_nil).mpr ⟨fun e w e' w' h h' => ?_, fun _ e _ _ _ h => ?_⟩).1
  · obtain rfl := hlater e w h
    obtain rfl := hlater e' w' h'
    exact congrArg Prod.snd (Option.some.inj (h.fresh.write.symm.trans h'.fresh.write))
  · exact absurd h.mem List.not_mem_nil

/-! ## The window of technical grace -/

/-- The status of a tenant's subscription. -/
def subscriptionStatus (context : TenantContext) (σ : Vault) : SubscriptionStatus :=
  (getSubscription context 0 σ).status

/-- A first event makes the subscription past due, and it stays past due through all later
deliveries. -/
structure PastDueSince (context : TenantContext) (σ : Vault)
    (first : BillingDelivery NormalizedBillingEvent)
    (later : List (BillingDelivery NormalizedBillingEvent)) : Prop where
  before : subscriptionStatus context σ ≠ .pastDue
  throughout : ∀ some, some <+: later →
    subscriptionStatus context (processBillingEvents context σ (first :: some)) = .pastDue

/-- Access in technical grace is granted within 72 hours of the first event only. -/
def GraceBounded (context : TenantContext) (σ : Vault)
    (first : BillingDelivery NormalizedBillingEvent)
    (later : List (BillingDelivery NormalizedBillingEvent)) : Prop :=
  ∀ now, (getSubscription context now
      (processBillingEvents context σ (first :: later))).decision.access = .grace →
    now < first.event.providerCreatedAt + billingTechnicalGraceMs

/-- A delivery among the later ones is of an event that is new by then, and that no unique index
refuses. -/
structure NewLater (context : TenantContext) (σ : Vault)
    (first : BillingDelivery NormalizedBillingEvent)
    (later : List (BillingDelivery NormalizedBillingEvent))
    (event : NormalizedBillingEvent) : Prop where
  intro ::
  new : ∃ before delivery after, later = before ++ delivery :: after ∧ delivery.event = event ∧
    (processBillingEvents context σ (first :: before)).get .billingEvents
      event.externalEventId = none
  free : providerTaken context event σ = false

/-- Grace is granted for a past-due subscription to the essential plan. -/
theorem access_eq_grace {context : TenantContext} {now : Instant} {σ : Vault} :
    (getSubscription context now σ).decision.access = .grace ↔
      ∃ (time : Instant) (content : SubscriptionContent),
        subscriptionCell (σ.get .subscriptions context.subscriptionKey) = (↑time, some content) ∧
        content.plan = "essential" ∧ content.status = .pastDue ∧
        isDate (time + billingTechnicalGraceMs) = true ∧ now < time + billingTechnicalGraceMs := by
  rw [getSubscription_decision]
  obtain ⟨time, content⟩ := subscriptionCell (σ.get .subscriptions context.subscriptionKey)
  cases content with
  | none => simp [decisionOf, deriveBillingAccess]
  | some content =>
    induction time using WithBot.recBotCoe with
    | bot =>
      simp only [decisionOf, deriveBillingAccess, WithBot.recBotCoe_bot, Prod.mk.injEq]
      constructor
      · intro haccess
        split at haccess
        · exact absurd haccess (by simp)
        · split at haccess <;> exact absurd haccess (by simp)
      · rintro ⟨time, _, ⟨hbot, -⟩, -⟩
        exact absurd hbot (by simp)
    | coe time =>
      simp only [decisionOf, deriveBillingAccess, WithBot.recBotCoe_coe, Prod.mk.injEq,
        Option.some.injEq, WithBot.coe_inj]
      constructor
      · intro haccess
        split at haccess
        · exact absurd haccess (by simp)
        · split at haccess
          · rename_i hplan
            split at haccess
            · rename_i hwindow
              exact ⟨time, content, ⟨rfl, rfl⟩, hplan.1, hplan.2, hwindow.1, hwindow.2⟩
            · exact absurd haccess (by simp)
          · exact absurd haccess (by simp)
      · rintro ⟨_, _, ⟨rfl, rfl⟩, hplan, hstatus, hdate, hnow⟩
        simp [hplan, hstatus, hdate, hnow]

theorem subscriptionStatus_eq (context : TenantContext) (σ : Vault) :
    subscriptionStatus context σ = ((subscriptionCell (σ.get .subscriptions
      context.subscriptionKey)).2.map SubscriptionContent.status).getD .inactive := by
  unfold subscriptionStatus getSubscription
  cases σ.get .subscriptions context.subscriptionKey <;> rfl

section Grace

variable {context : TenantContext} {σ : Vault} {first : BillingDelivery NormalizedBillingEvent}
  {later : List (BillingDelivery NormalizedBillingEvent)}

/-- The first event of a past-due period has written the subscription. -/
theorem PastDueSince.written (h : PastDueSince context σ first later) :
    (subscriptionRegister context σ).cell (processBillingEvents context σ [first]) =
      ((first.event.providerCreatedAt : WithBot Instant), some first.event.content) := by
  have hafter := h.throughout [] List.nil_prefix
  rcases LatestWrite.step_cases (R := subscriptionRegister context σ) (s := σ) (fun _ _ => rfl)
    first with ⟨hsame, -⟩ | ⟨w, hwrite, -, -, hcell⟩
  · have hstatus : subscriptionStatus context (processBillingEvents context σ [first]) =
        subscriptionStatus context σ := by
      rw [subscriptionStatus_eq, subscriptionStatus_eq]
      exact congrArg (fun cell => (cell.2.map SubscriptionContent.status).getD .inactive) hsame
    exact absurd (hstatus.symm.trans hafter) h.before
  · obtain ⟨-, rfl⟩ := subscriptionWrite_eq_some hwrite
    exact hcell

theorem NewLater.newAfter {event : NormalizedBillingEvent}
    (h : NewLater context σ first later event) :
    ∃ before delivery after, later = before ++ delivery :: after ∧ delivery.event = event ∧
      (subscriptionRegister context σ).NewAfter (processBillingEvents context σ [first]) before
        delivery (event.providerCreatedAt, some event.content) := by
  obtain ⟨⟨before, delivery, after, hsplit, rfl, hnew⟩, hfree⟩ := h
  refine ⟨before, delivery, after, hsplit, rfl, ?_, fun hrecorded => ?_⟩
  · exact if_neg (fun htaken => absurd (htaken.symm.trans hfree) (by simp))
  · have hisSome : ((processBillingEvents context σ (first :: before)).get .billingEvents
        delivery.event.externalEventId).isSome = true := hrecorded
    rw [hnew] at hisSome
    exact absurd hisSome (by simp)

theorem NewLater.of_newAfter {before after : List (BillingDelivery NormalizedBillingEvent)}
    {delivery : BillingDelivery NormalizedBillingEvent} {w : Instant × Option SubscriptionContent}
    (hsplit : later = before ++ delivery :: after)
    (h : (subscriptionRegister context σ).NewAfter (processBillingEvents context σ [first]) before
      delivery w) :
    NewLater context σ first later delivery.event ∧
      w = (delivery.event.providerCreatedAt, some delivery.event.content) := by
  obtain ⟨hfree, hw⟩ := subscriptionWrite_eq_some h.write
  have hnew : (processBillingEvents context σ (first :: before)).get .billingEvents
      delivery.event.externalEventId = none := Option.not_isSome_iff_eq_none.mp h.new
  exact ⟨⟨⟨before, delivery, after, hsplit, rfl, hnew⟩, hfree⟩, hw.symm⟩

/-- When no date is 72 hours after an instant, none is 72 hours after a later one. -/
theorem isDate_grace_mono {instant later : Int} (hinstant : isDate instant = true)
    (hle : instant ≤ later) (h : isDate (instant + billingTechnicalGraceMs) = false) :
    isDate (later + billingTechnicalGraceMs) = false := by
  have hgrace : billingTechnicalGraceMs = (259200000 : Int) := rfl
  simp only [isDate, hgrace, decide_eq_true_eq, decide_eq_false_iff_not] at hinstant h ⊢
  omega

theorem valid_first : (subscriptionRegister context σ).Valid
    (processBillingEvents context σ [first]) :=
  (subscriptionRegister context σ).valid_step first (fun _ _ => rfl)

/-- The subscription ends at a time that no later event is after. -/
theorem NewLater.le_time {event : NormalizedBillingEvent}
    (h : NewLater context σ first later event) :
    (event.providerCreatedAt : WithBot Instant) ≤ (subscriptionCell ((processBillingEvents context
      σ (first :: later)).get .subscriptions context.subscriptionKey)).1 := by
  obtain ⟨before, delivery, after, hsplit, -, hnew⟩ := h.newAfter
  by_contra hbefore
  have hafter := (LatestWrite.lt_time_run valid_first later _).mpr
    (Or.inr ⟨before, delivery, after, _, hsplit, hnew, not_le.mp hbefore⟩)
  exact absurd hafter (lt_irrefl _)

/-- A subscription that is past due holds the first past-due event or a later one. -/
theorem PastDueSince.cell (h : PastDueSince context σ first later) :
    ∃ event, (event = first.event ∨ NewLater context σ first later event) ∧
      subscriptionCell ((processBillingEvents context σ (first :: later)).get .subscriptions
        context.subscriptionKey) = ((event.providerCreatedAt : WithBot Instant),
          some event.content) := by
  refine LatestWrite.cell_run_of_new (R := subscriptionRegister context σ) valid_first
    (Q := fun cell => ∃ event, (event = first.event ∨ NewLater context σ first later event) ∧
      cell = ((event.providerCreatedAt : WithBot Instant), some event.content))
    ⟨first.event, Or.inl rfl, h.written⟩ (fun before delivery after w hsplit hnew => ?_)
  obtain ⟨hlater, rfl⟩ := NewLater.of_newAfter hsplit hnew
  exact ⟨delivery.event, Or.inr hlater, rfl⟩

/-- The subscription ends no earlier than its first past-due event. -/
theorem PastDueSince.first_le (h : PastDueSince context σ first later) :
    (first.event.providerCreatedAt : WithBot Instant) ≤ (subscriptionCell
      ((processBillingEvents context σ (first :: later)).get .subscriptions
        context.subscriptionKey)).1 := by
  have hle := LatestWrite.time_le_run (R := subscriptionRegister context σ)
    (@valid_first context σ first) later
  rw [h.written] at hle
  exact hle

/-- While a subscription is past due, its window of technical grace ends 72 hours after the first
past-due event just when no later event is after that one, unless one is so late that no date is
72 hours after it. -/
theorem grace_bounded_iff (h : PastDueSince context σ first later) :
    GraceBounded context σ first later ↔
      (∀ event, NewLater context σ first later event →
        event.providerCreatedAt ≤ first.event.providerCreatedAt) ∨
      ∃ event, NewLater context σ first later event ∧
        isDate (event.providerCreatedAt + billingTechnicalGraceMs) = false := by
  obtain ⟨last, hlast, hcell⟩ := h.cell
  have hfirst := h.first_le
  rw [hcell] at hfirst
  have hfirst : first.event.providerCreatedAt ≤ last.providerCreatedAt :=
    WithBot.coe_le_coe.mp hfirst
  have hlatest : ∀ event, NewLater context σ first later event →
      event.providerCreatedAt ≤ last.providerCreatedAt := by
    intro event hevent
    have hle := hevent.le_time
    rw [hcell] at hle
    exact WithBot.coe_le_coe.mp hle
  have hstatus : last.content.status = .pastDue := by
    have hthroughout := h.throughout later List.prefix_rfl
    rw [subscriptionStatus_eq, hcell] at hthroughout
    exact hthroughout
  have hgrace : ∀ now, (getSubscription context now
      (processBillingEvents context σ (first :: later))).decision.access = .grace ↔
      isDate (last.providerCreatedAt + billingTechnicalGraceMs) = true ∧
        now < last.providerCreatedAt + billingTechnicalGraceMs := by
    intro now
    rw [access_eq_grace, hcell]
    constructor
    · rintro ⟨time, content, heq, -, -, hdate, hnow⟩
      obtain ⟨htime, -⟩ := Prod.ext_iff.mp heq
      obtain rfl := WithBot.coe_inj.mp htime
      exact ⟨hdate, hnow⟩
    · rintro ⟨hdate, hnow⟩
      exact ⟨_, _, rfl, last.plan_essential, hstatus, hdate, hnow⟩
  -- No date is after a date that is none, so the last event shows whether there is one.
  have hlate : (∃ event, NewLater context σ first later event ∧
      isDate (event.providerCreatedAt + billingTechnicalGraceMs) = false) →
      isDate (last.providerCreatedAt + billingTechnicalGraceMs) = false := by
    rintro ⟨event, hevent, hdate⟩
    exact isDate_grace_mono event.createdAt_date (hlatest event hevent) hdate
  constructor
  · intro hbounded
    by_cases hdate : isDate (last.providerCreatedAt + billingTechnicalGraceMs) = true
    · refine Or.inl fun event hevent => ?_
      have hnow := hbounded (last.providerCreatedAt + billingTechnicalGraceMs - 1)
        ((hgrace _).mpr ⟨hdate, Int.sub_one_lt_iff.mpr le_rfl⟩)
      have hwindows := Int.sub_one_lt_iff.mp hnow
      exact (hlatest event hevent).trans (Int.le_of_add_le_add_right hwindows)
    · rcases hlast with rfl | hlater
      · exact Or.inl hlatest
      · exact Or.inr ⟨last, hlater, Bool.eq_false_of_not_eq_true hdate⟩
  · rintro (hnone | hexists) now haccess
    · obtain ⟨-, hnow⟩ := (hgrace now).mp haccess
      rcases hlast with rfl | hlater
      · exact hnow
      · exact hnow.trans_le (Int.add_le_add_right (hnone last hlater) _)
    · obtain ⟨hdate, -⟩ := (hgrace now).mp haccess
      exact absurd (hdate.symm.trans (hlate hexists)) (by simp)

end Grace

/-- A past-due event of the examples. -/
def examplePastDue (externalEventId : String) (seconds : Nat) (hseconds : seconds ≤ 8640000000000) :
    BillingDelivery NormalizedBillingEvent :=
  exampleDeliveryOf (exampleBillingEvent externalEventId .pastDue seconds hseconds)

/-- One delivery that follows has nothing or itself as a beginning. -/
theorem pastDueSince_of_single {context : TenantContext} {σ : Vault}
    {first second : BillingDelivery NormalizedBillingEvent}
    (hbefore : subscriptionStatus context σ ≠ .pastDue)
    (hfirst : subscriptionStatus context (processBillingEvents context σ [first]) = .pastDue)
    (hsecond : subscriptionStatus context (processBillingEvents context σ [first, second]) =
      .pastDue) : PastDueSince context σ first [second] := by
  refine ⟨hbefore, fun some hprefix => ?_⟩
  rcases List.prefix_cons_iff.mp hprefix with rfl | ⟨rest, rfl, hrest⟩
  · exact hfirst
  · rw [List.prefix_nil.mp hrest]
    exact hsecond

/-- A second past-due event, an hour after the first, moves the end of the window by an hour. -/
theorem grace_extended :
    PastDueSince exampleBillingTenant Store.empty (examplePastDue "evt_1" 1754000000 (by decide))
      [examplePastDue "evt_2" 1754003600 (by decide)] ∧
    ¬ GraceBounded exampleBillingTenant Store.empty (examplePastDue "evt_1" 1754000000 (by decide))
      [examplePastDue "evt_2" 1754003600 (by decide)] := by
  refine ⟨pastDueSince_of_single (by decide) (by decide) (by decide), fun h => ?_⟩
  have hnow := h 1754260000000 (by decide)
  exact absurd hnow (by decide)

/-- A past-due event that is delivered twice. -/
theorem grace_bounded_iff_example :
    GraceBounded exampleBillingTenant Store.empty (examplePastDue "evt_1" 1754000000 (by decide))
      [examplePastDue "evt_1" 1754000000 (by decide)] := by
  have h : PastDueSince exampleBillingTenant Store.empty (examplePastDue "evt_1" 1754000000 (by decide))
      [examplePastDue "evt_1" 1754000000 (by decide)] :=
    pastDueSince_of_single (by decide) (by decide) (by decide)
  refine (grace_bounded_iff h).mpr (Or.inl fun event hevent => ?_)
  obtain ⟨before, delivery, after, hsplit, rfl, -⟩ := hevent.new
  obtain rfl : delivery = examplePastDue "evt_1" 1754000000 (by decide) := by
    have hmem : delivery ∈ before ++ delivery :: after := by simp
    rw [← hsplit] at hmem
    exact List.mem_singleton.mp hmem
  exact le_refl _

end LegacyVault
