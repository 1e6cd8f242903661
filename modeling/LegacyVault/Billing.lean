import LegacyVault.Database
import LegacyVault.Library.LatestWrite
import Mathlib

/-!
# Billing

Stripe events are normalized, and persisted by `processBillingEvent` and
`processRefundEvent`: an event is recorded once, and its row is written unless
the row is of a later provider time. `getSubscription` reads the row together
with the access that `deriveBillingAccess` derives from it.

All orders of delivery lead to one row just when the events of the greatest
provider time agree. The grace window starts again with every later event, so
it is 72 hours long just when there is none while the subscription is past
due.
-/

namespace LegacyVault

open RowTransaction RowTransaction.Program Store

/-! ## Access -/

/-- `BillingAccessMode`. -/
inductive BillingAccessMode where
  | full | grace | readOnly
  deriving DecidableEq

/-- `BillingEntitlements`. -/
structure BillingEntitlements where
  vaultRead : Bool
  vaultWrite : Bool
  documentUpload : Bool
  aiInterview : Bool
  reportGeneration : Bool
  exportGeneration : Bool
  deriving DecidableEq

/-- `BillingQuotas`. -/
structure BillingQuotas where
  households : Nat
  members : Option Nat
  storageBytes : Option Nat
  aiInterviewsMonthly : Option Nat
  deriving DecidableEq

/-- `BillingAccessDecision`. -/
structure BillingAccessDecision where
  access : BillingAccessMode
  graceUntil : Option Instant
  entitlements : BillingEntitlements
  quotas : BillingQuotas
  deriving DecidableEq

/-- `ESSENTIAL_QUOTAS`. -/
def essentialQuotas : BillingQuotas := ⟨1, none, none, none⟩

/-- `BILLING_TECHNICAL_GRACE_MS`. -/
def billingTechnicalGraceMs : Instant := 72 * 60 * 60 * 1000

/-- `fullEntitlements`. -/
def fullEntitlements : BillingEntitlements := ⟨true, true, true, true, true, true⟩

/-- `readOnlyEntitlements`. -/
def readOnlyEntitlements : BillingEntitlements := ⟨true, false, false, false, false, false⟩

/-- `graceEntitlements`. -/
def graceEntitlements : BillingEntitlements := { fullEntitlements with aiInterview := false }

/-- A `Date` can hold the instant. -/
def isDate (instant : Instant) : Bool := decide (instant.natAbs ≤ 8640000000000000)

/-- `deriveBillingAccess`. -/
def deriveBillingAccess (status : SubscriptionStatus) (plan : Option String)
    (providerUpdatedAt : Option Instant) (now : Instant) : BillingAccessDecision :=
  let readOnly := ⟨.readOnly, none, readOnlyEntitlements, essentialQuotas⟩
  if plan = some "essential" ∧ (status = .active ∨ status = .trialing) then
    ⟨.full, none, fullEntitlements, essentialQuotas⟩
  else if plan = some "essential" ∧ status = .pastDue then
    match providerUpdatedAt with
    | some updatedAt =>
      let graceUntil := updatedAt + billingTechnicalGraceMs
      if isDate graceUntil ∧ now < graceUntil then
        ⟨.grace, some graceUntil, graceEntitlements, essentialQuotas⟩
      else readOnly
    | none => readOnly
  else readOnly

/-! ## Stripe events -/

/-- `NormalizedBillingEvent`, of a Stripe event: its plan is the only one there is, and its
provider time is a date. -/
structure NormalizedBillingEvent where
  externalEventId : String
  eventType : String
  providerCreatedAt : Instant
  providerCustomerId : String
  providerSubscriptionId : String
  status : SubscriptionStatus
  plan : String
  trialEndsAt : Option Instant
  currentPeriodEndsAt : Option Instant
  cancelAtPeriodEnd : Bool
  canceledAt : Option Instant
  plan_essential : plan = "essential"
  createdAt_date : isDate providerCreatedAt = true
  deriving DecidableEq

/-- `NormalizedRefundEvent`. -/
structure NormalizedRefundEvent where
  externalEventId : String
  eventType : String
  providerUpdatedAt : Instant
  providerRefundId : String
  providerChargeId : Option String
  amount : Nat
  currency : String
  reason : Option String
  status : RefundStatus
  amount_pos : 0 < amount
  deriving DecidableEq

/-- A number of Stripe that may be missing, or no safe integer. -/
abbrev StripeNumber := Option (Option Int)

/-- The members of a Stripe subscription that are read. A member of another type is none. -/
structure StripeSubscription where
  legacyOrganizationId : Option String
  legacyHouseholdId : Option String
  legacyPlan : Option String
  id : Option String
  customer : Option String
  status : Option String
  trialEnd : StripeNumber
  currentPeriodEnd : StripeNumber
  cancelAtPeriodEnd : Bool
  canceledAt : StripeNumber

/-- A verified Stripe event about a subscription. -/
structure StripeEvent where
  id : String
  type : String
  created : Int
  object : StripeSubscription

/-- The hexadecimal digits of a UUID, in either case. -/
def isUuidDigit (c : Char) : Bool :=
  c.isDigit || "abcdefABCDEF".toList.contains c

/-- The UUIDs that metadata may hold. -/
def isStripeUuid (text : String) : Bool :=
  match text.toList.splitOn '-' with
  | [first, second, third, fourth, fifth] =>
    (first ++ second ++ third ++ fourth ++ fifth).all isUuidDigit &&
      first.length == 8 && second.length == 4 && third.length == 4 && fourth.length == 4 &&
      fifth.length == 12 && third.head?.any (fun c => '1' ≤ c && c ≤ '8') &&
      fourth.head?.any (fun c => "89abAB".toList.contains c)
  | _ => false

/-- `new Date(seconds * 1_000).toISOString()`. -/
def isoSeconds (seconds : Int) : Except String { instant : Instant // isDate instant = true } :=
  if h : isDate (seconds * 1000) = true then .ok ⟨seconds * 1000, h⟩
  else .error "Invalid time value"

/-- `stripeTimestamp`. -/
def stripeTimestamp : StripeNumber → Except String (Option Instant)
  | none => .ok none
  | some none => .error "Stripe subscription timestamp invalid"
  | some (some value) =>
    if value < 1 then .error "Stripe subscription timestamp invalid"
    else (isoSeconds value).map (fun instant => some instant.1)

/-- The statuses that are let in. -/
def allowedStatus : String → Option SubscriptionStatus
  | "incomplete" => some .incomplete
  | "incomplete_expired" => some .incompleteExpired
  | "trialing" => some .trialing
  | "active" => some .active
  | "past_due" => some .pastDue
  | "canceled" => some .canceled
  | "unpaid" => some .unpaid
  | "paused" => some .paused
  | _ => none

/-- The tenant of a normalized event, as the route sets it. -/
def stripeContext (organizationId householdId : Identifier) : TenantContext :=
  ⟨organizationId, householdId, organizationId⟩

/-- `normalizeSubscriptionEvent`: what is no event of a subscription gives `none`. -/
def normalizeSubscriptionEvent (event : StripeEvent) :
    Except String (Option (TenantContext × NormalizedBillingEvent)) :=
  if event.type ∉ ["customer.subscription.created", "customer.subscription.updated",
      "customer.subscription.deleted"] then .ok none
  else
    let rawStatus := if event.type = "customer.subscription.deleted" then some "canceled"
      else event.object.status
    match event.object.legacyOrganizationId, event.object.legacyHouseholdId,
        event.object.id, event.object.customer, rawStatus.bind allowedStatus with
    | some organizationId, some householdId, some subscriptionId, some customerId, some status =>
      if isStripeUuid organizationId ∧ isStripeUuid householdId ∧
          event.object.legacyPlan = some "essential" then do
        let providerCreatedAt ← isoSeconds event.created
        let trialEndsAt ← stripeTimestamp event.object.trialEnd
        let currentPeriodEndsAt ← stripeTimestamp event.object.currentPeriodEnd
        let canceledAt ← stripeTimestamp event.object.canceledAt
        return some (stripeContext organizationId householdId,
          ⟨event.id, event.type, providerCreatedAt.1, customerId, subscriptionId, status,
            "essential", trialEndsAt, currentPeriodEndsAt, event.object.cancelAtPeriodEnd,
            canceledAt, rfl, providerCreatedAt.2⟩)
      else .error "Stripe subscription metadata invalid"
    | _, _, _, _, _ => .error "Stripe subscription metadata invalid"

/-! ## Persisted events -/

/-- A delivery of an event: what is generated for it, and when it is processed. -/
structure BillingDelivery (Event : Type) where
  event : Event
  billingEventId : Identifier
  rowId : Identifier
  now : Instant

/-- Outcome of a processed event. -/
inductive BillingOutcome where
  | applied | duplicate | stale
  deriving DecidableEq

/-- The unique key of a tenant's subscription. -/
def TenantContext.subscriptionKey (context : TenantContext) : Identifier × Identifier :=
  (context.organizationId, context.householdId)

/-- An event is recorded, its row is written, and the event is marked as processed. The row is
not written when the upsert leaves it alone. A row that was written may still be refused. -/
def persistEvent {t : VaultTable} (context : TenantContext) (event : BillingEventRow)
    (now : Instant) (k : t.Key) (upsert : Option t.Row → Option t.Row)
    (refused : t.Row → Vault → Option RepositoryError) : Transaction BillingOutcome := do
  let inserted ← insertOrIgnore (S := vaultSchema) .billingEvents event.externalEventId event
  match inserted with
  | none => pure .duplicate
  | some _ => do
    let written ← putRow (S := vaultSchema) t k upsert
    let refusal ← select (fun σ => written.bind (fun row => refused row σ))
    match refusal with
    | some error => .rollback error
    | none => do
      let _ ← updateRow (S := vaultSchema) .billingEvents event.externalEventId
        (fun row : BillingEventRow =>
          if context.sees row then some { row with processedAt := some now } else none)
      pure (if written.isSome then .applied else .stale)

/-- `insert into subscriptions … on conflict (organization_id,household_id) do update …`. -/
def upsertSubscription (context : TenantContext) (id : Identifier)
    (event : NormalizedBillingEvent) : Option SubscriptionRow → Option SubscriptionRow
  | none => some ⟨id, context.organizationId, context.householdId, event.status, event.plan,
      some event.providerCustomerId, some event.providerSubscriptionId,
      some event.providerCreatedAt, event.trialEndsAt, event.currentPeriodEndsAt,
      event.cancelAtPeriodEnd, event.canceledAt, 1⟩
  | some row =>
    if row.providerUpdatedAt.all (fun updatedAt => updatedAt ≤ event.providerCreatedAt) then
      some { row with
        status := event.status
        plan := event.plan
        providerCustomerId := some event.providerCustomerId
        providerSubscriptionId := some event.providerSubscriptionId
        providerUpdatedAt := some event.providerCreatedAt
        trialEndsAt := event.trialEndsAt
        currentPeriodEndsAt := event.currentPeriodEndsAt
        cancelAtPeriodEnd := event.cancelAtPeriodEnd
        canceledAt := event.canceledAt
        version := row.version + 1 }
    else none

/-- The subscription of another tenant has the provider's customer. -/
def customerTaken (context : TenantContext) (event : NormalizedBillingEvent) (σ : Vault) : Bool :=
  (σ.scan .subscriptions).any (fun entry : (Identifier × Identifier) × SubscriptionRow =>
    entry.1 != context.subscriptionKey &&
      entry.2.providerCustomerId == some event.providerCustomerId)

/-- The subscription of another tenant has the provider's subscription. -/
def subscriptionTaken (context : TenantContext) (event : NormalizedBillingEvent) (σ : Vault) :
    Bool :=
  (σ.scan .subscriptions).any (fun entry : (Identifier × Identifier) × SubscriptionRow =>
    entry.1 != context.subscriptionKey &&
      entry.2.providerSubscriptionId == some event.providerSubscriptionId)

/-- The unique indexes refuse a customer or a subscription of another tenant. -/
def subscriptionRefusal (context : TenantContext) (event : NormalizedBillingEvent) (σ : Vault) :
    Option RepositoryError :=
  if customerTaken context event σ then
    some (.uniqueViolation "subscriptions_provider_customer_unique")
  else if subscriptionTaken context event σ then
    some (.uniqueViolation "subscriptions_provider_subscription_unique")
  else none

/-- `processBillingEvent`. -/
def processBillingEvent (context : TenantContext)
    (delivery : BillingDelivery NormalizedBillingEvent) : Transaction BillingOutcome :=
  let event := delivery.event
  persistEvent (t := .subscriptions) context
    ⟨delivery.billingEventId, context.organizationId, context.householdId,
      event.externalEventId, event.eventType, event.providerCreatedAt, none⟩
    delivery.now context.subscriptionKey (upsertSubscription context delivery.rowId event)
    (fun _ σ => subscriptionRefusal context event σ)

/-- `SubscriptionReadModel`. -/
structure SubscriptionReadModel where
  status : SubscriptionStatus
  plan : Option String
  providerUpdatedAt : Option Instant
  trialEndsAt : Option Instant
  currentPeriodEndsAt : Option Instant
  cancelAtPeriodEnd : Bool
  canceledAt : Option Instant
  version : Nat
  decision : BillingAccessDecision

/-- `getSubscription`. A tenant has one subscription at most. -/
def getSubscription (context : TenantContext) (now : Instant) (σ : Vault) :
    SubscriptionReadModel :=
  match σ.get .subscriptions context.subscriptionKey with
  | none => ⟨.inactive, none, none, none, none, false, none, 0,
      deriveBillingAccess .inactive none none now⟩
  | some (row : SubscriptionRow) => ⟨row.status, some row.plan, row.providerUpdatedAt,
      row.trialEndsAt, row.currentPeriodEndsAt, row.cancelAtPeriodEnd, row.canceledAt,
      row.version, deriveBillingAccess row.status (some row.plan) row.providerUpdatedAt now⟩

/-- `insert into billing_refunds … on conflict (provider_refund_id) do update …`. -/
def upsertRefund (context : TenantContext) (id : Identifier) (event : NormalizedRefundEvent) :
    Option BillingRefundRow → Option BillingRefundRow
  | none => some ⟨id, context.organizationId, context.householdId, event.providerRefundId,
      event.providerChargeId, event.amount, event.currency, event.reason, event.status,
      event.providerUpdatedAt, 1⟩
  | some row =>
    if row.providerUpdatedAt ≤ event.providerUpdatedAt then
      some { row with
        providerChargeId := event.providerChargeId
        amount := event.amount
        currency := event.currency
        reason := event.reason
        status := event.status
        providerUpdatedAt := event.providerUpdatedAt
        version := row.version + 1 }
    else none

/-- `processRefundEvent`. The row policy refuses to update a refund of another tenant. -/
def processRefundEvent (context : TenantContext)
    (delivery : BillingDelivery NormalizedRefundEvent) : Transaction BillingOutcome :=
  let event := delivery.event
  persistEvent (t := .billingRefunds) context
    ⟨delivery.billingEventId, context.organizationId, context.householdId,
      event.externalEventId, event.eventType, event.providerUpdatedAt, none⟩
    delivery.now event.providerRefundId (upsertRefund context delivery.rowId event)
    (fun row : BillingRefundRow => fun _ =>
      if context.sees row then none else some .rowSecurity)

/-! ## One delivery -/

/-- Exactly the event has been recorded in addition. -/
def RecordsEvent (externalEventId : String) (σ σ' : Vault) : Prop :=
  ∀ i, (σ'.get .billingEvents i).isSome ↔ (σ.get .billingEvents i).isSome ∨ i = externalEventId

section Persist

variable {t : VaultTable} {context : TenantContext} {event : BillingEventRow} {now : Instant}
  {k : t.Key} {upsert : Option t.Row → Option t.Row}
  {refused : t.Row → Vault → Option RepositoryError}

/-- The store once an event is recorded and its row is written. -/
def withEvent (event : BillingEventRow) (k : t.Key) (row : t.Row) (σ : Vault) : Vault :=
  (Store.set σ .billingEvents event.externalEventId (some event)).set t k (some row)

/-- Marking an event changes no other table and records no event. -/
theorem run_updateBillingEvent (i : String) (change : BillingEventRow → Option BillingEventRow)
    (σ : Vault) :
    ∃ result σ', (updateRow (S := vaultSchema) (ε := RepositoryError) .billingEvents i change).run σ
        = (.ok result, σ') ∧
      (∀ t, t ≠ VaultTable.billingEvents → SameRows (S := vaultSchema) t σ σ') ∧
      ∀ j, (σ'.get .billingEvents j).isSome = (σ.get .billingEvents j).isSome := by
  have hrun := run_updateRow (S := vaultSchema) (ε := RepositoryError) (σ := σ) .billingEvents i
    change
  cases hrow : (σ.get .billingEvents i).bind change with
  | none =>
    rw [hrow] at hrun
    exact ⟨_, _, hrun, fun t _ => SameRows.refl t σ, fun _ => rfl⟩
  | some row =>
    rw [hrow] at hrun
    refine ⟨_, _, hrun, fun t ht k => get_set_of_table_ne σ _ _ k ht, fun j => ?_⟩
    by_cases hj : j = i
    · subst hj
      obtain ⟨old, hold, -⟩ := Option.bind_eq_some_iff.mp hrow
      rw [get_set_self, hold]
      rfl
    · rw [get_set_of_key_ne σ _ hj]

/-- A new event is recorded by its insert. -/
theorem recordsEvent_set (i : String) (σ : Vault) :
    RecordsEvent i σ (Store.set σ .billingEvents i (some event)) := by
  intro j
  by_cases hj : j = i
  · subst hj
    rw [get_set_self]
    simp
  · rw [get_set_of_key_ne σ _ hj]
    simp [hj]

/-- A delivery finds its event recorded, or it leaves the row alone, or its row is refused, or
it writes its row. -/
theorem persistEvent_cases (ht : t ≠ .billingEvents) (σ : Vault) :
    (σ.get .billingEvents event.externalEventId).isSome ∧
      ((persistEvent context event now k upsert refused).transact σ).2 = σ ∨
    σ.get .billingEvents event.externalEventId = none ∧
      (upsert (σ.get t k) = none ∧
        SameRows t σ ((persistEvent context event now k upsert refused).transact σ).2 ∧
        RecordsEvent event.externalEventId σ
          ((persistEvent context event now k upsert refused).transact σ).2 ∨
      ∃ row, upsert (σ.get t k) = some row ∧
        ((∃ error, refused row (withEvent event k row σ) = some error) ∧
          ((persistEvent context event now k upsert refused).transact σ).2 = σ ∨
        refused row (withEvent event k row σ) = none ∧
          Replaces t k (some row) σ
            ((persistEvent context event now k upsert refused).transact σ).2 ∧
          RecordsEvent event.externalEventId σ
            ((persistEvent context event now k upsert refused).transact σ).2)) := by
  have hinsert := run_insertOrIgnore (S := vaultSchema) (ε := RepositoryError) (σ := σ)
    .billingEvents event.externalEventId event
  cases hevent : σ.get .billingEvents event.externalEventId with
  | some old =>
    rw [hevent] at hinsert
    refine Or.inl ⟨rfl, ?_⟩
    rw [transact, persistEvent, run_bind, hinsert]
    rfl
  | none =>
    rw [hevent] at hinsert
    let σ₁ : Vault := Store.set σ .billingEvents event.externalEventId (some event)
    have hrecords : RecordsEvent event.externalEventId σ σ₁ := recordsEvent_set _ σ
    have hrow : σ₁.get t k = σ.get t k := get_set_of_table_ne σ _ _ k ht
    have hput := run_putRow (S := vaultSchema) (ε := RepositoryError) (σ := σ₁) t k upsert
    rw [hrow] at hput
    refine Or.inr ⟨rfl, ?_⟩
    cases hupsert : upsert (σ.get t k) with
    | none =>
      rw [hupsert] at hput
      obtain ⟨result, σ₂, hmark, hothers, hevents⟩ := run_updateBillingEvent event.externalEventId
        (fun row => if context.sees row then some { row with processedAt := some now } else none) σ₁
      have hafter : ((persistEvent context event now k upsert refused).transact σ).2 = σ₂ := by
        rw [transact, persistEvent, run_bind, hinsert]
        simp only [Option.isNone_none, if_true]
        rw [run_bind, hput]
        dsimp only
        rw [run_bind, run_select]
        simp only [Option.bind_none]
        rw [run_bind, hmark]
        rfl
      rw [hafter]
      refine Or.inl ⟨rfl, ?_, fun j => ?_⟩
      · exact SameRows.trans (fun k' => get_set_of_table_ne σ _ _ k' ht) (hothers t ht)
      · rw [hevents j]
        exact hrecords j
    | some row =>
      rw [hupsert] at hput
      refine Or.inr ⟨row, rfl, ?_⟩
      let σ₂ : Vault := withEvent event k row σ
      have hput : (putRow (S := vaultSchema) (ε := RepositoryError) t k upsert).run σ₁ =
          (.ok (some row), σ₂) := hput
      cases hrefused : refused row σ₂ with
      | some error =>
        refine Or.inl ⟨⟨error, rfl⟩, ?_⟩
        rw [transact, persistEvent, run_bind, hinsert]
        simp only [Option.isNone_none, if_true]
        rw [run_bind, hput]
        dsimp only
        rw [run_bind, run_select]
        simp only [Option.bind_some, hrefused]
        rfl
      | none =>
        obtain ⟨result, σ₃, hmark, hothers, hevents⟩ := run_updateBillingEvent
          event.externalEventId
          (fun row => if context.sees row then some { row with processedAt := some now } else none)
          σ₂
        have hafter : ((persistEvent context event now k upsert refused).transact σ).2 = σ₃ := by
          rw [transact, persistEvent, run_bind, hinsert]
          simp only [Option.isNone_none, if_true]
          rw [run_bind, hput]
          dsimp only
          rw [run_bind, run_select]
          simp only [Option.bind_some, hrefused]
          rw [run_bind, hmark]
          rfl
        rw [hafter]
        have hset : Replaces (S := vaultSchema) t k (some row) σ₁ σ₂ :=
          ⟨get_set_self σ₁ t k _, fun _ hne => get_set_of_key_ne σ₁ _ hne⟩
        refine Or.inr ⟨rfl, ?_, fun j => ?_⟩
        · exact (hset.after_same (fun k' => get_set_of_table_ne σ _ _ k' ht)).then_same
            (hothers t ht)
        · rw [hevents j]
          have hsame : σ₂.get .billingEvents j = σ₁.get .billingEvents j :=
            get_set_of_table_ne σ₁ _ _ j (Ne.symm ht)
          rw [hsame]
          exact hrecords j

/-- A delivery records its event at most. -/
theorem persistEvent_recorded (ht : t ≠ .billingEvents) {σ : Vault} {i : String}
    (h : (((persistEvent context event now k upsert refused).transact σ).2.get
      .billingEvents i).isSome) :
    (σ.get .billingEvents i).isSome ∨ i = event.externalEventId := by
  rcases @persistEvent_cases _ context event now k upsert refused ht σ with
    ⟨-, hsame⟩ | ⟨-, ⟨-, -, hrecords⟩ | ⟨row, -, ⟨-, hsame⟩ | ⟨-, -, hrecords⟩⟩⟩
  · rw [hsame] at h
    exact Or.inl h
  · exact (hrecords i).mp h
  · rw [hsame] at h
    exact Or.inl h
  · exact (hrecords i).mp h

/-- A delivery forgets no event. -/
theorem persistEvent_keeps_recorded (ht : t ≠ .billingEvents) {σ : Vault} {i : String}
    (h : (σ.get .billingEvents i).isSome) :
    (((persistEvent context event now k upsert refused).transact σ).2.get
      .billingEvents i).isSome := by
  rcases @persistEvent_cases _ context event now k upsert refused ht σ with
    ⟨-, hsame⟩ | ⟨-, ⟨-, -, hrecords⟩ | ⟨row, -, ⟨-, hsame⟩ | ⟨-, -, hrecords⟩⟩⟩
  · rw [hsame]
    exact h
  · exact (hrecords i).mpr (Or.inl h)
  · rw [hsame]
    exact h
  · exact (hrecords i).mpr (Or.inl h)

/-- A delivery writes the one row, as the upsert computes it from a row that is not refused,
unless its event is recorded. -/
theorem persistEvent_rows (ht : t ≠ .billingEvents) (σ : Vault) :
    SameRows t σ ((persistEvent context event now k upsert refused).transact σ).2 ∧
      (σ.get .billingEvents event.externalEventId = none → upsert (σ.get t k) = none ∨
        ∃ row error, upsert (σ.get t k) = some row ∧
          refused row (withEvent event k row σ) = some error) ∨
    σ.get .billingEvents event.externalEventId = none ∧
      ∃ row, upsert (σ.get t k) = some row ∧ refused row (withEvent event k row σ) = none ∧
        Replaces t k (some row) σ
          ((persistEvent context event now k upsert refused).transact σ).2 := by
  rcases @persistEvent_cases _ context event now k upsert refused ht σ with
    ⟨hevent, hsame⟩ | ⟨hevent, ⟨hnone, hsame, -⟩ | ⟨row, hrow, ⟨⟨error, herror⟩, hsame⟩ |
      ⟨hadmitted, hreplaces, -⟩⟩⟩
  · refine Or.inl ⟨?_, fun hfree => ?_⟩
    · rw [hsame]
      exact SameRows.refl t σ
    · rw [hfree] at hevent
      exact absurd hevent (by simp)
  · exact Or.inl ⟨hsame, fun _ => Or.inl hnone⟩
  · refine Or.inl ⟨?_, fun _ => Or.inr ⟨row, error, hrow, herror⟩⟩
    rw [hsame]
    exact SameRows.refl t σ
  · exact Or.inr ⟨hevent, row, hrow, hadmitted, hreplaces⟩

end Persist

/-! ## Registers -/

/-- A time that may be missing, none before all. -/
def dated : Option Instant → WithBot Instant
  | none => ⊥
  | some time => time

/-- What a subscription shows of the event that wrote it. -/
structure SubscriptionContent where
  status : SubscriptionStatus
  plan : String
  providerCustomerId : Option String
  providerSubscriptionId : Option String
  currentPeriodEndsAt : Option Instant
  cancelAtPeriodEnd : Bool
  deriving DecidableEq

/-- The content of a row. -/
def SubscriptionRow.content (row : SubscriptionRow) : SubscriptionContent :=
  ⟨row.status, row.plan, row.providerCustomerId, row.providerSubscriptionId,
    row.currentPeriodEndsAt, row.cancelAtPeriodEnd⟩

/-- The content an event writes. -/
def NormalizedBillingEvent.content (event : NormalizedBillingEvent) : SubscriptionContent :=
  ⟨event.status, event.plan, some event.providerCustomerId, some event.providerSubscriptionId,
    event.currentPeriodEndsAt, event.cancelAtPeriodEnd⟩

/-- Provider time and content of a subscription. -/
def subscriptionCell : Option SubscriptionRow → WithBot Instant × Option SubscriptionContent
  | none => (⊥, none)
  | some row => (dated row.providerUpdatedAt, some row.content)

theorem upsertSubscription_eq_none {context : TenantContext} {id : Identifier}
    {event : NormalizedBillingEvent} {row : Option SubscriptionRow} :
    upsertSubscription context id event row = none ↔
      (event.providerCreatedAt : WithBot Instant) < (subscriptionCell row).1 := by
  cases row with
  | none => simp [upsertSubscription, subscriptionCell]
  | some row =>
    cases htime : row.providerUpdatedAt with
    | none => simp [upsertSubscription, subscriptionCell, dated, htime]
    | some updatedAt =>
      simp only [upsertSubscription, subscriptionCell, dated, htime, Option.all_some,
        decide_eq_true_eq, WithBot.coe_lt_coe]
      by_cases hle : updatedAt ≤ event.providerCreatedAt
      · simp [hle]
      · simp only [hle, if_false, true_iff]
        exact not_le.mp hle

theorem upsertSubscription_cell {context : TenantContext} {id : Identifier}
    {event : NormalizedBillingEvent} {before : Option SubscriptionRow} {row : SubscriptionRow}
    (h : upsertSubscription context id event before = some row) :
    subscriptionCell (some row) =
      ((event.providerCreatedAt : WithBot Instant), some event.content) := by
  cases before with
  | none =>
    obtain rfl := Option.some.inj h
    rfl
  | some old =>
    rw [upsertSubscription] at h
    split at h
    · obtain rfl := Option.some.inj h
      rfl
    · exact absurd h (by simp)

/-- The unique indexes refuse the event. -/
def providerTaken (context : TenantContext) (event : NormalizedBillingEvent) (σ : Vault) : Bool :=
  customerTaken context event σ || subscriptionTaken context event σ

/-- The subscriptions of the other tenants are the same. -/
def SameElsewhere (context : TenantContext) (σ σ' : Vault) : Prop :=
  ∀ key, key ≠ context.subscriptionKey → σ'.get .subscriptions key = σ.get .subscriptions key

/-- What the unique indexes refuse is a matter of the other tenants. -/
theorem any_scan_elsewhere {context : TenantContext} {σ σ' : Vault}
    (h : SameElsewhere context σ σ') (taken : SubscriptionRow → Bool) :
    (σ'.scan .subscriptions).any (fun entry : (Identifier × Identifier) × SubscriptionRow =>
      entry.1 != context.subscriptionKey && taken entry.2) =
    (σ.scan .subscriptions).any (fun entry : (Identifier × Identifier) × SubscriptionRow =>
      entry.1 != context.subscriptionKey && taken entry.2) := by
  rw [Bool.eq_iff_iff, List.any_eq_true, List.any_eq_true]
  constructor
  · rintro ⟨⟨key, row⟩, hmem, htaken⟩
    have hkey : key ≠ context.subscriptionKey := by simpa using (Bool.and_eq_true_iff.mp htaken).1
    exact ⟨(key, row), mem_scan.mpr ((h key hkey).symm.trans (mem_scan.mp hmem)), htaken⟩
  · rintro ⟨⟨key, row⟩, hmem, htaken⟩
    have hkey : key ≠ context.subscriptionKey := by simpa using (Bool.and_eq_true_iff.mp htaken).1
    exact ⟨(key, row), mem_scan.mpr ((h key hkey).trans (mem_scan.mp hmem)), htaken⟩

theorem SameElsewhere.providerTaken {context : TenantContext} {σ σ' : Vault}
    (h : SameElsewhere context σ σ') (event : NormalizedBillingEvent) :
    providerTaken context event σ' = providerTaken context event σ := by
  have hcustomer : customerTaken context event σ' = customerTaken context event σ :=
    any_scan_elsewhere h (fun row => row.providerCustomerId == some event.providerCustomerId)
  have hsubscription : subscriptionTaken context event σ' = subscriptionTaken context event σ :=
    any_scan_elsewhere h
      (fun row => row.providerSubscriptionId == some event.providerSubscriptionId)
  rw [LegacyVault.providerTaken, hcustomer, hsubscription]
  rfl

/-- A subscription is refused when the unique indexes refuse the event. -/
theorem isSome_subscriptionRefusal (context : TenantContext) (event : NormalizedBillingEvent)
    (σ : Vault) : (subscriptionRefusal context event σ).isSome = providerTaken context event σ := by
  rw [providerTaken, subscriptionRefusal]
  cases customerTaken context event σ <;> cases subscriptionTaken context event σ <;> rfl

/-- Recording an event and writing its row concerns no other tenant. -/
theorem sameElsewhere_withEvent (context : TenantContext) (event : BillingEventRow)
    (row : SubscriptionRow) (σ : Vault) : SameElsewhere context σ
      (withEvent (t := .subscriptions) event context.subscriptionKey row σ) := by
  intro key hkey
  rw [withEvent, get_set_of_key_ne _ _ hkey]
  exact @get_set_of_table_ne vaultSchema σ .billingEvents .subscriptions _ _ key (by decide)

/-- What comes of a delivery: its event is recorded, older or refused and leaves the subscription
alone, or it writes the subscription. -/
theorem processBillingEvent_cell (context : TenantContext)
    (delivery : BillingDelivery NormalizedBillingEvent) (σ : Vault) :
    SameElsewhere context σ ((processBillingEvent context delivery).transact σ).2 ∧
      (((processBillingEvent context delivery).transact σ).2.get .subscriptions
          context.subscriptionKey = σ.get .subscriptions context.subscriptionKey ∧
        ((σ.get .billingEvents delivery.event.externalEventId).isSome ∨
          (delivery.event.providerCreatedAt : WithBot Instant) <
            (subscriptionCell (σ.get .subscriptions context.subscriptionKey)).1 ∨
          providerTaken context delivery.event σ = true) ∨
      σ.get .billingEvents delivery.event.externalEventId = none ∧
        providerTaken context delivery.event σ = false ∧
        (subscriptionCell (σ.get .subscriptions context.subscriptionKey)).1 ≤
          delivery.event.providerCreatedAt ∧
        subscriptionCell (((processBillingEvent context delivery).transact σ).2.get
          .subscriptions context.subscriptionKey) =
          ((delivery.event.providerCreatedAt : WithBot Instant),
            some delivery.event.content)) := by
  have hrefusal : ∀ (event : BillingEventRow) (row : SubscriptionRow),
      (subscriptionRefusal context delivery.event
        (withEvent (t := .subscriptions) event context.subscriptionKey row σ)).isSome =
      providerTaken context delivery.event σ := by
    intro event row
    rw [isSome_subscriptionRefusal]
    exact (sameElsewhere_withEvent context event row σ).providerTaken delivery.event
  rcases persistEvent_rows (t := .subscriptions) (by decide) σ with
    ⟨hsame, hleft⟩ | ⟨hevent, row, hrow, hadmitted, hreplaces⟩
  · refine ⟨fun key _ => hsame key, Or.inl ⟨hsame context.subscriptionKey, ?_⟩⟩
    cases hevent : σ.get .billingEvents delivery.event.externalEventId with
    | some old => exact Or.inl rfl
    | none =>
      rcases hleft hevent with hnone | ⟨row, error, -, herror⟩
      · exact Or.inr (Or.inl (upsertSubscription_eq_none.mp hnone))
      · have htaken := (hrefusal _ row).symm.trans (congrArg Option.isSome herror)
        exact Or.inr (Or.inr htaken)
  · have hfree := (hrefusal _ row).symm.trans (congrArg Option.isSome hadmitted)
    have hwritten := congrArg subscriptionCell hreplaces.row
    have htime : (subscriptionCell (σ.get .subscriptions context.subscriptionKey)).1 ≤
        delivery.event.providerCreatedAt := by
      by_contra hlater
      have hnone := (@upsertSubscription_eq_none context delivery.rowId _ _).mpr
        (not_le.mp hlater)
      exact absurd (hrow.symm.trans hnone) (by simp)
    exact ⟨hreplaces.others,
      Or.inr ⟨hevent, hfree, htime, hwritten.trans (upsertSubscription_cell hrow)⟩⟩

/-- What an event writes to the subscription, unless the unique indexes refuse it. -/
def subscriptionWrite (context : TenantContext) (init : Vault) (event : NormalizedBillingEvent) :
    Option (Instant × Option SubscriptionContent) :=
  if providerTaken context event init then none
  else some (event.providerCreatedAt, some event.content)

theorem subscriptionWrite_eq_some {context : TenantContext} {init : Vault}
    {event : NormalizedBillingEvent} {w : Instant × Option SubscriptionContent}
    (h : subscriptionWrite context init event = some w) :
    providerTaken context event init = false ∧
      (event.providerCreatedAt, some event.content) = w := by
  rw [subscriptionWrite] at h
  split at h
  · exact absurd h (by simp)
  · rename_i hfree
    exact ⟨Bool.eq_false_of_not_eq_true hfree, Option.some.inj h⟩

/-- The subscription of a tenant, among deliveries to that tenant. -/
def subscriptionRegister (context : TenantContext) (init : Vault) :
    LatestWrite Vault (BillingDelivery NormalizedBillingEvent) NormalizedBillingEvent String
      Instant (Option SubscriptionContent) where
  step σ delivery := ((processBillingEvent context delivery).transact σ).2
  event := BillingDelivery.event
  id := NormalizedBillingEvent.externalEventId
  write := subscriptionWrite context init
  recorded σ i := (σ.get .billingEvents i).isSome
  cell σ := subscriptionCell (σ.get .subscriptions context.subscriptionKey)
  Valid σ := SameElsewhere context init σ
  delivered event := ⟨⟨event, "", "", 0⟩, rfl⟩
  valid_step := by
    intro σ delivery hvalid key hkey
    have hsame := (processBillingEvent_cell context delivery σ).1 key hkey
    exact hsame.trans (hvalid key hkey)
  recorded_step := fun delivery i _ h =>
    persistEvent_recorded (t := .subscriptions) (by decide) h
  recorded_mono := fun delivery i _ h =>
    persistEvent_keeps_recorded (t := .subscriptions) (by decide) h
  other := by
    intro σ delivery hvalid hother
    rcases (processBillingEvent_cell context delivery σ).2 with ⟨hsame, -⟩ | ⟨-, hfree, -⟩
    · exact congrArg subscriptionCell hsame
    · rw [hvalid.providerTaken] at hfree
      exact absurd hother (by simp [subscriptionWrite, hfree])
  duplicate := by
    intro σ delivery hvalid hrecorded
    rcases (processBillingEvent_cell context delivery σ).2 with ⟨hsame, -⟩ | ⟨hnew, -⟩
    · exact congrArg subscriptionCell hsame
    · rw [hnew] at hrecorded
      exact absurd hrecorded (by simp)
  newer := by
    intro σ delivery w hvalid hwrite hnew htime
    obtain ⟨hfree, rfl⟩ := subscriptionWrite_eq_some hwrite
    rcases (processBillingEvent_cell context delivery σ).2 with
      ⟨-, hrecorded | holder | htaken⟩ | ⟨-, -, -, hcell⟩
    · exact absurd hrecorded hnew
    · exact absurd htime (not_le.mpr holder)
    · rw [hvalid.providerTaken, hfree] at htaken
      exact absurd htaken (by simp)
    · exact hcell
  older := by
    intro σ delivery w hvalid hwrite hnew htime
    obtain ⟨-, rfl⟩ := subscriptionWrite_eq_some hwrite
    rcases (processBillingEvent_cell context delivery σ).2 with ⟨hsame, -⟩ | ⟨-, -, hle, -⟩
    · exact congrArg subscriptionCell hsame
    · exact absurd hle (not_le.mpr htime)

/-- What a refund shows of the event that wrote it. -/
structure RefundContent where
  providerChargeId : Option String
  amount : Nat
  currency : String
  reason : Option String
  status : RefundStatus
  deriving DecidableEq

/-- The content of a row. -/
def BillingRefundRow.content (row : BillingRefundRow) : RefundContent :=
  ⟨row.providerChargeId, row.amount, row.currency, row.reason, row.status⟩

/-- The content an event writes. -/
def NormalizedRefundEvent.content (event : NormalizedRefundEvent) : RefundContent :=
  ⟨event.providerChargeId, event.amount, event.currency, event.reason, event.status⟩

/-- Provider time and content of a refund. -/
def refundCell : Option BillingRefundRow → WithBot Instant × Option RefundContent
  | none => (⊥, none)
  | some row => (row.providerUpdatedAt, some row.content)

theorem upsertRefund_eq_none {context : TenantContext} {id : Identifier}
    {event : NormalizedRefundEvent} {row : Option BillingRefundRow} :
    upsertRefund context id event row = none ↔
      (event.providerUpdatedAt : WithBot Instant) < (refundCell row).1 := by
  cases row with
  | none => simp [upsertRefund, refundCell]
  | some row =>
    simp only [upsertRefund, refundCell, WithBot.coe_lt_coe]
    by_cases hle : row.providerUpdatedAt ≤ event.providerUpdatedAt
    · simp [hle]
    · simp only [hle, if_false, true_iff]
      exact not_le.mp hle

theorem upsertRefund_cell {context : TenantContext} {id : Identifier}
    {event : NormalizedRefundEvent} {before : Option BillingRefundRow} {row : BillingRefundRow}
    (h : upsertRefund context id event before = some row) :
    refundCell (some row) = ((event.providerUpdatedAt : WithBot Instant), some event.content) := by
  cases before with
  | none =>
    obtain rfl := Option.some.inj h
    rfl
  | some old =>
    rw [upsertRefund] at h
    split at h
    · obtain rfl := Option.some.inj h
      rfl
    · exact absurd h (by simp)

/-- The refund is another tenant's. -/
def foreignRefund (context : TenantContext) (row : Option BillingRefundRow) : Bool :=
  row.any (fun row => !context.sees row)

/-- An upsert makes no refund of one tenant another's. -/
theorem upsertRefund_sees {context : TenantContext} {id : Identifier}
    {event : NormalizedRefundEvent} {before : Option BillingRefundRow} {row : BillingRefundRow}
    (h : upsertRefund context id event before = some row) :
    context.sees row = !foreignRefund context before := by
  cases before with
  | none =>
    obtain rfl := Option.some.inj h
    simp [foreignRefund, TenantContext.sees, TenantRow.organizationOf, TenantRow.householdOf]
  | some old =>
    rw [upsertRefund] at h
    split at h
    · obtain rfl := Option.some.inj h
      simp [foreignRefund, TenantContext.sees, TenantRow.organizationOf, TenantRow.householdOf]
    · exact absurd h (by simp)

/-- What comes of a delivery: its event is recorded, older or of another tenant's refund and
leaves all refunds alone, or it writes its refund. -/
theorem processRefundEvent_cell (context : TenantContext)
    (delivery : BillingDelivery NormalizedRefundEvent) (σ : Vault) :
    SameRows (S := vaultSchema) .billingRefunds σ
        ((processRefundEvent context delivery).transact σ).2 ∧
      ((σ.get .billingEvents delivery.event.externalEventId).isSome ∨
        (delivery.event.providerUpdatedAt : WithBot Instant) <
          (refundCell (σ.get .billingRefunds delivery.event.providerRefundId)).1 ∨
        foreignRefund context (σ.get .billingRefunds delivery.event.providerRefundId) = true) ∨
    σ.get .billingEvents delivery.event.externalEventId = none ∧
      foreignRefund context (σ.get .billingRefunds delivery.event.providerRefundId) = false ∧
      (refundCell (σ.get .billingRefunds delivery.event.providerRefundId)).1 ≤
        delivery.event.providerUpdatedAt ∧
      ∃ row : BillingRefundRow, context.sees row = true ∧
        refundCell (some row) =
          ((delivery.event.providerUpdatedAt : WithBot Instant), some delivery.event.content) ∧
        Replaces (S := vaultSchema) .billingRefunds delivery.event.providerRefundId (some row) σ
          ((processRefundEvent context delivery).transact σ).2 := by
  rcases persistEvent_rows (t := .billingRefunds) (by decide) σ with
    ⟨hsame, hleft⟩ | ⟨hevent, row, hrow, hadmitted, hreplaces⟩
  · refine Or.inl ⟨hsame, ?_⟩
    cases hevent : σ.get .billingEvents delivery.event.externalEventId with
    | some old => exact Or.inl rfl
    | none =>
      rcases hleft hevent with hnone | ⟨row, error, hrow, herror⟩
      · exact Or.inr (Or.inl (upsertRefund_eq_none.mp hnone))
      · have hsees := upsertRefund_sees hrow
        cases hforeign : foreignRefund context
            (σ.get .billingRefunds delivery.event.providerRefundId) with
        | true => exact Or.inr (Or.inr rfl)
        | false =>
          rw [hforeign] at hsees
          exact absurd herror (by simp [hsees])
  · have hsees : context.sees row = true := by
      by_contra hforeign
      exact absurd hadmitted (by simp [hforeign])
    have hown : foreignRefund context
        (σ.get .billingRefunds delivery.event.providerRefundId) = false := by
      have hsame := upsertRefund_sees hrow
      rw [hsees] at hsame
      simpa using hsame.symm
    have htime : (refundCell (σ.get .billingRefunds delivery.event.providerRefundId)).1 ≤
        delivery.event.providerUpdatedAt := by
      by_contra hlater
      have hnone := (@upsertRefund_eq_none context delivery.rowId _ _).mpr
        (not_le.mp hlater)
      exact absurd (hrow.symm.trans hnone) (by simp)
    exact Or.inr ⟨hevent, hown, htime, row, hsees, upsertRefund_cell hrow, hreplaces⟩

/-- What an event writes to a refund, unless it is another refund or another tenant's. -/
def refundWrite (context : TenantContext) (refundId : String) (init : Vault)
    (event : NormalizedRefundEvent) : Option (Instant × Option RefundContent) :=
  if event.providerRefundId ≠ refundId ∨
      foreignRefund context (init.get .billingRefunds refundId) then none
  else some (event.providerUpdatedAt, some event.content)

theorem refundWrite_eq_some {context : TenantContext} {refundId : String} {init : Vault}
    {event : NormalizedRefundEvent} {w : Instant × Option RefundContent}
    (h : refundWrite context refundId init event = some w) :
    event.providerRefundId = refundId ∧
      foreignRefund context (init.get .billingRefunds refundId) = false ∧
      (event.providerUpdatedAt, some event.content) = w := by
  rw [refundWrite] at h
  split at h
  · exact absurd h (by simp)
  · rename_i hboth
    rw [not_or, not_not] at hboth
    exact ⟨hboth.1, Bool.eq_false_of_not_eq_true hboth.2, Option.some.inj h⟩

/-- The refund with an id, among deliveries to one tenant. -/
def refundRegister (context : TenantContext) (refundId : String) (init : Vault) :
    LatestWrite Vault (BillingDelivery NormalizedRefundEvent) NormalizedRefundEvent String
      Instant (Option RefundContent) where
  step σ delivery := ((processRefundEvent context delivery).transact σ).2
  event := BillingDelivery.event
  id := NormalizedRefundEvent.externalEventId
  write := refundWrite context refundId init
  recorded σ i := (σ.get .billingEvents i).isSome
  cell σ := refundCell (σ.get .billingRefunds refundId)
  Valid σ := foreignRefund context (σ.get .billingRefunds refundId) =
    foreignRefund context (init.get .billingRefunds refundId)
  delivered event := ⟨⟨event, "", "", 0⟩, rfl⟩
  valid_step := by
    intro σ delivery hvalid
    rcases processRefundEvent_cell context delivery σ with
      ⟨hsame, -⟩ | ⟨-, hown, -, row, hsees, -, hreplaces⟩
    · rw [hsame refundId]
      exact hvalid
    · rcases hreplaces.get_cases refundId with ⟨rfl, hrow⟩ | ⟨-, hold⟩
      · rw [hrow, ← hvalid, hown]
        simp [foreignRefund, hsees]
      · rw [hold]
        exact hvalid
  recorded_step := fun delivery i _ h =>
    persistEvent_recorded (t := .billingRefunds) (by decide) h
  recorded_mono := fun delivery i _ h =>
    persistEvent_keeps_recorded (t := .billingRefunds) (by decide) h
  other := by
    intro σ delivery hvalid hother
    rcases processRefundEvent_cell context delivery σ with
      ⟨hsame, -⟩ | ⟨-, hown, -, row, -, -, hreplaces⟩
    · exact congrArg refundCell (hsame refundId)
    · rcases hreplaces.get_cases refundId with ⟨rfl, -⟩ | ⟨-, hold⟩
      · rw [hvalid] at hown
        exact absurd hother (by simp [refundWrite, hown])
      · exact congrArg refundCell hold
  duplicate := by
    intro σ delivery hvalid hrecorded
    rcases processRefundEvent_cell context delivery σ with ⟨hsame, -⟩ | ⟨hnew, -⟩
    · exact congrArg refundCell (hsame refundId)
    · rw [hnew] at hrecorded
      exact absurd hrecorded (by simp)
  newer := by
    intro σ delivery w hvalid hwrite hnew htime
    obtain ⟨rfl, hown, rfl⟩ := refundWrite_eq_some hwrite
    rcases processRefundEvent_cell context delivery σ with
      ⟨-, hrecorded | holder | hforeign⟩ | ⟨-, -, -, row, -, hcell, hreplaces⟩
    · exact absurd hrecorded hnew
    · exact absurd htime (not_le.mpr holder)
    · rw [hvalid, hown] at hforeign
      exact absurd hforeign (by simp)
    · rw [hreplaces.row]
      exact hcell
  older := by
    intro σ delivery w hvalid hwrite hnew htime
    obtain ⟨rfl, -, rfl⟩ := refundWrite_eq_some hwrite
    rcases processRefundEvent_cell context delivery σ with ⟨hsame, -⟩ | ⟨-, -, hle, -⟩
    · exact congrArg refundCell (hsame _)
    · exact absurd hle (not_le.mpr htime)

end LegacyVault
