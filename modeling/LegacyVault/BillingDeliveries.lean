import LegacyVault.Consents
import LegacyVault.Library.SeenStores
import LegacyVault.StripeWebhooks

/-!
# Deliveries of Stripe events

Deliveries to the webhook route interleave with each other, with the events
that Stripe signs and with any transactions on other tables. Anybody may make a
delivery, of any payload and any header; nobody but Stripe computes a digest of
the webhook secret.

A row is what the latest of the processed events says, and every processed
event was signed by Stripe for the tenant whose row it is.
-/

namespace LegacyVault

open Buffers EcmaValues JsonText RowTransaction RowTransaction.Program RowTransaction.Protocol Store

/-! ## The calls -/

/-- A delivery to the webhook route, and what is generated for it. -/
structure WebhookDelivery where
  payload : Bytes
  signatureHeader : String
  nowSeconds : Int
  billingEventId : Identifier
  rowId : Identifier
  now : Instant

/-- What the route replies. -/
inductive WebhookReply where
  | invalid
  | ignored
  | received (outcome : BillingOutcome)

/-- A transaction that writes no subscription, refund or billing event. -/
structure OutsideBilling where
  transaction : Transaction Unit
  subscriptions : transaction.Leaves VaultTable.subscriptions
  refunds : transaction.Leaves VaultTable.billingRefunds
  events : transaction.Leaves VaultTable.billingEvents

/-- What happens to billing. -/
inductive WebhookCall where
  /-- Stripe signs a payload. -/
  | sign (timestamp : Int) (payload : Bytes)
  | deliver (delivery : WebhookDelivery)
  | other (transaction : OutsideBilling)

/-- How a call has ended. -/
abbrev WebhookEntry := Entry WebhookCall RepositoryError (Option WebhookReply)

/-- The call of the repository for an event. -/
def BillingCall.process (delivery : WebhookDelivery) : BillingCall → Transaction BillingOutcome
  | .subscription context event => processBillingEvent context
      ⟨event, delivery.billingEventId, delivery.rowId, delivery.now⟩
  | .refund context event => processRefundEvent context
      ⟨event, delivery.billingEventId, delivery.rowId, delivery.now⟩

/-- What the route makes of a delivery. -/
def WebhookDelivery.receivedBy (delivery : WebhookDelivery) (adapter : StripeAdapter) :
    Except String (Option BillingCall) :=
  adapter.receive delivery.payload delivery.signatureHeader delivery.nowSeconds

/-- The transaction of a call. -/
def webhookProgram (adapter : StripeAdapter) : WebhookCall → Transaction (Option WebhookReply)
  | .sign _ _ => pure none
  | .deliver delivery =>
    match delivery.receivedBy adapter with
    | .error _ => pure (some .invalid)
    | .ok none => pure (some .ignored)
    | .ok (some call) => do
      let outcome ← call.process delivery
      pure (some (.received outcome))
  | .other outside => do
    outside.transaction
    pure none

/-- Stripe has signed the payload. -/
def Signed (log : List WebhookEntry) (timestamp : Int) (payload : Bytes) : Prop :=
  ⟨.sign timestamp payload, .committed none⟩ ∈ log

/-- A digest in the header that is one of the payload was computed by Stripe. -/
def WebhookCall.Unforged (adapter : StripeAdapter) (log : List WebhookEntry) :
    WebhookCall → Prop
  | .deliver delivery => ∀ timestamp,
    adapter.hmac adapter.webhookSecret (signedPayload timestamp delivery.payload) ∈
      headerSignatures delivery.signatureHeader →
    ∃ timestamp' payload', Signed log timestamp' payload' ∧
      signedPayload timestamp' payload' = signedPayload timestamp delivery.payload
  | _ => True

/-- Deliveries and events as a protocol. -/
abbrev webhookProtocol (adapter : StripeAdapter) : Protocol vaultSchema where
  Request := WebhookCall
  Error := RepositoryError
  Result := Option WebhookReply
  program := webhookProgram adapter
  permitted := WebhookCall.Unforged adapter

/-! ## Processed events -/

/-- The event that a delivery has processed. -/
def processedCall (adapter : StripeAdapter) : WebhookEntry → Option (BillingCall × BillingOutcome)
  | ⟨.deliver delivery, .committed (some (.received outcome))⟩ =>
    if outcome = .duplicate then none
    else match delivery.receivedBy adapter with
      | .ok (some call) => some (call, outcome)
      | _ => none
  | _ => none

/-- The events that were processed, the last one first. -/
def processedCalls (adapter : StripeAdapter) (log : List WebhookEntry) :
    List (BillingCall × BillingOutcome) := log.filterMap (processedCall adapter)

/-- The provider time of an event. -/
def BillingCall.providerTime : BillingCall → Instant
  | subscription _ event => event.providerCreatedAt
  | refund _ event => event.providerUpdatedAt

/-- The subscription that an event is about. -/
def BillingCall.subscriptionKey : BillingCall → Option (Identifier × Identifier)
  | subscription context _ => some context.subscriptionKey
  | refund _ _ => none

/-- The refund that an event is about. -/
def BillingCall.refundKey : BillingCall → Option String
  | subscription _ _ => none
  | refund _ event => some event.providerRefundId

/-- The row is the tenant's, and says what the event does. -/
structure SubscriptionRow.WrittenBy (row : SubscriptionRow) (context : TenantContext)
    (event : NormalizedBillingEvent) : Prop where
  organization : row.organizationId = context.organizationId
  household : row.householdId = context.householdId
  content : row.content = event.content
  updated : row.providerUpdatedAt = some event.providerCreatedAt
  trial : row.trialEndsAt = event.trialEndsAt
  canceled : row.canceledAt = event.canceledAt

/-- The row is the tenant's, and says what the event does. -/
structure BillingRefundRow.WrittenBy (row : BillingRefundRow) (context : TenantContext)
    (event : NormalizedRefundEvent) : Prop where
  organization : row.organizationId = context.organizationId
  household : row.householdId = context.householdId
  content : row.content = event.content
  updated : row.providerUpdatedAt = event.providerUpdatedAt

/-- A subscription that a call has written. -/
def BillingCall.WritesSubscription : BillingCall → SubscriptionRow → Prop
  | subscription context event, row => row.WrittenBy context event
  | refund _ _, _ => False

/-- A refund that a call has written. -/
def BillingCall.WritesRefund : BillingCall → BillingRefundRow → Prop
  | subscription _ _, _ => False
  | refund context event, row => row.WrittenBy context event

/-! ## Rows of the latest events -/

section Latest

variable {t : VaultTable} (time : t.Row → WithBot Instant) (key : BillingCall → Option t.Key)
  (Writes : BillingCall → t.Row → Prop)

/-- The rows are those of the latest events. -/
structure Latest (calls : List (BillingCall × BillingOutcome)) (σ : Vault) : Prop where
  written : ∀ (k : t.Key) (row : t.Row), σ.get t k = some row →
    ∃ call, (call, .applied) ∈ calls ∧ key call = some k ∧ Writes call row
  newest : ∀ call outcome k, (call, outcome) ∈ calls → key call = some k →
    ∃ row : t.Row, σ.get t k = some row ∧ call.providerTime ≤ time row

/-- Rows are kept, or replaced by later ones. -/
def RowsAdvance (σ σ' : Vault) : Prop :=
  ∀ (k : t.Key) (row : t.Row), σ.get t k = some row →
    ∃ row' : t.Row, σ'.get t k = some row' ∧ time row ≤ time row'

variable {time key Writes} {σ σ' : Vault} {calls : List (BillingCall × BillingOutcome)}

theorem RowsAdvance.of_same (hsame : SameRows (S := vaultSchema) t σ σ') :
    RowsAdvance time σ σ' :=
  fun k row hrow => ⟨row, (hsame k).trans hrow, le_refl _⟩

theorem RowsAdvance.trans {σ₁ σ₂ σ₃ : Vault} (h : RowsAdvance time σ₁ σ₂)
    (h' : RowsAdvance time σ₂ σ₃) : RowsAdvance time σ₁ σ₃ := by
  intro k row hrow
  obtain ⟨row₂, hrow₂, hle⟩ := h k row hrow
  obtain ⟨row₃, hrow₃, hle'⟩ := h' k row₂ hrow₂
  exact ⟨row₃, hrow₃, hle.trans hle'⟩

/-- A row that is not older replaces another. -/
theorem RowsAdvance.of_replaces {k : t.Key} {row : t.Row}
    (hreplaces : Replaces (S := vaultSchema) t k (some row) σ σ')
    (hlater : ∀ old : t.Row, σ.get t k = some old → time old ≤ time row) :
    RowsAdvance time σ σ' := by
  intro k' old hold
  by_cases hk : k' = k
  · subst hk
    exact ⟨row, hreplaces.row, hlater old hold⟩
  · exact ⟨old, (hreplaces.others k' hk).trans hold, le_refl _⟩

/-- Rows that stay are those of the latest events. -/
theorem Latest.same (h : Latest time key Writes calls σ)
    (hsame : SameRows (S := vaultSchema) t σ σ') : Latest time key Writes calls σ' where
  written := fun k row hrow => h.written k row ((hsame k).symm.trans hrow)
  newest := by
    intro call outcome k hmem hkey
    obtain ⟨row, hrow, hle⟩ := h.newest call outcome k hmem hkey
    exact ⟨row, (hsame k).trans hrow, hle⟩

/-- An event that writes nothing is older than its row, or about none. -/
theorem Latest.left (h : Latest time key Writes calls σ)
    (hsame : SameRows (S := vaultSchema) t σ σ') (call : BillingCall) (outcome : BillingOutcome)
    (holder : ∀ k, key call = some k →
      ∃ row : t.Row, σ.get t k = some row ∧ call.providerTime ≤ time row) :
    Latest time key Writes ((call, outcome) :: calls) σ' where
  written := by
    intro k row hrow
    obtain ⟨other, hmem, hother⟩ := (h.same hsame).written k row hrow
    exact ⟨other, List.mem_cons_of_mem _ hmem, hother⟩
  newest := by
    intro other outcome' k hmem hkey
    rcases List.mem_cons.mp hmem with heq | hbefore
    · obtain ⟨rfl, rfl⟩ := Prod.mk.inj heq
      obtain ⟨row, hrow, hle⟩ := holder k hkey
      exact ⟨row, (hsame k).trans hrow, hle⟩
    · exact (h.same hsame).newest other outcome' k hbefore hkey

/-- An event that is not older than its row writes it. -/
theorem Latest.applied (h : Latest time key Writes calls σ) {call : BillingCall} {k : t.Key}
    {row : t.Row} (hkey : key call = some k) (hwrites : Writes call row)
    (htime : time row = call.providerTime)
    (hreplaces : Replaces (S := vaultSchema) t k (some row) σ σ')
    (hlater : ∀ old : t.Row, σ.get t k = some old → time old ≤ time row) :
    Latest time key Writes ((call, .applied) :: calls) σ' where
  written := by
    intro k' row' hrow'
    by_cases hk : k' = k
    · subst hk
      obtain rfl := Option.some.inj (hreplaces.row.symm.trans hrow')
      exact ⟨call, List.mem_cons_self, hkey, hwrites⟩
    · obtain ⟨other, hmem, hother⟩ := h.written k' row' ((hreplaces.others k' hk).symm.trans hrow')
      exact ⟨other, List.mem_cons_of_mem _ hmem, hother⟩
  newest := by
    intro other outcome k' hmem hkey'
    rcases List.mem_cons.mp hmem with heq | hbefore
    · obtain ⟨rfl, -⟩ := Prod.mk.inj heq
      obtain rfl := Option.some.inj (hkey.symm.trans hkey')
      exact ⟨row, hreplaces.row, htime.ge⟩
    · obtain ⟨old, hold, hle⟩ := h.newest other outcome k' hbefore hkey'
      obtain ⟨row', hrow', hle'⟩ := RowsAdvance.of_replaces hreplaces hlater k' old hold
      exact ⟨row', hrow', hle.trans hle'⟩

end Latest

/-! ## What a delivery does -/

section Deliveries

variable {seen : Vault → Prop} {σ σ' : Vault} {ws : List (Write vaultSchema)}
  {outcome : BillingOutcome}

/-- What comes of an event that was not recorded: it is recorded now, and its row is written, or
left alone because it was later at some moment. -/
structure PersistedAs {t : VaultTable} (seen : Vault → Prop) (k : t.Key)
    (upsert : Option t.Row → Option t.Row) (refused : t.Row → Vault → Option RepositoryError)
    (i : String) (outcome : BillingOutcome) (σ σ' : Vault) : Prop where
  fresh : σ.get .billingEvents i = none
  recorded : ∃ event : BillingEventRow,
    Replaces (S := vaultSchema) .billingEvents i (some event) σ σ'
  others : ∀ t', t' ≠ t → t' ≠ .billingEvents → SameRows (S := vaultSchema) t' σ σ'
  row : (outcome = .stale ∧ SameRows (S := vaultSchema) t σ σ' ∧
      ∃ σ₀, seen σ₀ ∧ upsert (σ₀.get t k) = none) ∨
    (outcome = .applied ∧ ∃ row, upsert (σ.get t k) = some row ∧
      Replaces (S := vaultSchema) t k (some row) σ σ' ∧ ∃ σ₁, refused row σ₁ = none)

/-- Marking the event writes no other row. -/
theorem executes_markProcessed {i : String} {change : BillingEventRow → Option BillingEventRow}
    {marked : Option BillingEventRow} {event : BillingEventRow} {ws₁ : List (Write vaultSchema)}
    (h : (updateRow (S := vaultSchema) (ε := RepositoryError) .billingEvents i change).Executes
      seen σ ws (.ok marked) ws₁)
    (hevent : Replaces (S := vaultSchema) .billingEvents i (some event) σ (σ.overlay ws)) :
    (∃ event : BillingEventRow,
      Replaces (S := vaultSchema) .billingEvents i (some event) σ (σ.overlay ws₁)) ∧
      ∀ t', t' ≠ .billingEvents →
        SameRows (S := vaultSchema) t' (σ.overlay ws) (σ.overlay ws₁) := by
  rcases executes_updateRow.mp h with ⟨_, row, -, -, -, rfl⟩ | ⟨_, _, _, _, rfl⟩
  · exact ⟨⟨row, hevent.rewrite⟩, fun t' ht' => sameRows_overlay_cons σ _ _ ws ht'⟩
  · exact ⟨⟨event, hevent⟩, fun t' _ => SameRows.refl t' _⟩

/-- An event that was recorded at some moment is left alone; another is persisted. -/
theorem executes_persistEvent {t : VaultTable} (ht : t ≠ .billingEvents) {context : TenantContext}
    {event : BillingEventRow} {now : Instant} {k : t.Key} {upsert : Option t.Row → Option t.Row}
    {refused : t.Row → Vault → Option RepositoryError}
    (h : (persistEvent context event now k upsert refused).Executes seen σ [] (.ok outcome) ws) :
    (outcome = .duplicate ∧ ws = []) ∨
      PersistedAs seen k upsert refused event.externalEventId outcome σ (σ.overlay ws) := by
  obtain ⟨inserted, ws₁, hinsert, hrest⟩ := executes_bind_ok.mp h
  rcases executes_insertOrIgnore.mp hinsert with ⟨hfree, hout, rfl⟩ | ⟨_, _, _, _, hout, rfl⟩
  · obtain rfl := Except.ok.inj hout
    obtain ⟨written, ws₂, hput, hrest⟩ := executes_bind_ok.mp hrest
    obtain ⟨refusal, ws₃, ⟨σ₁, -, hrefusal, rfl⟩, hrest⟩ := executes_bind_ok.mp hrest
    obtain rfl := Except.ok.inj hrefusal
    have hinserted : Replaces (S := vaultSchema) .billingEvents event.externalEventId (some event) σ
        (σ.overlay [⟨.billingEvents, event.externalEventId, some event⟩]) := replaces_write σ
    have hrow : ∀ σ₀ : Vault,
        (σ₀.overlay [⟨.billingEvents, event.externalEventId, some event⟩]).get t k = σ₀.get t k :=
      fun σ₀ => sameRows_write σ₀ ht k
    have hbefore : SameRows (S := vaultSchema) t σ
        (σ.overlay [⟨.billingEvents, event.externalEventId, some event⟩]) := fun k' =>
      sameRows_write σ ht k'
    rcases executes_putRow.mp hput with
      ⟨row, hupsert, hwritten, rfl⟩ | ⟨σ₀, h₀, hupsert, hwritten, rfl⟩
    · obtain rfl := Except.ok.inj hwritten
      simp only [Option.bind_some] at hrest
      cases hrefused : refused row (σ₁.overlay _) with
      | some error =>
        rw [hrefused] at hrest
        exact absurd hrest.1 (by simp)
      | none =>
        rw [hrefused] at hrest
        obtain ⟨marked, ws₄, hmark, hend⟩ := executes_bind_ok.mp hrest
        obtain ⟨houtcome, rfl⟩ := hend
        obtain ⟨hrecorded, hothers⟩ := executes_markProcessed hmark
          (hinserted.writeOther (Ne.symm ht))
        refine Or.inr ⟨hfree, hrecorded, fun t' ht' hevents => ?_, Or.inr ⟨Except.ok.inj houtcome,
          row, (hrow σ) ▸ hupsert, hbefore.write.then_same (hothers t ht), _, hrefused⟩⟩
        exact ((sameRows_write σ hevents).writeOther ht').trans (hothers t' hevents)
    · obtain rfl := Except.ok.inj hwritten
      obtain ⟨marked, ws₄, hmark, hend⟩ := executes_bind_ok.mp hrest
      obtain ⟨houtcome, rfl⟩ := hend
      obtain ⟨hrecorded, hothers⟩ := executes_markProcessed hmark hinserted
      refine Or.inr ⟨hfree, hrecorded, fun t' _ hevents => ?_, Or.inl ⟨Except.ok.inj houtcome,
        hbefore.trans (hothers t ht), σ₀, h₀, (hrow σ₀) ▸ hupsert⟩⟩
      exact (sameRows_write σ hevents).trans (hothers t' hevents)
  · obtain rfl := Except.ok.inj hout
    obtain ⟨houtcome, rfl⟩ := hrest
    exact Or.inl ⟨Except.ok.inj houtcome, rfl⟩

/-! ## The state of billing -/

/-- The provider time of a subscription. -/
def subscriptionTime (row : SubscriptionRow) : WithBot Instant := dated row.providerUpdatedAt

/-- The provider time of a refund. -/
def refundTime (row : BillingRefundRow) : WithBot Instant := row.providerUpdatedAt

/-- The events that were processed are recorded, each once, and the rows are those of the latest
of them. -/
structure BillingRows (calls : List (BillingCall × BillingOutcome)) (σ : Vault) : Prop where
  recorded : ∀ i, (σ.get .billingEvents i).isSome ↔ i ∈ calls.map (·.1.externalEventId)
  once : (calls.map (·.1.externalEventId)).Nodup
  subscriptions : Latest (t := .subscriptions) subscriptionTime BillingCall.subscriptionKey
    BillingCall.WritesSubscription calls σ
  refunds : Latest (t := .billingRefunds) refundTime BillingCall.refundKey
    BillingCall.WritesRefund calls σ

/-- Subscriptions and refunds are kept, or replaced by later ones. -/
structure BillingAdvances (σ σ' : Vault) : Prop where
  subscriptions : RowsAdvance (t := .subscriptions) subscriptionTime σ σ'
  refunds : RowsAdvance (t := .billingRefunds) refundTime σ σ'

variable {calls : List (BillingCall × BillingOutcome)}

/-- An upsert writes what the event says to the tenant's row, which was not later. -/
theorem upsertSubscription_writes {context : TenantContext} {id : Identifier}
    {event : NormalizedBillingEvent} {before : Option SubscriptionRow} {row : SubscriptionRow}
    (h : upsertSubscription context id event before = some row)
    (htenant : ∀ old, before = some old → old.organizationId = context.organizationId ∧
      old.householdId = context.householdId) :
    row.WrittenBy context event ∧
      ∀ old, before = some old → subscriptionTime old ≤ subscriptionTime row := by
  have hlater : ∀ old, before = some old → subscriptionTime old ≤ subscriptionTime row := by
    intro old hold
    by_contra hearlier
    have htime : subscriptionTime row = event.providerCreatedAt :=
      congrArg Prod.fst (upsertSubscription_cell h)
    have hnone : upsertSubscription context id event (some old) = none :=
      upsertSubscription_eq_none.mpr (not_le.mp (htime ▸ hearlier))
    rw [hold, hnone] at h
    exact absurd h (by simp)
  refine ⟨?_, hlater⟩
  cases before with
  | none =>
    obtain rfl := Option.some.inj h
    exact ⟨rfl, rfl, rfl, rfl, rfl, rfl⟩
  | some old =>
    obtain ⟨horganization, hhousehold⟩ := htenant old rfl
    rw [upsertSubscription] at h
    split at h
    · obtain rfl := Option.some.inj h
      exact ⟨horganization, hhousehold, rfl, rfl, rfl, rfl⟩
    · exact absurd h (by simp)

/-- An upsert that the row policy admits writes what the event says to the tenant's row, which was
not later. -/
theorem upsertRefund_writes {context : TenantContext} {id : Identifier}
    {event : NormalizedRefundEvent} {before : Option BillingRefundRow} {row : BillingRefundRow}
    (h : upsertRefund context id event before = some row) (hsees : context.sees row = true) :
    row.WrittenBy context event ∧
      ∀ old, before = some old → refundTime old ≤ refundTime row := by
  have hcell := upsertRefund_cell h
  have htime : refundTime row = event.providerUpdatedAt := congrArg Prod.fst hcell
  have hlater : ∀ old, before = some old → refundTime old ≤ refundTime row := by
    intro old hold
    by_contra hearlier
    have hnone : upsertRefund context id event (some old) = none :=
      upsertRefund_eq_none.mpr (not_le.mp (htime ▸ hearlier))
    rw [hold, hnone] at h
    exact absurd h (by simp)
  obtain ⟨horganization, hhousehold⟩ := TenantContext.sees_iff.mp hsees
  exact ⟨⟨horganization, hhousehold, Option.some.inj (congrArg Prod.snd hcell),
    WithBot.coe_injective htime⟩, hlater⟩

/-- An upsert leaves a later row alone. -/
theorem upsertSubscription_left {context : TenantContext} {id : Identifier}
    {event : NormalizedBillingEvent} {before : Option SubscriptionRow}
    (h : upsertSubscription context id event before = none) :
    ∃ old, before = some old ∧ event.providerCreatedAt ≤ subscriptionTime old := by
  have hlater := upsertSubscription_eq_none.mp h
  cases before with
  | none => exact absurd hlater not_lt_bot
  | some old => exact ⟨old, rfl, hlater.le⟩

/-- An upsert leaves a later row alone. -/
theorem upsertRefund_left {context : TenantContext} {id : Identifier}
    {event : NormalizedRefundEvent} {before : Option BillingRefundRow}
    (h : upsertRefund context id event before = none) :
    ∃ old, before = some old ∧ event.providerUpdatedAt ≤ refundTime old := by
  have hlater := upsertRefund_eq_none.mp h
  cases before with
  | none => exact absurd hlater not_lt_bot
  | some old => exact ⟨old, rfl, hlater.le⟩

/-- A subscription is of the tenant under whose key it is. -/
theorem BillingRows.tenant (h : BillingRows calls σ) {context : TenantContext}
    {row : SubscriptionRow} (hrow : σ.get .subscriptions context.subscriptionKey = some row) :
    row.organizationId = context.organizationId ∧ row.householdId = context.householdId := by
  obtain ⟨call, -, hkey, hwrites⟩ := h.subscriptions.written _ row hrow
  cases call with
  | subscription other event =>
    obtain ⟨horganization, hhousehold⟩ := Prod.mk.inj (Option.some.inj hkey)
    exact ⟨hwrites.organization.trans horganization, hwrites.household.trans hhousehold⟩
  | refund other event => exact absurd hwrites id

/-- A newly recorded event is recorded once. -/
theorem BillingRows.record (h : BillingRows calls σ) (call : BillingCall)
    (outcome : BillingOutcome) (hfresh : σ.get .billingEvents call.externalEventId = none)
    {event : BillingEventRow} (hrecorded :
      Replaces (S := vaultSchema) .billingEvents call.externalEventId (some event) σ σ') :
    (∀ i, (σ'.get .billingEvents i).isSome ↔
      i ∈ ((call, outcome) :: calls).map (·.1.externalEventId)) ∧
      (((call, outcome) :: calls).map (·.1.externalEventId)).Nodup := by
  rw [List.map_cons]
  refine ⟨fun i => ?_, List.nodup_cons.mpr ⟨fun hmem => ?_, h.once⟩⟩
  · rw [List.mem_cons, ← h.recorded]
    rcases hrecorded.get_cases i with ⟨rfl, hnew⟩ | ⟨hne, hold⟩
    · rw [hnew]
      simp
    · rw [hold]
      simp [hne]
  · have hsome := (h.recorded _).mpr hmem
    rw [hfresh] at hsome
    exact absurd hsome (by simp)

/-- A repeated event changes nothing; any other is recorded, and the rows are those of the latest
events again. -/
theorem BillingRows.process (h : BillingRows calls σ)
    (hseen : ∀ σ₀, seen σ₀ → BillingAdvances σ₀ σ) {call : BillingCall}
    {delivery : WebhookDelivery}
    (hexec : (call.process delivery).Executes seen σ [] (.ok outcome) ws) :
    (outcome = .duplicate ∧ ws = []) ∨ (outcome ≠ .duplicate ∧
      BillingRows ((call, outcome) :: calls) (σ.overlay ws) ∧
      BillingAdvances σ (σ.overlay ws)) := by
  cases call with
  | subscription context event =>
    refine (executes_persistEvent (by decide) hexec).imp id (fun hpersisted => ?_)
    obtain ⟨hfresh, ⟨recorded, hrecorded⟩, hothers, hrow⟩ := hpersisted
    have hrefunds := hothers .billingRefunds (by decide) (by decide)
    obtain ⟨hrecords, honce⟩ := h.record (.subscription context event) outcome hfresh hrecorded
    have hleft := h.refunds.left hrefunds (.subscription context event) outcome
      (fun k hk => absurd hk (by simp [BillingCall.refundKey]))
    rcases hrow with ⟨rfl, hsame, σ₀, h₀, hnone⟩ | ⟨rfl, row, hupsert, hreplaces, -⟩
    · refine ⟨by decide, ⟨hrecords, honce, h.subscriptions.left hsame _ _ (fun k hk => ?_), hleft⟩,
        .of_same hsame, .of_same hrefunds⟩
      obtain rfl := Option.some.inj hk
      obtain ⟨old, hold, hle⟩ := upsertSubscription_left hnone
      obtain ⟨row, hrow, hle'⟩ := (hseen σ₀ h₀).subscriptions _ old hold
      exact ⟨row, hrow, hle.trans hle'⟩
    · obtain ⟨hwrites, hlater⟩ := upsertSubscription_writes hupsert (fun old hold => h.tenant hold)
      have htime : subscriptionTime row = event.providerCreatedAt := congrArg dated hwrites.updated
      exact ⟨by decide, ⟨hrecords, honce,
        h.subscriptions.applied rfl hwrites htime hreplaces hlater, hleft⟩,
        .of_replaces hreplaces hlater, .of_same hrefunds⟩
  | refund context event =>
    refine (executes_persistEvent (by decide) hexec).imp id (fun hpersisted => ?_)
    obtain ⟨hfresh, ⟨recorded, hrecorded⟩, hothers, hrow⟩ := hpersisted
    have hsubscriptions := hothers .subscriptions (by decide) (by decide)
    obtain ⟨hrecords, honce⟩ := h.record (.refund context event) outcome hfresh hrecorded
    have hleft := h.subscriptions.left hsubscriptions (.refund context event) outcome
      (fun k hk => absurd hk (by simp [BillingCall.subscriptionKey]))
    rcases hrow with ⟨rfl, hsame, σ₀, h₀, hnone⟩ | ⟨rfl, row, hupsert, hreplaces, σ₁, hadmitted⟩
    · refine ⟨by decide, ⟨hrecords, honce, hleft, h.refunds.left hsame _ _ (fun k hk => ?_)⟩,
        .of_same hsubscriptions, .of_same hsame⟩
      obtain rfl := Option.some.inj hk
      obtain ⟨old, hold, hle⟩ := upsertRefund_left hnone
      obtain ⟨row, hrow, hle'⟩ := (hseen σ₀ h₀).refunds _ old hold
      exact ⟨row, hrow, hle.trans hle'⟩
    · have hsees : context.sees row = true := by
        by_contra hforeign
        exact absurd hadmitted (by simp [hforeign])
      obtain ⟨hwrites, hlater⟩ := upsertRefund_writes hupsert hsees
      have htime : refundTime row = event.providerUpdatedAt :=
        congrArg WithBot.some hwrites.updated
      exact ⟨by decide, ⟨hrecords, honce, hleft,
        h.refunds.applied rfl hwrites htime hreplaces hlater⟩,
        .of_same hsubscriptions, .of_replaces hreplaces hlater⟩

/-- Rows that stay are as they were. -/
theorem BillingRows.same (h : BillingRows calls σ)
    (hsubscriptions : SameRows (S := vaultSchema) .subscriptions σ σ')
    (hrefunds : SameRows (S := vaultSchema) .billingRefunds σ σ')
    (hevents : SameRows (S := vaultSchema) .billingEvents σ σ') : BillingRows calls σ' where
  recorded := fun i => by rw [hevents i, h.recorded]
  once := h.once
  subscriptions := h.subscriptions.same hsubscriptions
  refunds := h.refunds.same hrefunds

theorem BillingAdvances.of_same
    (hsubscriptions : SameRows (S := vaultSchema) .subscriptions σ σ')
    (hrefunds : SameRows (S := vaultSchema) .billingRefunds σ σ') : BillingAdvances σ σ' :=
  ⟨.of_same hsubscriptions, .of_same hrefunds⟩

theorem BillingAdvances.refl (σ : Vault) : BillingAdvances σ σ :=
  .of_same (SameRows.refl _ σ) (SameRows.refl _ σ)

/-- There are no subscriptions, refunds and billing events. -/
structure NoBilling (init : Vault) : Prop where
  subscriptions : ∀ k, init.get .subscriptions k = none
  refunds : ∀ k, init.get .billingRefunds k = none
  events : ∀ k, init.get .billingEvents k = none

variable {adapter : StripeAdapter} {init : Vault}

theorem processedCalls_quiet {entry : WebhookEntry} (log : List WebhookEntry)
    (h : processedCall adapter entry = none) :
    processedCalls adapter (entry :: log) = processedCalls adapter log := List.filterMap_cons_none h

/-- A reply that an event was received is given to an event only, by its transaction. -/
theorem executes_deliver {delivery : WebhookDelivery} {reply : Option WebhookReply}
    (h : (webhookProgram adapter (.deliver delivery)).Executes seen σ [] (.ok reply) ws) :
    (ws = [] ∧ ∀ outcome, reply ≠ some (.received outcome)) ∨
      ∃ call outcome, delivery.receivedBy adapter = .ok (some call) ∧
        reply = some (.received outcome) ∧
        (call.process delivery).Executes seen σ [] (.ok outcome) ws := by
  rw [webhookProgram] at h
  cases hreceived : delivery.receivedBy adapter with
  | error message =>
    rw [hreceived] at h
    obtain ⟨hreply, rfl⟩ := h
    exact Or.inl ⟨rfl, fun outcome heq => by simp [heq] at hreply⟩
  | ok call =>
    rw [hreceived] at h
    cases call with
    | none =>
      obtain ⟨hreply, rfl⟩ := h
      exact Or.inl ⟨rfl, fun outcome heq => by simp [heq] at hreply⟩
    | some call =>
      obtain ⟨outcome, ws₁, hprocess, hreply, rfl⟩ := executes_bind_ok.mp h
      exact Or.inr ⟨call, outcome, rfl, Except.ok.inj hreply, hprocess⟩

/-- In every interleaving the rows are those of the latest events. -/
theorem billingRows_invariant (hinit : NoBilling init) :
    (webhookProtocol adapter).Invariant init
      (fun log σ => BillingRows (processedCalls adapter log) σ) BillingAdvances where
  refl := BillingAdvances.refl
  trans := fun h h' =>
    ⟨h.subscriptions.trans h'.subscriptions, h.refunds.trans h'.refunds⟩
  start :=
    { recorded := fun i => by rw [hinit.events i]; simp [processedCalls]
      once := List.nodup_nil
      subscriptions := ⟨fun k _ h => absurd ((hinit.subscriptions k).symm.trans h) (by simp),
        fun _ _ _ h => absurd h List.not_mem_nil⟩
      refunds := ⟨fun k _ h => absurd ((hinit.refunds k).symm.trans h) (by simp),
        fun _ _ _ h => absurd h List.not_mem_nil⟩ }
  commit := by
    intro log begun seen σ call reply ws h _ _ _ hearlier hexec
    cases call with
    | sign timestamp payload =>
      obtain ⟨-, rfl⟩ := hexec
      rw [processedCalls_quiet log rfl]
      exact ⟨h, .refl σ⟩
    | deliver delivery =>
      rcases executes_deliver hexec with ⟨rfl, hreply⟩ | ⟨call, outcome, hreceived, rfl, hprocess⟩
      · have hquiet : processedCall adapter ⟨.deliver delivery, .committed reply⟩ = none := by
          match reply, hreply with
          | none, _ => rfl
          | some .invalid, _ => rfl
          | some .ignored, _ => rfl
          | some (.received outcome), hreply => exact absurd rfl (hreply outcome)
        rw [processedCalls_quiet log hquiet]
        exact ⟨h, .refl σ⟩
      · rcases h.process (fun σ₀ h₀ => (hearlier σ₀ h₀).1) hprocess with
          ⟨rfl, rfl⟩ | ⟨hprocessed, hrows, hadvances⟩
        · rw [processedCalls_quiet log rfl]
          exact ⟨h, .refl σ⟩
        · have hcall : processedCall adapter
              ⟨.deliver delivery, .committed (some (.received outcome))⟩ =
                some (call, outcome) := by
            simp only [processedCall, if_neg hprocessed, hreceived]
          rw [processedCalls, List.filterMap_cons_some hcall]
          exact ⟨hrows, hadvances⟩
    | other outside =>
      obtain ⟨_, ws₁, htransaction, hreply, rfl⟩ := executes_bind_ok.mp hexec
      have hsubscriptions := outside.subscriptions.sameRows htransaction
      have hrefunds := outside.refunds.sameRows htransaction
      rw [processedCalls_quiet log rfl]
      exact ⟨h.same hsubscriptions hrefunds (outside.events.sameRows htransaction),
        .of_same hsubscriptions hrefunds⟩
  rollback := by
    intro log begun seen σ call error ws h _ _ _ _ _
    have hquiet : processedCall adapter ⟨call, .rolledBack error⟩ = none := by
      cases call <;> rfl
    rwa [processedCalls_quiet log hquiet]
  abort := by
    intro log begun σ call h _ _
    have hquiet : processedCall adapter ⟨call, .aborted⟩ = none := by
      cases call <;> rfl
    rwa [processedCalls_quiet log hquiet]

/-! ## Where events come from -/

/-- Stripe has signed a payload with the event, and it was delivered not long before or after. -/
def Authentic (adapter : StripeAdapter) (log : List WebhookEntry) (call : BillingCall) : Prop :=
  ∃ timestamp payload, Signed log timestamp payload ∧ adapter.callOf payload = .ok (some call) ∧
    ∃ delivery outcome, ⟨.deliver delivery, .committed (some (.received outcome))⟩ ∈ log ∧
      delivery.payload = payload ∧ (delivery.nowSeconds - timestamp).natAbs ≤ 300

/-- The event of a delivery that was received for the first time. -/
theorem processedCall_some {entry : WebhookEntry} {call : BillingCall}
    (h : processedCall adapter entry = some (call, outcome)) : ∃ delivery,
      entry = ⟨.deliver delivery, .committed (some (.received outcome))⟩ ∧
      delivery.receivedBy adapter = .ok (some call) := by
  match entry, h with
  | ⟨.deliver delivery, .committed (some (.received reply))⟩, h =>
    rw [processedCall] at h
    split at h
    · exact absurd h (by simp)
    · split at h
      · rename_i received hreceived
        obtain ⟨rfl, rfl⟩ := Prod.mk.inj (Option.some.inj h)
        exact ⟨delivery, rfl, hreceived⟩
      · exact absurd h (by simp)

variable {s : (webhookProtocol adapter).System}

/-- A processed event was signed: the digest in its delivery is of one timestamp and one payload
only. -/
theorem processed_authentic (h : Reachable init s) {call : BillingCall}
    (hprocessed : (call, outcome) ∈ processedCalls adapter s.log) :
    Authentic adapter s.log call := by
  obtain ⟨entry, hmem, hcall⟩ := List.mem_filterMap.mp hprocessed
  obtain ⟨delivery, rfl, hreceived⟩ := processedCall_some hcall
  obtain ⟨timestamp, hfresh, hdigest, hevent⟩ := StripeAdapter.receive_ok hreceived
  obtain ⟨begun, hunforged, hbegun⟩ := h.entry_permitted hmem
  obtain ⟨timestamp', payload', hsigned, hsame⟩ := hunforged timestamp hdigest
  obtain ⟨rfl, rfl⟩ := signedPayload_inj hsame
  exact ⟨timestamp', delivery.payload, hbegun.subset hsigned, hevent, delivery, outcome, hmem, rfl,
    hfresh⟩

/-- The event is about a row that there is. -/
def BillingCall.HasRow (σ : Vault) : BillingCall → Prop
  | .subscription context _ => (σ.get .subscriptions context.subscriptionKey).isSome
  | .refund _ event => (σ.get .billingRefunds event.providerRefundId).isSome

/-- Whoever delivers whatever in whatever order and at once: a subscription or a refund is what the
latest of the processed events says, each of which was signed by Stripe for the tenant, delivered
within five minutes of its timestamp, and processed once. -/
theorem billing_follows_stripe (hinit : NoBilling init) (h : Reachable init s) :
    (∀ k (row : SubscriptionRow), s.committed.get .subscriptions k = some row →
      ∃ context event, context.subscriptionKey = k ∧ row.WrittenBy context event ∧
        Authentic adapter s.log (.subscription context event) ∧
        ∀ context' event' outcome,
          (.subscription context' event', outcome) ∈ processedCalls adapter s.log →
          context'.subscriptionKey = k → event'.providerCreatedAt ≤ event.providerCreatedAt) ∧
      (∀ k (row : BillingRefundRow), s.committed.get .billingRefunds k = some row →
        ∃ context event, event.providerRefundId = k ∧ row.WrittenBy context event ∧
          Authentic adapter s.log (.refund context event) ∧
          ∀ context' event' outcome,
            (.refund context' event', outcome) ∈ processedCalls adapter s.log →
            event'.providerRefundId = k → event'.providerUpdatedAt ≤ event.providerUpdatedAt) ∧
      (∀ call outcome, (call, outcome) ∈ processedCalls adapter s.log →
        Authentic adapter s.log call ∧ call.HasRow s.committed) ∧
      ((processedCalls adapter s.log).map (·.1.externalEventId)).Nodup := by
  have hrows := (billingRows_invariant hinit).reachable h
  refine ⟨fun k row hrow => ?_, fun k row hrow => ?_, fun call outcome hmem => ?_, hrows.once⟩
  · obtain ⟨call, hmem, hkey, hwrites⟩ := hrows.subscriptions.written k row hrow
    cases call with
    | refund context event => exact absurd hwrites id
    | subscription context event =>
      refine ⟨context, event, Option.some.inj hkey, hwrites, processed_authentic h hmem,
        fun context' event' outcome hmem' hkey' => ?_⟩
      obtain ⟨row', hrow', hle⟩ := hrows.subscriptions.newest _ outcome k hmem'
        (congrArg some hkey')
      obtain rfl := Option.some.inj (hrow.symm.trans hrow')
      have htime : subscriptionTime row = event.providerCreatedAt := congrArg dated hwrites.updated
      exact WithBot.coe_le_coe.mp (htime ▸ hle)
  · obtain ⟨call, hmem, hkey, hwrites⟩ := hrows.refunds.written k row hrow
    cases call with
    | subscription context event => exact absurd hwrites id
    | refund context event =>
      refine ⟨context, event, Option.some.inj hkey, hwrites, processed_authentic h hmem,
        fun context' event' outcome hmem' hkey' => ?_⟩
      obtain ⟨row', hrow', hle⟩ := hrows.refunds.newest _ outcome k hmem' (congrArg some hkey')
      obtain rfl := Option.some.inj (hrow.symm.trans hrow')
      have htime : refundTime row = event.providerUpdatedAt :=
        congrArg WithBot.some hwrites.updated
      exact WithBot.coe_le_coe.mp (htime ▸ hle)
  · refine ⟨processed_authentic h hmem, ?_⟩
    cases call with
    | subscription context event =>
      obtain ⟨row, hrow, -⟩ := hrows.subscriptions.newest _ outcome _ hmem rfl
      exact Option.isSome_of_eq_some hrow
    | refund context event =>
      obtain ⟨row, hrow, -⟩ := hrows.refunds.newest _ outcome _ hmem rfl
      exact Option.isSome_of_eq_some hrow

end Deliveries

/-! ## A run -/

/-- The event of a subscription, as Stripe writes it. -/
def exampleWebhookJson : Json :=
  .obj [("id", .str "evt_1"), ("type", .str "customer.subscription.created"), ("created", .nat 1),
    ("data", .obj [("object", .obj [("id", .str "sub_1"), ("customer", .str "cus_1"),
      ("status", .str "active"), ("metadata", .obj
        [("legacy_organization_id", .str "00000000-0000-1000-8000-000000000001"),
          ("legacy_household_id", .str "00000000-0000-1000-8000-000000000002"),
          ("legacy_plan", .str "essential")])])])]

/-- A delivery of the event, ten seconds after it was signed. -/
def exampleWebhookDelivery : WebhookDelivery where
  payload := utf8 (stringify exampleWebhookJson)
  signatureHeader := "t=0,v1=0000000000000000000000000000000000000000000000000000000000000000"
  nowSeconds := 10
  billingEventId := "b1"
  rowId := "s1"
  now := 10

/-- An adapter for whose secret the payload has one digest and everything else another. -/
def exampleStripe : StripeAdapter where
  webhookSecret := "secret"
  hmac := fun _ message =>
    if message = signedPayload 0 exampleWebhookDelivery.payload then List.replicate 32 0
    else List.replicate 32 1
  double := .finite
  replaced := fun _ => ""
  untyped := fun _ => .error "invalid"

/-- The tenant of the event. -/
def exampleWebhookTenant : TenantContext :=
  stripeContext "00000000-0000-1000-8000-000000000001" "00000000-0000-1000-8000-000000000002"

/-- The event as it is normalized. -/
def exampleWebhookEvent : NormalizedBillingEvent :=
  ⟨"evt_1", "customer.subscription.created", 1000, "cus_1", "sub_1", .active, "essential", none,
    none, false, none, rfl, rfl⟩

theorem exampleWebhook_signatures :
    headerSignatures exampleWebhookDelivery.signatureHeader = [List.replicate 32 0] := by
  decide +kernel

theorem exampleWebhook_received : exampleWebhookDelivery.receivedBy exampleStripe =
    .ok (some (.subscription exampleWebhookTenant exampleWebhookEvent)) := by
  have hdigest : exampleStripe.hmac exampleStripe.webhookSecret
      (signedPayload 0 exampleWebhookDelivery.payload) = List.replicate 32 0 := by
    simp only [exampleStripe, if_true]
  have hmem : exampleStripe.hmac exampleStripe.webhookSecret
      (signedPayload 0 exampleWebhookDelivery.payload) ∈
        headerSignatures exampleWebhookDelivery.signatureHeader := by
    rw [exampleWebhook_signatures, hdigest]
    exact List.mem_singleton_self _
  have htimestamp : headerTimestamp exampleWebhookDelivery.signatureHeader = some 0 := by
    decide +kernel
  have hfresh : (exampleWebhookDelivery.nowSeconds - 0).natAbs ≤ 300 := by decide
  have hparsed : parseJson exampleStripe.double
      (fromUtf8 exampleStripe.replaced exampleWebhookDelivery.payload) =
      some (evaluate exampleStripe.double exampleWebhookJson) := by
    rw [exampleWebhookDelivery, fromUtf8_utf8, parseJson, parse_stringify, Option.map_some]
  rw [WebhookDelivery.receivedBy, StripeAdapter.receive_eq (by decide) htimestamp hfresh hmem,
    StripeAdapter.callOf, StripeAdapter.readEvent, hparsed]
  decide +kernel

/-- The digest in the header is that of the payload which was signed. -/
theorem exampleWebhook_unforged {log : List WebhookEntry}
    (hsigned : Signed log 0 exampleWebhookDelivery.payload) :
    WebhookCall.Unforged exampleStripe log (.deliver exampleWebhookDelivery) := by
  intro timestamp hdigest
  refine ⟨0, exampleWebhookDelivery.payload, hsigned, ?_⟩
  rw [exampleWebhook_signatures, List.mem_singleton] at hdigest
  by_contra hother
  have hforged : exampleStripe.hmac exampleStripe.webhookSecret
      (signedPayload timestamp exampleWebhookDelivery.payload) = List.replicate 32 1 :=
    if_neg (Ne.symm hother)
  exact absurd (hforged.symm.trans hdigest) (by decide)

/-- The first delivery writes the row. -/
theorem exampleWebhook_applied :
    ((webhookProgram exampleStripe (.deliver exampleWebhookDelivery)).transact Store.empty).1 =
      .ok (some (.received .applied)) := by
  have hprogram : webhookProgram exampleStripe (.deliver exampleWebhookDelivery) =
      (do
        let outcome ← (BillingCall.subscription exampleWebhookTenant exampleWebhookEvent).process
          exampleWebhookDelivery
        pure (some (.received outcome))) := by
    rw [webhookProgram, exampleWebhook_received]
  rw [hprogram]
  rfl

/-- An event is signed, and delivered twice: there is a subscription of the event. -/
theorem billing_follows_stripe_example :
    ∃ s : (webhookProtocol exampleStripe).System, Reachable Store.empty s ∧
      Authentic exampleStripe s.log (.subscription exampleWebhookTenant exampleWebhookEvent) ∧
      (s.committed.get .subscriptions exampleWebhookTenant.subscriptionKey).isSome := by
  have hcalls : (webhookProtocol exampleStripe).Sequential [] Store.empty
      [.sign 0 exampleWebhookDelivery.payload, .deliver exampleWebhookDelivery,
        .deliver exampleWebhookDelivery] :=
    ⟨trivial, exampleWebhook_unforged List.mem_cons_self,
      exampleWebhook_unforged (List.mem_cons_of_mem _ List.mem_cons_self), trivial⟩
  obtain ⟨s, hs, hlog, -⟩ := reachable_sequential hcalls
  have hdelivered : ⟨.deliver exampleWebhookDelivery, .committed (some (.received .applied))⟩ ∈
      s.log := by
    rw [hlog]
    refine List.mem_of_getElem? (i := 1) ?_
    exact congrArg (fun result : Except RepositoryError (Option WebhookReply) =>
      some (⟨.deliver exampleWebhookDelivery, .ofResult result⟩ : WebhookEntry))
        exampleWebhook_applied
  have hprocessed : (.subscription exampleWebhookTenant exampleWebhookEvent, .applied) ∈
      processedCalls exampleStripe s.log := by
    refine List.mem_filterMap.mpr ⟨_, hdelivered, ?_⟩
    simp only [processedCall, exampleWebhook_received]
    rfl
  have hstripe := billing_follows_stripe ⟨fun _ => rfl, fun _ => rfl, fun _ => rfl⟩ hs
  exact ⟨s, hs, hstripe.2.2.1 _ _ hprocessed⟩

end LegacyVault
