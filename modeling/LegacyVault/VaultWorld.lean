import LegacyVault.ReportableFacts
import LegacyVault.VaultRoutes

/-!
# The store under the vault routes

What the operations on facts, on idempotency records and on the subscription
do with the store while a route is handled. Other requests and the workers
may commit before and after each of them. Of the other operations nothing is
said but that they do what others may do as well.
-/

namespace LegacyVault

open JsonText RowTransaction RowTransaction.Program Store Handlers

/-- `split_part(field_key,'.',1)`. -/
def firstPart (fieldKey : String) : String :=
  String.ofList ((fieldKey.toList.splitOn '.').headD [])

/-- The first part of a field key is its prefix. -/
theorem firstPart_eq_prefix (fieldKey : String) : firstPart fieldKey = fieldKeyPrefix fieldKey := by
  rw [firstPart, fieldKeyPrefix]
  congr 1
  induction fieldKey.toList with
  | nil => rfl
  | cons c text ih =>
    obtain ⟨first, rest, hparts⟩ := List.exists_cons_of_ne_nil (List.splitOn_ne_nil '.' text)
    rw [hparts] at ih
    by_cases hc : c = '.'
    · simp [List.splitOn_cons_eq_if_modifyHead, hc]
    · simpa [List.splitOn_cons_eq_if_modifyHead, hc, hparts] using ih

/-- The facts that `listVaultFacts` selects, in their order. -/
def vaultFacts (context : TenantContext) (categories : List RecordCategory) (σ : Vault) :
    List FactRow :=
  ((σ.rowsOf .facts).filter (fun fact : FactRow => context.sees fact && fact.status != .rejected &&
    (categories.map RecordCategory.text).contains (firstPart fact.fieldKey))).insertionSort
      (fun a b => a.fieldKey < b.fieldKey ∨ a.fieldKey = b.fieldKey ∧ a.id ≤ b.id)

theorem mem_vaultFacts {context : TenantContext} {categories : List RecordCategory} {σ : Vault}
    {fact : FactRow} : fact ∈ vaultFacts context categories σ ↔
      (∃ k, σ.get .facts k = some fact) ∧ context.sees fact = true ∧ fact.status ≠ .rejected ∧
        ∃ category ∈ categories, category.text = fieldKeyPrefix fact.fieldKey := by
  simp only [vaultFacts, List.mem_insertionSort, List.mem_filter,
    mem_rowsOf (S := vaultSchema) (t := VaultTable.facts), Bool.and_eq_true, bne_iff_ne,
    List.contains_iff_mem, List.mem_map, firstPart_eq_prefix, and_assoc]

/-- A fact as `listVaultFacts` returns it, with the value that its envelope opens to. -/
def FactRow.listed (fact : FactRow) (value : Json) : VaultFact :=
  ⟨fact.id, fact.fieldKey, value, fact.status, fact.sourceType, fact.sourceId, fact.evidenceIds,
    fact.confidence, fact.sensitivity, fact.confirmedBy, fact.confirmedAt, fact.version⟩

/-- A transaction commits and answers, or it fails and its error is thrown. -/
def Transacts {α β : Type} (p : Transaction α) (view : α → β) (σ : Vault)
    (answer : Except RouteError β) (σ' : Vault) : Prop :=
  match (p.transact σ).1 with
  | .ok result => answer = .ok (view result) ∧ σ' = (p.transact σ).2
  | .error _ => (∃ thrown, answer = .error thrown) ∧ σ' = (p.transact σ).2

/-- What is required holds, when a condition is required and the handler goes on. -/
theorem requireThat_eq_ok {condition : Prop} [Decidable condition] {problem : ApiProblem}
    {result : Unit} (h : requireThat condition problem = .ok result) : condition := by
  by_contra hcondition
  rw [requireThat, if_neg hcondition] at h
  cases h

/-- A transaction that commits has its effect. -/
theorem transacts_ok {α β : Type} {p : Transaction α} {view : α → β} {result : α} {σ σ' : Vault}
    (htransact : p.transact σ = (.ok result, σ')) : Transacts p view σ (.ok (view result)) σ' := by
  rw [Transacts, htransact]
  exact ⟨rfl, rfl⟩

/-- The store that a transaction leaves. -/
theorem Transacts.store {α β : Type} {p : Transaction α} {view : α → β} {σ σ' : Vault}
    {answer : Except RouteError β} (h : Transacts p view σ answer σ') :
    σ' = (p.transact σ).2 := by
  rw [Transacts] at h
  split at h
  · exact h.2
  · exact h.2

/-- A transaction fails and leaves the store as it is, or it has been executed. -/
theorem Transacts.executes {α β : Type} {p : Transaction α} {view : α → β} {σ σ' : Vault}
    {answer : Except RouteError β} (h : Transacts p view σ answer σ') :
    (σ' = σ ∧ ∃ thrown, answer = .error thrown) ∨
      ∃ result ws', p.Executes (· = σ) σ [] (.ok result) ws' ∧
        σ' = σ.overlay ws' ∧ answer = .ok (view result) := by
  obtain ⟨ws', hexec, hws⟩ := run_executes p σ []
  rw [overlay_nil] at hexec hws
  rw [Transacts, transact] at h
  cases hrun : p.run σ with
  | mk outcome after =>
    rw [hrun] at hexec hws h
    cases outcome with
    | ok result => exact Or.inr ⟨result, ws', hexec, h.2.trans hws.symm, h.1⟩
    | error error => exact Or.inl ⟨h.2, h.1⟩

/-- What a transaction leaves alone is as it was. -/
theorem Transacts.sameRows {α β : Type} {p : Transaction α} {view : α → β} {σ σ' : Vault}
    {answer : Except RouteError β} {t : VaultTable} (h : Transacts p view σ answer σ')
    (hp : p.Leaves t) : SameRows (S := vaultSchema) t σ σ' := by
  rw [h.store]
  exact hp.transact σ

/-- What an operation answers at a time, and what it does with the store. -/
def VaultOperation.Effect (sha256 : Sha256) (context : TenantContext) (now : Instant) :
    (operation : VaultOperation) → Vault → Except RouteError operation.Result → Vault → Prop
  | .getFactFieldKey factId => Transacts (LegacyVault.getFactFieldKey context factId) id
  | .reserveIdempotency key request =>
    Transacts (LegacyVault.reserveIdempotency sha256 context key request now) id
  | .completeIdempotency key statusCode body =>
    Transacts (LegacyVault.completeIdempotency context key statusCode body) id
  | .createCandidateFact candidate =>
    Transacts (LegacyVault.createCandidateFact context candidate) StatusReceipt.toJson
  | .confirmFact factId expectedVersion confirmedAt =>
    Transacts (LegacyVault.confirmFact context factId expectedVersion confirmedAt)
      StatusReceipt.toJson
  | .rejectFact factId expectedVersion =>
    Transacts (LegacyVault.rejectFact context factId expectedVersion) StatusReceipt.toJson
  | .disputeFact factId expectedVersion =>
    Transacts (LegacyVault.disputeFact context factId expectedVersion) StatusReceipt.toJson
  | .completeManualDocumentExtraction key input => fun σ answer σ' =>
    ∃ generated, Transacts (LegacyVault.completeManualDocumentExtraction sha256 context key input
      generated now) Answer.body σ answer σ'
  | .listVaultFacts categories => fun σ answer σ' => σ' = σ ∧
    ∀ facts, answer = .ok facts → ∃ value : FactRow → Json,
      facts = (vaultFacts context categories σ).map (fun fact => fact.listed (value fact))
  | .getSubscription => fun σ answer σ' => σ' = σ ∧
    ∀ subscription, answer = .ok subscription →
      subscription = LegacyVault.getSubscription context now σ
  | _ => fun σ _ σ' => σ' = σ

/-- The store under a route: an operation has its effect at one of the times, and others work on
the store before and after it. -/
def vaultWorld (sha256 : Sha256) (times : Instant → Prop) (others : Vault → Vault → Prop) :
    World vaultInterface Vault := fun σ call answer σ' =>
  match call, answer with
  | .perform identity operation, answer => ∃ now σ₁ σ₂, times now ∧ others σ σ₁ ∧
      operation.Effect sha256 identity.context now σ₁ answer σ₂ ∧ others σ₂ σ'
  | .currentTime, now => times now ∧ others σ σ'
  | .resolveIdentity, _ => others σ σ'
  | .authorizeIdentity _ _ _ _, _ => others σ σ'

end LegacyVault
