import LegacyVault.Database

/-!
# Fact records

The fact statements of the repository: creation, confirmation, rejection and
dispute, and the select a report is built from. Confirmation asks for
evidence unless the fact is manual; disputes clear the confirmation.

Decrypted values do not occur here. A fact's typed value stays sealed.
-/

namespace LegacyVault

open JsonText RowTransaction RowTransaction.Program

/-- The `id`, `status` and `version` a statement returns. -/
structure StatusReceipt where
  /-- The row. -/
  id : Identifier
  /-- Its status afterwards. -/
  status : String
  /-- Its version afterwards. -/
  version : Nat
  deriving DecidableEq

/-- The receipt as a response body. -/
def StatusReceipt.toJson (receipt : StatusReceipt) : Json :=
  .obj [("id", .str receipt.id), ("status", .str receipt.status), ("version", .nat receipt.version)]

/-- The receipt of a fact. -/
def FactRow.receipt (fact : FactRow) : StatusReceipt := ⟨fact.id, fact.status.text, fact.version⟩

/-- Input of `createCandidateFact`. -/
structure CandidateFactWrite where
  id : Identifier
  fieldKey : String
  ciphertext : Sealed
  keyVersion : Nat
  sourceType : SourceType
  sourceId : Identifier
  evidenceIds : List Identifier
  confidence : Option NumberLiteral
  sensitivity : Sensitivity
  deriving DecidableEq

/-- The row `createCandidateFact` inserts. -/
def CandidateFactWrite.row (input : CandidateFactWrite) (context : TenantContext) : FactRow where
  id := input.id
  organizationId := context.organizationId
  householdId := context.householdId
  fieldKey := input.fieldKey
  typedValueEncrypted := input.ciphertext
  keyVersion := input.keyVersion
  status := .candidate
  sourceType := input.sourceType
  sourceId := input.sourceId
  evidenceIds := input.evidenceIds
  confidence := input.confidence
  sensitivity := input.sensitivity
  confirmedBy := none
  confirmedAt := none
  version := 1

/-- `createCandidateFact`. -/
def createCandidateFact (context : TenantContext) (input : CandidateFactWrite) :
    Transaction StatusReceipt := do
  let fact : FactRow ← insertRow (S := vaultSchema) .facts input.id (input.row context)
    (.uniqueViolation "facts_pkey")
  pure fact.receipt

/-- Creating a fact writes facts only. -/
theorem createCandidateFact_leaves {t : VaultTable} (h : t ≠ .facts) (context : TenantContext)
    (input : CandidateFactWrite) : (createCandidateFact context input).Leaves t :=
  writes_bind (writes_insertRow h) (fun _ => writes_commit _)

/-- The change `confirmFact` makes to the row it finds. -/
def confirmFactRow (context : TenantContext) (expectedVersion : Nat) (confirmedAt : Instant)
    (fact : FactRow) : Option FactRow :=
  if context.sees fact ∧ fact.version = expectedVersion ∧
      (fact.status = .candidate ∨ fact.status = .disputed) ∧
      (fact.sourceType = .manual ∨ 0 < fact.evidenceIds.length) then
    some { fact with
      status := .confirmed, confirmedBy := some context.actorId, confirmedAt := some confirmedAt,
      version := fact.version + 1 }
  else none

/-- `confirmFact`. -/
def confirmFact (context : TenantContext) (factId : Identifier) (expectedVersion : Nat)
    (confirmedAt : Instant) : Transaction StatusReceipt := do
  let updated : Option FactRow ← updateRow (S := vaultSchema) .facts factId
    (confirmFactRow context expectedVersion confirmedAt)
  match updated with
  | some fact => pure fact.receipt
  | none => failWith "fact confirmation conflict or policy denial"

/-- A confirmation writes facts only. -/
theorem confirmFact_leaves {t : VaultTable} (h : t ≠ .facts) (context : TenantContext)
    (factId : Identifier) (expectedVersion : Nat) (confirmedAt : Instant) :
    (confirmFact context factId expectedVersion confirmedAt).Leaves t := by
  refine writes_bind (writes_updateRow (fun _ _ _ => h)) (fun updated => ?_)
  cases updated
  · exact writes_rollback _
  · exact writes_commit _

/-- The change `rejectFact` makes to the row it finds. -/
def rejectFactRow (context : TenantContext) (expectedVersion : Nat) (fact : FactRow) :
    Option FactRow :=
  if context.sees fact ∧ fact.version = expectedVersion ∧ fact.status = .candidate then
    some { fact with status := .rejected, version := fact.version + 1 }
  else none

/-- `rejectFact`. -/
def rejectFact (context : TenantContext) (factId : Identifier) (expectedVersion : Nat) :
    Transaction StatusReceipt := do
  let updated : Option FactRow ← updateRow (S := vaultSchema) .facts factId
    (rejectFactRow context expectedVersion)
  match updated with
  | some fact => pure fact.receipt
  | none => failWith "fact rejection conflict or policy denial"

/-- A rejection writes facts only. -/
theorem rejectFact_leaves {t : VaultTable} (h : t ≠ .facts) (context : TenantContext)
    (factId : Identifier) (expectedVersion : Nat) :
    (rejectFact context factId expectedVersion).Leaves t := by
  refine writes_bind (writes_updateRow (fun _ _ _ => h)) (fun updated => ?_)
  cases updated
  · exact writes_rollback _
  · exact writes_commit _

/-- The change `disputeFact` makes to the row it finds. -/
def disputeFactRow (context : TenantContext) (expectedVersion : Nat) (fact : FactRow) :
    Option FactRow :=
  if context.sees fact ∧ fact.version = expectedVersion ∧ fact.status = .confirmed then
    some { fact with
      status := .disputed, confirmedBy := none, confirmedAt := none, version := fact.version + 1 }
  else none

/-- `disputeFact`. -/
def disputeFact (context : TenantContext) (factId : Identifier) (expectedVersion : Nat) :
    Transaction StatusReceipt := do
  let updated : Option FactRow ← updateRow (S := vaultSchema) .facts factId
    (disputeFactRow context expectedVersion)
  match updated with
  | some fact => pure fact.receipt
  | none => failWith "fact dispute conflict or policy denial"

/-- A dispute writes facts only. -/
theorem disputeFact_leaves {t : VaultTable} (h : t ≠ .facts) (context : TenantContext)
    (factId : Identifier) (expectedVersion : Nat) :
    (disputeFact context factId expectedVersion).Leaves t := by
  refine writes_bind (writes_updateRow (fun _ _ _ => h)) (fun updated => ?_)
  cases updated
  · exact writes_rollback _
  · exact writes_commit _

/-- `getFactFieldKey`. -/
def getFactFieldKey (context : TenantContext) (factId : Identifier) : Transaction String := do
  let fact : Option FactRow ← select (fun σ : Vault => (σ.get .facts factId).filter
    (fun fact : FactRow => context.sees fact))
  match fact with
  | some fact => pure fact.fieldKey
  | none => failWith "fact unavailable"

end LegacyVault
