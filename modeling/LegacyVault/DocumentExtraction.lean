import LegacyVault.IdempotencyRecords
import LegacyVault.Facts

/-!
# Manual extraction of a document

A reviewer turns a clean document into candidate facts: one evidence record
and one fact for each candidate, and the document's workflow completed. All
of it happens in the transaction that reserves the key and stores the
response.

The values are sealed by the runtime before the transaction; its scan for
prohibited content happens before and is not modelled.
-/

namespace LegacyVault

open JsonText RowTransaction RowTransaction.Program

/-- A candidate as the caller supplies it. -/
structure ManualCandidate where
  fieldKey : String
  value : Json
  locator : String
  sensitivity : Sensitivity
  confidence : Option NumberLiteral
  deriving DecidableEq

/-- What the caller of the manual extraction supplies. -/
@[ext] structure ManualExtractionInput where
  documentId : Identifier
  workflowId : Identifier
  expectedWorkflowVersion : Nat
  candidates : List ManualCandidate
  deriving DecidableEq

/-- What the runtime generates for one candidate. -/
structure ManualCandidateGenerated where
  id : Identifier
  evidenceId : Identifier
  iv : Nat
  deriving DecidableEq

/-- What the runtime generates for a manual extraction. -/
structure ManualExtractionGenerated where
  plaintextKey : SymmetricKey
  keyVersion : Nat
  capturedAt : Instant
  /-- Identifiers and nonces by position of the candidate. -/
  candidates : Nat → ManualCandidateGenerated

/-- A candidate in the request shape; an absent confidence is left out. -/
def ManualCandidate.toJson (candidate : ManualCandidate) : Json :=
  .obj ([("fieldKey", .str candidate.fieldKey), ("value", candidate.value),
    ("locator", .str candidate.locator), ("sensitivity", .str candidate.sensitivity.text)] ++
    match candidate.confidence with
    | some confidence => [("confidence", .num confidence)]
    | none => [])

/-- The request shape `completeManualDocumentExtraction` fingerprints. -/
def ManualExtractionInput.shape (input : ManualExtractionInput) : Json :=
  .obj [("documentId", .str input.documentId), ("workflowId", .str input.workflowId),
    ("expectedWorkflowVersion", .nat input.expectedWorkflowVersion),
    ("candidates", .arr (input.candidates.map ManualCandidate.toJson))]

/-- The context a fact's value is sealed in. -/
def factValueContext (context : TenantContext) (factId : Identifier) (fieldKey : String)
    (keyVersion : Nat) : EncryptionContext :=
  ⟨context.organizationId, context.householdId, factId, "fact-value:" ++ fieldKey, keyVersion⟩

/-- What the repository receives for one candidate. -/
structure ManualCandidateWrite where
  id : Identifier
  evidenceId : Identifier
  fieldKey : String
  ciphertext : Sealed
  keyVersion : Nat
  locator : String
  sensitivity : Sensitivity
  confidence : Option NumberLiteral
  deriving DecidableEq

/-- The runtime's part for one candidate: generate identifiers and seal the value. -/
def ManualCandidate.write (candidate : ManualCandidate) (context : TenantContext)
    (plaintextKey : SymmetricKey) (keyVersion : Nat) (generated : ManualCandidateGenerated) :
    ManualCandidateWrite where
  id := generated.id
  evidenceId := generated.evidenceId
  fieldKey := candidate.fieldKey
  ciphertext := encryptEnvelope (.data (stringify candidate.value)) plaintextKey
    (factValueContext context generated.id candidate.fieldKey keyVersion) generated.iv
  keyVersion := keyVersion
  locator := candidate.locator
  sensitivity := candidate.sensitivity
  confidence := candidate.confidence

/-- The candidates of an extraction as the repository receives them. -/
def ManualExtractionInput.writes (input : ManualExtractionInput) (context : TenantContext)
    (generated : ManualExtractionGenerated) : List ManualCandidateWrite :=
  input.candidates.mapIdx (fun index candidate =>
    candidate.write context generated.plaintextKey generated.keyVersion
      (generated.candidates index))

/-- The evidence of a candidate. -/
def ManualCandidateWrite.evidence (candidate : ManualCandidateWrite) (context : TenantContext)
    (documentId : Identifier) (capturedAt : Instant) : EvidenceRow where
  id := candidate.evidenceId
  organizationId := context.organizationId
  householdId := context.householdId
  sourceType := .document
  sourceId := documentId
  locator := candidate.locator
  capturedAt := capturedAt

/-- The fact of a candidate, backed by its evidence. -/
def ManualCandidateWrite.fact (candidate : ManualCandidateWrite) (context : TenantContext)
    (documentId : Identifier) : FactRow where
  id := candidate.id
  organizationId := context.organizationId
  householdId := context.householdId
  fieldKey := candidate.fieldKey
  typedValueEncrypted := candidate.ciphertext
  keyVersion := candidate.keyVersion
  status := .candidate
  sourceType := .document
  sourceId := documentId
  evidenceIds := [candidate.evidenceId]
  confidence := candidate.confidence
  sensitivity := candidate.sensitivity
  confirmedBy := none
  confirmedAt := none
  version := 1

/-- Insert the evidence and the fact of one candidate. -/
def insertCandidate (context : TenantContext) (documentId : Identifier) (capturedAt : Instant)
    (candidate : ManualCandidateWrite) : Transaction FactRow := do
  let _ ← insertRow (S := vaultSchema) .evidence candidate.evidenceId
    (candidate.evidence context documentId capturedAt) (.uniqueViolation "evidence_pkey")
  insertRow (S := vaultSchema) .facts candidate.id (candidate.fact context documentId)
    (.uniqueViolation "facts_pkey")

/-- The workflow waits for the classification of the document at the expected version. -/
def WorkflowRow.awaitsClassification (workflow : WorkflowRow) (context : TenantContext)
    (input : ManualExtractionInput) : Bool :=
  context.sees workflow && workflow.subjectType == some "Document" &&
    workflow.subjectId == some input.documentId && workflow.nextStep == some "classification" &&
    workflow.version == input.expectedWorkflowVersion

/-- The change that completes the document's workflow. -/
def extractedWorkflowRow (context : TenantContext) (input : ManualExtractionInput)
    (workflow : WorkflowRow) : Option WorkflowRow :=
  if context.sees workflow ∧ workflow.version = input.expectedWorkflowVersion ∧
      workflow.nextStep = some "classification" then
    some { workflow with
      status := .completed
      completedSteps := workflow.completedSteps ++ ["classification", "manual-extraction"]
      nextStep := none
      lastErrorClass := none
      version := workflow.version + 1 }
  else none

/-- The mutation of `completeManualDocumentExtraction`. -/
def manualExtractionMutation (context : TenantContext) (input : ManualExtractionInput)
    (generated : ManualExtractionGenerated) : Transaction Json := do
  let document ← select (fun σ : Vault => (σ.get .documents input.documentId).filter
    (fun document : DocumentRow => context.sees document && document.status == .clean))
  match document with
  | none => failWith "manual extraction workflow conflict"
  | some _ => do
    let locked ← lockRow (S := vaultSchema) .workflowRuns input.workflowId
      (fun workflow : WorkflowRow => workflow.awaitsClassification context input)
    match locked with
    | none => failWith "manual extraction workflow conflict"
    | some _ => do
      let facts ← forEach (input.writes context generated)
        (insertCandidate context input.documentId generated.capturedAt)
      let completed ← updateRow (S := vaultSchema) .workflowRuns input.workflowId
        (extractedWorkflowRow context input)
      match completed with
      | none => failWith "manual extraction completion conflict"
      | some _ =>
        pure (.obj [("documentId", .str input.documentId), ("workflowId", .str input.workflowId),
          ("status", .str "completed"),
          ("candidates", .arr (facts.map (fun fact => fact.receipt.toJson)))])

/-- A manual extraction writes evidence, facts and workflows only. -/
theorem manualExtractionMutation_leaves {t : VaultTable} (hevidence : t ≠ .evidence)
    (hfacts : t ≠ .facts) (hworkflows : t ≠ .workflowRuns) (context : TenantContext)
    (input : ManualExtractionInput) (generated : ManualExtractionGenerated) :
    (manualExtractionMutation context input generated).Leaves t := by
  refine writes_bind (writes_select _) (fun document => ?_)
  split
  · exact writes_rollback _
  refine writes_bind (writes_lockRow (fun _ => hworkflows)) (fun locked => ?_)
  split
  · exact writes_rollback _
  refine writes_bind (writes_forEach (fun candidate =>
    writes_bind (writes_insertRow hevidence) (fun _ => writes_insertRow hfacts))) (fun facts => ?_)
  refine writes_bind (writes_updateRow (fun _ _ _ => hworkflows)) (fun completed => ?_)
  split
  · exact writes_rollback _
  · exact writes_commit _

/-- What a manual extraction fails with. -/
def manualExtractionFailures : List RepositoryError :=
  [.error "manual extraction workflow conflict", .uniqueViolation "evidence_pkey",
    .uniqueViolation "facts_pkey", .error "manual extraction completion conflict"]

theorem manualExtractionMutation_raises (context : TenantContext) (input : ManualExtractionInput)
    (generated : ManualExtractionGenerated) :
    (manualExtractionMutation context input generated).Raises
      (· ∈ manualExtractionFailures) := by
  have hworkflow : RepositoryError.error "manual extraction workflow conflict" ∈
      manualExtractionFailures := by decide
  have hcompletion : RepositoryError.error "manual extraction completion conflict" ∈
      manualExtractionFailures := by decide
  refine raises_bind (raises_select _) (fun document => ?_)
  split
  · exact hworkflow
  refine raises_bind (raises_lockRow _ _ _) (fun locked => ?_)
  split
  · exact hworkflow
  refine raises_bind (raises_forEach (fun candidate => raises_bind (raises_insertRow (by decide))
    (fun _ => raises_insertRow (by decide)))) (fun facts => ?_)
  refine raises_bind (raises_updateRow _ _ _) (fun completed => ?_)
  split
  · exact hcompletion
  · exact raises_commit _

/-- Errors of a manual extraction on an existing record: one text for both. -/
def manualExtractionErrors : RecordErrors :=
  ⟨"manual extraction idempotency conflict", "manual extraction idempotency conflict"⟩

/-- `completeManualDocumentExtraction`. -/
def completeManualDocumentExtraction (sha256 : Sha256) (context : TenantContext) (key : String)
    (input : ManualExtractionInput) (generated : ManualExtractionGenerated) (now : Instant) :
    Transaction (Answer Json) :=
  withTenantRecord context key (sha256.ofJson input.shape) now 201 manualExtractionErrors
    (manualExtractionMutation context input generated)

end LegacyVault
