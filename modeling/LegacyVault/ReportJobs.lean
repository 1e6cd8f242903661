import LegacyVault.DocumentExtraction
import LegacyVault.HouseholdKeys
import LegacyVault.ReportConfidentiality
import LegacyVault.VaultWorld

/-!
# Opened facts and report jobs

What the runtime and the report worker do with sealed facts: `listVaultFacts`
opens the facts of some categories for a member, and the handler of a report
job opens all facts that are not rejected, generates the report, seals it and
completes the record. `getReport` opens it again.

`expires_at` of documents and `last_reviewed_at` of facts are null: no
statement writes them.
-/

namespace LegacyVault

open JsonText RowTransaction RowTransaction.Program IsoTime

/-! ## Opened facts -/

/-- The value of a fact, opened and parsed. -/
def openFactValue (context : TenantContext) (householdKey : SymmetricKey) (fact : FactRow) :
    Except String Json :=
  match decryptEnvelope fact.typedValueEncrypted householdKey
    (factValueContext context fact.id fact.fieldKey fact.keyVersion) with
  | some (.data text) =>
    match parse text with
    | some value => .ok value
    | none => .error "SyntaxError"
  | _ => .error "envelope authentication failed"

/-- `listVaultFacts` of the runtime. -/
def listVaultFacts (context : TenantContext) (householdKey : SymmetricKey)
    (categories : List RecordCategory) (σ : Vault) : Except String (List VaultFact) :=
  (vaultFacts context categories σ).mapM (fun fact =>
    (openFactValue context householdKey fact).map fact.listed)

/-- A fact as the report handler opens it. -/
def FactRow.opened (fact : FactRow) (context : TenantContext) (value : Json) : OpenedFact where
  toCandidateFact := { fact.candidateFact value with
    organizationId := context.organizationId
    householdId := context.householdId }
  lastReviewedAt := none

/-- The facts of a report, opened. -/
def openFacts (context : TenantContext) (householdKey : SymmetricKey) (facts : List FactRow) :
    Except String (List OpenedFact) :=
  facts.mapM (fun fact => (openFactValue context householdKey fact).map (fact.opened context))

/-! ## The job of a report -/

/-- `ReportBuildInput`. -/
structure ReportBuildInput where
  reportId : Identifier
  workflowId : Identifier
  kind : ReportKind
  status : ReportStatus
  facts : List FactRow
  documents : List ReportDocument

/-- The report that is the subject of a workflow. -/
def reportOfWorkflow (context : TenantContext) (workflowId : Identifier) (σ : Vault) :
    Option ReportRow :=
  ((σ.get .workflowRuns workflowId).filter (fun workflow : WorkflowRow =>
    context.sees workflow && workflow.subjectType == some "Report")).bind
      (fun workflow : WorkflowRow => workflow.subjectId.bind (fun reportId =>
        (σ.get .reports reportId).filter (fun report : ReportRow =>
          context.sees report && report.workflowId == some workflowId)))

/-- The documents of a report, in the order of their ids. -/
def reportDocuments (context : TenantContext) (σ : Vault) : List ReportDocument :=
  (((σ.rowsOf .documents).filter (fun document : DocumentRow =>
    context.sees document && document.status != .deleted)).insertionSort
      (fun a b => a.id ≤ b.id)).map (fun document => ⟨document.id, none⟩)

/-- `getReportBuildInput`. -/
def getReportBuildInput (context : TenantContext) (workflowId : Identifier) :
    Transaction ReportBuildInput := do
  let report ← select (reportOfWorkflow context workflowId)
  match report with
  | none => failWith "report workflow is unavailable"
  | some report => do
    let facts ← select (reportFacts context)
    let documents ← select (reportDocuments context)
    pure
      { reportId := report.id
        workflowId := workflowId
        kind := report.kind
        status := report.status
        facts := facts
        documents := documents }

/-- What `completeReport` receives. -/
structure ReportCompletion where
  reportId : Identifier
  workflowId : Identifier
  generatedAt : Instant
  payloadEncrypted : Sealed
  encryptionKeyVersion : Nat

/-- One execution of the handler: what it has read, the key it was given, and its clock. -/
structure ReportExecution where
  context : TenantContext
  workflowId : Identifier
  build : ReportBuildInput
  householdKey : ActiveHouseholdKey
  generatedAt : Instant
  iv : Nat

/-- The handler between its read and its write. -/
def ReportExecution.completion (execution : ReportExecution)
    (localeCompare : String → String → Int) : Except String ReportCompletion := do
  let build := execution.build
  let key := execution.householdKey
  let facts ← openFacts execution.context key.plaintextKey build.facts
  let report ← buildReport localeCompare execution.context build.reportId build.kind
    build.documents execution.generatedAt facts
  pure
    { reportId := build.reportId
      workflowId := build.workflowId
      generatedAt := execution.generatedAt
      payloadEncrypted :=
        report.payload execution.context key.plaintextKey key.keyVersion execution.iv
      encryptionKeyVersion := key.keyVersion }

/-- The change `completeReport` makes to the workflow. -/
def reportedWorkflow (context : TenantContext) (workflow : WorkflowRow) : Option WorkflowRow :=
  if context.sees workflow ∧ workflow.status ≠ .completed then
    some { workflow with
      status := .completed
      completedSteps := ["collect", "generate", "store"]
      nextStep := none
      lastErrorClass := none
      version := workflow.version + 1 }
  else none

/-- The end of `completeReport`. -/
def finishReportWorkflow (context : TenantContext) (workflowId : Identifier) :
    Transaction Unit := do
  let _ ← updateRow (S := vaultSchema) .workflowRuns workflowId (reportedWorkflow context)
  pure ()

/-- `completeReport`. -/
def completeReport (context : TenantContext) (input : ReportCompletion) : Transaction Unit := do
  let updated ← updateRow (S := vaultSchema) .reports input.reportId
    (completedReport context input.workflowId input.generatedAt input.payloadEncrypted
      input.encryptionKeyVersion)
  match updated with
  | some _ => finishReportWorkflow context input.workflowId
  | none => do
    let existing ← select (fun σ : Vault => (σ.get .reports input.reportId).filter
      (fun report : ReportRow => context.sees report && report.status == .completed &&
        report.workflowId == some input.workflowId))
    match existing with
    | some _ => finishReportWorkflow context input.workflowId
    | none => failWith "report completion conflict"

/-! ## Reading a report -/

/-- A report that is not completed. -/
def ReportRow.metadata (record : ReportRow) : Json :=
  .obj [("id", .str record.id), ("kind", .str record.kind.text),
    ("status", .str record.status.text), ("generatedAt", .str (toISOString record.generatedAt)),
    ("version", .nat record.version)]

/-- `getReport` of the runtime. -/
def getReport (context : TenantContext) (householdKey : SymmetricKey) (reportId : Identifier)
    (σ : Vault) : Except String (Option Json) :=
  match (σ.get .reports reportId).filter (fun report : ReportRow => context.sees report) with
  | none => .ok none
  | some record =>
    if record.status ≠ .completed then .ok (some record.metadata)
    else (openReport context householdKey record).map some

end LegacyVault
