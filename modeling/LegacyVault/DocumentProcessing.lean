import LegacyVault.Database

/-!
# Document processing

The transactions of the document workers: what they read of a document and
its workflow, and how a scan, an OCR run, a deletion of the original and a
failure are recorded. A completion tests the versions that its execution has
read; the record of a failure tests the status alone.

The steps of any other workflow are completed and failed in the same way.
-/

namespace LegacyVault

open JsonText RowTransaction RowTransaction.Program

/-- `DocumentProcessingInput`. -/
structure DocumentProcessingInput where
  id : Identifier
  objectKey : String
  originalSha256 : String
  mediaType : String
  status : DocumentStatus
  encryptionKeyVersion : Nat
  wrappedDataKey : Sealed
  maximumBytes : Nat
  version : Nat
  deleteOriginalAfterProcessing : Bool
  originalDeletedAt : Option Instant
  workflowId : Identifier
  workflowStatus : WorkflowStatus
  workflowVersion : Nat
  nextStep : Option String
  deriving DecidableEq

/-- The document of a workflow. -/
def WorkflowRow.document (workflow : WorkflowRow) (σ : Vault) : Option DocumentRow :=
  if workflow.subjectType = some "Document" then
    workflow.subjectId.bind (fun documentId => σ.get .documents documentId)
  else none

/-- A document and its workflow as the workers read them. -/
def processingInput (document : DocumentRow) (workflow : WorkflowRow) (wrappedDataKey : Sealed) :
    DocumentProcessingInput where
  id := document.id
  objectKey := document.objectKey
  originalSha256 := document.originalSha256
  mediaType := document.mediaType
  status := document.status
  encryptionKeyVersion := document.encryptionKeyVersion
  wrappedDataKey := wrappedDataKey
  maximumBytes := document.maximumBytes
  version := document.version
  deleteOriginalAfterProcessing := document.deleteOriginalAfterProcessing
  originalDeletedAt := document.originalDeletedAt
  workflowId := workflow.id
  workflowStatus := workflow.status
  workflowVersion := workflow.version
  nextStep := workflow.nextStep

/-- The row `getDocumentProcessingInput` selects, if there is one. -/
def processingInputOf (context : TenantContext) (workflowId : Identifier) (σ : Vault) :
    Option DocumentProcessingInput := do
  let workflow : WorkflowRow ← (σ.get .workflowRuns workflowId).filter
    (fun workflow : WorkflowRow => context.sees workflow)
  let document ← (workflow.document σ).filter (fun document => context.sees document)
  let wrappedDataKey ← document.wrappedDataKey
  some (processingInput document workflow wrappedDataKey)

/-- `getDocumentProcessingInput`. -/
def getDocumentProcessingInput (context : TenantContext) (workflowId : Identifier) :
    Transaction DocumentProcessingInput := do
  let found ← select (processingInputOf context workflowId)
  match found with
  | some document => pure document
  | none => failWith "document processing input is unavailable"

/-- Complete a step of a workflow, once. -/
def withStep (step : String) (completedSteps : List String) : List String :=
  if step ∈ completedSteps then completedSteps else completedSteps ++ [step]

/-- Outcome of a scan. -/
inductive ScanOutcome where
  | clean | rejected
  deriving DecidableEq

/-- The status of a scanned document. -/
def ScanOutcome.status : ScanOutcome → DocumentStatus
  | clean => .clean
  | rejected => .rejected

/-- The change `completeDocumentScan` makes to the document. -/
def scannedDocument (context : TenantContext) (documentVersion : Nat) (outcome : ScanOutcome)
    (processedAt : Instant) (document : DocumentRow) : Option DocumentRow :=
  if context.sees document ∧ document.status = .quarantined ∧
      document.version = documentVersion then
    some { document with
      status := outcome.status
      processedAt := some processedAt
      lastErrorClass := none
      version := document.version + 1 }
  else none

/-- The change `completeDocumentScan` makes to the workflow. -/
def scannedWorkflow (context : TenantContext) (workflowVersion : Nat) (outcome : ScanOutcome)
    (workflow : WorkflowRow) : Option WorkflowRow :=
  if context.sees workflow ∧ workflow.version = workflowVersion ∧
      workflow.nextStep = some "scan" then
    some { workflow with
      status := if outcome = .rejected then .completed else .running
      completedSteps := withStep "scan" workflow.completedSteps
      nextStep := if outcome = .rejected then none else some "ocr"
      lastErrorClass := none
      version := workflow.version + 1 }
  else none

/-- `completeDocumentScan`, with the versions that were read. -/
def completeDocumentScan (context : TenantContext) (document : DocumentProcessingInput)
    (outcome : ScanOutcome) (processedAt : Instant) : Transaction Unit := do
  let updated : Option DocumentRow ← updateRow (S := vaultSchema) .documents document.id
    (scannedDocument context document.version outcome processedAt)
  match updated with
  | none => failWith "document scan completion conflict"
  | some _ => do
    let advanced : Option WorkflowRow ← updateRow (S := vaultSchema) .workflowRuns
      document.workflowId (scannedWorkflow context document.workflowVersion outcome)
    match advanced with
    | none => failWith "document scan workflow conflict"
    | some _ => pure ()

/-- `errorClass.slice(0, 120)`. -/
def errorClassColumn (errorClass : String) : String := String.ofList (errorClass.toList.take 120)

/-- The change `recordDocumentScanFailure` makes to the document. -/
def failedDocument (context : TenantContext) (errorClass : String) (document : DocumentRow) :
    Option DocumentRow :=
  if context.sees document ∧ document.status = .quarantined then
    some { document with
      lastErrorClass := some (errorClassColumn errorClass)
      version := document.version + 1 }
  else none

/-- The change the record of a failure makes to the workflow. -/
def failedWorkflow (context : TenantContext) (errorClass : String) (workflow : WorkflowRow) :
    Option WorkflowRow :=
  if context.sees workflow ∧ workflow.status ≠ .completed then
    some { workflow with
      status := .failed
      lastErrorClass := some (errorClassColumn errorClass)
      version := workflow.version + 1 }
  else none

/-- `recordDocumentScanFailure`. -/
def recordDocumentScanFailure (context : TenantContext) (documentId workflowId : Identifier)
    (errorClass : String) : Transaction Unit := do
  let _ ← updateRow (S := vaultSchema) .documents documentId (failedDocument context errorClass)
  let _ ← updateRow (S := vaultSchema) .workflowRuns workflowId (failedWorkflow context errorClass)
  pure ()

/-- The kind of the derivative of an OCR run. -/
def searchablePdf : String := "searchable-pdf"

/-- The object key of a document's derivative. -/
def derivativeObjectKey (documentId : Identifier) : String :=
  "derivatives/" ++ documentId ++ "/" ++ documentId ++ ".encrypted.json"

/-- The derivative `completeDocumentOcr` inserts. -/
def ocrDerivative (context : TenantContext) (document : DocumentProcessingInput)
    (ciphertextSha256 : String) (createdAt : Instant) : DocumentDerivativeRow where
  id := document.id
  organizationId := context.organizationId
  householdId := context.householdId
  documentId := document.id
  kind := searchablePdf
  objectKey := derivativeObjectKey document.id
  ciphertextSha256 := ciphertextSha256
  encryptionKeyVersion := document.encryptionKeyVersion
  createdAt := createdAt

/-- The derivative is the one an OCR run is about to record. -/
def DocumentDerivativeRow.matchesOcr (derivative : DocumentDerivativeRow) (context : TenantContext)
    (document : DocumentProcessingInput) (ciphertextSha256 : String) : Bool :=
  context.sees derivative && derivative.objectKey == derivativeObjectKey document.id &&
    derivative.ciphertextSha256 == ciphertextSha256 &&
    derivative.encryptionKeyVersion == document.encryptionKeyVersion

/-- The step that follows the OCR run of a document. -/
def stepAfterOcr (deleteOriginal : Bool) : String :=
  if deleteOriginal then "delete-original" else "classification"

/-- The change `completeDocumentOcr` makes to the workflow. -/
def recognizedWorkflow (context : TenantContext) (workflowVersion : Nat) (deleteOriginal : Bool)
    (workflow : WorkflowRow) : Option WorkflowRow :=
  if context.sees workflow ∧ workflow.version = workflowVersion ∧
      workflow.nextStep = some "ocr" then
    some { workflow with
      status := .running
      completedSteps := withStep "ocr" workflow.completedSteps
      nextStep := some (stepAfterOcr deleteOriginal)
      lastErrorClass := none
      version := workflow.version + 1 }
  else none

/-- `completeDocumentOcr`. -/
def completeDocumentOcr (context : TenantContext) (document : DocumentProcessingInput)
    (ciphertextSha256 : String) (createdAt : Instant) : Transaction Unit := do
  let _ ← insertOrIgnore (S := vaultSchema) .documentDerivatives (document.id, searchablePdf)
    (ocrDerivative context document ciphertextSha256 createdAt)
  let recorded ← select (fun σ : Vault =>
    (σ.get .documentDerivatives (document.id, searchablePdf)).any
      (fun derivative : DocumentDerivativeRow =>
        derivative.matchesOcr context document ciphertextSha256))
  if recorded then do
    let deleteOriginal ← select (fun σ : Vault => (σ.get .documents document.id).any
      (fun row : DocumentRow => context.sees row && row.deleteOriginalAfterProcessing))
    let advanced : Option WorkflowRow ← updateRow (S := vaultSchema) .workflowRuns
      document.workflowId (recognizedWorkflow context document.workflowVersion deleteOriginal)
    match advanced with
    | none => failWith "document OCR workflow conflict"
    | some _ => pure ()
  else failWith "document OCR derivative conflict"

/-- The change `completeDocumentOriginalDeletion` makes to the document. -/
def originalDeletedDocument (context : TenantContext) (deletedAt : Instant)
    (document : DocumentRow) : Option DocumentRow :=
  if context.sees document ∧ document.deleteOriginalAfterProcessing = true then
    some { document with
      originalDeletedAt := some (document.originalDeletedAt.getD deletedAt)
      version := if document.originalDeletedAt = none then document.version + 1
        else document.version }
  else none

/-- The change `completeDocumentOriginalDeletion` makes to the workflow. -/
def originalDeletedWorkflow (context : TenantContext) (workflow : WorkflowRow) :
    Option WorkflowRow :=
  if context.sees workflow ∧ workflow.nextStep = some "delete-original" then
    some { workflow with
      status := .running
      completedSteps := withStep "delete-original" workflow.completedSteps
      nextStep := some "classification"
      lastErrorClass := none
      version := workflow.version + 1 }
  else none

/-- `completeDocumentOriginalDeletion`. -/
def completeDocumentOriginalDeletion (context : TenantContext)
    (documentId workflowId : Identifier) (deletedAt : Instant) : Transaction Unit := do
  let _ ← updateRow (S := vaultSchema) .documents documentId
    (originalDeletedDocument context deletedAt)
  let advanced : Option WorkflowRow ← updateRow (S := vaultSchema) .workflowRuns workflowId
    (originalDeletedWorkflow context)
  match advanced with
  | some _ => pure ()
  | none => do
    let completed ← select (fun σ : Vault => (σ.get .workflowRuns workflowId).any
      (fun workflow : WorkflowRow =>
        context.sees workflow && workflow.completedSteps.contains "delete-original"))
    if completed then pure () else failWith "document original deletion conflict"

/-- What a reader downloads of a document. -/
structure DocumentDownloadMaterial where
  id : Identifier
  objectKey : String
  mediaType : String
  ciphertextSha256 : String
  wrappedDataKey : Sealed
  encryptionKeyVersion : Nat
  version : Nat
  deriving DecidableEq

/-- The row `getDocumentDownloadMaterial` selects, if its metadata are complete. -/
def downloadMaterialOf (context : TenantContext) (documentId : Identifier) (σ : Vault) :
    Option DocumentDownloadMaterial := do
  let document : DocumentRow ← (σ.get .documents documentId).filter
    (fun document : DocumentRow => context.sees document && document.status == .clean &&
      document.originalDeletedAt.isNone)
  let ciphertextSha256 ← document.ciphertextSha256
  let wrappedDataKey ← document.wrappedDataKey
  some ⟨document.id, document.objectKey, document.mediaType, ciphertextSha256, wrappedDataKey,
    document.encryptionKeyVersion, document.version⟩

/-- `getDocumentDownloadMaterial`. -/
def getDocumentDownloadMaterial (context : TenantContext) (documentId : Identifier) :
    Transaction (Option DocumentDownloadMaterial) :=
  select (downloadMaterialOf context documentId)

/-! ## Steps of any workflow -/

/-- `getWorkflow`. -/
def getWorkflow (context : TenantContext) (workflowId : Identifier) : Transaction WorkflowRow := do
  let found : Option WorkflowRow ← select (fun σ : Vault =>
    (σ.get .workflowRuns workflowId).filter
      (fun workflow : WorkflowRow => context.sees workflow))
  match found with
  | some workflow => pure workflow
  | none => failWith "workflow unavailable"

/-- The change `completeWorkflowStep` makes to the workflow. -/
def steppedWorkflow (context : TenantContext) (expectedVersion : Nat) (step : String)
    (nextStep : Option String) (workflow : WorkflowRow) : Option WorkflowRow :=
  if context.sees workflow ∧ workflow.version = expectedVersion ∧ workflow.status ≠ .completed then
    some { workflow with
      status := if nextStep = none then .completed else .running
      completedSteps := withStep step workflow.completedSteps
      nextStep := nextStep
      lastErrorClass := none
      version := workflow.version + 1 }
  else none

/-- `completeWorkflowStep`. -/
def completeWorkflowStep (context : TenantContext) (workflowId : Identifier)
    (expectedVersion : Nat) (step : String) (nextStep : Option String) :
    Transaction WorkflowRow := do
  let updated : Option WorkflowRow ← updateRow (S := vaultSchema) .workflowRuns workflowId
    (steppedWorkflow context expectedVersion step nextStep)
  match updated with
  | some workflow => pure workflow
  | none => failWith "workflow version conflict"

/-- `recordWorkflowFailure`. -/
def recordWorkflowFailure (context : TenantContext) (workflowId : Identifier)
    (errorClass : String) : Transaction Unit := do
  let _ ← updateRow (S := vaultSchema) .workflowRuns workflowId (failedWorkflow context errorClass)
  pure ()

end LegacyVault
