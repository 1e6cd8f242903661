import LegacyVault.IdempotencyRecords

/-!
# Document uploads

Starting an upload inserts a pending document under a new object key;
completing it quarantines the document with the checksum of its ciphertext
and inserts the workflow that processes it. Each stores its response in the
record of its key, in the same transaction.

The consent that is recorded with a document and its expiry are read by no
modelled statement.
-/

namespace LegacyVault

open JsonText RowTransaction RowTransaction.Program

/-- What the caller of `startDocumentUpload` supplies. -/
structure DocumentUploadInput where
  originalSha256 : String
  mediaType : String
  maximumBytes : Nat
  expiresAt : Option String
  documentConsentPolicyVersion : String
  deleteOriginalAfterProcessing : Bool
  deriving DecidableEq

/-- What the runtime generates for an upload. -/
structure DocumentUploadGenerated where
  id : Identifier
  /-- The random part of the object key. -/
  objectId : Identifier
  /-- The key of the document. -/
  dataKey : SymmetricKey
  /-- The household key. -/
  plaintextKey : SymmetricKey
  /-- Its version. -/
  keyVersion : Nat
  /-- Nonce of the wrapping. -/
  iv : Nat
  deriving DecidableEq

/-- The context a document's key is wrapped in. -/
def documentKeyContext (context : TenantContext) (documentId : Identifier) (keyVersion : Nat) :
    EncryptionContext :=
  ⟨context.organizationId, context.householdId, documentId, "document-data-key", keyVersion⟩

/-- The context a document's original is encrypted in. -/
def documentOriginalContext (context : TenantContext) (documentId : Identifier)
    (keyVersion : Nat) : EncryptionContext :=
  ⟨context.organizationId, context.householdId, documentId, "document-original", keyVersion⟩

/-- The request shape `startDocumentUpload` hashes. -/
def DocumentUploadInput.shape (input : DocumentUploadInput) : Json :=
  .obj [("originalSha256", .str input.originalSha256), ("mediaType", .str input.mediaType),
    ("maximumBytes", .nat input.maximumBytes),
    ("expiresAt", (input.expiresAt.map Json.str).getD .null),
    ("documentConsentPolicyVersion", .str input.documentConsentPolicyVersion),
    ("deleteOriginalAfterProcessing", .bool input.deleteOriginalAfterProcessing)]

/-- `DocumentObjectStore.createObjectKey`. -/
def DocumentUploadGenerated.objectKey (generated : DocumentUploadGenerated) : String :=
  "quarantine/" ++ generated.objectId

/-- The document that `startDocumentUpload` inserts. -/
def pendingDocument (context : TenantContext) (input : DocumentUploadInput)
    (generated : DocumentUploadGenerated) : DocumentRow where
  id := generated.id
  organizationId := context.organizationId
  householdId := context.householdId
  objectKey := generated.objectKey
  originalSha256 := input.originalSha256
  mediaType := input.mediaType
  status := .pending
  encryptionKeyVersion := generated.keyVersion
  wrappedDataKey := some (encryptEnvelope (.key generated.dataKey) generated.plaintextKey
    (documentKeyContext context generated.id generated.keyVersion) generated.iv)
  maximumBytes := input.maximumBytes
  ciphertextSha256 := none
  uploadedAt := none
  processedAt := none
  lastErrorClass := none
  deleteOriginalAfterProcessing := input.deleteOriginalAfterProcessing
  originalDeletedAt := none
  version := 1

/-- The mutation of `startDocumentUpload`. -/
def startUploadMutation (context : TenantContext) (input : DocumentUploadInput)
    (generated : DocumentUploadGenerated) : Transaction Json := do
  let _ ← insertRow (S := vaultSchema) .documentObjectKeys generated.objectKey generated.id
    (.uniqueViolation "documents_object_key_key")
  let _ ← insertRow (S := vaultSchema) .documents generated.id
    (pendingDocument context input generated) (.uniqueViolation "documents_pkey")
  pure (.obj [("document", .obj [("id", .str generated.id)])])

/-- Errors of an upload start on an existing record: one text for both. -/
def startUploadErrors : RecordErrors :=
  ⟨"document upload idempotency conflict", "document upload idempotency conflict"⟩

/-- A document that waits for its upload. -/
def DocumentRow.pendingIn (context : TenantContext) (document : DocumentRow) : Bool :=
  context.sees document && document.status == .pending && document.wrappedDataKey.isSome

/-- `getPendingDocumentUpload`. -/
def getPendingDocumentUpload (context : TenantContext) (documentId : Identifier) :
    Transaction DocumentRow := do
  let found : Option DocumentRow ← select (fun σ : Vault =>
    (σ.get .documents documentId).filter
      (fun document : DocumentRow => document.pendingIn context))
  match found with
  | some document => pure document
  | none => failWith "document upload is unavailable"

/-- The document a stored upload response names. -/
def uploadedDocumentId (body : Json) : Option Identifier :=
  match (member "document" body).bind (member "id") with
  | some (.str documentId) => some documentId
  | _ => none

/-- `startDocumentUpload`: the document of the response, as long as it is pending. -/
def startDocumentUpload (sha256 : Sha256) (context : TenantContext) (key : String)
    (input : DocumentUploadInput) (generated : DocumentUploadGenerated) (now : Instant) :
    Transaction DocumentRow := do
  let answer ← withTenantRecord context key (sha256.ofJson input.shape) now 201 startUploadErrors
    (startUploadMutation context input generated)
  match uploadedDocumentId answer.body with
  | some documentId => getPendingDocumentUpload context documentId
  | none => failWith "document upload idempotency conflict"

/-- What the caller of `completeDocumentUpload` supplies. -/
structure UploadCompletionInput where
  documentId : Identifier
  expectedVersion : Nat
  ciphertextSha256 : String
  deriving DecidableEq

/-- The request shape `completeDocumentUpload` hashes. -/
def UploadCompletionInput.shape (input : UploadCompletionInput) : Json :=
  .obj [("documentId", .str input.documentId), ("expectedVersion", .nat input.expectedVersion),
    ("ciphertextSha256", .str input.ciphertextSha256)]

/-- The change `completeDocumentUpload` makes to the document. -/
def quarantinedDocument (context : TenantContext) (input : UploadCompletionInput)
    (uploadedAt : Instant) (document : DocumentRow) : Option DocumentRow :=
  if context.sees document ∧ document.status = .pending ∧
      document.version = input.expectedVersion then
    some { document with
      status := .quarantined
      ciphertextSha256 := some input.ciphertextSha256
      uploadedAt := some uploadedAt
      version := document.version + 1 }
  else none

/-- The workflow that `completeDocumentUpload` inserts. -/
def documentWorkflow (context : TenantContext) (documentId workflowId : Identifier) :
    WorkflowRow where
  id := workflowId
  organizationId := context.organizationId
  householdId := context.householdId
  kind := "document-processing"
  idempotencyKey := "document:" ++ documentId
  status := .pending
  completedSteps := []
  nextStep := some "scan"
  lastErrorClass := none
  subjectType := some "Document"
  subjectId := some documentId
  version := 1

/-- The mutation of `completeDocumentUpload`. -/
def completeUploadMutation (context : TenantContext) (input : UploadCompletionInput)
    (workflowId : Identifier) (uploadedAt : Instant) : Transaction Json := do
  let updated : Option DocumentRow ← updateRow (S := vaultSchema) .documents input.documentId
    (quarantinedDocument context input uploadedAt)
  match updated with
  | none => failWith "document upload version conflict"
  | some document => do
    let workflow := documentWorkflow context input.documentId workflowId
    requireUnique "workflow_runs_organization_id_household_id_idempotency_key_key" (fun σ =>
      (σ.rowsOf .workflowRuns).any (fun other : WorkflowRow =>
        context.sees other && other.idempotencyKey == workflow.idempotencyKey))
    let _ ← insertRow (S := vaultSchema) .workflowRuns workflowId workflow
      (.uniqueViolation "workflow_runs_pkey")
    pure (.obj [("document", .obj [("id", .str document.id),
        ("status", .str document.status.text), ("version", .nat document.version)]),
      ("workflow", .obj [("id", .str workflow.id), ("status", .str workflow.status.text),
        ("version", .nat workflow.version)])])

/-- Errors of an upload completion on an existing record: one text for both. -/
def completeUploadErrors : RecordErrors :=
  ⟨"document completion idempotency conflict", "document completion idempotency conflict"⟩

/-- `completeDocumentUpload`. -/
def completeDocumentUpload (sha256 : Sha256) (context : TenantContext) (key : String)
    (input : UploadCompletionInput) (workflowId : Identifier) (uploadedAt now : Instant) :
    Transaction (Answer Json) :=
  withTenantRecord context key (sha256.ofJson input.shape) now 202 completeUploadErrors
    (completeUploadMutation context input workflowId uploadedAt)

section Leaves

variable {t : VaultTable}

/-- An upload start writes documents and their object keys only. -/
theorem startUploadMutation_leaves (hkeys : t ≠ .documentObjectKeys) (hdocuments : t ≠ .documents)
    (context : TenantContext) (input : DocumentUploadInput)
    (generated : DocumentUploadGenerated) :
    (startUploadMutation context input generated).Leaves t :=
  writes_bind (writes_insertRow hkeys) (fun _ =>
    writes_bind (writes_insertRow hdocuments) (fun _ => writes_commit _))

theorem getPendingDocumentUpload_readOnly (context : TenantContext) (documentId : Identifier) :
    (getPendingDocumentUpload context documentId).ReadOnly := by
  refine writes_bind (writes_select _) (fun found => ?_)
  cases found
  · exact writes_rollback _
  · exact writes_commit _

/-- An upload completion writes documents and workflows only. -/
theorem completeUploadMutation_leaves (hdocuments : t ≠ .documents)
    (hworkflows : t ≠ .workflowRuns) (context : TenantContext) (input : UploadCompletionInput)
    (workflowId : Identifier) (uploadedAt : Instant) :
    (completeUploadMutation context input workflowId uploadedAt).Leaves t := by
  refine writes_bind (writes_updateRow (fun _ _ _ => hdocuments)) (fun updated => ?_)
  cases updated
  · exact writes_rollback _
  · exact writes_bind (writes_requireUnique _ _) (fun _ =>
      writes_bind (writes_insertRow hworkflows) (fun _ => writes_commit _))

end Leaves

end LegacyVault
