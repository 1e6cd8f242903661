import LegacyVault.IdempotencyRecords

/-!
# Portable exports

Starting a portable export: the caller's export key is wrapped under the
application key and stored with a new export and its workflow, in the
transaction that reserves the key and stores the response.
-/

namespace LegacyVault

open JsonText RowTransaction RowTransaction.Program

/-- What the runtime generates for a portable export. -/
structure ExportGenerated where
  exportId : Identifier
  workflowId : Identifier
  requestedAt : Instant
  wrapIv : Nat
  deriving DecidableEq

/-- The context an export key is wrapped in. -/
def exportKeyContext (context : TenantContext) (keyVersion : Nat) : EncryptionContext :=
  ⟨context.organizationId, context.householdId, context.householdId, "portable-export-key",
    keyVersion⟩

/-- The request shape `startPortableExport` hashes. -/
def exportShape (sha256 : Sha256) (exportKey : SymmetricKey) (encryptionKeyVersion : Nat) : Json :=
  .obj [("exportKeyFingerprint", .str (sha256.digest exportKey)),
    ("encryptionKeyVersion", .nat encryptionKeyVersion)]

/-- The workflow that `startPortableExport` inserts. -/
def exportWorkflow (context : TenantContext) (generated : ExportGenerated) : WorkflowRow where
  id := generated.workflowId
  organizationId := context.organizationId
  householdId := context.householdId
  kind := "export"
  idempotencyKey := "export:" ++ generated.exportId
  status := .pending
  completedSteps := []
  nextStep := some "snapshot"
  lastErrorClass := none
  subjectType := some "Export"
  subjectId := some generated.exportId
  version := 1

/-- The export that `startPortableExport` inserts. -/
def startedExport (context : TenantContext) (wrappedExportKey : Sealed)
    (generated : ExportGenerated) : ExportRow where
  id := generated.exportId
  organizationId := context.organizationId
  householdId := context.householdId
  workflowId := generated.workflowId
  status := .pending
  wrappedExportKey := wrappedExportKey
  encryptionKeyVersion := 1
  objectKey := none
  archiveSha256 := none
  signerPublicKey := none
  createdAt := generated.requestedAt
  completedAt := none
  version := 1

/-- The mutation of `startPortableExport`. -/
def startExportMutation (context : TenantContext) (wrappedExportKey : Sealed)
    (generated : ExportGenerated) : Transaction Json := do
  let workflow := exportWorkflow context generated
  let _ ← insertRow (S := vaultSchema) .workflowRuns generated.workflowId workflow
    (.uniqueViolation "workflow_runs_pkey")
  let portableExport := startedExport context wrappedExportKey generated
  let _ ← insertRow (S := vaultSchema) .exports generated.exportId portableExport
    (.uniqueViolation "exports_pkey")
  pure (.obj [("export", .obj [("id", .str portableExport.id),
      ("status", .str portableExport.status.text), ("version", .nat portableExport.version)]),
    ("workflow", .obj [("id", .str workflow.id), ("status", .str workflow.status.text),
      ("version", .nat workflow.version)])])

/-- Starting an export writes workflows and exports only. -/
theorem startExportMutation_leaves {t : VaultTable} (hworkflows : t ≠ .workflowRuns)
    (hexports : t ≠ .exports) (context : TenantContext) (wrappedExportKey : Sealed)
    (generated : ExportGenerated) :
    (startExportMutation context wrappedExportKey generated).Leaves t :=
  writes_bind (writes_insertRow hworkflows) (fun _ =>
    writes_bind (writes_insertRow hexports) (fun _ => writes_commit _))

/-- What starting an export fails with. -/
def startExportFailures : List RepositoryError :=
  [.uniqueViolation "workflow_runs_pkey", .uniqueViolation "exports_pkey"]

theorem startExportMutation_raises (context : TenantContext) (wrappedExportKey : Sealed)
    (generated : ExportGenerated) :
    (startExportMutation context wrappedExportKey generated).Raises (· ∈ startExportFailures) :=
  raises_bind (raises_insertRow (by decide)) (fun _ =>
    raises_bind (raises_insertRow (by decide)) (fun _ => raises_commit _))

/-- Errors of an export start on an existing record. -/
def startExportErrors : RecordErrors :=
  ⟨"idempotency key reused with different request", "export request is still processing"⟩

/-- `startPortableExport`, with the runtime's wrapping of the export key. -/
def startPortableExport (sha256 : Sha256) (applicationKek : SymmetricKey)
    (context : TenantContext) (key : String) (exportKey : SymmetricKey)
    (generated : ExportGenerated) (now : Instant) : Transaction (Answer Json) :=
  withTenantRecord context key (sha256.ofJson (exportShape sha256 exportKey 1)) now 202
    startExportErrors
    (startExportMutation context (encryptEnvelope (.key exportKey) applicationKek
      (exportKeyContext context 1) generated.wrapIv) generated)

end LegacyVault
