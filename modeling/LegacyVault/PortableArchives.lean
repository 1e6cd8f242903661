import LegacyVault.Library.CanonicalJson
import LegacyVault.Library.EcmaText
import LegacyVault.Library.IsoTime
import LegacyVault.DocumentHandlers
import LegacyVault.PortableExports

/-!
# Portable archives

The handler of a portable export. It reads the household's records and the
list of its documents, fetches their ciphertexts, builds an archive that is
encrypted under the caller's key and signed, stores it under the key of the
export, and completes the export with the archive's digest.

Of the snapshot the tables that hold envelopes are modelled.
-/

namespace LegacyVault

open JsonText RowTransaction RowTransaction.Program RowTransaction.Protocol IsoTime EcmaText

/-! ## What an export reads -/

/-- The tables of the snapshot that hold envelopes. -/
structure HouseholdSnapshot where
  people : List PersonRow
  facts : List FactRow
  reports : List ReportRow

/-- A document of an export. -/
structure ExportDocument where
  id : Identifier
  objectKey : String
  mediaType : String
  encryptionKeyVersion : Nat
  deriving DecidableEq

/-- `PortableExportBuildInput`. -/
structure PortableExportBuildInput where
  exportId : Identifier
  workflowId : Identifier
  status : ExportStatus
  createdAt : Instant
  wrappedExportKey : Sealed
  encryptionKeyVersion : Nat
  snapshot : HouseholdSnapshot
  documents : List ExportDocument

section Queries

variable (context : TenantContext) (σ : Vault)

/-- The export of a workflow. -/
def exportOf (workflowId : Identifier) : Option ExportRow :=
  (σ.rowsOf .exports).find? (fun portableExport : ExportRow =>
    context.sees portableExport && portableExport.workflowId == workflowId &&
      (σ.get .workflowRuns workflowId).any (fun workflow : WorkflowRow =>
        context.sees workflow && workflow.subjectType == some "Export" &&
          workflow.subjectId == some portableExport.id))

/-- The snapshot query. -/
def householdSnapshot : HouseholdSnapshot where
  people := ((σ.rowsOf .people).filter (fun person : PersonRow => context.sees person)).insertionSort
    (fun a b => a.id ≤ b.id)
  facts := ((σ.rowsOf .facts).filter (fun fact : FactRow => context.sees fact)).insertionSort
    (fun a b => a.id ≤ b.id)
  reports := ((σ.rowsOf .reports).filter (fun report : ReportRow => context.sees report)).insertionSort
    (fun a b => a.id ≤ b.id)

/-- A document as an export lists it. -/
def DocumentRow.exported (document : DocumentRow) : ExportDocument :=
  ⟨document.id, document.objectKey, document.mediaType, document.encryptionKeyVersion⟩

/-- The documents query. -/
def exportedDocuments : List ExportDocument :=
  (((σ.rowsOf .documents).filter (fun document : DocumentRow =>
    context.sees document && document.status == .clean)).insertionSort
      (fun a b => a.id ≤ b.id)).map DocumentRow.exported

end Queries

/-- `getPortableExportBuildInput`. -/
def getPortableExportBuildInput (context : TenantContext) (workflowId : Identifier) :
    Transaction PortableExportBuildInput := do
  let found ← select (fun σ => exportOf context σ workflowId)
  match found with
  | none => failWith "portable export is unavailable"
  | some portableExport => do
    let snapshot ← select (householdSnapshot context)
    let documents ← select (exportedDocuments context)
    pure ⟨portableExport.id, portableExport.workflowId, portableExport.status,
      portableExport.createdAt, portableExport.wrappedExportKey,
      portableExport.encryptionKeyVersion, snapshot, documents⟩

/-! ## Archives -/

/-- A text that may be missing, as a JSON value. -/
def optionalText (text : Option String) : Json := (text.map Json.str).getD .null

/-- `to_jsonb` of a person, without its tenant. -/
def PersonRow.toJson (person : PersonRow) : Json :=
  .obj [("id", .str person.id), ("display_name_encrypted", ciphertextJson person.displayNameEncrypted),
    ("key_version", .nat person.keyVersion), ("version", .nat person.version)]

/-- `to_jsonb` of a fact, without its tenant. -/
def FactRow.toJson (fact : FactRow) : Json :=
  .obj [("id", .str fact.id), ("field_key", .str fact.fieldKey),
    ("typed_value_encrypted", ciphertextJson fact.typedValueEncrypted),
    ("key_version", .nat fact.keyVersion), ("status", .str fact.status.text),
    ("source_type", .str fact.sourceType.text), ("source_id", .str fact.sourceId),
    ("evidence_ids", .arr (fact.evidenceIds.map Json.str)),
    ("confidence", (fact.confidence.map Json.num).getD .null),
    ("sensitivity", .str fact.sensitivity.text), ("confirmed_by", optionalText fact.confirmedBy),
    ("confirmed_at", optionalText (fact.confirmedAt.map toISOString)),
    ("version", .nat fact.version)]

/-- `to_jsonb` of a report, without its tenant. -/
def ReportRow.toJson (report : ReportRow) : Json :=
  .obj [("id", .str report.id), ("workflow_id", optionalText report.workflowId),
    ("kind", .str report.kind.text), ("status", .str report.status.text),
    ("generated_at", .str (toISOString report.generatedAt)),
    ("payload_encrypted", (report.payloadEncrypted.map ciphertextJson).getD .null),
    ("encryption_key_version", (report.encryptionKeyVersion.map Json.nat).getD .null),
    ("requested_by", optionalText report.requestedBy), ("version", .nat report.version)]

/-- The snapshot as a JSON value. -/
def HouseholdSnapshot.toJson (snapshot : HouseholdSnapshot) : Json :=
  .obj [("format", .str "legacy-vault-household-snapshot/v1"),
    ("people", .arr (snapshot.people.map PersonRow.toJson)),
    ("facts", .arr (snapshot.facts.map FactRow.toJson)),
    ("reports", .arr (snapshot.reports.map ReportRow.toJson))]

/-- `PortableExportEntry`. -/
structure PortableExportEntry where
  path : String
  mediaType : String
  bytes : String

/-- The path stays inside the archive. -/
def isSafePath (path : String) : Bool :=
  path != "" && !path.toList.contains '\\' &&
    (path.toList.splitOn '/').all (fun segment =>
      segment != [] && segment != ['.'] && segment != ['.', '.'])

/-- A part of a media type. -/
def isMediaTypeName (name : List Char) : Bool :=
  match name with
  | first :: second :: rest => first.isAlphanum &&
      (second :: rest).all (fun c => c.isAlphanum || c == '.' || c == '+' || c == '-')
  | _ => false

/-- `type/subtype`. -/
def isMediaType (mediaType : String) : Bool :=
  match mediaType.toList.splitOn '/' with
  | [name, subname] => isMediaTypeName name && isMediaTypeName subname
  | _ => false

/-- `assertEntry`: the text of its error, if there is one. -/
def assertEntry (entry : PortableExportEntry) : Option String :=
  if isSafePath entry.path = false then some "export entry path is unsafe"
  else if isMediaType entry.mediaType = false then some "export entry media type is invalid"
  else none

/-- The first error of the entries, each with the paths before it. -/
def entriesError : List String → List PortableExportEntry → Option String
  | _, [] => none
  | paths, entry :: entries =>
    match assertEntry entry with
    | some message => some message
    | none =>
      if entry.path ∈ paths then some "export entry path is duplicated"
      else entriesError (entry.path :: paths) entries

/-- `canonicalReportValue`. -/
def canonicalReportValue (value : Json) : String := stableStringify id value

/-- The context an archive is encrypted in. -/
def exportContext (archiveId : Identifier) (keyVersion : Nat) : EncryptionContext :=
  ⟨"portable-export", "portable-export", archiveId, "portable-export", keyVersion⟩

/-- What signs the manifest of an archive. -/
structure ExportManifestSigner where
  sign : String → String
  publicKeySpkiBase64 : String

/-- The input of `createPortableExport`, with the random IV of its encryption. -/
structure PortableExportInput where
  archiveId : Identifier
  organizationId : Identifier
  householdId : Identifier
  createdAt : Instant
  keyVersion : Nat
  exportKey : SymmetricKey
  entries : List PortableExportEntry
  iv : Nat

section Archive

variable (sha256 : Sha256) (signer : ExportManifestSigner) (input : PortableExportInput)

/-- An entry of the inner manifest. -/
def PortableExportEntry.inner (entry : PortableExportEntry) : Json :=
  .obj [("path", .str entry.path), ("mediaType", .str entry.mediaType),
    ("sha256", .str (sha256.digest entry.bytes)), ("size", .nat entry.bytes.utf8ByteSize),
    ("contentBase64", .str (base64 entry.bytes.toUTF8.toList))]

/-- `InnerExportManifest`. -/
def PortableExportInput.inner : Json :=
  .obj [("format", .str "legacy-vault-portable-export/v1"), ("archiveId", .str input.archiveId),
    ("organizationId", .str input.organizationId), ("householdId", .str input.householdId),
    ("createdAt", .str (toISOString input.createdAt)),
    ("entries", .arr ((input.entries.insertionSort (fun a b => a.path ≤ b.path)).map
      (PortableExportEntry.inner sha256)))]

/-- The envelope of an archive. -/
def PortableExportInput.envelope : Sealed :=
  encryptEnvelope (.data (canonicalReportValue (input.inner sha256))) input.exportKey
    (exportContext input.archiveId input.keyVersion) input.iv

/-- `PublicExportManifest`. -/
def PortableExportInput.manifest : Json :=
  .obj [("format", .str "legacy-vault-encrypted-export/v1"), ("archiveId", .str input.archiveId),
    ("createdAt", .str (toISOString input.createdAt)), ("encryption", .str "A256GCM"),
    ("keyVersion", .nat input.keyVersion), ("envelopeSha256", .str
      (sha256.digest (canonicalReportValue (ciphertextJson (input.envelope sha256)))))]

/-- `createPortableExport`: the text of the container. -/
def createPortableExport : Except String String :=
  if input.archiveId = "" ∨ input.organizationId = "" ∨ input.householdId = "" then
    .error "export identity is incomplete"
  else
    match entriesError [] input.entries with
    | some message => .error message
    | none => .ok (canonicalReportValue (.obj [("manifest", input.manifest sha256),
        ("envelope", ciphertextJson (input.envelope sha256)),
        ("signature", .str (signer.sign (canonicalReportValue (input.manifest sha256)))),
        ("signerPublicKey", .str signer.publicKeySpkiBase64)]))

end Archive

/-! ## The handler -/

/-- The execution of the export handler for one delivery of its job, with what it reads outside
the database. -/
structure ExportDelivery where
  context : TenantContext
  workflowId : Identifier
  applicationKek : SymmetricKey
  signer : ExportManifestSigner
  /-- The active household key. -/
  householdKey : SymmetricKey
  /-- Its version. -/
  keyVersion : Nat
  /-- Random IV of the household key's encryption. -/
  wrapIv : Nat
  /-- Random IV of the archive's encryption. -/
  iv : Nat
  /-- Reading of the clock when the export is completed. -/
  completedAt : Instant

/-- The context the household key is encrypted in. -/
def portableKeyContext (exportId : Identifier) (keyVersion : Nat) : EncryptionContext :=
  ⟨"portable-export", "portable-export", exportId, "portable-household-key", keyVersion⟩

/-- The object key of an export. -/
def exportObjectKey (exportId : Identifier) : String := "exports/" ++ exportId ++ ".lvault"

section Delivery

variable (delivery : ExportDelivery) (build : PortableExportBuildInput)

/-- The caller's key; `none` where the handler throws. -/
def ExportDelivery.exportKey : Option SymmetricKey :=
  match decryptEnvelope build.wrappedExportKey delivery.applicationKek
    (exportKeyContext delivery.context build.encryptionKeyVersion) with
  | some (.key exportKey) => some exportKey
  | _ => none

/-- The household key under the caller's key. -/
def ExportDelivery.rewrappedHouseholdKey (exportKey : SymmetricKey) : Sealed :=
  encryptEnvelope (.key delivery.householdKey) exportKey
    (portableKeyContext build.exportId build.encryptionKeyVersion) delivery.wrapIv

/-- The entries of the archive. -/
def ExportDelivery.entries (exportKey : SymmetricKey) (contents : List (ExportDocument × Sealed)) :
    List PortableExportEntry :=
  [⟨"records/household-snapshot.json", "application/json", stringify build.snapshot.toJson⟩,
    ⟨"keys/household-dek.json", "application/json", stringify (.obj [
      ("keyVersion", .nat delivery.keyVersion),
      ("envelope", ciphertextJson (delivery.rewrappedHouseholdKey build exportKey))])⟩] ++
    contents.map (fun content => ⟨"documents/" ++ content.1.id ++ ".encrypted",
      "application/octet-stream", plaintextBytes content.2⟩)

/-- The archive of an export; `none` where the handler throws. -/
def ExportDelivery.archive (sha256 : Sha256) (contents : List (ExportDocument × Sealed)) :
    Option String := do
  let exportKey ← delivery.exportKey build
  (createPortableExport sha256 delivery.signer
    { archiveId := build.exportId
      organizationId := delivery.context.organizationId
      householdId := delivery.context.householdId
      createdAt := build.createdAt
      keyVersion := build.encryptionKeyVersion
      exportKey := exportKey
      entries := delivery.entries build exportKey contents
      iv := delivery.iv }).toOption

end Delivery

/-- The change `completePortableExport` makes to the export. -/
def completedExport (context : TenantContext) (workflowId : Identifier) (objectKey : String)
    (archiveSha256 signerPublicKey : String) (completedAt : Instant)
    (portableExport : ExportRow) : Option ExportRow :=
  if context.sees portableExport ∧ portableExport.workflowId = workflowId ∧
      portableExport.status ≠ .completed then
    some { portableExport with
      status := .completed
      objectKey := some objectKey
      archiveSha256 := some archiveSha256
      signerPublicKey := some signerPublicKey
      completedAt := some completedAt
      version := portableExport.version + 1 }
  else none

/-- The change `completePortableExport` makes to the workflow. -/
def exportedWorkflow (context : TenantContext) (workflow : WorkflowRow) : Option WorkflowRow :=
  if context.sees workflow ∧ workflow.status ≠ .completed then
    some { workflow with
      status := .completed
      completedSteps := ["snapshot", "archive", "store"]
      nextStep := none
      version := workflow.version + 1 }
  else none

/-- The export is completed with this archive. -/
def ExportRow.completedWith (portableExport : ExportRow) (context : TenantContext)
    (workflowId : Identifier) (objectKey archiveSha256 : String) : Bool :=
  context.sees portableExport && portableExport.workflowId == workflowId &&
    portableExport.status == .completed && portableExport.objectKey == some objectKey &&
    portableExport.archiveSha256 == some archiveSha256

/-- The last statement of `completePortableExport`. -/
def completeExportWorkflow (context : TenantContext) (workflowId : Identifier) :
    Transaction Unit := do
  let _ ← updateRow (S := vaultSchema) .workflowRuns workflowId (exportedWorkflow context)
  pure ()

/-- `completePortableExport`. -/
def completePortableExport (context : TenantContext) (exportId workflowId : Identifier)
    (objectKey archiveSha256 signerPublicKey : String) (completedAt : Instant) :
    Transaction Unit := do
  let completed : Option ExportRow ← updateRow (S := vaultSchema) .exports exportId
    (completedExport context workflowId objectKey archiveSha256 signerPublicKey completedAt)
  match completed with
  | some _ => completeExportWorkflow context workflowId
  | none => do
    let existing ← select (fun σ : Vault => (σ.get .exports exportId).any
      (fun portableExport : ExportRow =>
        portableExport.completedWith context workflowId objectKey archiveSha256))
    if existing then completeExportWorkflow context workflowId
    else failWith "portable export completion conflict"

/-! ## The protocol -/

/-- A call of `startPortableExport`. -/
structure ExportStartCall where
  context : TenantContext
  key : String
  applicationKek : SymmetricKey
  exportKey : SymmetricKey
  generated : ExportGenerated
  now : Instant

/-- One transaction of an export, or one operation on the object store. -/
inductive ExportStep where
  | start (call : ExportStartCall)
  /-- The handler reads what it builds the archive from. -/
  | read (delivery : ExportDelivery)
  | fetch (delivery : ExportDelivery) (build : PortableExportBuildInput)
      (document : ExportDocument)
  | put (delivery : ExportDelivery) (build : PortableExportBuildInput) (archive : String)
  | complete (delivery : ExportDelivery) (build : PortableExportBuildInput) (archive : String)

/-- Result of one step. -/
inductive ExportAnswer where
  | answer (answer : Answer Json)
  | build (build : PortableExportBuildInput)
  | ciphertext (ciphertext : Sealed)
  | done

/-- The log entry of one step. -/
abbrev ExportEntry := Entry ExportStep RepositoryError ExportAnswer

/-- The transaction of a step. -/
def exportProgram (sha256 : Sha256) : ExportStep → Transaction ExportAnswer
  | .start call => do
    let answer ← startPortableExport sha256 call.applicationKek call.context call.key
      call.exportKey call.generated call.now
    pure (.answer answer)
  | .read delivery => do
    let build ← getPortableExportBuildInput delivery.context delivery.workflowId
    pure (.build build)
  | .fetch _ _ document => do
    let ciphertext ← getCiphertext document.objectKey
    pure (.ciphertext ciphertext)
  | .put _ build archive => do
    putObject (exportObjectKey build.exportId) ⟨.data archive, .completed⟩
    pure .done
  | .complete delivery build archive => do
    completePortableExport delivery.context build.exportId build.workflowId
      (exportObjectKey build.exportId) (sha256.digest archive)
      delivery.signer.publicKeySpkiBase64 delivery.completedAt
    pure .done

section Permissions

variable (sha256 : Sha256) (log : List ExportEntry)

/-- The execution has read an export that is not completed. -/
def Builds (delivery : ExportDelivery) (build : PortableExportBuildInput) : Prop :=
  (⟨.read delivery, .committed (.build build)⟩ : ExportEntry) ∈ log ∧ build.status ≠ .completed

/-- What may happen next. Exports may be started, and read by an execution, at any time. -/
def exportPermitted : ExportStep → Prop
  | .start _ | .read _ => True
  | .fetch delivery build document => Builds log delivery build ∧ document ∈ build.documents
  | .put delivery build archive => Builds log delivery build ∧
      ∃ contents : List (ExportDocument × Sealed), contents.map Prod.fst = build.documents ∧
        (∀ content ∈ contents, (⟨.fetch delivery build content.1,
          .committed (.ciphertext content.2)⟩ : ExportEntry) ∈ log) ∧
        delivery.archive build sha256 contents = some archive
  | .complete delivery build archive =>
    (⟨.put delivery build archive, .committed .done⟩ : ExportEntry) ∈ log

end Permissions

/-- The handler of exports as a protocol. -/
abbrev exportProtocol (sha256 : Sha256) : Protocol vaultSchema where
  Request := ExportStep
  Error := RepositoryError
  Result := ExportAnswer
  program := exportProgram sha256
  permitted := exportPermitted sha256

end LegacyVault
