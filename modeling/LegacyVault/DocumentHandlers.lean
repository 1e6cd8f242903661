import LegacyVault.DocumentExtraction
import LegacyVault.DocumentProcessing
import LegacyVault.DocumentUploads
import LegacyVault.ObjectStorage

/-!
# Document handlers

The life of documents as a protocol: uploads through presigned URLs, the
handlers of the scan and of the OCR run, the manual extraction, and the
reading of a document's content. Every transaction and every operation on
the object store is a step of its own; jobs are delivered any number of
times, and an execution may stop after any step.
-/

namespace LegacyVault

open JsonText RowTransaction RowTransaction.Program

/-! ## Plaintexts -/

/-- The bytes of a decrypted message, one character a byte. -/
def plaintextBytes : Sealed → String
  | .data value | .key value => value
  | ciphertext => stringify (ciphertextJson ciphertext)

/-- Media types and the prefixes of their files. -/
def signatures : List (String × List (List Nat)) :=
  [("application/pdf", [[0x25, 0x50, 0x44, 0x46, 0x2d]]),
    ("image/jpeg", [[0xff, 0xd8, 0xff]]),
    ("image/png", [[0x89, 0x50, 0x4e, 0x47, 0x0d, 0x0a, 0x1a, 0x0a]]),
    ("image/tiff", [[0x49, 0x49, 0x2a, 0x00], [0x4d, 0x4d, 0x00, 0x2a]])]

/-- `validateDocumentBytes`: the text of its error, if there is one. -/
def validateDocumentBytes (bytes declaredMediaType : String) (maximumBytes : Nat) :
    Option String :=
  let codes := bytes.toList.map Char.toNat
  if codes = [] then some "document is empty"
  else if maximumBytes < codes.length then some "document exceeds the configured size limit"
  else
    match signatures.find? (fun signature => signature.2.any (fun start => start.isPrefixOf codes)) with
    | none => some "document type is not supported"
    | some signature =>
      if signature.1 = declaredMediaType then none
      else some "declared media type does not match file signature"

/-! ## Deliveries -/

/-- The two handlers of the `document-process` job. -/
inductive DocumentHandler where
  | scan | ocr
  deriving DecidableEq

/-- The execution of a handler for one delivery of a job, with what it reads outside the
database. -/
structure Delivery where
  handler : DocumentHandler
  context : TenantContext
  workflowId : Identifier
  /-- The active household key. -/
  householdKey : SymmetricKey
  /-- Whether the malware scanner finds some bytes clean. -/
  scansClean : String → Bool
  /-- What OCR makes of some bytes. -/
  extractSearchablePdf : String → String
  /-- Random IV of the derivative's encryption. -/
  iv : Nat
  /-- Reading of the clock when an outcome is recorded. -/
  now : Instant

section Delivery

variable (sha256 : Sha256) (delivery : Delivery) (document : DocumentProcessingInput)

/-- The document's key, unwrapped with the household key. -/
def openDataKey (context : TenantContext) (householdKey : SymmetricKey)
    (documentId : Identifier) (wrappedDataKey : Sealed) (keyVersion : Nat) :
    Option SymmetricKey :=
  match decryptEnvelope wrappedDataKey householdKey
    (documentKeyContext context documentId keyVersion) with
  | some (.key dataKey) => some dataKey
  | _ => none

/-- The document's key as the handlers unwrap it. -/
def Delivery.dataKey : Option SymmetricKey :=
  openDataKey delivery.context delivery.householdKey document.id document.wrappedDataKey
    document.encryptionKeyVersion

/-- The bytes of the original in a fetched ciphertext; `none` where a handler throws. -/
def Delivery.openOriginal (ciphertext : Sealed) : Option String := do
  let dataKey ← delivery.dataKey document
  let plaintext ← decryptEnvelope ciphertext dataKey
    (documentOriginalContext delivery.context document.id document.encryptionKeyVersion)
  if sha256.digest (plaintextBytes plaintext) = document.originalSha256 then
    some (plaintextBytes plaintext)
  else none

/-- The ciphertext of the derivative. -/
def Delivery.derivative (bytes : String) : Option Sealed := do
  let dataKey ← delivery.dataKey document
  some (encryptEnvelope (.data (delivery.extractSearchablePdf bytes)) dataKey
    ⟨delivery.context.organizationId, delivery.context.householdId, document.id,
      "document-searchable-pdf", document.encryptionKeyVersion⟩ delivery.iv)

/-- The handler goes on with a document in this state instead of returning. -/
def Delivery.handles : Bool :=
  match delivery.handler with
  | .scan => document.status != .clean && document.status != .rejected &&
      document.nextStep == some "scan"
  | .ocr => document.nextStep == some "ocr" || document.nextStep == some "delete-original"

/-- The handler fetches the original of a document in this state. -/
def Delivery.fetches : Bool :=
  match delivery.handler with
  | .scan => document.status == .quarantined && document.nextStep == some "scan"
  | .ocr => document.status == .clean && document.nextStep == some "ocr"

end Delivery

/-! ## Calls -/

/-- A call of `startDocumentUpload`. -/
structure UploadStartCall where
  context : TenantContext
  key : String
  input : DocumentUploadInput
  generated : DocumentUploadGenerated
  now : Instant

/-- A call of `createDocumentUploadUrl`. -/
structure UploadUrlCall where
  context : TenantContext
  documentId : Identifier
  expectedVersion : Nat
  ciphertextSha256 : String
  issuedAt : Instant

/-- How long a presigned upload is valid, in milliseconds. -/
def uploadUrlLifetime : Instant := 300 * 1000

/-- A call of `completeDocumentUpload`. -/
structure UploadCompletionCall where
  context : TenantContext
  key : String
  input : UploadCompletionInput
  workflowId : Identifier
  uploadedAt : Instant
  now : Instant

/-- A call of `completeManualDocumentExtraction`. -/
structure ExtractionCall where
  context : TenantContext
  key : String
  input : ManualExtractionInput
  generated : ManualExtractionGenerated
  now : Instant

/-- A call of `getDocumentContent`. -/
structure ContentCall where
  context : TenantContext
  documentId : Identifier
  /-- The active household key. -/
  householdKey : SymmetricKey

/-- The bytes `getDocumentContent` returns of a fetched ciphertext; `none` where it throws. -/
def ContentCall.content (sha256 : Sha256) (call : ContentCall)
    (material : DocumentDownloadMaterial) (ciphertext : Sealed) : Option String := do
  if sha256.ofCiphertext ciphertext = material.ciphertextSha256 then
    let dataKey ← openDataKey call.context call.householdKey material.id material.wrappedDataKey
      material.encryptionKeyVersion
    let plaintext ← decryptEnvelope ciphertext dataKey
      (documentOriginalContext call.context material.id material.encryptionKeyVersion)
    some (plaintextBytes plaintext)
  else none

/-! ## The protocol -/

/-- One transaction, or one operation on the object store. -/
inductive DocumentStep where
  | startUpload (call : UploadStartCall)
  /-- `createDocumentUploadUrl` reads the pending document. -/
  | pendingForUrl (call : UploadUrlCall)
  /-- The client PUTs a ciphertext through the URL. -/
  | upload (call : UploadUrlCall) (document : DocumentRow) (ciphertext : Sealed) (at_ : Instant)
  /-- `completeDocumentUpload` reads the pending document. -/
  | pendingForCompletion (call : UploadCompletionCall)
  | assertStored (call : UploadCompletionCall) (document : DocumentRow)
  | completeUpload (call : UploadCompletionCall)
  | extract (call : ExtractionCall)
  /-- A handler reads document and workflow. -/
  | read (delivery : Delivery)
  | fetch (delivery : Delivery) (document : DocumentProcessingInput)
  | markClean (delivery : Delivery) (document : DocumentProcessingInput) (bytes : String)
  | completeScan (delivery : Delivery) (document : DocumentProcessingInput) (outcome : ScanOutcome)
  | putDerivative (delivery : Delivery) (document : DocumentProcessingInput) (derivative : Sealed)
  | completeOcr (delivery : Delivery) (document : DocumentProcessingInput) (derivative : Sealed)
  | deleteOriginal (delivery : Delivery) (document : DocumentProcessingInput)
  | completeDeletion (delivery : Delivery) (document : DocumentProcessingInput)
  | recordFailure (delivery : Delivery) (document : DocumentProcessingInput) (errorClass : String)
  /-- `getDocumentContent` reads the document. -/
  | material (call : ContentCall)
  | checkStatus (call : ContentCall) (material : DocumentDownloadMaterial)
  | download (call : ContentCall) (material : DocumentDownloadMaterial)

/-- Result of one step. -/
inductive DocumentAnswer where
  | document (document : DocumentRow)
  | answer (answer : Answer Json)
  | input (document : DocumentProcessingInput)
  | ciphertext (ciphertext : Sealed)
  | material (material : Option DocumentDownloadMaterial)
  | status (status : ObjectStatus)
  | content (bytes : String)
  | done

/-- The log entry of one step. -/
abbrev DocumentEntry := Entry DocumentStep RepositoryError DocumentAnswer

/-- The transaction of a step. -/
def documentProgram (sha256 : Sha256) : DocumentStep → Transaction DocumentAnswer
  | .startUpload call => do
    let document ← startDocumentUpload sha256 call.context call.key call.input call.generated
      call.now
    pure (.document document)
  | .pendingForUrl call => do
    let document ← getPendingDocumentUpload call.context call.documentId
    pure (.document document)
  | .upload _ document ciphertext _ => do
    putObject document.objectKey ⟨ciphertext, .quarantined⟩
    pure .done
  | .pendingForCompletion call => do
    let document ← getPendingDocumentUpload call.context call.input.documentId
    pure (.document document)
  | .assertStored call document => do
    assertStoredChecksum sha256 document.objectKey call.input.ciphertextSha256
    pure .done
  | .completeUpload call => do
    let answer ← completeDocumentUpload sha256 call.context call.key call.input call.workflowId
      call.uploadedAt call.now
    pure (.answer answer)
  | .extract call => do
    let answer ← completeManualDocumentExtraction sha256 call.context call.key call.input
      call.generated call.now
    pure (.answer answer)
  | .read delivery => do
    let document ← getDocumentProcessingInput delivery.context delivery.workflowId
    pure (.input document)
  | .fetch _ document => do
    let ciphertext ← getCiphertext document.objectKey
    pure (.ciphertext ciphertext)
  | .markClean _ document _ => do
    markClean document.objectKey
    pure .done
  | .completeScan delivery document outcome => do
    completeDocumentScan delivery.context document outcome delivery.now
    pure .done
  | .putDerivative _ document derivative => do
    putObject (derivativeObjectKey document.id) ⟨derivative, .clean⟩
    pure .done
  | .completeOcr delivery document derivative => do
    completeDocumentOcr delivery.context document (sha256.ofCiphertext derivative) delivery.now
    pure .done
  | .deleteOriginal _ document => do
    deleteObject document.objectKey
    pure .done
  | .completeDeletion delivery document => do
    completeDocumentOriginalDeletion delivery.context document.id document.workflowId delivery.now
    pure .done
  | .recordFailure delivery document errorClass => do
    recordDocumentScanFailure delivery.context document.id document.workflowId errorClass
    pure .done
  | .material call => do
    let material ← getDocumentDownloadMaterial call.context call.documentId
    pure (.material material)
  | .checkStatus _ material => do
    let status ← objectStatus material.objectKey
    pure (.status status)
  | .download call material => do
    let ciphertext ← getCiphertext material.objectKey
    match call.content sha256 material ciphertext with
    | some bytes => pure (.content bytes)
    | none => failWith "document content is unavailable"

section Permissions

variable (sha256 : Sha256) (log : List DocumentEntry)

/-- The step has committed without a result. -/
def Done (step : DocumentStep) : Prop := (⟨step, .committed .done⟩ : DocumentEntry) ∈ log

/-- The delivery has read its document and workflow. -/
def HasRead (delivery : Delivery) (document : DocumentProcessingInput) : Prop :=
  (⟨.read delivery, .committed (.input document)⟩ : DocumentEntry) ∈ log

/-- The delivery has fetched a ciphertext that opens to the original. -/
def Opened (delivery : Delivery) (document : DocumentProcessingInput) (bytes : String) : Prop :=
  ∃ ciphertext, (⟨.fetch delivery document, .committed (.ciphertext ciphertext)⟩ :
    DocumentEntry) ∈ log ∧ delivery.openOriginal sha256 document ciphertext = some bytes

/-- The scan of a delivery has come to a verdict. -/
def Scanned (delivery : Delivery) (document : DocumentProcessingInput) (bytes : String)
    (clean : Bool) : Prop :=
  delivery.handler = .scan ∧ Opened sha256 log delivery document bytes ∧
    validateDocumentBytes bytes document.mediaType document.maximumBytes = none ∧
    delivery.scansClean bytes = clean

/-- What may happen next. Uploads, reads and extractions may begin at any time; every other step
follows the one before it in its call or in its handler. -/
def documentPermitted : DocumentStep → Prop
  | .startUpload _ | .pendingForUrl _ | .pendingForCompletion _ | .extract _ | .read _
  | .material _ => True
  | .upload call document ciphertext at_ =>
    (⟨.pendingForUrl call, .committed (.document document)⟩ : DocumentEntry) ∈ log ∧
      document.version = call.expectedVersion ∧
      sha256.ofCiphertext ciphertext = call.ciphertextSha256 ∧
      at_ ≤ call.issuedAt + uploadUrlLifetime
  | .assertStored call document =>
    (⟨.pendingForCompletion call, .committed (.document document)⟩ : DocumentEntry) ∈ log ∧
      document.version = call.input.expectedVersion
  | .completeUpload call => ∃ document, Done log (.assertStored call document)
  | .fetch delivery document => HasRead log delivery document ∧ delivery.fetches document = true
  | .markClean delivery document bytes => Scanned sha256 log delivery document bytes true
  | .completeScan delivery document .clean =>
    ∃ bytes, Done log (.markClean delivery document bytes)
  | .completeScan delivery document .rejected =>
    ∃ bytes, Scanned sha256 log delivery document bytes false
  | .putDerivative delivery document derivative =>
    delivery.handler = .ocr ∧ ∃ bytes, Opened sha256 log delivery document bytes ∧
      delivery.derivative document bytes = some derivative
  | .completeOcr delivery document derivative =>
    Done log (.putDerivative delivery document derivative)
  | .deleteOriginal delivery document =>
    delivery.handler = .ocr ∧
      ((HasRead log delivery document ∧ document.nextStep = some "delete-original") ∨
        (document.deleteOriginalAfterProcessing = true ∧
          ∃ derivative, Done log (.completeOcr delivery document derivative)))
  | .completeDeletion delivery document => Done log (.deleteOriginal delivery document)
  | .recordFailure delivery document _ =>
    HasRead log delivery document ∧ delivery.handles document = true
  | .checkStatus call material =>
    (⟨.material call, .committed (.material (some material))⟩ : DocumentEntry) ∈ log
  | .download call material =>
    (⟨.checkStatus call material, .committed (.status .clean)⟩ : DocumentEntry) ∈ log

end Permissions

/-- The life of documents as a protocol. -/
abbrev documentProtocol (sha256 : Sha256) : Protocol vaultSchema where
  Request := DocumentStep
  Error := RepositoryError
  Result := DocumentAnswer
  program := documentProgram sha256
  permitted := documentPermitted sha256

end LegacyVault
