import LegacyVault.DocumentContents
import LegacyVault.HouseholdKeys
import LegacyVault.HouseholdTenants

/-!
# From upload to download

The upload route of the web application, the runtime's answer to the start of
an upload, and `getDocumentContent`. The route seals a file under the tenant
that the API has listed and the key that the API has returned; the workers and
the API open it under the tenant of their own identity and the document's key,
which they unwrap from its row.

The calls of the route commit in the document protocol, its listing is read in
a run of the household operations, and the household keys were returned by the
key store.
-/

namespace LegacyVault

open JsonText RowTransaction RowTransaction.Program RowTransaction.Protocol Store

/-! ## The start of an upload -/

/-- What `startDocumentUpload` of the runtime returns. -/
structure StartedUpload where
  documentId : Identifier
  status : DocumentStatus
  version : Nat
  dataKey : SymmetricKey
  keyVersion : Nat
  purpose : String
  deriving DecidableEq

/-- The key of the response: the generated one for a new document, the document's own for one that
was there. -/
def UploadStartCall.returnedKey (call : UploadStartCall) (record : DocumentRow) :
    Option SymmetricKey :=
  if record.id = call.generated.id then some call.generated.dataKey
  else record.wrappedDataKey.bind (fun wrappedDataKey =>
    openDataKey call.context call.generated.plaintextKey record.id wrappedDataKey
      record.encryptionKeyVersion)

/-- `startDocumentUpload` of the runtime, on the document that the repository has returned; `none`
where it throws. -/
def UploadStartCall.started (call : UploadStartCall) (record : DocumentRow) :
    Option StartedUpload :=
  (call.returnedKey record).map (fun dataKey =>
    ⟨record.id, record.status, record.version, dataKey, record.encryptionKeyVersion,
      "document-original"⟩)

/-! ## The web route -/

/-- Media types the route takes. -/
def supportedMediaTypes : List String :=
  ["application/pdf", "image/jpeg", "image/png", "image/tiff"]

/-- A file of the form, one character a byte. -/
structure UploadFile where
  bytes : String
  mediaType : String
  deriving DecidableEq

/-- A request to the route. -/
structure UploadForm where
  /-- The origin header is absent, or that of the application. -/
  sameOrigin : Bool
  /-- A finite `content-length`. -/
  contentLength : Option Nat
  /-- The `x-household-id` header, or nothing. -/
  householdId : Identifier
  file : Option UploadFile
  documentConsent : Bool
  retention : String
  deriving DecidableEq

/-- The household that the form selects. -/
def UploadForm.household (form : UploadForm) (households : List HouseholdMembershipSummary) :
    Option HouseholdMembershipSummary :=
  households.find? (fun item => item.id == form.householdId)

/-- Status and text of the problem the route answers before it starts an upload, if there is one. -/
def UploadForm.problem (form : UploadForm) (households : List HouseholdMembershipSummary) :
    Option (Nat × String) :=
  if form.sameOrigin = false then some (403, "The upload origin is not allowed.")
  else if form.contentLength.any (fun length => decide (101 * 1024 * 1024 < length)) then
    some (413, "The upload request is too large.")
  else if form.householdId = "" then some (400, "Select an active household before uploading.")
  else
    match form.file with
    | none => some (400, "Choose a document to upload.")
    | some file =>
      if file.bytes.length < 1 then some (400, "Choose a document to upload.")
      else if 100 * 1024 * 1024 < file.bytes.length then
        some (413, "Documents must be 100 MB or smaller.")
      else if file.mediaType ∉ supportedMediaTypes then
        some (415, "Use a PDF, JPEG, PNG, or TIFF document.")
      else if form.documentConsent = false then
        some (400, "Document processing consent is required.")
      else if form.retention ≠ "keep" ∧ form.retention ≠ "delete" then
        some (400, "Choose an original retention option.")
      else if (form.household households).isNone then
        some (403, "The active household is unavailable.")
      else none

/-- The body of the route's start request. -/
def UploadForm.startInput (sha256 : Sha256) (form : UploadForm) (file : UploadFile) :
    DocumentUploadInput where
  originalSha256 := sha256.digest file.bytes
  mediaType := file.mediaType
  maximumBytes := file.bytes.length
  expiresAt := none
  documentConsentPolicyVersion := "document-processing-v1"
  deleteOriginalAfterProcessing := form.retention == "delete"

/-- A run of the route: what it was sent, what the API has answered, and the calls that its requests
have become. -/
structure WebUpload where
  account : AccountContext
  form : UploadForm
  file : UploadFile
  households : List HouseholdMembershipSummary
  household : HouseholdMembershipSummary
  start : UploadStartCall
  /-- What the repository has returned to the start. -/
  record : DocumentRow
  started : StartedUpload
  /-- Random IV of the route's encryption. -/
  iv : Nat
  url : UploadUrlCall
  completion : UploadCompletionCall

/-- What the route puts under the presigned URL. -/
def WebUpload.ciphertext (upload : WebUpload) : Sealed :=
  encryptEnvelope (.data upload.file.bytes) upload.started.dataKey
    ⟨upload.household.organizationId, upload.household.id, upload.started.documentId,
      upload.started.purpose, upload.started.keyVersion⟩ upload.iv

section Completed

variable {applicationKek : SymmetricKey} {asked : OnceCall → Prop} (sha256 : Sha256)
  (tenants : (onceProtocol sha256 applicationKek asked).System) (log : List DocumentEntry)

/-- The route has run to its end. -/
structure WebUpload.Completed (upload : WebUpload) : Prop where
  accepted : upload.form.problem upload.households = none
  file : upload.form.file = some upload.file
  listed : Listed tenants upload.account upload.households
  selected : upload.form.household upload.households = some upload.household
  /-- Each request is resolved to a tenant of its own. -/
  resolved : Resolved tenants upload.account upload.form.householdId upload.start.context ∧
    Resolved tenants upload.account upload.form.householdId upload.url.context ∧
    Resolved tenants upload.account upload.form.householdId upload.completion.context
  input : upload.start.input = upload.form.startInput sha256 upload.file
  start : (⟨.startUpload upload.start, .committed (.document upload.record)⟩ : DocumentEntry) ∈ log
  started : upload.start.started upload.record = some upload.started
  urlDocument : upload.url.documentId = upload.started.documentId
  urlVersion : upload.url.expectedVersion = upload.started.version
  urlChecksum : upload.url.ciphertextSha256 = sha256.ofCiphertext upload.ciphertext
  put : ∃ document at_, (⟨.upload upload.url document upload.ciphertext at_, .committed .done⟩ :
    DocumentEntry) ∈ log
  completionInput : upload.completion.input = ⟨upload.started.documentId, upload.started.version,
    sha256.ofCiphertext upload.ciphertext⟩
  completed : ∃ answer, (⟨.completeUpload upload.completion, .committed (.answer answer)⟩ :
    DocumentEntry) ∈ log

end Completed

/-! ## What the download relies on -/

/-- Generated identifiers do not repeat. -/
def FreshIds (log : List DocumentEntry) : Prop :=
  ∀ call call' answer answer',
    (⟨.startUpload call, .committed answer⟩ : DocumentEntry) ∈ log →
    (⟨.startUpload call', .committed answer'⟩ : DocumentEntry) ∈ log →
    call.generated.id = call'.generated.id → call.generated = call'.generated

/-- The household keys of starts and deliveries were returned by the key store. -/
structure KeysReturned {keyEncryptionKey : SymmetricKey} {hashtextextended : String → Int}
    (keys : List (keyProtocol keyEncryptionKey hashtextextended).LogEntry)
    (log : List DocumentEntry) : Prop where
  starts : ∀ call answer, (⟨.startUpload call, .committed answer⟩ : DocumentEntry) ∈ log →
    ReturnedTo keys call.context.organizationId call.context.householdId
      ⟨call.generated.keyVersion, call.generated.plaintextKey⟩
  deliveries : ∀ delivery document, HasRead log delivery document → ∃ keyVersion,
    ReturnedTo keys delivery.context.organizationId delivery.context.householdId
      ⟨keyVersion, delivery.householdKey⟩

/-- A scan handler has come to its end for the document: it has found nothing to do, or has recorded
a verdict. -/
def ScanCompleted (log : List DocumentEntry) (documentId : Identifier) : Prop :=
  ∃ delivery document, delivery.handler = .scan ∧ HasRead log delivery document ∧
    document.id = documentId ∧ (delivery.handles document = false ∨
      ∃ outcome, Done log (.completeScan delivery document outcome))

/-- Nothing else was put under the upload's key, the scanner finds its bytes clean, and its original
is not deleted. -/
structure WebUpload.Undisturbed (upload : WebUpload) (log : List DocumentEntry) : Prop where
  alone : ciphertextsOf upload.record.objectKey log = [upload.ciphertext]
  clean : ∀ delivery document, HasRead log delivery document → document.id = upload.record.id →
    delivery.handler = .scan → delivery.scansClean upload.file.bytes = true
  stored : ¬ Deleted log upload.record.objectKey

/-! ## The download -/

/-- What `getDocumentContent` returns. -/
structure DocumentContent where
  bytes : String
  mediaType : String
  version : Nat
  deriving DecidableEq

/-- `getDocumentContent`: it reads the document, the tag of its object and the object at three
moments, each in the store of that moment. -/
def getDocumentContent (sha256 : Sha256) (call : ContentCall) (atMaterial atStatus atObject : Vault) :
    Except RepositoryError (Option DocumentContent) := do
  let material ←
    ((getDocumentDownloadMaterial call.context call.documentId).transact atMaterial).1
  match material with
  | none => .ok none
  | some material => do
    let status ← ((objectStatus material.objectKey).transact atStatus).1
    if status = .clean then do
      let ciphertext ← ((getCiphertext material.objectKey).transact atObject).1
      match call.content sha256 material ciphertext with
      | some bytes => .ok (some ⟨bytes, material.mediaType, material.version⟩)
      | none => .error (.error "document content is unavailable")
    else .error (.error "document object is not clean")

/-! ## Keys -/

/-- A wrapped key opens for every caller of its tenant that has the household key. -/
theorem openDataKey_encryptEnvelope {context context' : TenantContext}
    (horganization : context.organizationId = context'.organizationId)
    (hhousehold : context.householdId = context'.householdId) (key dataKey : SymmetricKey)
    (documentId : Identifier) (keyVersion iv : Nat) :
    openDataKey context key documentId (encryptEnvelope (.key dataKey) key
      (documentKeyContext context' documentId keyVersion) iv) keyVersion = some dataKey := by
  have hcontext : documentKeyContext context documentId keyVersion =
      documentKeyContext context' documentId keyVersion := by
    simp only [documentKeyContext, horganization, hhousehold]
  rw [openDataKey, hcontext, decryptEnvelope_encryptEnvelope]

/-- The document of an upload in a store, with the start that has inserted it. -/
structure WebUpload.StoredAs (sha256 : Sha256) (upload : WebUpload) (σ : Vault) (row : DocumentRow)
    (source : UploadStartCall) : Prop where
  found : σ.get .documents upload.record.id = some row
  kept : (pendingDocument source.context source.input source.generated).Kept row
  id : source.generated.id = upload.record.id
  organization : source.context.organizationId = upload.household.organizationId
  household : source.context.householdId = upload.household.id
  started : ∃ status version, upload.started = ⟨upload.record.id, status, version,
    source.generated.dataKey, source.generated.keyVersion, "document-original"⟩
  originalSha256 : row.originalSha256 = sha256.digest upload.file.bytes
  mediaType : row.mediaType = upload.file.mediaType
  objectKey : row.objectKey = upload.record.objectKey

namespace WebUpload.StoredAs

variable {sha256 : Sha256} {upload : WebUpload} {σ : Vault} {row : DocumentRow}
  {source : UploadStartCall}

/-- The route has sealed the file as the document's key and context say. -/
theorem ciphertext (h : upload.StoredAs sha256 σ row source) :
    upload.ciphertext = encryptEnvelope (.data upload.file.bytes) source.generated.dataKey
      (documentOriginalContext source.context source.generated.id source.generated.keyVersion)
      upload.iv := by
  obtain ⟨status, version, hstarted⟩ := h.started
  rw [WebUpload.ciphertext, hstarted, documentOriginalContext, h.organization, h.household, h.id]

theorem rowId (h : upload.StoredAs sha256 σ row source) : row.id = source.generated.id :=
  h.kept.column DocumentRow.id (fun _ => rfl)

theorem keyVersion (h : upload.StoredAs sha256 σ row source) :
    row.encryptionKeyVersion = source.generated.keyVersion :=
  h.kept.column DocumentRow.encryptionKeyVersion (fun _ => rfl)

theorem wrappedDataKey (h : upload.StoredAs sha256 σ row source) :
    row.wrappedDataKey = some (encryptEnvelope (.key source.generated.dataKey)
      source.generated.plaintextKey (documentKeyContext source.context source.generated.id
        source.generated.keyVersion) source.generated.iv) :=
  h.kept.column DocumentRow.wrappedDataKey (fun _ => rfl)

/-- Whoever sees the document is of the household's tenant. -/
theorem tenant (h : upload.StoredAs sha256 σ row source) {context : TenantContext}
    (hsees : context.sees row = true) : context.organizationId = source.context.organizationId ∧
      context.householdId = source.context.householdId := by
  obtain ⟨horganization, hhousehold⟩ := TenantContext.sees_iff.mp hsees
  constructor
  · exact horganization.symm.trans (h.kept.column DocumentRow.organizationId (fun _ => rfl))
  · exact hhousehold.symm.trans (h.kept.column DocumentRow.householdId (fun _ => rfl))

/-- The tenant of the household sees the document. -/
theorem sees (h : upload.StoredAs sha256 σ row source) {context : TenantContext}
    (horganization : context.organizationId = source.context.organizationId)
    (hhousehold : context.householdId = source.context.householdId) : context.sees row = true := by
  refine TenantContext.sees_iff.mpr ⟨?_, ?_⟩
  · rw [horganization]
    exact h.kept.column DocumentRow.organizationId (fun _ => rfl)
  · rw [hhousehold]
    exact h.kept.column DocumentRow.householdId (fun _ => rfl)

/-- The document's key opens for its tenant, and with it what the route has sealed. -/
theorem opens (h : upload.StoredAs sha256 σ row source) {context : TenantContext}
    (horganization : context.organizationId = source.context.organizationId)
    (hhousehold : context.householdId = source.context.householdId) {wrappedDataKey : Sealed}
    (hwrapped : row.wrappedDataKey = some wrappedDataKey) :
    openDataKey context source.generated.plaintextKey row.id wrappedDataKey
        row.encryptionKeyVersion = some source.generated.dataKey ∧
      decryptEnvelope upload.ciphertext source.generated.dataKey
        (documentOriginalContext context row.id row.encryptionKeyVersion) =
          some (.data upload.file.bytes) := by
  obtain rfl := Option.some.inj (hwrapped.symm.trans h.wrappedDataKey)
  rw [h.rowId, h.keyVersion, h.ciphertext]
  refine ⟨openDataKey_encryptEnvelope horganization hhousehold _ _ _ _ _, ?_⟩
  have hcontext : documentOriginalContext context source.generated.id source.generated.keyVersion =
      documentOriginalContext source.context source.generated.id source.generated.keyVersion := by
    simp only [documentOriginalContext, horganization, hhousehold]
  rw [hcontext, decryptEnvelope_encryptEnvelope]

end WebUpload.StoredAs

section RoundTrip

variable {sha256 : Sha256} {init : Vault} {keyEncryptionKey : SymmetricKey}
  {hashtextextended : String → Int} {initKeys : KeyRows}
  {keys : (keyProtocol keyEncryptionKey hashtextextended).System} {applicationKek : SymmetricKey}
  {asked : OnceCall → Prop} {tenants : (onceProtocol sha256 applicationKek asked).System}
  {s : (documentProtocol sha256).System} {upload : WebUpload}

/-- Callers of one tenant that were returned a household key were returned the same key. -/
theorem returned_plaintextKey (hnoKeys : NoKeys initKeys) (hkeys : Reachable initKeys keys)
    {context context' : TenantContext} (horganization : context.organizationId =
      context'.organizationId) (hhousehold : context.householdId = context'.householdId)
    {key key' : ActiveHouseholdKey}
    (hkey : ReturnedTo keys.log context.organizationId context.householdId key)
    (hkey' : ReturnedTo keys.log context'.organizationId context'.householdId key') : key = key' := by
  rw [horganization, hhousehold] at hkey
  exact householdKey_unique hnoKeys hkeys hkey hkey'

/-- The document of a completed upload is stored as its start has inserted it. -/
theorem WebUpload.Completed.storedAs (hinit : NoDocuments init)
    (hrecords : NoUploadRecords sha256 init) (hs : Reachable init s) (hnoKeys : NoKeys initKeys)
    (hkeys : Reachable initKeys keys) (hreturned : KeysReturned keys.log s.log)
    (hfresh : FreshIds s.log) (h : upload.Completed sha256 tenants s.log) :
    ∃ row source, upload.StoredAs sha256 s.committed row source ∧
      ReturnedTo keys.log source.context.organizationId source.context.householdId
        ⟨source.generated.keyVersion, source.generated.plaintextKey⟩ := by
  obtain ⟨-, horigins⟩ := (uploadOrigins_invariant sha256 hinit hrecords).reachable hs
  have hstarted := horigins.started _ _ h.start
  obtain ⟨row, hrow, hkeptRow⟩ := hstarted.found
  obtain ⟨source, answer, hsource, hid, hkept⟩ := horigins.inserted _ row hrow
  -- The tenant of the household is that of the start, of the row and of its source.
  have hhouseholdId : upload.household.id = upload.form.householdId := by
    have hfound := List.find?_some h.selected
    exact beq_iff_eq.mp hfound
  have hresolved := h.resolved.1
  rw [← hhouseholdId] at hresolved
  obtain ⟨horganization, hhousehold⟩ :=
    h.listed.tenant (List.mem_of_find?_eq_some h.selected) hresolved
  have hpending := hstarted.pending
  simp only [DocumentRow.pendingIn, Bool.and_eq_true] at hpending
  have hsees : upload.start.context.sees row = true :=
    (hkeptRow.sees _).trans hpending.1.1
  obtain ⟨hrowOrganization, hrowHousehold⟩ := TenantContext.sees_iff.mp hsees
  have hsourceOrganization : source.context.organizationId = upload.start.context.organizationId :=
    (hkept.column DocumentRow.organizationId (fun _ => rfl)).symm.trans hrowOrganization
  have hsourceHousehold : source.context.householdId = upload.start.context.householdId :=
    (hkept.column DocumentRow.householdId (fun _ => rfl)).symm.trans hrowHousehold
  -- The record has the key columns of its source.
  have hversion : upload.record.encryptionKeyVersion = source.generated.keyVersion :=
    (hkeptRow.column DocumentRow.encryptionKeyVersion (fun _ => rfl)).symm.trans
      (hkept.column DocumentRow.encryptionKeyVersion (fun _ => rfl))
  have hwrapped : upload.record.wrappedDataKey = some (encryptEnvelope
      (.key source.generated.dataKey) source.generated.plaintextKey
      (documentKeyContext source.context source.generated.id source.generated.keyVersion)
      source.generated.iv) :=
    (hkeptRow.column DocumentRow.wrappedDataKey (fun _ => rfl)).symm.trans
      (hkept.column DocumentRow.wrappedDataKey (fun _ => rfl))
  have hsourceKey := hreturned.starts _ _ hsource
  have hdataKey : upload.start.returnedKey upload.record = some source.generated.dataKey := by
    unfold UploadStartCall.returnedKey
    split
    · rename_i hnew
      have hgenerated : upload.start.generated = source.generated :=
        hfresh _ _ _ _ h.start hsource (hnew.symm.trans hid.symm)
      rw [hgenerated]
    · have hkey := returned_plaintextKey hnoKeys hkeys hsourceOrganization.symm
        hsourceHousehold.symm (hreturned.starts _ _ h.start) hsourceKey
      rw [hwrapped, Option.bind_some, hversion, (ActiveHouseholdKey.mk.inj hkey).2, ← hid]
      exact openDataKey_encryptEnvelope hsourceOrganization.symm hsourceHousehold.symm _ _ _ _ _
  have hstartedKey := h.started
  rw [UploadStartCall.started, hdataKey, Option.map_some, hversion] at hstartedKey
  have hinput := hstarted.originalSha256
  have hmedia := hstarted.mediaType
  rw [h.input] at hinput hmedia
  refine ⟨row, source, ⟨hrow, hkept, hid, hsourceOrganization.trans horganization,
    hsourceHousehold.trans hhousehold, ⟨_, _, (Option.some.inj hstartedKey).symm⟩, ?_, ?_, ?_⟩,
    hsourceKey⟩
  · exact (hkeptRow.column DocumentRow.originalSha256 (fun _ => rfl)).trans hinput
  · exact (hkeptRow.column DocumentRow.mediaType (fun _ => rfl)).trans hmedia
  · exact hkeptRow.column DocumentRow.objectKey (fun _ => rfl)

/-- A delivery that has read the document of an upload opens what the route has sealed. -/
theorem WebUpload.StoredAs.openOriginal {row : DocumentRow} {source : UploadStartCall}
    (h : upload.StoredAs sha256 s.committed row source) (hinit : NoDocuments init)
    (hs : Reachable init s) (hnoKeys : NoKeys initKeys) (hkeys : Reachable initKeys keys)
    (hreturned : KeysReturned keys.log s.log)
    (hsourceKey : ReturnedTo keys.log source.context.organizationId source.context.householdId
      ⟨source.generated.keyVersion, source.generated.plaintextKey⟩) {delivery : Delivery}
    {document : DocumentProcessingInput} (hread : HasRead s.log delivery document)
    (hid : document.id = upload.record.id) :
    document.originalSha256 = sha256.digest upload.file.bytes ∧
      delivery.openOriginal sha256 document upload.ciphertext = some upload.file.bytes := by
  obtain ⟨row', workflow, hreadOf⟩ :=
    ((documentRecords_invariant sha256 hinit).reachable hs).reads delivery document hread
  have hfound := hreadOf.found
  rw [hid] at hfound
  obtain rfl := Option.some.inj (hfound.symm.trans h.found)
  obtain ⟨row₀, workflow₀, wrappedDataKey, hwrapped, rfl, hkept₀, -⟩ := hreadOf.read
  obtain ⟨horganization, hhousehold⟩ := h.tenant hreadOf.seesRow
  obtain ⟨keyVersion, hkey⟩ := hreturned.deliveries delivery _ hread
  have hsame := returned_plaintextKey hnoKeys hkeys horganization hhousehold hkey hsourceKey
  have hplaintextKey : delivery.householdKey = source.generated.plaintextKey :=
    (ActiveHouseholdKey.mk.inj hsame).2
  obtain ⟨hdataKey, hopened⟩ := h.opens horganization hhousehold
    ((hkept₀.column DocumentRow.wrappedDataKey (fun _ => rfl)).trans hwrapped)
  rw [hkept₀.id, hkept₀.column DocumentRow.encryptionKeyVersion (fun _ => rfl)] at hdataKey hopened
  have hdigest : row₀.originalSha256 = sha256.digest upload.file.bytes :=
    (hkept₀.column DocumentRow.originalSha256 (fun _ => rfl)).symm.trans h.originalSha256
  refine ⟨hdigest, ?_⟩
  simp only [Delivery.openOriginal, Delivery.dataKey, processingInput, hplaintextKey, hdataKey,
    hopened, Option.bind_eq_bind, Option.bind_some, plaintextBytes, hdigest, if_true]

/-- An opened original has the recorded digest. -/
theorem Opened.digest {log : List DocumentEntry} {delivery : Delivery}
    {document : DocumentProcessingInput} {bytes : String}
    (h : Opened sha256 log delivery document bytes) :
    sha256.digest bytes = document.originalSha256 := by
  obtain ⟨ciphertext, -, hopens⟩ := h
  obtain ⟨dataKey, -, hopens⟩ := Option.bind_eq_some_iff.mp hopens
  obtain ⟨plaintext, -, hopens⟩ := Option.bind_eq_some_iff.mp hopens
  split at hopens
  · rename_i hdigest
    rw [← Option.some.inj hopens]
    exact hdigest
  · exact absurd hopens (by simp)

/-- A scan handler that has come to its end leaves a verdict. -/
theorem ScanCompleted.settled (hinit : NoDocuments init) (horiginals : NoOriginals init)
    (hs : Reachable init s) {documentId : Identifier} (h : ScanCompleted s.log documentId) :
    ScanSettled s.committed documentId := by
  have hcontents := ((documentContents_invariant sha256 hinit horiginals).reachable hs).2
  obtain ⟨delivery, document, hhandler, hread, rfl, hends⟩ := h
  rcases hends with hnothing | ⟨outcome, hdone⟩
  · refine hcontents.reads delivery document hread ?_
    simp only [Delivery.handles, hhandler, Bool.and_eq_false_iff, bne_eq_false_iff_eq,
      beq_eq_false_iff_ne] at hnothing
    exact or_assoc.mp hnothing
  · exact hcontents.verdicts delivery document outcome _ hdone

/-- A scanned upload that nothing has disturbed can be downloaded. -/
theorem WebUpload.StoredAs.downloadable {row : DocumentRow} {source : UploadStartCall}
    (h : upload.StoredAs sha256 s.committed row source) (hinit : NoDocuments init)
    (horiginals : NoOriginals init) (hs : Reachable init s)
    (hscanned : ScanCompleted s.log upload.record.id) {log : List DocumentEntry}
    (hlog : s.log <:+ log) (hundisturbed : upload.Undisturbed log)
    (hopens : ∀ delivery document, HasRead s.log delivery document →
      document.id = upload.record.id → document.originalSha256 = sha256.digest upload.file.bytes) :
    row.status = .clean ∧ row.originalDeletedAt = none ∧
      row.ciphertextSha256 = some (sha256.ofCiphertext upload.ciphertext) ∧
      s.committed.get .objects upload.record.objectKey = some ⟨upload.ciphertext, .clean⟩ := by
  obtain ⟨⟨⟨hrecords, -⟩, -, hobjects⟩, hcontents⟩ :=
    (documentContents_invariant sha256 hinit horiginals).reachable hs
  obtain ⟨-, hstored⟩ := (storedOriginals_invariant sha256 hinit horiginals).reachable hs
  have hdeleted : ¬ Deleted s.log row.objectKey := by
    rw [h.objectKey]
    exact fun hdeleted => hundisturbed.stored (hdeleted.later hlog.subset)
  -- Everything that was put under the key is what the route has put.
  have hsuffix : ciphertextsOf row.objectKey s.log <:+ [upload.ciphertext] := by
    rw [h.objectKey, ← hundisturbed.alone]
    exact ciphertextsOf_suffix hlog
  have honly : ∀ ciphertext ∈ ciphertextsOf row.objectKey s.log, ciphertext = upload.ciphertext :=
    fun ciphertext hmem => List.mem_singleton.mp (hsuffix.subset hmem)
  have hclean : row.status = .clean := by
    obtain ⟨row', hrow', hstatus⟩ := hscanned.settled hinit horiginals hs
    obtain rfl := Option.some.inj (hrow'.symm.trans h.found)
    rcases hstatus with hclean | hrejected
    · exact hclean
    · obtain ⟨delivery, document, bytes, ⟨hhandler, hopened, -, hverdict⟩, hid⟩ :=
        hcontents.rejected _ _ h.found hrejected
      have hdigest := hopened.digest
      obtain ⟨ciphertext, hfetched, -⟩ := hopened
      have hread : HasRead s.log delivery document := hrecords.processes _ hfetched _ _ rfl
      have hbytes : bytes = upload.file.bytes :=
        sha256.collisionFree (hdigest.trans (hopens delivery document hread hid))
      have hfound := hundisturbed.clean delivery document (hlog.subset hread) hid hhandler
      rw [hbytes, hfound] at hverdict
      cases hverdict
  have hpending : row.status ≠ .pending := by
    rw [hclean]
    exact DocumentStatus.noConfusion
  refine ⟨hclean, ?_, ?_, ?_⟩
  · by_contra hdeletedAt
    exact hdeleted (hcontents.deletions _ row h.found hdeletedAt)
  · obtain ⟨ciphertext, hmem, hchecksum⟩ := hcontents.checksums _ row h.found hpending
    rw [hchecksum, honly ciphertext hmem]
  · rcases hstored.documents _ row h.found hpending with ⟨object, hobject⟩ | hdeleted'
    · obtain ⟨delivery, document, bytes, hmarked, hkey⟩ := hcontents.clean _ row h.found hclean
      obtain ⟨-, htag⟩ := hcontents.marked delivery document bytes _ hmarked
      rw [hkey] at htag
      have hciphertext : object.ciphertext = upload.ciphertext := honly _
        (hcontents.objects _ object (hobjects.quarantine _ row h.found) hobject)
      have hstatus : object.status = .clean := htag hsuffix.length_le object hobject
      rw [← h.objectKey, hobject, ← hciphertext, ← hstatus]
    · exact absurd hdeleted' hdeleted

/-- What a download reads, once each of its reads finds the upload in place. -/
theorem getDocumentContent_eq {row : DocumentRow} {source : UploadStartCall} {σ₁ σ₂ σ₃ : Vault}
    (h : upload.StoredAs sha256 σ₁ row source) (hclean : row.status = .clean)
    (hdeletedAt : row.originalDeletedAt = none)
    (hchecksum : row.ciphertextSha256 = some (sha256.ofCiphertext upload.ciphertext))
    (hstatus : σ₂.get .objects upload.record.objectKey = some ⟨upload.ciphertext, .clean⟩)
    (hobject : σ₃.get .objects upload.record.objectKey = some ⟨upload.ciphertext, .clean⟩)
    {call : ContentCall} (hdocument : call.documentId = upload.record.id)
    (horganization : call.context.organizationId = source.context.organizationId)
    (hhousehold : call.context.householdId = source.context.householdId)
    (hkey : call.householdKey = source.generated.plaintextKey) :
    getDocumentContent sha256 call σ₁ σ₂ σ₃ =
      .ok (some ⟨upload.file.bytes, upload.file.mediaType, row.version⟩) := by
  obtain ⟨wrappedDataKey, hwrapped⟩ : ∃ wrappedDataKey, row.wrappedDataKey = some wrappedDataKey :=
    ⟨_, h.wrappedDataKey⟩
  obtain ⟨hdataKey, hopened⟩ := h.opens horganization hhousehold hwrapped
  have hmaterial : ((getDocumentDownloadMaterial call.context call.documentId).transact σ₁).1 =
      .ok (some ⟨row.id, upload.record.objectKey, upload.file.mediaType,
        sha256.ofCiphertext upload.ciphertext, wrappedDataKey, row.encryptionKeyVersion,
        row.version⟩) := by
    have hfound : downloadMaterialOf call.context call.documentId σ₁ =
        some ⟨row.id, upload.record.objectKey, upload.file.mediaType,
          sha256.ofCiphertext upload.ciphertext, wrappedDataKey, row.encryptionKeyVersion,
          row.version⟩ := by
      simp only [downloadMaterialOf, hdocument, h.found, Option.filter_some,
        h.sees horganization hhousehold, hclean, hdeletedAt, hchecksum, hwrapped, h.mediaType,
        h.objectKey, beq_self_eq_true, Option.isNone_none, Bool.and_self, if_true,
        Option.bind_eq_bind, Option.bind_some]
    rw [← hfound]
    rfl
  have htag : ((objectStatus upload.record.objectKey).transact σ₂).1 = .ok .clean := by
    rw [transact, objectStatus, run_bind, run_select, hstatus]
    rfl
  have hfetched : ((getCiphertext upload.record.objectKey).transact σ₃).1 =
      .ok upload.ciphertext := by
    rw [transact, getCiphertext, run_bind, run_select, hobject]
    rfl
  have hcontent : call.content sha256 ⟨row.id, upload.record.objectKey, upload.file.mediaType,
      sha256.ofCiphertext upload.ciphertext, wrappedDataKey, row.encryptionKeyVersion,
      row.version⟩ upload.ciphertext = some upload.file.bytes := by
    simp only [ContentCall.content, hkey, hdataKey, hopened, if_true, Option.bind_eq_bind,
      Option.bind_some, plaintextBytes]
  simp only [getDocumentContent, Bind.bind, Except.bind, hmaterial, htag, hfetched, hcontent,
    if_true]

section Mono

variable {log log' : List DocumentEntry}

theorem WebUpload.Completed.mono (hlog : ∀ entry ∈ log, entry ∈ log')
    (h : upload.Completed sha256 tenants log) : upload.Completed sha256 tenants log' := by
  obtain ⟨document, at_, hput⟩ := h.put
  obtain ⟨answer, hcompleted⟩ := h.completed
  exact { h with
    start := hlog _ h.start
    put := ⟨document, at_, hlog _ hput⟩
    completed := ⟨answer, hlog _ hcompleted⟩ }

theorem ScanCompleted.mono (hlog : ∀ entry ∈ log, entry ∈ log') {documentId : Identifier}
    (h : ScanCompleted log documentId) : ScanCompleted log' documentId := by
  obtain ⟨delivery, document, hhandler, hread, hid, hends⟩ := h
  refine ⟨delivery, document, hhandler, hread.mono hlog, hid, hends.imp_right ?_⟩
  rintro ⟨outcome, hdone⟩
  exact ⟨outcome, hlog _ hdone⟩

theorem FreshIds.of_subset (hlog : ∀ entry ∈ log, entry ∈ log') (h : FreshIds log') :
    FreshIds log :=
  fun call call' answer answer' hmem hmem' => h call call' answer answer' (hlog _ hmem) (hlog _ hmem')

theorem KeysReturned.of_subset {keys : List (keyProtocol keyEncryptionKey hashtextextended).LogEntry}
    (hlog : ∀ entry ∈ log, entry ∈ log') (h : KeysReturned keys log') : KeysReturned keys log :=
  ⟨fun call answer hmem => h.starts call answer (hlog _ hmem),
    fun delivery document hread => h.deliveries delivery document (hread.mono hlog)⟩

end Mono

end RoundTrip

/-! ## A run -/

/-- The founding of the household. -/
def exampleFounding : OnceCall :=
  .createHousehold ⟨"u1"⟩ "k1" ⟨"Family", "Home", "Ada"⟩ ⟨"o1", "h1", "p1", "m1", "hk1", "dek", 1, 2⟩ 0

/-- The household as it is listed. -/
def exampleSummary : HouseholdMembershipSummary := ⟨"h1", "o1", "Home", 1, "m1", "p1", .owner⟩

/-- The call that is returned the household key. -/
def exampleKeyCall : KeyCall := ⟨exampleUploader, "hk1", "household-key", 0⟩

/-- An upload through the web application. -/
def exampleWebUpload : WebUpload where
  account := ⟨"u1"⟩
  form := ⟨true, some 1000, "h1", some ⟨exampleBytes, "application/pdf"⟩, true, "keep"⟩
  file := ⟨exampleBytes, "application/pdf"⟩
  households := [exampleSummary]
  household := exampleSummary
  start := ⟨exampleUploader, "start-key",
    ⟨exampleBytes, "application/pdf", 8, none, "document-processing-v1", false⟩,
    ⟨"d1", "k1", "data-key", "household-key", 1, 0⟩, 0⟩
  record := pendingDocument exampleUploader
    ⟨exampleBytes, "application/pdf", 8, none, "document-processing-v1", false⟩
    ⟨"d1", "k1", "data-key", "household-key", 1, 0⟩
  started := ⟨"d1", .pending, 1, "data-key", 1, "document-original"⟩
  iv := 1
  url := exampleUrl
  completion := exampleCompletion

/-- The document as the scan reads it. -/
def exampleWebDocument : DocumentProcessingInput :=
  { exampleQuarantined with
    maximumBytes := 8
    deleteOriginalAfterProcessing := false }

/-- The upload, and the scan that finds it clean. -/
def exampleWebSteps : List DocumentStep :=
  [.startUpload exampleWebUpload.start, .pendingForUrl exampleUrl,
    .upload exampleUrl exampleWebUpload.record exampleWebUpload.ciphertext 0,
    .pendingForCompletion exampleCompletion, .assertStored exampleCompletion exampleWebUpload.record,
    .completeUpload exampleCompletion, .read (exampleDelivery .scan),
    .fetch (exampleDelivery .scan) exampleWebDocument,
    .markClean (exampleDelivery .scan) exampleWebDocument exampleBytes,
    .completeScan (exampleDelivery .scan) exampleWebDocument .clean]

set_option maxRecDepth 100000 in
theorem exampleWebSteps_permitted :
    (documentProtocol Sha256.transparent).Sequential [] Store.empty exampleWebSteps := by
  have hfirst : ∀ {entry : DocumentEntry} {log : List DocumentEntry}, entry ∈ entry :: log :=
    List.mem_cons_self
  exact ⟨trivial, trivial, ⟨hfirst, rfl, rfl, by decide⟩, trivial, ⟨hfirst, rfl⟩,
    ⟨exampleWebUpload.record, hfirst⟩, trivial, ⟨hfirst, rfl⟩,
    ⟨rfl, ⟨exampleWebUpload.ciphertext, hfirst, rfl⟩, rfl, rfl⟩, ⟨exampleBytes, hfirst⟩, trivial⟩

section RoundTrip

variable {sha256 : Sha256} {init : Vault} {keyEncryptionKey : SymmetricKey}
  {hashtextextended : String → Int} {initKeys : KeyRows}
  {keys : (keyProtocol keyEncryptionKey hashtextextended).System} {applicationKek : SymmetricKey}
  {asked : OnceCall → Prop} {tenants : (onceProtocol sha256 applicationKek asked).System}
  {upload : WebUpload}

/-- What a web upload has sealed is what every handler opens, and once its scan has come to an end
`getDocumentContent` returns the uploaded bytes with their declared media type, at whichever later
moments it makes its reads. -/
theorem document_roundTrip (hinit : NoDocuments init) (horiginals : NoOriginals init)
    (hrecords : NoUploadRecords sha256 init) (hnoKeys : NoKeys initKeys)
    (hkeys : Reachable initKeys keys) {s₁ s₂ s₃ : (documentProtocol sha256).System}
    (hs₁ : Reachable init s₁) (h₂ : Later s₁ s₂) (h₃ : Later s₂ s₃)
    (hcompleted : upload.Completed sha256 tenants s₁.log)
    (hreturned : KeysReturned keys.log s₃.log) (hfresh : FreshIds s₃.log)
    (hscanned : ScanCompleted s₁.log upload.record.id) (hundisturbed : upload.Undisturbed s₃.log)
    {call : ContentCall} (hdocument : call.documentId = upload.record.id)
    (horganization : call.context.organizationId = upload.household.organizationId)
    (hhousehold : call.context.householdId = upload.household.id)
    (hkey : ∃ keyVersion, ReturnedTo keys.log call.context.organizationId call.context.householdId
      ⟨keyVersion, call.householdKey⟩) :
    (∃ version, getDocumentContent sha256 call s₁.committed s₂.committed s₃.committed =
      .ok (some ⟨upload.file.bytes, upload.file.mediaType, version⟩)) ∧
    ∀ delivery document, HasRead s₃.log delivery document → document.id = upload.record.id →
      delivery.openOriginal sha256 document upload.ciphertext = some upload.file.bytes := by
  have hplaced : ∀ {s : (documentProtocol sha256).System}, Reachable init s → s₁.log <:+ s.log →
      s.log <:+ s₃.log → ∃ row source, upload.StoredAs sha256 s.committed row source ∧
        ReturnedTo keys.log source.context.organizationId source.context.householdId
          ⟨source.generated.keyVersion, source.generated.plaintextKey⟩ ∧
        (∀ delivery document, HasRead s.log delivery document → document.id = upload.record.id →
          delivery.openOriginal sha256 document upload.ciphertext = some upload.file.bytes) ∧
        row.status = .clean ∧ row.originalDeletedAt = none ∧
        row.ciphertextSha256 = some (sha256.ofCiphertext upload.ciphertext) ∧
        s.committed.get .objects upload.record.objectKey = some ⟨upload.ciphertext, .clean⟩ := by
    intro s hs hafter hbefore
    have hkeysReturned := hreturned.of_subset hbefore.subset
    obtain ⟨row, source, hstored, hsourceKey⟩ := (hcompleted.mono hafter.subset).storedAs hinit
      hrecords hs hnoKeys hkeys hkeysReturned (hfresh.of_subset hbefore.subset)
    have hopens := fun delivery document (hread : HasRead s.log delivery document)
      (hid : document.id = upload.record.id) =>
        hstored.openOriginal hinit hs hnoKeys hkeys hkeysReturned hsourceKey hread hid
    exact ⟨row, source, hstored, hsourceKey,
      fun delivery document hread hid => (hopens delivery document hread hid).2,
      hstored.downloadable hinit horiginals hs (hscanned.mono hafter.subset) hbefore hundisturbed
        (fun delivery document hread hid => (hopens delivery document hread hid).1)⟩
  have hs₂ := hs₁.later h₂
  obtain ⟨row, source, hstored, hsourceKey, -, hclean, hdeletedAt, hchecksum, -⟩ :=
    hplaced hs₁ List.suffix_rfl (h₂.log_suffix.trans h₃.log_suffix)
  obtain ⟨-, -, -, -, -, -, -, -, htag⟩ := hplaced hs₂ h₂.log_suffix h₃.log_suffix
  obtain ⟨-, -, -, -, hopens, -, -, -, hobject⟩ :=
    hplaced (hs₂.later h₃) (h₂.log_suffix.trans h₃.log_suffix) List.suffix_rfl
  obtain ⟨keyVersion, hcallKey⟩ := hkey
  have hcallOrganization := horganization.trans hstored.organization.symm
  have hcallHousehold := hhousehold.trans hstored.household.symm
  have hsame := returned_plaintextKey hnoKeys hkeys hcallOrganization hcallHousehold hcallKey
    hsourceKey
  exact ⟨⟨row.version, getDocumentContent_eq hstored hclean hdeletedAt hchecksum htag hobject
    hdocument hcallOrganization hcallHousehold (ActiveHouseholdKey.mk.inj hsame).2⟩, hopens⟩

end RoundTrip

set_option maxRecDepth 100000 in
theorem document_roundTrip_example : ∃ s : (documentProtocol Sha256.transparent).System,
    Reachable Store.empty s ∧ ∃ version, getDocumentContent Sha256.transparent
      ⟨exampleUploader, "d1", "household-key"⟩ s.committed s.committed s.committed =
        .ok (some ⟨"%PDF-1.4", "application/pdf", version⟩) := by
  have hfounding : (onceProtocol Sha256.transparent "kek" (fun _ => True)).Sequential []
      Store.empty [exampleFounding] := ⟨trivial, trivial⟩
  obtain ⟨tenants, htenants, -, hrows⟩ := reachable_sequential hfounding
  have hcalls : (keyProtocol "kek" (fun _ => 0)).Sequential [] Store.empty
      [.getOrCreate exampleKeyCall] := ⟨trivial, trivial⟩
  obtain ⟨keys, hkeys, hkeyLog, -⟩ := reachable_sequential hcalls
  obtain ⟨s, hs, hlog, hcommitted⟩ := reachable_sequential exampleWebSteps_permitted
  have hentries : s.log =
      [⟨.completeScan (exampleDelivery .scan) exampleWebDocument .clean, .committed .done⟩,
        ⟨.markClean (exampleDelivery .scan) exampleWebDocument exampleBytes, .committed .done⟩,
        ⟨.fetch (exampleDelivery .scan) exampleWebDocument,
          .committed (.ciphertext exampleWebUpload.ciphertext)⟩,
        ⟨.read (exampleDelivery .scan), .committed (.input exampleWebDocument)⟩,
        ⟨.completeUpload exampleCompletion, .committed (.answer (.applied (.obj [
          ("document", .obj [("id", .str "d1"), ("status", .str "quarantined"),
            ("version", .nat 2)]),
          ("workflow", .obj [("id", .str "w1"), ("status", .str "pending"),
            ("version", .nat 1)])])))⟩,
        ⟨.assertStored exampleCompletion exampleWebUpload.record, .committed .done⟩,
        ⟨.pendingForCompletion exampleCompletion,
          .committed (.document exampleWebUpload.record)⟩,
        ⟨.upload exampleUrl exampleWebUpload.record exampleWebUpload.ciphertext 0,
          .committed .done⟩,
        ⟨.pendingForUrl exampleUrl, .committed (.document exampleWebUpload.record)⟩,
        ⟨.startUpload exampleWebUpload.start,
          .committed (.document exampleWebUpload.record)⟩] := by
    rw [hlog]
    rfl
  have hstarts : ∀ call answer, (⟨.startUpload call, .committed answer⟩ : DocumentEntry) ∈ s.log →
      call = exampleWebUpload.start := by
    intro call answer hmem
    simpa [hentries] using (List.mem_map_of_mem (f := Entry.request) hmem)
  have hreads : ∀ delivery document, HasRead s.log delivery document →
      delivery = exampleDelivery .scan ∧ document = exampleWebDocument := by
    intro delivery document hread
    simpa [HasRead, hentries] using hread
  have hresolved : Resolved tenants ⟨"u1"⟩ "h1" exampleUploader := by
    refine ⟨tenants, 0, ⟨"o1", "h1", "p1", "m1", .owner, [], [], []⟩, htenants,
      Relation.ReflTransGen.refl, ?_, rfl⟩
    rw [hrows]
    rfl
  have hlisted : Listed tenants ⟨"u1"⟩ [exampleSummary] := by
    refine ⟨tenants, htenants, Relation.ReflTransGen.refl, ?_⟩
    rw [hrows]
    rfl
  have hkey : ReturnedTo keys.log "o1" "h1" ⟨1, "household-key"⟩ := by
    refine ⟨exampleKeyCall, ?_, rfl, rfl⟩
    rw [hkeyLog]
    exact List.mem_cons_self
  have hanswer : ∃ answer, (⟨.completeUpload exampleCompletion, .committed (.answer answer)⟩ :
      DocumentEntry) ∈ s.log := by
    rw [hentries]
    exact ⟨_, List.mem_of_getElem? (i := 4) rfl⟩
  have hcompleted : exampleWebUpload.Completed Sha256.transparent tenants s.log := by
    refine ⟨by decide, rfl, hlisted, by decide, ⟨hresolved, hresolved, hresolved⟩, rfl, ?_, rfl,
      rfl, rfl, rfl, ⟨exampleWebUpload.record, 0, ?_⟩, rfl, hanswer⟩
    · simp [hentries]
    · rw [hentries]
      exact List.mem_of_getElem? (i := 7) rfl
  have hundisturbed : exampleWebUpload.Undisturbed s.log := by
    refine ⟨?_, fun delivery document hread _ _ => ?_, ?_⟩
    · rw [hentries]
      rfl
    · obtain ⟨rfl, -⟩ := hreads delivery document hread
      rfl
    · rintro ⟨delivery, document, answer, hmem, -⟩
      simp [hentries] at hmem
  have hscanned : ScanCompleted s.log "d1" := by
    refine ⟨exampleDelivery .scan, exampleWebDocument, rfl, ?_, rfl, Or.inr ⟨.clean, ?_⟩⟩
    · simp [HasRead, hentries]
    · simp [Done, hentries]
  have hreturned : KeysReturned keys.log s.log := by
    refine ⟨fun call answer hmem => ?_, fun delivery document hread => ?_⟩
    · rw [hstarts call answer hmem]
      exact hkey
    · obtain ⟨rfl, -⟩ := hreads delivery document hread
      exact ⟨1, hkey⟩
  have hfresh : FreshIds s.log := by
    intro call call' answer answer' hmem hmem' _
    rw [hstarts call answer hmem, hstarts call' answer' hmem']
  exact ⟨s, hs, (document_roundTrip noDocuments_empty noOriginals_empty (noUploadRecords_empty _)
    (fun _ => rfl) hkeys hs Relation.ReflTransGen.refl Relation.ReflTransGen.refl hcompleted
    hreturned hfresh hscanned hundisturbed rfl rfl rfl ⟨1, hkey⟩).1⟩

end LegacyVault
