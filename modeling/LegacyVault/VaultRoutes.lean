import LegacyVault.DocumentRoundTrip
import LegacyVault.VaultRequests

/-!
# The vault routes

The thirty-one routes of `registerVaultRoutes` as handlers: which of their
dependencies they call, in which order, with what, and what they reply.

What the dependencies do is not said here. A handler goes on with any answer,
or fails with the error that the dependency throws.
-/

namespace LegacyVault

open JsonText Handlers

/-! ## Calls -/

/-- What the encryption of a value returns. -/
structure EncryptedValue where
  id : Identifier
  ciphertext : Sealed
  keyVersion : Nat
  deriving DecidableEq

/-- A fact as `listVaultFacts` returns it, with its opened value. -/
structure VaultFact where
  id : Identifier
  fieldKey : String
  value : Json
  status : FactStatus
  sourceType : SourceType
  sourceId : Identifier
  evidenceIds : List Identifier
  confidence : Option NumberLiteral
  sensitivity : Sensitivity
  confirmedBy : Option Identifier
  confirmedAt : Option Instant
  version : Nat

/-- The operations of the repository and of the runtime that routes call for an identity. -/
inductive VaultOperation where
  | getActiveConsent (personId : Identifier) (purpose : ConsentPurpose)
  | getFactFieldKey (factId : Identifier)
  | getEmergencyAccessCategories (requestId : Identifier)
  | reserveIdempotency (key : String) (request : Json)
  | completeIdempotency (key : String) (statusCode : Nat) (body : Json)
  | encryptFactValue (fieldKey plaintext : String)
  | encryptEmergencyReason (plaintext : String)
  | createCandidateFact (candidate : CandidateFactWrite)
  | confirmFact (factId : Identifier) (expectedVersion : Nat) (confirmedAt : Instant)
  | rejectFact (factId : Identifier) (expectedVersion : Nat)
  | disputeFact (factId : Identifier) (expectedVersion : Nat)
  | createEmergencyAccessRequest (input : EmergencyAccessWrite)
  | decideEmergencyAccess (requestId : Identifier) (expectedVersion : Nat)
      (decision : EmergencyDecision) (decisionAt : Instant)
  | releaseEmergencyAccess (requestId : Identifier) (expectedVersion : Nat) (releasedAt : Instant)
  | recordConsent (input : ConsentInput) (grantedAt : Instant)
  | withdrawConsent (consentId : Identifier) (expectedVersion : Nat) (withdrawnAt : Instant)
  | listPrivacyRequests
  | startPrivacyRequest (personId : Identifier) (kind : PrivacyRequestKind) (key : String)
      (requestedAt : Instant)
  | confirmPrivacyDeletion (requestId : Identifier) (expectedVersion : Nat) (key : String)
  | cancelPrivacyDeletion (requestId : Identifier) (expectedVersion : Nat) (key : String)
  | listVaultFacts (categories : List RecordCategory)
  | listVaultDocuments
  | getDocumentContent (documentId : Identifier)
  | listAuditEvents (afterSequence limit : Nat)
  | startDocumentUpload (key : String) (input : DocumentUploadInput)
  | createDocumentUploadUrl (input : UploadCompletionInput)
  | completeDocumentUpload (key : String) (input : UploadCompletionInput)
  | completeManualDocumentExtraction (key : String) (input : ManualExtractionInput)
  | runAiInterview (input : AiInterviewInput)
  | createReport (kind : ReportKind) (key : String)
  | getReport (reportId : Identifier)
  | startPortableExport (key exportKeyBase64 : String)
  | getPortableExport (exportId : Identifier)
  | createCheckout (key : String)
  | createBillingPortal (key : String)
  | getSubscription
  | listBillingRefunds

/-- What an operation returns. What a route only sends is JSON. -/
abbrev VaultOperation.Result : VaultOperation → Type
  | getActiveConsent _ _ => Option ActiveConsent
  | getFactFieldKey _ => String
  | getEmergencyAccessCategories _ => List RecordCategory
  | reserveIdempotency _ _ => Reservation
  | completeIdempotency _ _ _ => Unit
  | encryptFactValue _ _ | encryptEmergencyReason _ => EncryptedValue
  | listVaultFacts _ => List VaultFact
  | getDocumentContent _ => Option DocumentContent
  | getReport _ | getPortableExport _ => Option Json
  | getSubscription => SubscriptionReadModel
  | createCandidateFact _ | confirmFact _ _ _ | rejectFact _ _ | disputeFact _ _
  | createEmergencyAccessRequest _ | decideEmergencyAccess _ _ _ _ | releaseEmergencyAccess _ _ _
  | recordConsent _ _ | withdrawConsent _ _ _ | listPrivacyRequests | startPrivacyRequest _ _ _ _
  | confirmPrivacyDeletion _ _ _ | cancelPrivacyDeletion _ _ _ | listVaultDocuments
  | listAuditEvents _ _ | startDocumentUpload _ _ | createDocumentUploadUrl _
  | completeDocumentUpload _ _ | completeManualDocumentExtraction _ _ | runAiInterview _
  | createReport _ _ | startPortableExport _ _ | createCheckout _ | createBillingPortal _
  | listBillingRefunds => Json

/-- The calls of a route. -/
inductive VaultCall where
  | resolveIdentity
  /-- `new Date()`. -/
  | currentTime
  | authorizeIdentity (identity : AuthenticatedTenantIdentity) (category : RecordCategory)
      (action : PermissionAction) (purpose : String)
  | perform (identity : AuthenticatedTenantIdentity) (operation : VaultOperation)

/-- What a call is answered with: its result, or what it throws. -/
abbrev VaultCall.Answer : VaultCall → Type
  | resolveIdentity => Except RouteError AuthenticatedTenantIdentity
  | currentTime => Instant
  | authorizeIdentity _ _ _ _ => Except RouteError Unit
  | perform _ operation => Except RouteError operation.Result

/-- The interface of the routes to their dependencies. -/
abbrev vaultInterface : Interface := ⟨VaultCall, VaultCall.Answer⟩

/-- A handler of a vault route. -/
abbrev RouteHandler := Handler vaultInterface RouteError

/-- `dependencies.resolveIdentity`. -/
def resolveIdentity : RouteHandler AuthenticatedTenantIdentity :=
  .ask (I := vaultInterface) .resolveIdentity .ofExcept

/-- `new Date()`. -/
def currentTime : RouteHandler Instant := .ask (I := vaultInterface) .currentTime .done

/-- Perform an operation for an identity. -/
def perform (identity : AuthenticatedTenantIdentity) (operation : VaultOperation) :
    RouteHandler operation.Result :=
  .ask (I := vaultInterface) (.perform identity operation) .ofExcept

variable (runtime : RouteRuntime)

/-- `dependencies.authorizeIdentity?.`. -/
def authorizeIdentity (identity : AuthenticatedTenantIdentity) (category : RecordCategory)
    (action : PermissionAction) (purpose : String) : RouteHandler Unit :=
  if runtime.configured .authorizeIdentity then
    .ask (I := vaultInterface) (.authorizeIdentity identity category action purpose) .ofExcept
  else pure ()

/-- Authorize an action for each of some categories, one after another. -/
def authorizeEach (identity : AuthenticatedTenantIdentity) (categories : List RecordCategory)
    (action : PermissionAction) (purpose : String) : RouteHandler Unit :=
  categories.forM (fun category => authorizeIdentity runtime identity category action purpose)

/-- `BillableEntitlement`. -/
inductive BillableEntitlement where
  | documentUpload | aiInterview | reportGeneration | exportGeneration
  deriving DecidableEq

/-- The entitlement of a subscription. -/
def BillingEntitlements.billable (entitlements : BillingEntitlements) :
    BillableEntitlement → Bool
  | .documentUpload => entitlements.documentUpload
  | .aiInterview => entitlements.aiInterview
  | .reportGeneration => entitlements.reportGeneration
  | .exportGeneration => entitlements.exportGeneration

/-- `requireBillingEntitlement`. -/
def requireBillingEntitlement (identity : AuthenticatedTenantIdentity)
    (entitlement : BillableEntitlement) : RouteHandler Unit := do
  runtime.require .getSubscription "Billing unavailable" "Subscription access cannot be verified."
  let subscription ← perform identity .getSubscription
  requireThat (subscription.decision.entitlements.billable entitlement = true)
    ⟨403, "Subscription required", "The current subscription does not permit this operation."⟩

/-! ## Replies -/

/-- The body of a reply. -/
inductive VaultReplyBody where
  | json (body : Json)
  | consent (consent : Option ActiveConsent)
  | facts (facts : List VaultFact)
  | subscription (subscription : SubscriptionReadModel)
  /-- The bytes of a document, as an attachment with a name. -/
  | attachment (content : DocumentContent) (filename : String)

/-- A reply, with `cache-control: no-store` or without. -/
structure VaultReply where
  statusCode : Nat
  noStore : Bool
  body : VaultReplyBody

/-- Reply with JSON. -/
def sendJson (statusCode : Nat) (body : Json) : RouteHandler VaultReply :=
  pure ⟨statusCode, false, .json body⟩

/-- Reply with something that is not stored. -/
def sendPrivate (statusCode : Nat) (body : VaultReplyBody) : RouteHandler VaultReply :=
  pure ⟨statusCode, true, body⟩

/-- The reply to a request whose key is taken, on the routes of facts. -/
def replayFact (stored : Option StoredResponse) : RouteHandler VaultReply :=
  match stored with
  | some response => sendJson response.statusCode response.responseBody
  | none => .fail (.problem ⟨409, "Request in progress",
      "the idempotent request is still processing"⟩)

/-- The reply to a request whose key is taken, on the other routes. -/
def replayStored (stored : Option StoredResponse) : RouteHandler VaultReply :=
  match stored with
  | some response => sendJson response.statusCode response.responseBody
  | none => sendJson 409 (.obj [("status", .str "processing")])

/-- Reserve the key of a request. A taken key is answered from its record. -/
def whenReserved (replay : Option StoredResponse → RouteHandler VaultReply)
    (identity : AuthenticatedTenantIdentity) (key : String) (request : Json)
    (next : RouteHandler VaultReply) : RouteHandler VaultReply := do
  let reservation ← perform identity (.reserveIdempotency key request)
  match reservation with
  | .replay stored => replay stored
  | .reserved => next

/-- Require a result, or refuse the request with a problem. -/
def requireFound {α : Type} (title detail : String) : Option α → Except RouteError α
  | some result => .ok result
  | none => .error (.problem ⟨404, title, detail⟩)

/-! ## Facts -/

/-- `GET /v1/facts`. -/
def getFacts (category : Option String) : RouteHandler VaultReply := do
  let identity ← resolveIdentity
  runtime.require .listVaultFacts "Vault unavailable" "Fact retrieval is not configured."
  let categories ← listedCategories category
  authorizeEach runtime identity categories .read "vault.fact.list"
  let facts ← perform identity (.listVaultFacts categories)
  sendPrivate 200 (.facts facts)

/-- `POST /v1/facts`. -/
def postFacts (input : RequestInput) : RouteHandler VaultReply := do
  let identity ← resolveIdentity
  let body ← objectBody input.body
  let key ← input.key
  input.creationVersion
  runtime.require .encryptFactValue "Fact encryption unavailable"
    "Fact encryption is not configured."
  let form ← runtime.factForm body
  let category ← factCategory form.fieldKey
  authorizeIdentity runtime identity category .create "vault.fact.create"
  let encrypted ← perform identity (.encryptFactValue form.fieldKey (stringify form.value))
  let sourceId ← requireUuid body "sourceId"
  whenReserved replayFact identity key body do
    let created ← perform identity (.createCandidateFact
      ⟨encrypted.id, form.fieldKey, encrypted.ciphertext, encrypted.keyVersion, form.sourceType,
        sourceId, form.evidenceIds, form.confidence, form.sensitivity⟩)
    perform identity (.completeIdempotency key 201 created)
    sendJson 201 created

/-- `POST /v1/facts/:id/confirm`, `reject` and `dispute`: authorize the category of the stored
field key, reserve the key, and transition the fact. -/
def transitionFact (purpose : String)
    (transition : AuthenticatedTenantIdentity → Nat → RouteHandler Json) (id : String)
    (input : RequestInput) : RouteHandler VaultReply := do
  let identity ← resolveIdentity
  requirePathUuid "fact id is invalid" id
  let fieldKey ← perform identity (.getFactFieldKey id)
  let category ← factCategory fieldKey
  authorizeIdentity runtime identity category .approve purpose
  let key ← input.key
  let expectedVersion ← runtime.expectedVersion input
  whenReserved replayFact identity key
      (.obj [("factId", .str id), ("expectedVersion", .nat expectedVersion)]) do
    let changed ← transition identity expectedVersion
    perform identity (.completeIdempotency key 200 changed)
    sendJson 200 changed

/-- `POST /v1/facts/:id/confirm`. -/
def postFactConfirm (id : String) (input : RequestInput) : RouteHandler VaultReply :=
  transitionFact runtime "vault.fact.confirm" (fun identity expectedVersion => do
    let now ← currentTime
    perform identity (.confirmFact id expectedVersion now)) id input

/-- `POST /v1/facts/:id/reject`. -/
def postFactReject (id : String) (input : RequestInput) : RouteHandler VaultReply :=
  transitionFact runtime "vault.fact.reject" (fun identity expectedVersion =>
    perform identity (.rejectFact id expectedVersion)) id input

/-- `POST /v1/facts/:id/dispute`. -/
def postFactDispute (id : String) (input : RequestInput) : RouteHandler VaultReply :=
  transitionFact runtime "vault.fact.dispute" (fun identity expectedVersion =>
    perform identity (.disputeFact id expectedVersion)) id input

/-- `POST /v1/extractions/manual`. -/
def postManualExtraction (input : RequestInput) : RouteHandler VaultReply := do
  let identity ← resolveIdentity
  let body ← objectBody input.body
  let key ← input.key
  let documentId ← requireUuid body "documentId"
  let workflowId ← requireUuid body "workflowId"
  let expectedWorkflowVersion ← runtime.version 1
    "a valid if-match workflow version is required" input
  let candidates ← runtime.extractionCandidates body
  authorizeEach runtime identity (candidates.map Prod.fst) .create "vault.extraction.manual"
  runtime.require .completeManualDocumentExtraction "Manual extraction unavailable"
    "Manual extraction is not configured."
  let completed ← perform identity (.completeManualDocumentExtraction key
    ⟨documentId, workflowId, expectedWorkflowVersion, candidates.map Prod.snd⟩)
  sendJson 201 completed

/-! ## Documents -/

/-- `GET /v1/documents`. -/
def getDocuments : RouteHandler VaultReply := do
  let identity ← resolveIdentity
  runtime.require .listVaultDocuments "Vault unavailable" "Document retrieval is not configured."
  authorizeEach runtime identity allRecordCategories .read "vault.document.list"
  let documents ← perform identity .listVaultDocuments
  sendPrivate 200 (.json (.obj [("documents", documents)]))

/-- The extension of a document's file name. -/
def mediaTypeExtension (mediaType : String) : String :=
  if mediaType = "application/pdf" then "pdf"
  else if mediaType = "image/jpeg" then "jpg"
  else if mediaType = "image/png" then "png"
  else "tiff"

/-- `GET /v1/documents/:id/content`. -/
def getDocumentsContent (id : String) : RouteHandler VaultReply := do
  let identity ← resolveIdentity
  runtime.require .getDocumentContent "Document unavailable"
    "Document content retrieval is not configured."
  authorizeEach runtime identity allRecordCategories .read "vault.document.content.read"
  let found ← perform identity (.getDocumentContent id)
  let content : DocumentContent ← requireFound "Document not found"
    "A clean retained document was not found." found
  sendPrivate 200 (.attachment content (id ++ "." ++ mediaTypeExtension content.mediaType))

/-- `POST /v1/documents`. -/
def postDocuments (input : RequestInput) : RouteHandler VaultReply := do
  let identity ← resolveIdentity
  let body ← objectBody input.body
  let key ← input.key
  input.creationVersion
  let form ← runtime.documentForm body
  authorizeEach runtime identity allRecordCategories .create "vault.document.create"
  requireBillingEntitlement runtime identity .documentUpload
  runtime.require .startDocumentUpload "Document upload unavailable"
    "Document uploads are not configured."
  let started ← perform identity (.startDocumentUpload key form)
  sendPrivate 201 (.json started)

/-- `POST /v1/documents/:id/upload-url`. -/
def postUploadUrl (id : String) (input : RequestInput) : RouteHandler VaultReply := do
  let identity ← resolveIdentity
  let _ ← input.key
  requirePathUuid "document id is invalid" id
  let body ← objectBody input.body
  let ciphertextSha256 ← requireDigest body "ciphertextSha256"
  let expectedVersion ← runtime.expectedVersion input
  authorizeEach runtime identity allRecordCategories .create "vault.document.upload-url"
  runtime.require .createDocumentUploadUrl "Document upload unavailable"
    "Document uploads are not configured."
  let signed ← perform identity (.createDocumentUploadUrl ⟨id, expectedVersion, ciphertextSha256⟩)
  sendPrivate 200 (.json signed)

/-- `POST /v1/documents/:id/complete`. -/
def postDocumentComplete (id : String) (input : RequestInput) : RouteHandler VaultReply := do
  let identity ← resolveIdentity
  let key ← input.key
  requirePathUuid "document id is invalid" id
  let body ← objectBody input.body
  let ciphertextSha256 ← requireDigest body "ciphertextSha256"
  let expectedVersion ← runtime.expectedVersion input
  authorizeEach runtime identity allRecordCategories .create "vault.document.complete"
  runtime.require .completeDocumentUpload "Document upload unavailable"
    "Document uploads are not configured."
  let completed ← perform identity (.completeDocumentUpload key
    ⟨id, expectedVersion, ciphertextSha256⟩)
  sendJson 202 completed

/-! ## Audit and interviews -/

/-- `GET /v1/audit-events`. -/
def getAuditEvents (afterSequence limit : Option String) : RouteHandler VaultReply := do
  let identity ← resolveIdentity
  runtime.require .listAuditEvents "Audit unavailable" "Audit retrieval is not configured."
  let afterSequence ← runtime.queryNumber afterSequence 0 0 none
    "afterSequence must be a non-negative integer"
  let limit ← runtime.queryNumber limit 50 1 (some 100) "limit must be between 1 and 100"
  authorizeIdentity runtime identity .householdInstructions .approve "vault.audit.read"
  let events ← perform identity (.listAuditEvents afterSequence limit)
  sendPrivate 200 (.json events)

/-- The problem of a failed interview. -/
def interviewProblem (thrown : RouteError) : ApiProblem :=
  if thrown.includes "consent" then
    ⟨403, "AI consent required", "Affirmative external AI consent is required."⟩
  else if thrown.includes "idempotency" then
    ⟨409, "Idempotency conflict", "The idempotency key was reused with different input."⟩
  else if thrown.includes "unavailable" then
    ⟨503, "AI unavailable", "External AI is temporarily unavailable."⟩
  else ⟨502, "AI response rejected",
    "The external AI response did not pass policy validation."⟩

/-- `POST /v1/ai-settings/interview`. -/
def postAiInterview (input : RequestInput) : RouteHandler VaultReply := do
  let identity ← resolveIdentity
  let body ← objectBody input.body
  let key ← input.key
  let message ← interviewMessage body
  let categories ← requestCategories body
  let expectedConsentVersion ← runtime.version 1
    "a valid if-match consent version is required" input
  authorizeEach runtime identity categories .read "vault.ai.interview"
  requireBillingEntitlement runtime identity .aiInterview
  runtime.require .runAiInterview "AI unavailable" "External AI is not configured."
  let response ← (perform identity (.runAiInterview
    ⟨key, expectedConsentVersion, message, categories⟩)).recover
      (fun thrown => .fail (.problem (interviewProblem thrown)))
  sendPrivate 200 (.json response)

/-! ## Emergency access -/

/-- `POST /v1/emergency-access`. -/
def postEmergencyAccess (input : RequestInput) : RouteHandler VaultReply := do
  let identity ← resolveIdentity
  let body ← objectBody input.body
  input.creationVersion
  let form ← emergencyForm identity body
  authorizeEach runtime identity form.categories .create "vault.emergency-access.request"
  runtime.require .encryptEmergencyReason "Emergency access unavailable"
    "Emergency access encryption is not configured."
  let key ← input.key
  whenReserved replayStored identity key (RecordedInput.createEmergency form).shape do
    let encrypted ← perform identity (.encryptEmergencyReason form.reason)
    let now ← currentTime
    let created ← perform identity (.createEmergencyAccessRequest
      ⟨encrypted.id, form.recipientMembershipId, form.categories, encrypted.ciphertext,
        encrypted.keyVersion, now⟩)
    perform identity (.completeIdempotency key 201 created)
    sendPrivate 201 (.json created)

/-- A conflict becomes a problem of the emergency request. -/
def emergencyConflict (detail : String) (handler : RouteHandler VaultReply) :
    RouteHandler VaultReply :=
  handler.recover (fun thrown =>
    if thrown.includes "conflict" then
      .fail (.problem ⟨409, "Emergency access conflict", detail⟩)
    else .fail thrown)

/-- Change an emergency request whose categories are authorized, once its key is reserved. -/
def changeEmergency (identity : AuthenticatedTenantIdentity) (id purpose conflict : String)
    (shape : Json) (change : Instant → RouteHandler Json) (input : RequestInput) :
    RouteHandler VaultReply := do
  let categories ← perform identity (.getEmergencyAccessCategories id)
  authorizeEach runtime identity categories .approve purpose
  let key ← input.key
  whenReserved replayStored identity key shape do
    let now ← currentTime
    emergencyConflict conflict (do
      let changed ← change now
      perform identity (.completeIdempotency key 200 changed)
      sendPrivate 200 (.json changed))

/-- `POST /v1/emergency-access/:id/decide`. -/
def postEmergencyDecide (id : String) (input : RequestInput) : RouteHandler VaultReply := do
  let identity ← resolveIdentity
  requirePathUuid "emergency request id is invalid" id
  let body ← objectBody input.body
  let decision ← runtime.decisionForm body
  let expectedVersion ← runtime.expectedVersion input
  changeEmergency runtime identity id "vault.emergency-access.decide"
    "The emergency request changed or cannot be decided."
    (RecordedInput.decideEmergency id expectedVersion decision).shape
    (fun now => perform identity (.decideEmergencyAccess id expectedVersion decision now)) input

/-- `POST /v1/emergency-access/:id/release`. -/
def postEmergencyRelease (id : String) (input : RequestInput) : RouteHandler VaultReply := do
  let identity ← resolveIdentity
  requirePathUuid "emergency request id is invalid" id
  let expectedVersion ← runtime.expectedVersion input
  changeEmergency runtime identity id "vault.emergency-access.release"
    "The release delay remains active or the request changed."
    (RecordedInput.releaseEmergency id expectedVersion).shape
    (fun now => perform identity (.releaseEmergencyAccess id expectedVersion now)) input

/-! ## Consents -/

/-- `GET /v1/consents`. -/
def getConsents (purpose : Option String) : RouteHandler VaultReply := do
  let identity ← resolveIdentity
  authorizeIdentity runtime identity .householdInstructions .read "vault.consent.read"
  let purpose ← consentPurpose purpose
  let consent ← perform identity (.getActiveConsent identity.actorId purpose)
  sendPrivate 200 (.consent consent)

/-- `POST /v1/consents`. -/
def postConsents (input : RequestInput) : RouteHandler VaultReply := do
  let identity ← resolveIdentity
  let body ← objectBody input.body
  input.creationVersion
  let personId ← requireUuid body "personId"
  requireThat (personId = identity.actorId) ⟨403, "Access denied",
    "Consent can be recorded only for the authenticated person."⟩
  authorizeIdentity runtime identity .householdInstructions .approve "vault.consent.record"
  let purposeText ← requireString body "purpose"
  let purpose ← consentPurpose purposeText
  let key ← input.key
  whenReserved replayStored identity key body do
    let policyVersion ← requireString body "policyVersion"
    let now ← currentTime
    let consent ← perform identity (.recordConsent ⟨personId, purpose, policyVersion⟩ now)
    perform identity (.completeIdempotency key 201 consent)
    sendJson 201 consent

/-- `POST /v1/consents/:id/withdraw`. -/
def postConsentWithdraw (id : String) (input : RequestInput) : RouteHandler VaultReply := do
  let identity ← resolveIdentity
  authorizeIdentity runtime identity .householdInstructions .approve "vault.consent.withdraw"
  requirePathUuid "consent id is invalid" id
  let expectedVersion ← runtime.expectedVersion input
  let key ← input.key
  whenReserved replayStored identity key
      (RecordedInput.withdrawConsent id expectedVersion).shape do
    let now ← currentTime
    let withdrawn ← perform identity (.withdrawConsent id expectedVersion now)
    perform identity (.completeIdempotency key 200 withdrawn)
    sendJson 200 withdrawn

/-! ## Privacy requests -/

/-- `GET /v1/privacy-requests`. -/
def getPrivacyRequests : RouteHandler VaultReply := do
  let identity ← resolveIdentity
  authorizeIdentity runtime identity .householdInstructions .read "vault.privacy-request.read"
  let requests ← perform identity .listPrivacyRequests
  sendPrivate 200 (.json (.obj [("requests", requests)]))

/-- `POST /v1/privacy-requests`. -/
def postPrivacyRequests (input : RequestInput) : RouteHandler VaultReply := do
  let identity ← resolveIdentity
  let body ← objectBody input.body
  input.creationVersion
  authorizeIdentity runtime identity .householdInstructions .create "vault.privacy-request.create"
  let kind ← requireNamed PrivacyRequestKind.ofText? body "kind" "privacy request kind is invalid"
  let personId ← requireUuid body "personId"
  requireThat (personId = identity.actorId)
    ⟨403, "Forbidden", "privacy requests must be submitted by the data subject"⟩
  let key ← input.key
  let now ← currentTime
  let result ← perform identity (.startPrivacyRequest personId kind key now)
  sendJson 202 result

/-- Require the parameter `requestId`. -/
def requireRequestId (requestId : String) : Except RouteError Unit :=
  requirePathUuid "requestId must be a UUID" requestId

/-- `POST /v1/privacy-requests/:requestId/confirm-deletion`. -/
def postConfirmDeletion (requestId : String) (input : RequestInput) :
    RouteHandler VaultReply := do
  let identity ← resolveIdentity
  runtime.require .confirmPrivacyDeletion "Deletion unavailable"
    "The deletion workflow is not configured."
  authorizeIdentity runtime identity .householdInstructions .delete
    "vault.privacy-request.confirm-deletion"
  requireRequestId requestId
  let expectedVersion ← runtime.expectedVersion input
  let key ← input.key
  let result ← perform identity (.confirmPrivacyDeletion requestId expectedVersion key)
  sendJson 202 result

/-- `POST /v1/privacy-requests/:requestId/cancel-deletion`. -/
def postCancelDeletion (requestId : String) (input : RequestInput) :
    RouteHandler VaultReply := do
  let identity ← resolveIdentity
  runtime.require .cancelPrivacyDeletion "Deletion cancellation unavailable"
    "The deletion workflow is not configured."
  authorizeIdentity runtime identity .householdInstructions .delete
    "vault.privacy-request.cancel-deletion"
  requireRequestId requestId
  let expectedVersion ← runtime.expectedVersion input
  let key ← input.key
  let result ← perform identity (.cancelPrivacyDeletion requestId expectedVersion key)
  sendJson 200 result

/-! ## Exports and reports -/

/-- `POST /v1/exports`. -/
def postExports (input : RequestInput) : RouteHandler VaultReply := do
  let identity ← resolveIdentity
  input.creationVersion
  runtime.require .startPortableExport "Export unavailable"
    "The export workflow is not configured."
  authorizeEach runtime identity allRecordCategories .export "vault.export.create"
  requireBillingEntitlement runtime identity .exportGeneration
  let body ← objectBody input.body
  let encodedKey ← requireString body "exportKeyBase64"
  requireThat (isExportKeyText encodedKey = true)
    ⟨400, "Invalid request", "exportKeyBase64 must encode exactly 32 bytes"⟩
  let key ← input.key
  let started ← perform identity (.startPortableExport key encodedKey)
  sendJson 202 started

/-- `GET /v1/exports/:id`. -/
def getExports (id : String) : RouteHandler VaultReply := do
  let identity ← resolveIdentity
  requirePathUuid "export id is invalid" id
  runtime.require .getPortableExport "Export unavailable" "Export retrieval is not configured."
  authorizeEach runtime identity allRecordCategories .export "vault.export.read"
  let found ← perform identity (.getPortableExport id)
  let portableExport : Json ← requireFound "Export not found" "Export not found." found
  sendPrivate 200 (.json portableExport)

/-- `GET /v1/reports/:id`. -/
def getReports (id : String) : RouteHandler VaultReply := do
  let identity ← resolveIdentity
  requirePathUuid "report id is invalid" id
  runtime.require .getReport "Report unavailable" "Report retrieval is not configured."
  authorizeEach runtime identity allRecordCategories .read "vault.report.read"
  let found ← perform identity (.getReport id)
  let report : Json ← requireFound "Report not found" "Report not found." found
  sendPrivate 200 (.json report)

/-- `POST /v1/reports`. -/
def postReports (input : RequestInput) : RouteHandler VaultReply := do
  let identity ← resolveIdentity
  input.creationVersion
  runtime.require .createReport "Report unavailable" "Report generation is not configured."
  authorizeEach runtime identity allRecordCategories .read "vault.report.create"
  requireBillingEntitlement runtime identity .reportGeneration
  let body ← objectBody input.body
  let kind ← requireNamed ReportKind.ofText? body "kind" "report kind is invalid"
  let key ← input.key
  whenReserved replayStored identity key (RecordedInput.createReport kind).shape do
    let report ← perform identity (.createReport kind key)
    perform identity (.completeIdempotency key 202 report)
    sendJson 202 report

/-! ## Billing -/

/-- Open a session of the billing provider at the expected version of the subscription. All
failures of the session are one problem, that of its idempotency key included. -/
def openSession (identity : AuthenticatedTenantIdentity) (changed failed : String)
    (session : String → RouteHandler Json) (expectedVersion : Nat) (input : RequestInput) :
    RouteHandler VaultReply := do
  let subscription ← perform identity .getSubscription
  requireThat (subscription.version = expectedVersion) ⟨409, "Version conflict", changed⟩
  let opened ← Handler.recover (ε := RouteError) (do
    let key ← input.key
    session key) (fun _ => .fail (.problem ⟨503, "Billing unavailable", failed⟩))
  sendJson 201 opened

/-- `POST /v1/billing/checkout`. -/
def postCheckout (input : RequestInput) : RouteHandler VaultReply := do
  let identity ← resolveIdentity
  runtime.require .createCheckout "Billing unavailable" "Billing checkout is not configured."
  authorizeIdentity runtime identity .householdInstructions .approve "vault.billing.checkout"
  let expectedVersion ← runtime.mutationVersion input
  runtime.require .getSubscription "Billing unavailable"
    "Subscription retrieval is not configured."
  openSession identity "The subscription changed before checkout was created."
    "Billing checkout could not be created." (fun key => perform identity (.createCheckout key))
    expectedVersion input

/-- `POST /v1/billing/portal`. -/
def postPortal (input : RequestInput) : RouteHandler VaultReply := do
  let identity ← resolveIdentity
  runtime.require .createBillingPortal "Billing unavailable"
    "Billing management is not configured."
  runtime.require .getSubscription "Billing unavailable" "Billing management is not configured."
  authorizeIdentity runtime identity .householdInstructions .approve "vault.billing.portal"
  let expectedVersion ← runtime.mutationVersion input
  openSession identity "The subscription changed before billing management was opened."
    "Billing management could not be opened."
    (fun key => perform identity (.createBillingPortal key)) expectedVersion input

/-- `GET /v1/billing/subscription`. -/
def getSubscriptionRoute : RouteHandler VaultReply := do
  let identity ← resolveIdentity
  runtime.require .getSubscription "Billing unavailable"
    "Subscription retrieval is not configured."
  authorizeIdentity runtime identity .householdInstructions .approve "vault.billing.read"
  let subscription ← perform identity .getSubscription
  sendPrivate 200 (.subscription subscription)

/-- `GET /v1/billing/refunds`. -/
def getRefunds : RouteHandler VaultReply := do
  let identity ← resolveIdentity
  runtime.require .listBillingRefunds "Billing unavailable" "Refund retrieval is not configured."
  authorizeIdentity runtime identity .householdInstructions .approve "vault.billing.refunds.read"
  let refunds ← perform identity .listBillingRefunds
  sendPrivate 200 (.json (.obj [("refunds", refunds)]))

/-! ## All routes -/

/-- The vault routes, with their parameters and queries. -/
inductive VaultRoute where
  | getFacts (category : Option String)
  | postFacts
  | postFactConfirm (id : String)
  | postFactReject (id : String)
  | postFactDispute (id : String)
  | postManualExtraction
  | getDocuments
  | getDocumentsContent (id : String)
  | postDocuments
  | postUploadUrl (id : String)
  | postDocumentComplete (id : String)
  | getAuditEvents (afterSequence limit : Option String)
  | postAiInterview
  | postEmergencyAccess
  | postEmergencyDecide (id : String)
  | postEmergencyRelease (id : String)
  | getConsents (purpose : Option String)
  | postConsents
  | postConsentWithdraw (id : String)
  | getPrivacyRequests
  | postPrivacyRequests
  | postConfirmDeletion (requestId : String)
  | postCancelDeletion (requestId : String)
  | postExports
  | getExports (id : String)
  | getReports (id : String)
  | postReports
  | postCheckout
  | postPortal
  | getSubscription
  | getRefunds

/-- A request to a vault route. -/
structure VaultRequest where
  route : VaultRoute
  input : RequestInput

/-- The handler of a request. -/
def VaultRequest.handler (request : VaultRequest) : RouteHandler VaultReply :=
  match request.route with
  | .getFacts category => getFacts runtime category
  | .postFacts => postFacts runtime request.input
  | .postFactConfirm id => postFactConfirm runtime id request.input
  | .postFactReject id => postFactReject runtime id request.input
  | .postFactDispute id => postFactDispute runtime id request.input
  | .postManualExtraction => postManualExtraction runtime request.input
  | .getDocuments => getDocuments runtime
  | .getDocumentsContent id => getDocumentsContent runtime id
  | .postDocuments => postDocuments runtime request.input
  | .postUploadUrl id => postUploadUrl runtime id request.input
  | .postDocumentComplete id => postDocumentComplete runtime id request.input
  | .getAuditEvents afterSequence limit => getAuditEvents runtime afterSequence limit
  | .postAiInterview => postAiInterview runtime request.input
  | .postEmergencyAccess => postEmergencyAccess runtime request.input
  | .postEmergencyDecide id => postEmergencyDecide runtime id request.input
  | .postEmergencyRelease id => postEmergencyRelease runtime id request.input
  | .getConsents purpose => getConsents runtime purpose
  | .postConsents => postConsents runtime request.input
  | .postConsentWithdraw id => postConsentWithdraw runtime id request.input
  | .getPrivacyRequests => getPrivacyRequests runtime
  | .postPrivacyRequests => postPrivacyRequests runtime request.input
  | .postConfirmDeletion requestId => postConfirmDeletion runtime requestId request.input
  | .postCancelDeletion requestId => postCancelDeletion runtime requestId request.input
  | .postExports => postExports runtime request.input
  | .getExports id => getExports runtime id
  | .getReports id => getReports runtime id
  | .postReports => postReports runtime request.input
  | .postCheckout => postCheckout runtime request.input
  | .postPortal => postPortal runtime request.input
  | .getSubscription => getSubscriptionRoute runtime
  | .getRefunds => getRefunds runtime

/-- How a request ends: with a reply, or with the problem of the error handler. -/
def VaultRequest.respond (request : VaultRequest) :
    Handler vaultInterface ApiProblem VaultReply :=
  (request.handler runtime).recover (fun thrown => .fail thrown.toProblem)

/-! ## Calls of the parts -/

/-- The calls that perform one of some operations, and all others. -/
def AllowedCall (operations : AuthenticatedTenantIdentity → VaultOperation → Prop) :
    VaultCall → Prop
  | .perform identity operation => operations identity operation
  | .resolveIdentity | .currentTime | .authorizeIdentity _ _ _ _ => True

section Calls

open Handler

variable {runtime : RouteRuntime} {identity : AuthenticatedTenantIdentity}
  {operations : AuthenticatedTenantIdentity → VaultOperation → Prop}

/-- What holds of the result of every answer holds of every result. -/
theorem forall_answers {ε α : Type} {p : α → Prop} :
    (∀ answer : Except ε α, ∀ result, answer = .ok result → p result) ↔ ∀ result, p result :=
  ⟨fun h result => h (.ok result) result rfl, fun h _ result _ => h result⟩

@[simp] theorem calls_resolveIdentity {post : AuthenticatedTenantIdentity → Prop} :
    resolveIdentity.Calls (AllowedCall operations) post ↔ ∀ identity, post identity := by
  rw [resolveIdentity, calls_ask]
  simp only [calls_ofExcept, forall_answers]
  exact and_iff_right trivial

@[simp] theorem calls_currentTime {post : Instant → Prop} :
    currentTime.Calls (AllowedCall operations) post ↔ ∀ now, post now := by
  rw [currentTime, calls_ask]
  exact and_iff_right trivial

@[simp] theorem calls_authorizeIdentity {category : RecordCategory} {action : PermissionAction}
    {purpose : String} {post : Unit → Prop} :
    (authorizeIdentity runtime identity category action purpose).Calls (AllowedCall operations)
      post ↔ post () := by
  rw [authorizeIdentity]
  split
  · rw [calls_ask]
    simp only [calls_ofExcept, forall_answers]
    exact ⟨fun h => h.2 (), fun h => ⟨trivial, fun _ => h⟩⟩
  · exact calls_pure

@[simp] theorem calls_authorizeEach {categories : List RecordCategory} {action : PermissionAction}
    {purpose : String} {post : Unit → Prop} :
    (authorizeEach runtime identity categories action purpose).Calls (AllowedCall operations)
      post ↔ post () := by
  rw [authorizeEach]
  induction categories with
  | nil => exact Iff.rfl
  | cons category categories ih =>
    change (authorizeIdentity runtime identity category action purpose >>= fun _ =>
      categories.forM _).Calls (AllowedCall operations) post ↔ _
    rw [calls_bind, calls_authorizeIdentity]
    exact ih

@[simp] theorem calls_sendJson {statusCode : Nat} {body : Json} {post : VaultReply → Prop} :
    (sendJson statusCode body).Calls (AllowedCall operations) post ↔
      post ⟨statusCode, false, .json body⟩ := calls_pure

@[simp] theorem calls_sendPrivate {statusCode : Nat} {body : VaultReplyBody}
    {post : VaultReply → Prop} :
    (sendPrivate statusCode body).Calls (AllowedCall operations) post ↔
      post ⟨statusCode, true, body⟩ := calls_pure

@[simp] theorem calls_replayFact {stored : Option StoredResponse} :
    (replayFact stored).Calls (AllowedCall operations) (fun _ => True) := by
  cases stored <;> trivial

@[simp] theorem calls_replayStored {stored : Option StoredResponse} :
    (replayStored stored).Calls (AllowedCall operations) (fun _ => True) := by
  cases stored <;> trivial

/-- What happens under a reserved key, and the reservation itself. -/
theorem calls_whenReserved {replay : Option StoredResponse → RouteHandler VaultReply}
    {key : String} {request : Json} {next : RouteHandler VaultReply}
    (hreserve : operations identity (.reserveIdempotency key request))
    (hreplay : ∀ stored, (replay stored).Calls (AllowedCall operations) (fun _ => True)) :
    (whenReserved replay identity key request next).Calls (AllowedCall operations)
      (fun _ => True) ↔ next.Calls (AllowedCall operations) (fun _ => True) := by
  rw [whenReserved, calls_bind, perform, calls_ask]
  simp only [calls_ofExcept, forall_answers]
  rw [and_iff_right (show AllowedCall operations (.perform identity _) from hreserve)]
  constructor
  · intro h
    exact h Reservation.reserved
  · intro hnext reservation
    cases reservation with
    | replay stored => exact hreplay stored
    | reserved => exact hnext

/-- The calls of a session are those of opening it. -/
@[simp] theorem calls_openSession {changed failed : String} {session : String → RouteHandler Json}
    {expectedVersion : Nat} {input : RequestInput} (hread : operations identity .getSubscription)
    (hsession : ∀ key, (session key).Calls (AllowedCall operations) (fun _ => True)) :
    (openSession identity changed failed session expectedVersion input).Calls
      (AllowedCall operations) (fun _ => True) := by
  rw [openSession, calls_bind, perform, calls_ask]
  refine ⟨hread, ?_⟩
  simp only [calls_ofExcept, forall_answers, calls_bind, calls_liftM, calls_sendJson]
  intro subscription _ _
  refine calls_recover ?_ (fun _ => trivial)
  simp only [calls_bind, calls_liftM]
  exact fun key _ => hsession key

@[simp] theorem calls_emergencyConflict {detail : String} {handler : RouteHandler VaultReply}
    (hcalls : handler.Calls (AllowedCall operations) (fun _ => True)) :
    (emergencyConflict detail handler).Calls (AllowedCall operations) (fun _ => True) := by
  refine calls_recover hcalls (fun thrown => ?_)
  split <;> trivial

end Calls

end LegacyVault
