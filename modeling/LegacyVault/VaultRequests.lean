import LegacyVault.AiInterviews
import LegacyVault.Billing
import LegacyVault.DocumentExtraction
import LegacyVault.DocumentUploads
import LegacyVault.Library.Handlers
import LegacyVault.MembershipIdentities
import LegacyVault.RecordedRoutes

/-!
# Requests to the vault routes

Headers, parameters and bodies as the routes read them, and the problems they
are refused with. The validation of requests against the API schemas comes
before all of this and only refuses requests; it is left out.

The configuration of the routes says which of their optional dependencies
there are. The built-ins that read numbers and dates are its other fields.
-/

namespace LegacyVault

open JsonText EcmaText Handlers

/-! ## Errors -/

/-- What a handler throws. -/
inductive RouteError where
  /-- An `ApiProblem`. -/
  | problem (problem : ApiProblem)
  /-- `AuthenticationRequiredError`. -/
  | authenticationRequired (message : String)
  /-- `HouseholdSelectionRequiredError`. -/
  | householdSelectionRequired (message : String)
  /-- `AuthorizationDeniedError`. -/
  | authorizationDenied
  /-- Another error, with its message. -/
  | error (message : String)
  deriving DecidableEq

/-- The message of an error. -/
def RouteError.message : RouteError → String
  | problem thrown => thrown.detail
  | authenticationRequired message | householdSelectionRequired message | error message => message
  | authorizationDenied => "access denied"

/-- The message of an error contains a text (`message.includes`). -/
def RouteError.includes (text : String) (thrown : RouteError) : Bool :=
  decide (text.toList <:+: thrown.message.toList)

/-- The problem that the error handler replies with. -/
def RouteError.toProblem : RouteError → ApiProblem
  | problem thrown => thrown
  | authenticationRequired _ => ⟨401, "Authentication required", "Authentication is required."⟩
  | householdSelectionRequired _ =>
    ⟨409, "Household selection required", "Select an accessible household."⟩
  | authorizationDenied => ⟨403, "Access denied", "Access is denied."⟩
  | error message =>
    let conflict := (error message).includes "conflict"
    ⟨if conflict || (error message).includes "idempotency" then 409 else 500,
      if conflict then "Version conflict" else "Request failed",
      "The request could not be completed."⟩

/-- An `Invalid request` problem. -/
def invalidRequest (detail : String) : RouteError := .problem ⟨400, "Invalid request", detail⟩

/-- Require a condition, or refuse the request with a problem. -/
def requireThat (condition : Prop) [Decidable condition] (problem : ApiProblem) :
    Except RouteError Unit :=
  if condition then .ok () else .error (.problem problem)

/-! ## Configuration -/

/-- The optional dependencies of the routes. -/
inductive VaultDependency where
  | authorizeIdentity | startPortableExport | getPortableExport | confirmPrivacyDeletion
  | cancelPrivacyDeletion | encryptFactValue | encryptEmergencyReason | listVaultFacts
  | listVaultDocuments | getDocumentContent | listAuditEvents | createReport | getReport
  | createCheckout | createBillingPortal | getSubscription | listBillingRefunds
  | startDocumentUpload | createDocumentUploadUrl | completeDocumentUpload
  | completeManualDocumentExtraction | runAiInterview
  deriving DecidableEq

/-- The configuration of the routes, and the built-ins they call. -/
structure RouteRuntime where
  /-- The dependency is there. -/
  configured : VaultDependency → Bool
  /-- The safe integer that `Number` makes of a text, if it is one. -/
  safeInteger : String → Option Int
  /-- The safe integer that a number is, if it is one. -/
  safeIntegerOf : NumberLiteral → Option Int
  /-- A number is at least zero and at most one. -/
  inUnitInterval : NumberLiteral → Bool
  /-- `new Date(text)`, if it is valid. -/
  parseDate : String → Option Instant

/-- Require a dependency, or refuse the request with a problem. -/
def RouteRuntime.require (runtime : RouteRuntime) (dependency : VaultDependency)
    (title detail : String) : Except RouteError Unit :=
  requireThat (runtime.configured dependency = true) ⟨503, title, detail⟩

/-! ## Headers and members -/

/-- What every route may read of a request: two headers and the body. -/
structure RequestInput where
  ifMatch : Option String
  idempotencyKey : Option String
  body : Option Json

/-- `objectBody`. -/
def objectBody : Option Json → Except RouteError Json
  | some (.obj members) => .ok (.obj members)
  | _ => .error (invalidRequest "request body must be an object")

/-- `requiredString`, with its problem. -/
def requireString (body : Json) (field : String) : Except RouteError String :=
  match requiredString field body with
  | some value => .ok value
  | none => .error (invalidRequest (field ++ " is required"))

/-- Characters of an idempotency key. -/
def isKeyCharacter (c : Char) : Bool := c.isAlphanum || "._:-".toList.contains c

/-- `idempotencyKey`. -/
def RequestInput.key (input : RequestInput) : Except RouteError String :=
  match input.idempotencyKey with
  | some value =>
    if 16 ≤ utf16Length value ∧ utf16Length value ≤ 200 ∧ value.toList.all isKeyCharacter then
      .ok value
    else .error (invalidRequest "a valid idempotency-key header is required")
  | none => .error (invalidRequest "a valid idempotency-key header is required")

/-- `uuidPattern`. -/
def isUuid (text : String) : Bool := isStripeUuid text

/-- Require a path parameter to be a UUID. -/
def requirePathUuid (detail id : String) : Except RouteError Unit :=
  requireThat (isUuid id = true) ⟨400, "Invalid request", detail⟩

/-- `creationVersion`. -/
def RequestInput.creationVersion (input : RequestInput) : Except RouteError Unit :=
  requireThat (input.ifMatch = some "0")
    ⟨400, "Invalid request", "if-match must be 0 when creating a resource"⟩

/-- The version in `if-match`, which is at least the given one. -/
def RouteRuntime.version (runtime : RouteRuntime) (least : Int) (detail : String)
    (input : RequestInput) : Except RouteError Nat :=
  match input.ifMatch.bind runtime.safeInteger with
  | some value => if value < least then .error (invalidRequest detail) else .ok value.toNat
  | none => .error (invalidRequest detail)

/-- `mutationVersion`. -/
def RouteRuntime.mutationVersion (runtime : RouteRuntime) (input : RequestInput) :
    Except RouteError Nat :=
  runtime.version 0 "a valid non-negative if-match version is required" input

/-- The version of a row that is changed. -/
def RouteRuntime.expectedVersion (runtime : RouteRuntime) (input : RequestInput) :
    Except RouteError Nat :=
  runtime.version 1 "a valid if-match version is required" input

/-- `requiredUuid`. -/
def requireUuid (body : Json) (field : String) : Except RouteError String := do
  let value ← requireString body field
  if isUuid value then .ok value else .error (invalidRequest (field ++ " must be a UUID"))

/-- `requiredPositiveInteger`. -/
def RouteRuntime.requirePositiveInteger (runtime : RouteRuntime) (body : Json) (field : String) :
    Except RouteError Nat :=
  match member field body with
  | some (.num value) =>
    match runtime.safeIntegerOf value with
    | some integer =>
      if integer < 1 then .error (invalidRequest (field ++ " must be a positive integer"))
      else .ok integer.toNat
    | none => .error (invalidRequest (field ++ " must be a positive integer"))
  | _ => .error (invalidRequest (field ++ " must be a positive integer"))

/-- `factCategory`. -/
def factCategory (fieldKey : String) : Except RouteError RecordCategory :=
  match recordCategoryFromFieldKey fieldKey with
  | some category => .ok category
  | none => .error (invalidRequest "fieldKey must begin with a canonical record category")

/-- `consentPurpose`. -/
def consentPurpose (text : Option String) : Except RouteError ConsentPurpose :=
  match text.bind ConsentPurpose.ofText? with
  | some purpose => .ok purpose
  | none => .error (invalidRequest "purpose is invalid")

/-- A text that stands for a value, or a problem. -/
def requireNamed {α : Type} (ofText : String → Option α) (body : Json) (field detail : String) :
    Except RouteError α := do
  let text ← requireString body field
  match ofText text with
  | some value => .ok value
  | none => .error (invalidRequest detail)

/-- The names of findings, as a problem lists them. -/
def findingNames (findings : List DlpFinding) : String :=
  ", ".intercalate (findings.map DlpFinding.text)

/-- A text without findings, or a problem that names them. -/
def requireNoFindings (label : String) (findings : List DlpFinding) : Except RouteError Unit :=
  requireThat (findings = []) ⟨400, "Prohibited content",
    label ++ " contains prohibited " ++ findingNames findings⟩

/-- A value that is not too large and holds nothing prohibited. -/
def checkValue (label : String) (value : Json) : Except RouteError Unit := do
  let serialized := stringify value
  if serialized.utf8ByteSize > 65536 then .error (invalidRequest (label ++ " is invalid"))
  requireNoFindings label ((scanDlp serialized).filter (· ≠ .promptInjection))

/-- The member `confidence`, if there is one. -/
def RouteRuntime.confidence (runtime : RouteRuntime) (body : Json) (detail : String) :
    Except RouteError (Option NumberLiteral) :=
  match member "confidence" body with
  | none => .ok none
  | some (.num confidence) =>
    if runtime.inUnitInterval confidence then .ok (some confidence)
    else .error (invalidRequest detail)
  | some _ => .error (invalidRequest detail)

/-- The record category with a text. -/
def RecordCategory.ofText? (text : String) : Option RecordCategory :=
  allRecordCategories.find? (fun category => category.text == text)

/-- The categories that a list of facts is asked for: the one of the query, or all. -/
def listedCategories (category : Option String) : Except RouteError (List RecordCategory) :=
  match category.filter (· ≠ "") with
  | none => .ok allRecordCategories
  | some text =>
    match RecordCategory.ofText? text with
    | some category => .ok [category]
    | none => .error (invalidRequest "category is invalid")

/-- A number of the query between two bounds, or its default. -/
def RouteRuntime.queryNumber (runtime : RouteRuntime) (text : Option String) (default least : Int)
    (greatest : Option Int) (detail : String) : Except RouteError Nat :=
  match (match text with
    | some text => runtime.safeInteger text
    | none => some default) with
  | some value =>
    if value < least ∨ greatest.any (· < value) then .error (invalidRequest detail)
    else .ok value.toNat
  | none => .error (invalidRequest detail)

/-- The member `categories`, each once, in the order of first occurrence. -/
def requestCategories (body : Json) : Except RouteError (List RecordCategory) :=
  match member "categories" body with
  | some (.arr items) =>
    match items.mapM (fun item => (stringValue item).bind RecordCategory.ofText?) with
    | some [] => .error (invalidRequest "categories are invalid")
    | some categories => .ok categories.eraseDups
    | none => .error (invalidRequest "categories are invalid")
  | _ => .error (invalidRequest "categories are invalid")

/-! ## Bodies -/

/-- The members of a new fact that are read before its category is authorized. -/
structure FactForm where
  value : Json
  sourceType : SourceType
  sensitivity : Sensitivity
  evidenceIds : List Identifier
  confidence : Option NumberLiteral
  fieldKey : String

/-- The evidence of a new fact: none when the member is absent. -/
def requestEvidenceIds (body : Json) : Except RouteError (List Identifier) :=
  match decodeEvidenceIds body with
  | some ids =>
    if ids.all isUuid then .ok ids else .error (invalidRequest "evidenceIds are invalid")
  | none => .error (invalidRequest "evidenceIds are invalid")

/-- Read the body of a new fact. -/
def RouteRuntime.factForm (runtime : RouteRuntime) (body : Json) : Except RouteError FactForm := do
  let value ← match member "value" body with
    | some value => .ok value
    | none => .error (invalidRequest "value is required")
  checkValue "value" value
  let sourceType ← requireNamed SourceType.ofText? body "sourceType" "sourceType is invalid"
  let sensitivity ← requireNamed Sensitivity.ofText? body "sensitivity" "sensitivity is invalid"
  let evidenceIds ← requestEvidenceIds body
  let confidence ← runtime.confidence body "confidence is invalid"
  let fieldKey ← requireString body "fieldKey"
  .ok ⟨value, sourceType, sensitivity, evidenceIds, confidence, fieldKey⟩

/-- `/^[0-9a-f]{64}$/`. -/
def isSha256Text (text : String) : Bool :=
  text.toList.length == 64 &&
    text.toList.all (fun c => c.isDigit || "abcdef".toList.contains c)

/-- Require a digest. -/
def requireDigest (body : Json) (field : String) : Except RouteError String := do
  let digest ← requireString body field
  if isSha256Text digest then .ok digest
  else .error (invalidRequest (field ++ " must be a lowercase SHA-256 digest"))

/-- Media types of documents. -/
def documentMediaTypes : List String :=
  ["application/pdf", "image/jpeg", "image/png", "image/tiff"]

/-- `/[zZ]|[+-]\d{2}:\d{2}$/`. -/
def hasTimezone (text : String) : Bool :=
  text.toList.any (fun c => c == 'z' || c == 'Z') ||
    match text.toList.reverse with
    | m₂ :: m₁ :: colon :: h₂ :: h₁ :: sign :: _ =>
      m₂.isDigit && m₁.isDigit && colon == ':' && h₂.isDigit && h₁.isDigit &&
        (sign == '+' || sign == '-')
    | _ => false

/-- The member `expiresAt`, if there is one, as an ISO text. -/
def RouteRuntime.expiresAt (runtime : RouteRuntime) (body : Json) :
    Except RouteError (Option String) :=
  match member "expiresAt" body with
  | none => .ok none
  | some (.str text) =>
    match runtime.parseDate text with
    | some instant =>
      if hasTimezone text then .ok (some (IsoTime.toISOString instant))
      else .error (invalidRequest "expiresAt must be an ISO 8601 timestamp with a timezone")
    | none => .error (invalidRequest "expiresAt must be an ISO 8601 timestamp with a timezone")
  | some _ => .error (invalidRequest "expiresAt must be an ISO 8601 timestamp")

/-- Read the body of a new document. -/
def RouteRuntime.documentForm (runtime : RouteRuntime) (body : Json) :
    Except RouteError DocumentUploadInput := do
  let originalSha256 ← requireDigest body "originalSha256"
  let mediaType ← requireString body "mediaType"
  if mediaType ∉ documentMediaTypes then .error (invalidRequest "mediaType is invalid")
  let maximumBytes ← runtime.requirePositiveInteger body "maximumBytes"
  let policyVersion ← requireString body "documentConsentPolicyVersion"
  if utf16Length policyVersion > 120 then
    .error (invalidRequest "documentConsentPolicyVersion is too large")
  let deleteOriginal ← match member "deleteOriginalAfterProcessing" body with
    | some (.bool value) => .ok value
    | _ => .error (invalidRequest "deleteOriginalAfterProcessing must be boolean")
  if maximumBytes > 100 * 1024 * 1024 then
    .error (invalidRequest "maximumBytes exceeds the service limit")
  let expiresAt ← runtime.expiresAt body
  .ok ⟨originalSha256, mediaType, maximumBytes, expiresAt, policyVersion, deleteOriginal⟩

/-- Read one candidate of a manual extraction, with its category. -/
def RouteRuntime.candidateForm (runtime : RouteRuntime) (index : Nat) (candidate : Json) :
    Except RouteError (RecordCategory × ManualCandidate) := do
  let label := "candidates[" ++ toString index ++ "]"
  let item ← objectBody (some candidate)
  let fieldKey ← requireString item "fieldKey"
  let category ← factCategory fieldKey
  let locator ← requireString item "locator"
  if utf16Length locator > 256 then .error (invalidRequest (label ++ ".locator is too long"))
  let sensitivity ← requireNamed Sensitivity.ofText? item "sensitivity"
    (label ++ ".sensitivity is invalid")
  let value ← match member "value" item with
    | some value => .ok value
    | none => .error (invalidRequest (label ++ ".value is required"))
  checkValue (label ++ ".value") value
  let confidence ← runtime.confidence item (label ++ ".confidence is invalid")
  .ok (category, ⟨fieldKey, value, locator, sensitivity, confidence⟩)

/-- Read the candidates from an index on. -/
def RouteRuntime.candidateForms (runtime : RouteRuntime) :
    Nat → List Json → Except RouteError (List (RecordCategory × ManualCandidate))
  | _, [] => .ok []
  | index, candidate :: candidates => do
    let form ← runtime.candidateForm index candidate
    let forms ← runtime.candidateForms (index + 1) candidates
    .ok (form :: forms)

/-- Read the candidates of a manual extraction. -/
def RouteRuntime.extractionCandidates (runtime : RouteRuntime) (body : Json) :
    Except RouteError (List (RecordCategory × ManualCandidate)) :=
  match member "candidates" body with
  | some (.arr items) =>
    if items.length < 1 ∨ 50 < items.length then
      .error (invalidRequest "candidates must contain between 1 and 50 items")
    else runtime.candidateForms 0 items
  | _ => .error (invalidRequest "candidates must contain between 1 and 50 items")

/-- Read the message of an interview. -/
def interviewMessage (body : Json) : Except RouteError String := do
  let message ← requireString body "message"
  if message.utf8ByteSize > 20000 then .error (invalidRequest "message is too large")
  requireNoFindings "message" (scanDlp message)
  .ok message

/-- Read the body of an emergency request up to its reason. -/
def emergencyForm (identity : AuthenticatedTenantIdentity) (body : Json) :
    Except RouteError EmergencyInput := do
  let recipientMembershipId ← requireUuid body "recipientMembershipId"
  requireThat (recipientMembershipId = identity.membershipId) ⟨403, "Access denied",
    "Emergency access may be requested only for the active membership."⟩
  let categories ← requestCategories body
  let reason ← requireString body "reason"
  if reason.utf8ByteSize > 2000 then .error (invalidRequest "reason is too large")
  requireNoFindings "reason" (scanDlp reason)
  .ok ⟨recipientMembershipId, categories.insertionSort (fun a b => a.text ≤ b.text), reason⟩

/-- Read the decision on an emergency request. -/
def RouteRuntime.decisionForm (runtime : RouteRuntime) (body : Json) :
    Except RouteError EmergencyDecision := do
  let decision ← requireString body "decision"
  if decision = "deny" then .ok .deny
  else if decision = "delay" then
    let delayHours ← runtime.requirePositiveInteger body "delayHours"
    if delayHours > 168 then .error (invalidRequest "delayHours exceeds seven days")
    else .ok (.delay delayHours)
  else .error (invalidRequest "decision must be deny or delay")

/-- Kinds of reports. -/
def ReportKind.ofText? (text : String) : Option ReportKind :=
  [lifeInventory, familyEmergencyGuide, executorPreparationPacket, beneficiaryReviewChecklist,
    documentGapReport, householdContinuityGuide, annualReview].find?
    (fun kind => kind.text == text)

/-- Kinds of privacy requests. -/
def PrivacyRequestKind.ofText? (text : String) : Option PrivacyRequestKind :=
  [access, correction, «export», deletion, appeal].find? (fun kind => kind.text == text)

/-- `/^[A-Za-z0-9+/]{43}=$/`. A text of this form encodes 32 bytes, so the check of its length
after decoding refuses nothing. -/
def isExportKeyText (text : String) : Bool :=
  text.toList.length == 44 && text.toList.getLast? == some '=' &&
    text.toList.dropLast.all (fun c => c.isAlphanum || c == '+' || c == '/')

end LegacyVault
