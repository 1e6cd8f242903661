import LegacyVault.Consents
import LegacyVault.EmergencyAccess
import LegacyVault.ReportRequests
import LegacyVault.IdempotencyRecords

/-!
# Routes that record their response

The ten routes that reserve their idempotency key, run their mutation and
store the response in three transactions: facts, emergency access, consents
and reports. A request may be refused before the reservation, and the
process may stop between the transactions.

Authentication, authorization, entitlements, the formats of identifiers and
keys, size limits and the scan for prohibited content come before all of
this and only refuse requests; they are left out.
-/

namespace LegacyVault

open JsonText RowTransaction RowTransaction.Program

/-! ## Requests -/

/-- `requiredString`: a member that is a text and not empty. -/
def requiredString (name : String) (body : Json) : Option String :=
  match member name body with
  | some (.str value) => if value = "" then none else some value
  | _ => none

/-- The source type with a stored text. -/
def SourceType.ofText? (text : String) : Option SourceType :=
  [manual, document, interview, professional].find? (fun sourceType => sourceType.text == text)

/-- The sensitivity with a stored text. -/
def Sensitivity.ofText? (text : String) : Option Sensitivity :=
  [standard, sensitive, highlySensitive].find? (fun sensitivity => sensitivity.text == text)

/-- The purpose with a stored text (`consentPurpose`). -/
def ConsentPurpose.ofText? (text : String) : Option ConsentPurpose :=
  [externalAi, sensitiveData, documentProcessing, transactionalEmail, terms, privacyPolicy].find?
    (fun purpose => purpose.text == text)

/-- A fact as the route reads it from its body. -/
structure FactInput where
  fieldKey : String
  value : Json
  sourceType : SourceType
  sourceId : Identifier
  evidenceIds : List Identifier
  confidence : Option NumberLiteral
  sensitivity : Sensitivity
  deriving DecidableEq

/-- Members that the body of a new fact may have. -/
def factBodyMembers : List String :=
  ["fieldKey", "value", "sourceType", "sourceId", "evidenceIds", "confidence", "sensitivity"]

/-- The text of a JSON string. -/
def stringValue : Json → Option String
  | .str value => some value
  | _ => none

/-- Evidence of a new fact: none when the member is absent. -/
def decodeEvidenceIds (body : Json) : Option (List Identifier) :=
  match member "evidenceIds" body with
  | none => some []
  | some (.arr items) => items.mapM stringValue
  | some _ => none

/-- Confidence of a new fact, if any. -/
def decodeConfidence (body : Json) : Option (Option NumberLiteral) :=
  match member "confidence" body with
  | none => some none
  | some (.num confidence) => some (some confidence)
  | some _ => none

/-- Read the body of a new fact. -/
def decodeFactBody (body : Json) : Option FactInput :=
  if ∀ name ∈ memberNames body, name ∈ factBodyMembers then do
    let fieldKey ← requiredString "fieldKey" body
    let value ← member "value" body
    let sourceType ← (requiredString "sourceType" body).bind SourceType.ofText?
    let sourceId ← requiredString "sourceId" body
    let evidenceIds ← decodeEvidenceIds body
    let confidence ← decodeConfidence body
    let sensitivity ← (requiredString "sensitivity" body).bind Sensitivity.ofText?
    some ⟨fieldKey, value, sourceType, sourceId, evidenceIds, confidence, sensitivity⟩
  else none

/-- The body of a new fact, as it is hashed and as it is read. -/
structure FactBody where
  /-- The body as received. -/
  json : Json
  /-- The fact it describes. -/
  input : FactInput
  /-- Reading the body gives that fact. -/
  decoded : decodeFactBody json = some input

/-- A consent as the route reads it from its body. -/
structure ConsentInput where
  personId : Identifier
  purpose : ConsentPurpose
  policyVersion : String
  deriving DecidableEq

/-- Members that the body of a new consent may have. -/
def consentBodyMembers : List String := ["personId", "purpose", "policyVersion"]

/-- Read the body of a new consent. -/
def decodeConsentBody (body : Json) : Option ConsentInput :=
  if ∀ name ∈ memberNames body, name ∈ consentBodyMembers then do
    let personId ← requiredString "personId" body
    let purpose ← (requiredString "purpose" body).bind ConsentPurpose.ofText?
    let policyVersion ← requiredString "policyVersion" body
    some ⟨personId, purpose, policyVersion⟩
  else none

/-- The body of a new consent, as it is hashed and as it is read. -/
structure ConsentBody where
  /-- The body as received. -/
  json : Json
  /-- The consent it describes. -/
  input : ConsentInput
  /-- Reading the body gives that consent. -/
  decoded : decodeConsentBody json = some input

/-- An emergency request as the route reads it. -/
structure EmergencyInput where
  recipientMembershipId : Identifier
  /-- The categories without repetition, in order. -/
  categories : List RecordCategory
  reason : String
  deriving DecidableEq

/-- The route of a request with its target and input. -/
inductive RecordedInput where
  | createFact (body : FactBody)
  | confirmFact (factId : Identifier) (expectedVersion : Nat)
  | rejectFact (factId : Identifier) (expectedVersion : Nat)
  | disputeFact (factId : Identifier) (expectedVersion : Nat)
  | createEmergency (input : EmergencyInput)
  | decideEmergency (requestId : Identifier) (expectedVersion : Nat)
      (decision : EmergencyDecision)
  | releaseEmergency (requestId : Identifier) (expectedVersion : Nat)
  | recordConsent (body : ConsentBody)
  | withdrawConsent (consentId : Identifier) (expectedVersion : Nat)
  | createReport (kind : ReportKind)

/-- What the runtime generates for a request. -/
structure RecordedGenerated where
  /-- Identifier of the new row. -/
  id : Identifier
  /-- Identifier of the new workflow. -/
  workflowId : Identifier
  /-- The household key. -/
  plaintextKey : SymmetricKey
  /-- Its version. -/
  keyVersion : Nat
  /-- Nonce of the sealing. -/
  iv : Nat
  /-- Reading of the clock at the mutation. -/
  now : Instant

/-- A request to one of the ten routes. -/
structure RecordedCall where
  context : TenantContext
  /-- The active membership of the caller. -/
  membershipId : Identifier
  key : String
  input : RecordedInput
  generated : RecordedGenerated
  /-- Database time of the reservation. -/
  reservedAt : Instant

/-- The request shape that is hashed. -/
def RecordedInput.shape : RecordedInput → Json
  | createFact body => body.json
  | confirmFact factId expectedVersion =>
    .obj [("factId", .str factId), ("expectedVersion", .nat expectedVersion)]
  | rejectFact factId expectedVersion =>
    .obj [("factId", .str factId), ("expectedVersion", .nat expectedVersion)]
  | disputeFact factId expectedVersion =>
    .obj [("factId", .str factId), ("expectedVersion", .nat expectedVersion)]
  | createEmergency input =>
    .obj [("recipientMembershipId", .str input.recipientMembershipId),
      ("categories", .arr (input.categories.map (fun category => .str category.text))),
      ("reason", .str input.reason)]
  | decideEmergency requestId expectedVersion decision =>
    .obj [("requestId", .str requestId), ("expectedVersion", .nat expectedVersion),
      ("decision", .str decision.text), ("delayHours", .nat decision.delayHours)]
  | releaseEmergency requestId expectedVersion =>
    .obj [("requestId", .str requestId), ("expectedVersion", .nat expectedVersion)]
  | recordConsent body => body.json
  | withdrawConsent consentId expectedVersion =>
    .obj [("consentId", .str consentId), ("expectedVersion", .nat expectedVersion)]
  | createReport kind => .obj [("kind", .str kind.text)]

/-! ## Handling -/

/-- `ApiProblem`. -/
structure ApiProblem where
  status : Nat
  title : String
  detail : String
  deriving DecidableEq

/-- How a request ends. -/
inductive RouteResult where
  /-- A response. -/
  | reply (statusCode : Nat) (body : Json)
  /-- A thrown `ApiProblem`. -/
  | problem (problem : ApiProblem)
  /-- Another error, left to the error handler. -/
  | failed (error : RepositoryError)
  /-- The process stopped. -/
  | stopped

/-- Where the process stops, if it does. -/
inductive StopPoint where
  | never | afterReservation | afterMutation
  deriving DecidableEq

/-- `factCategory`: the problem of a field key without a canonical category. -/
def categoryProblem (fieldKey : String) : Option ApiProblem :=
  match recordCategoryFromFieldKey fieldKey with
  | some _ => none
  | none => some ⟨400, "Invalid request", "fieldKey must begin with a canonical record category"⟩

/-- What a route checks before its reservation. -/
def RecordedCall.precheck (call : RecordedCall) : Transaction (Option ApiProblem) :=
  match call.input with
  | .createFact body => pure (categoryProblem body.input.fieldKey)
  | .confirmFact factId _ | .rejectFact factId _ | .disputeFact factId _ => do
    let fieldKey ← getFactFieldKey call.context factId
    pure (categoryProblem fieldKey)
  | .createEmergency input =>
    pure (if input.recipientMembershipId = call.membershipId then none
      else some ⟨403, "Access denied",
        "Emergency access may be requested only for the active membership."⟩)
  | .decideEmergency requestId _ _ | .releaseEmergency requestId _ => do
    let _ ← getEmergencyAccessCategories call.context requestId
    pure none
  | .recordConsent body =>
    pure (if body.input.personId = call.context.actorId then none
      else some ⟨403, "Access denied",
        "Consent can be recorded only for the authenticated person."⟩)
  | .withdrawConsent _ _ => pure none
  | .createReport _ => pure none

/-- `encryptFactValue` and the candidate the fact route hands to the repository. -/
def FactInput.write (input : FactInput) (context : TenantContext)
    (generated : RecordedGenerated) : CandidateFactWrite where
  id := generated.id
  fieldKey := input.fieldKey
  ciphertext := encryptEnvelope (.data (stringify input.value)) generated.plaintextKey
    ⟨context.organizationId, context.householdId, generated.id, "fact-value:" ++ input.fieldKey,
      generated.keyVersion⟩ generated.iv
  keyVersion := generated.keyVersion
  sourceType := input.sourceType
  sourceId := input.sourceId
  evidenceIds := input.evidenceIds
  confidence := input.confidence
  sensitivity := input.sensitivity

/-- `encryptEmergencyReason` and what the emergency route hands to the repository. -/
def EmergencyInput.write (input : EmergencyInput) (context : TenantContext)
    (generated : RecordedGenerated) : EmergencyAccessWrite where
  id := generated.id
  recipientMembershipId := input.recipientMembershipId
  categories := input.categories
  reasonEncrypted := encryptEnvelope (.data input.reason) generated.plaintextKey
    ⟨context.organizationId, context.householdId, generated.id, "emergency-access-reason",
      generated.keyVersion⟩ generated.iv
  keyVersion := generated.keyVersion
  requestedAt := generated.now

/-- The mutation of a request, with its response body. -/
def RecordedCall.mutation (call : RecordedCall) : Transaction Json :=
  match call.input with
  | .createFact body => do
    let created ← createCandidateFact call.context (body.input.write call.context call.generated)
    pure created.toJson
  | .confirmFact factId expectedVersion => do
    let confirmed ← confirmFact call.context factId expectedVersion call.generated.now
    pure confirmed.toJson
  | .rejectFact factId expectedVersion => do
    let rejected ← rejectFact call.context factId expectedVersion
    pure rejected.toJson
  | .disputeFact factId expectedVersion => do
    let disputed ← disputeFact call.context factId expectedVersion
    pure disputed.toJson
  | .createEmergency input => do
    let created ← createEmergencyAccessRequest call.context
      (input.write call.context call.generated)
    pure created.toJson
  | .decideEmergency requestId expectedVersion decision => do
    let decided ← decideEmergencyAccess call.context requestId expectedVersion decision
      call.generated.now
    pure decided.toJson
  | .releaseEmergency requestId expectedVersion => do
    let released ← releaseEmergencyAccess call.context requestId expectedVersion
      call.generated.now
    pure released.toJson
  | .recordConsent body => do
    let consent ← LegacyVault.recordConsent call.context ⟨call.generated.id, body.input.personId,
      body.input.purpose, body.input.policyVersion, call.generated.now⟩
    pure consent.recordedJson
  | .withdrawConsent consentId expectedVersion => do
    let consent ← LegacyVault.withdrawConsent call.context consentId expectedVersion
      call.generated.now
    pure consent.withdrawnJson
  | .createReport kind => do
    let started ← startReport call.context call.key kind
      ⟨call.generated.id, call.generated.workflowId, call.generated.now⟩
    pure (startedReportJson started)

/-- No mutation of the ten routes writes the record table. -/
theorem RecordedCall.mutation_leaves (call : RecordedCall) :
    call.mutation.Leaves VaultTable.idempotencyRecords := by
  have hjson : ∀ {α : Type} {p : Transaction α} (toJson : α → Json),
      p.Leaves VaultTable.idempotencyRecords →
        (p >>= fun a => pure (toJson a)).Leaves VaultTable.idempotencyRecords :=
    fun _ hp => writes_bind hp (fun _ => writes_commit _)
  rw [RecordedCall.mutation]
  split
  · exact hjson _ (createCandidateFact_leaves (by decide) _ _)
  · exact hjson _ (confirmFact_leaves (by decide) _ _ _ _)
  · exact hjson _ (rejectFact_leaves (by decide) _ _ _)
  · exact hjson _ (disputeFact_leaves (by decide) _ _ _)
  · exact hjson _ (createEmergencyAccessRequest_leaves (by decide) _ _)
  · exact hjson _ (decideEmergencyAccess_leaves (by decide) _ _ _ _ _)
  · exact hjson _ (releaseEmergencyAccess_leaves (by decide) _ _ _ _)
  · exact hjson _ (recordConsent_leaves (by decide) _ _)
  · exact hjson _ (withdrawConsent_leaves (by decide) _ _ _ _)
  · exact hjson _ (startReport_leaves (by decide) (by decide) _ _ _ _)

/-- Status code of a route's response. -/
def RecordedInput.statusCode : RecordedInput → Nat
  | createFact _ | createEmergency _ | recordConsent _ => 201
  | confirmFact _ _ | rejectFact _ _ | disputeFact _ _ | decideEmergency _ _ _
  | releaseEmergency _ _ | withdrawConsent _ _ => 200
  | createReport _ => 202

/-- Answer to a request whose key is taken: the stored response, or that the request is
still in progress. -/
def RecordedInput.replayed (stored : Option StoredResponse) (input : RecordedInput) :
    RouteResult :=
  match stored with
  | some response => .reply response.statusCode response.responseBody
  | none =>
    match input with
    | createFact _ | confirmFact _ _ | rejectFact _ _ | disputeFact _ _ =>
      .problem ⟨409, "Request in progress", "the idempotent request is still processing"⟩
    | createEmergency _ | decideEmergency _ _ _ | releaseEmergency _ _ | recordConsent _
    | withdrawConsent _ _ | createReport _ => .reply 409 (.obj [("status", .str "processing")])

/-- The error's message contains a text (`message.includes`). -/
def RepositoryError.includes (text : String) : RepositoryError → Bool
  | error message => decide (text.toList <:+: message.toList)
  | _ => false

/-- How a route ends when its mutation fails. -/
def RecordedInput.mutationFailed (error : RepositoryError) : RecordedInput → RouteResult
  | decideEmergency _ _ _ =>
    if error.includes "conflict" then .problem ⟨409, "Emergency access conflict",
      "The emergency request changed or cannot be decided."⟩
    else .failed error
  | releaseEmergency _ _ =>
    if error.includes "conflict" then .problem ⟨409, "Emergency access conflict",
      "The release delay remains active or the request changed."⟩
    else .failed error
  | _ => .failed error

/-- Handle a request: check, reserve, mutate and store the response, as far as the process
gets. -/
def handle (sha256 : Sha256) (call : RecordedCall) (stop : StopPoint) (σ : Vault) :
    RouteResult × Vault :=
  match call.precheck.transact σ with
  | (.error error, σ) => (.failed error, σ)
  | (.ok (some problem), σ) => (.problem problem, σ)
  | (.ok none, σ) =>
    match (reserveIdempotency sha256 call.context call.key call.input.shape
      call.reservedAt).transact σ with
    | (.error error, σ) => (.failed error, σ)
    | (.ok (.replay stored), σ) => (call.input.replayed stored, σ)
    | (.ok .reserved, σ) =>
      if stop = .afterReservation then (.stopped, σ)
      else
        match call.mutation.transact σ with
        | (.error error, σ) => (call.input.mutationFailed error, σ)
        | (.ok body, σ) =>
          if stop = .afterMutation then (.stopped, σ)
          else
            match (completeIdempotency call.context call.key call.input.statusCode
              body).transact σ with
            | (.error error, σ) => (.failed error, σ)
            | (.ok (), σ) => (.reply call.input.statusCode body, σ)

end LegacyVault
