import LegacyVault.AiGateway
import LegacyVault.Consents

/-!
# AI interviews

A call of `runAiInterview`: the consent it needs, the request it sends, the
keys it is remembered under, and the response it gives. An admitted interview
keeps the consent its call has read.

The built-ins a call uses are fields of the runtime. The provider answers
with any JSON value, or with an error.
-/

namespace LegacyVault

open JsonText EcmaText

/-- Configuration of the runtime, and the built-ins it calls. -/
structure AiRuntime where
  /-- `deepSeek.readiness().configured`. -/
  configured : Bool
  /-- Model of the provider. -/
  model : String
  /-- `String.prototype.normalize("NFC")`. -/
  normalize : String → String
  /-- A number is at least zero and at most one. -/
  inUnitInterval : NumberLiteral → Bool
  /-- The digests of the runtime. -/
  sha256 : Sha256

/-- Input of `runAiInterview`. -/
structure AiInterviewInput where
  idempotencyKey : String
  expectedConsentVersion : Nat
  message : String
  categories : List RecordCategory
  deriving DecidableEq

/-- `[...new Set(input.categories)].sort()`. -/
def AiInterviewInput.sortedCategories (input : AiInterviewInput) : List RecordCategory :=
  input.categories.dedup.insertionSort (fun a b => a.text ≤ b.text)

/-- Require the active consent at the expected version. -/
def requireAiConsent (active : Option ActiveConsent) (expectedConsentVersion : Nat) :
    Except String ActiveConsent :=
  match active with
  | some consent =>
    if consent.version = expectedConsentVersion then .ok consent
    else .error "affirmative external AI consent is required"
  | none => .error "affirmative external AI consent is required"

/-- The consent that is required is the active one. -/
theorem requireAiConsent_eq_ok {active : Option ActiveConsent} {expectedConsentVersion : Nat}
    {consent : ActiveConsent} (h : requireAiConsent active expectedConsentVersion = .ok consent) :
    active = some consent ∧ consent.version = expectedConsentVersion := by
  cases active with
  | none => simp [requireAiConsent] at h
  | some other =>
    by_cases hversion : other.version = expectedConsentVersion
    · have heq : other = consent := by simpa [requireAiConsent, hversion] using h
      rw [← heq]
      exact ⟨rfl, hversion⟩
    · simp [requireAiConsent, hversion] at h

/-- A call of `runAiInterview` that may go on, with the consent it has read. -/
structure AdmittedInterview where
  identity : TenantContext
  input : AiInterviewInput
  consent : ActiveConsent
  deriving DecidableEq

/-- The checks at the start of `runAiInterview`, on the consent that is active then. -/
def admitInterview (runtime : AiRuntime) (identity : TenantContext) (input : AiInterviewInput)
    (active : Option ActiveConsent) : Except String AdmittedInterview :=
  if runtime.configured = false then .error "AI provider is unavailable"
  else match requireAiConsent active input.expectedConsentVersion with
    | .error error => .error error
    | .ok consent =>
      if input.sortedCategories.isEmpty then .error "AI categories are invalid"
      else .ok ⟨identity, input, consent⟩

/-- An admitted interview has read the active consent, at the version it expects. -/
theorem admitInterview_eq_ok {runtime : AiRuntime} {identity : TenantContext}
    {input : AiInterviewInput} {active : Option ActiveConsent} {admitted : AdmittedInterview}
    (h : admitInterview runtime identity input active = .ok admitted) :
    active = some admitted.consent ∧ admitted.identity = identity ∧ admitted.input = input := by
  unfold admitInterview at h
  cases hconsent : requireAiConsent active input.expectedConsentVersion with
  | error error => split at h <;> simp [hconsent] at h
  | ok consent =>
    have hactive := requireAiConsent_eq_ok hconsent
    rw [hconsent] at h
    by_cases hconfigured : runtime.configured = false
    · simp [hconfigured] at h
    · by_cases hempty : input.sortedCategories.isEmpty = true
      · simp [hconfigured, hempty] at h
      · have heq : (⟨identity, input, consent⟩ : AdmittedInterview) = admitted := by
          simpa [hconfigured, hempty] using h
        rw [← heq]
        exact ⟨hactive.1, rfl, rfl⟩

/-- `globalPolicy` of the prompt. -/
def interviewGlobalPolicy : String :=
  "Return evidence-linked candidate suggestions only. Never state that a candidate is " ++
    "confirmed. Never request or reproduce passwords, PINs, recovery codes, seed phrases, private " ++
    "keys, full payment card numbers, complete Social Security numbers, authentication answers, " ++
    "or safe combinations."

/-- `taskPolicy` of the prompt. -/
def interviewTaskPolicy : String :=
  "Use only the supplied message. Return JSON with candidates and one nullable " ++
    "followUpQuestion. Each candidate needs a canonical fieldKey, proposedValue, an exact short " ++
    "evidenceQuote from the message, and confidence from 0 to 1."

/-- `outputSchema` of the prompt. -/
def interviewOutputSchema : Json :=
  .obj [("candidates", .arr [.obj [("fieldKey", .str "insurance.carrier"),
      ("proposedValue", .str "string or structured JSON value"),
      ("evidenceQuote", .str "exact supporting words"),
      ("confidence", .num ⟨'0', ['.', '9'], by decide, by decide⟩)]]),
    ("followUpQuestion", .str "string or null")]

namespace AdmittedInterview

variable (runtime : AiRuntime) (interview : AdmittedInterview)

/-- The categories that are sent. -/
def categories : List RecordCategory := interview.input.sortedCategories

/-- The categories as JSON. -/
def categoriesJson : Json := .arr (interview.categories.map (fun category => .str category.text))

/-- `stableStringify({ categories, message })`: what is sent of the vault. -/
def content : String :=
  stableStringify runtime.normalize (.obj [("categories", interview.categoriesJson),
    ("message", .str interview.input.message)])

/-- The prompt envelope. -/
def envelope : PromptEnvelope where
  promptFamily := "interview-assistance"
  promptVersion := "v1"
  globalPolicy := interviewGlobalPolicy
  taskPolicy := interviewTaskPolicy
  outputSchema := interviewOutputSchema
  safeHouseholdCapsule := .obj [("allowedCategories", interview.categoriesJson),
    ("authoritativeStatus", .str "candidate-only")]
  content := interview.content runtime

/-- What is asked of the gateway. -/
def gatewayRequest : GatewayRequest where
  organizationId := interview.identity.organizationId
  householdId := interview.identity.householdId
  purpose := "interview-assistance"
  consentGranted := true
  envelope := interview.envelope runtime
  mode := .standard
  model := runtime.model
  maxOutputTokens := 1024

/-- Digest of the request for the idempotency map. -/
def requestHash : String := runtime.sha256.digest (interview.content runtime)

/-- Key of the call in the idempotency map. -/
def idempotencyCacheKey : String :=
  stableStringify runtime.normalize
    (.obj [("organizationId", .str interview.identity.organizationId),
      ("householdId", .str interview.identity.householdId),
      ("idempotencyKey", .str interview.input.idempotencyKey)])

/-- `AiPolicyGateway.cacheKey`: key of the call in the exact-result cache. -/
def exactCacheKey : String :=
  runtime.sha256.digest (stableStringify runtime.normalize
    (.obj [("organizationId", .str interview.identity.organizationId),
      ("householdId", .str interview.identity.householdId),
      ("purpose", .str "interview-assistance"),
      ("consentVersion", .nat interview.consent.version),
      ("envelope", (interview.envelope runtime).toJson),
      ("mode", .str AiMode.standard.text), ("model", .str runtime.model),
      ("maxOutputTokens", .nat 1024)]))

end AdmittedInterview

section Keys

variable {runtime : AiRuntime} {a b : AdmittedInterview}

/-- The calls are made for one household, as their keys name it. -/
def SameHousehold (runtime : AiRuntime) (a b : AdmittedInterview) : Prop :=
  runtime.normalize a.identity.organizationId = runtime.normalize b.identity.organizationId ∧
    runtime.normalize a.identity.householdId = runtime.normalize b.identity.householdId

/-- The calls send the same categories and message, as their keys name them. -/
def SameContent (runtime : AiRuntime) (a b : AdmittedInterview) : Prop :=
  runtime.normalize (a.content runtime) = runtime.normalize (b.content runtime)

/-- Equal request digests come from the same categories and message. -/
theorem requestHash_inj :
    a.requestHash runtime = b.requestHash runtime ↔ a.content runtime = b.content runtime :=
  runtime.sha256.collisionFree.eq_iff

/-- Calls that share a key of the idempotency map have one household and one idempotency key. -/
theorem idempotencyCacheKey_inj :
    a.idempotencyCacheKey runtime = b.idempotencyCacheKey runtime ↔ SameHousehold runtime a b ∧
      runtime.normalize a.input.idempotencyKey = runtime.normalize b.input.idempotencyKey := by
  rw [AdmittedInterview.idempotencyCacheKey, AdmittedInterview.idempotencyCacheKey,
    stableStringify_inj]
  simp [canonicalize, canonicalizeMembers, SameHousehold]
  tauto

/-- Calls that share a key of the exact cache have one household, one content and one
consent version. -/
theorem exactCacheKey_shared (h : a.exactCacheKey runtime = b.exactCacheKey runtime) :
    SameHousehold runtime a b ∧ SameContent runtime a b ∧
      a.consent.version = b.consent.version := by
  have hshape := stableStringify_inj.mp (runtime.sha256.collisionFree h)
  simp [canonicalize, canonicalizeMembers, AdmittedInterview.envelope,
    PromptEnvelope.toJson] at hshape
  obtain ⟨hversion, ⟨hcontent, -⟩, hhousehold, horganization⟩ := hshape
  exact ⟨⟨horganization, hhousehold⟩, hcontent, hversion⟩

end Keys

/-- A candidate of a response. -/
structure AiCandidate where
  fieldKey : String
  proposedValue : Option Json
  evidenceQuote : String
  confidence : NumberLiteral
  deriving DecidableEq

/-- What `aiInterviewSchema` parses to. -/
structure AiInterviewResult where
  candidates : List AiCandidate
  followUpQuestion : Option String
  deriving DecidableEq

/-- A string member whose length is within bounds. -/
def boundedString (least most : Nat) : Option Json → Option String
  | some (.str value) =>
    if least ≤ utf16Length value ∧ utf16Length value ≤ most then some value else none
  | _ => none

/-- The schema of a candidate. -/
def aiCandidateSchema (runtime : AiRuntime) (value : Json) : Option AiCandidate := do
  let fieldKey ← boundedString 3 160 (member "fieldKey" value)
  let evidenceQuote ← boundedString 1 500 (member "evidenceQuote" value)
  match member "confidence" value with
  | some (.num confidence) =>
    if runtime.inUnitInterval confidence then
      some ⟨fieldKey, member "proposedValue" value, evidenceQuote, confidence⟩
    else none
  | _ => none

/-- `aiInterviewSchema`. -/
def aiInterviewSchema (runtime : AiRuntime) (value : Json) : Option AiInterviewResult :=
  match member "candidates" value with
  | some (.arr items) =>
    if items.length ≤ 20 then
      match items.mapM (aiCandidateSchema runtime), member "followUpQuestion" value with
      | some candidates, some .null => some ⟨candidates, none⟩
      | some candidates, question =>
        (boundedString 1 500 question).map (fun text => ⟨candidates, some text⟩)
      | none, _ => none
    else none
  | _ => none

/-- A candidate as a JSON value. -/
def AiCandidate.toJson (candidate : AiCandidate) : Json :=
  .obj ([("fieldKey", .str candidate.fieldKey)] ++
    (candidate.proposedValue.map (fun value => ("proposedValue", value))).toList ++
    [("evidenceQuote", .str candidate.evidenceQuote), ("confidence", .num candidate.confidence)])

/-- A result as a JSON value. -/
def AiInterviewResult.toJson (result : AiInterviewResult) : Json :=
  .obj [("candidates", .arr (result.candidates.map AiCandidate.toJson)),
    ("followUpQuestion", (result.followUpQuestion.map Json.str).getD .null)]

/-- Confine every candidate to the requested categories. -/
def checkCandidates (categories : List RecordCategory) : List AiCandidate → Except String Unit
  | [] => .ok ()
  | candidate :: candidates =>
    match recordCategoryFromFieldKey candidate.fieldKey with
    | none => .error "fact field key has no canonical category"
    | some category =>
      if categories.contains category then checkCandidates categories candidates
      else .error "AI output exceeded allowed categories"

/-- The checks `runAiInterview` makes of a result, from the provider or from the cache. -/
def checkResult (runtime : AiRuntime) (categories : List RecordCategory)
    (result : AiInterviewResult) : Except String AiInterviewResult :=
  match checkCandidates categories result.candidates with
  | .error error => .error error
  | .ok () =>
    if ((scanDlp (stableStringify runtime.normalize result.toJson)).filter
        (· ≠ .promptInjection)).isEmpty then .ok result
    else .error "AI output contains prohibited content"

/-- The response of `runAiInterview`. -/
structure AiResponse where
  model : String
  consent : ActiveConsent
  categoriesSent : List RecordCategory
  result : AiInterviewResult
  deriving DecidableEq

/-- The response to a call with a result. -/
def AdmittedInterview.respond (runtime : AiRuntime) (interview : AdmittedInterview)
    (result : AiInterviewResult) : AiResponse :=
  ⟨runtime.model, interview.consent, interview.categories, result⟩

section Checks

variable {runtime : AiRuntime} {categories : List RecordCategory} {result : AiInterviewResult}

/-- Confined candidates have a canonical category that was requested. -/
theorem checkCandidates_ok {candidates : List AiCandidate} :
    checkCandidates categories candidates = .ok () ↔
      ∀ candidate ∈ candidates, ∃ category ∈ categories,
        recordCategoryFromFieldKey candidate.fieldKey = some category := by
  induction candidates with
  | nil => simp [checkCandidates]
  | cons candidate candidates ih =>
    cases hcategory : recordCategoryFromFieldKey candidate.fieldKey with
    | none => simp [checkCandidates, hcategory]
    | some category =>
      by_cases hmem : category ∈ categories
      · simp [checkCandidates, hcategory, hmem, ih]
      · simp [checkCandidates, hcategory, hmem]

/-- What `checkResult` lets through, it returns as it is: confined, and with nothing found in
its text but prompt injection. -/
theorem checkResult_ok {checked : AiInterviewResult} :
    checkResult runtime categories result = .ok checked ↔
      checked = result ∧ checkCandidates categories result.candidates = .ok () ∧
      ∀ finding ∈ scanDlp (stableStringify runtime.normalize result.toJson),
        finding = .promptInjection := by
  unfold checkResult
  cases hcheck : checkCandidates categories result.candidates with
  | error error => simp
  | ok u =>
    simp only [List.isEmpty_iff, List.filter_eq_nil_iff, ne_eq, decide_not, Bool.not_eq_true',
      decide_eq_false_iff_not, not_not]
    split
    · rename_i hclean
      simp only [Except.ok.injEq, true_and]
      constructor
      · intro heq
        exact ⟨heq.symm, hclean⟩
      · intro h
        exact h.1.symm
    · rename_i hfound
      simp [hfound]

end Checks

/-- A runtime with transparent digests. -/
def exampleRuntime : AiRuntime where
  configured := true
  model := "deepseek-chat"
  normalize := id
  inUnitInterval := fun _ => true
  sha256 := .transparent

/-- The person who calls. -/
def exampleCaller : TenantContext := ⟨"o1", "h1", "p1"⟩

end LegacyVault
