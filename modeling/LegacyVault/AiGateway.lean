import LegacyVault.Dlp
import LegacyVault.Entities
import LegacyVault.Library.CanonicalJson

/-!
# The AI gateway

Prompts in canonical form, and the checks of `AiPolicyGateway.execute` before
the provider is called. The execution lists the calls of the provider next to
its result.

Only the content of an envelope is scanned. The prefix built from the other
six fields, and the normalized content, are what the provider gets.

Metrics and cost estimates are left out.
-/

namespace LegacyVault

open JsonText EcmaText

/-- `PromptEnvelope`. -/
structure PromptEnvelope where
  promptFamily : String
  promptVersion : String
  globalPolicy : String
  taskPolicy : String
  outputSchema : Json
  safeHouseholdCapsule : Json
  content : String
  deriving DecidableEq

/-- The envelope as a JSON value. -/
def PromptEnvelope.toJson (envelope : PromptEnvelope) : Json :=
  .obj [("promptFamily", .str envelope.promptFamily),
    ("promptVersion", .str envelope.promptVersion), ("globalPolicy", .str envelope.globalPolicy),
    ("taskPolicy", .str envelope.taskPolicy), ("outputSchema", envelope.outputSchema),
    ("safeHouseholdCapsule", envelope.safeHouseholdCapsule), ("content", .str envelope.content)]

/-- What `buildPrompt` builds. -/
structure Prompt where
  stablePrefix : String
  volatileContent : String
  deriving DecidableEq

/-- `buildPrompt`. -/
def buildPrompt (normalize : String → String) (envelope : PromptEnvelope) : Prompt where
  stablePrefix := stableStringify normalize
    (.obj [("globalPolicy", .str envelope.globalPolicy), ("outputSchema", envelope.outputSchema),
      ("promptFamily", .str envelope.promptFamily),
      ("promptVersion", .str envelope.promptVersion),
      ("safeHouseholdCapsule", envelope.safeHouseholdCapsule),
      ("taskPolicy", .str envelope.taskPolicy)])
  volatileContent := trim (normalize envelope.content)

/-- Modes of a request. -/
inductive AiMode where
  | standard | thinking
  deriving DecidableEq

/-- The text of a mode. -/
def AiMode.text : AiMode → String
  | standard => "standard"
  | thinking => "thinking"

/-- `GatewayRequest`. -/
structure GatewayRequest where
  organizationId : Identifier
  householdId : Identifier
  purpose : String
  consentGranted : Bool
  envelope : PromptEnvelope
  mode : AiMode
  model : String
  maxOutputTokens : Nat
  deriving DecidableEq

/-- What `provider.invoke` is called with. -/
structure ProviderRequest where
  prompt : Prompt
  model : String
  mode : AiMode
  maxOutputTokens : Nat
  deriving DecidableEq

/-- Calls of the provider, and the result. -/
structure Execution (α : Type) where
  invoked : List ProviderRequest
  result : Except String α

/-- `AiPolicyGateway.execute`, with the provider's answer as the JSON value it parses to. -/
def execute {α : Type} (normalize : String → String)
    (invoke : ProviderRequest → Except String Json) (schema : Json → Option α)
    (request : GatewayRequest) : Execution α :=
  if request.purpose ≠ request.envelope.promptFamily then
    ⟨[], .error "AI purpose does not match prompt family"⟩
  else if !request.consentGranted then
    ⟨[], .error "affirmative external AI consent is required"⟩
  else if !(scanDlp request.envelope.content).isEmpty then
    ⟨[], .error "prohibited content blocked before provider boundary"⟩
  else
    let call : ProviderRequest :=
      ⟨buildPrompt normalize request.envelope, request.model, request.mode,
        request.maxOutputTokens⟩
    ⟨[call], match invoke call with
      | .error error => .error error
      | .ok content =>
        match schema content with
        | some parsed => .ok parsed
        | none => .error "SchemaValidationError"⟩

/-- The request is refused before the provider is called. -/
def GatewayRequest.Refused (request : GatewayRequest) : Prop :=
  request.purpose ≠ request.envelope.promptFamily ∨ request.consentGranted = false ∨
    scanDlp request.envelope.content ≠ []

section Execute

variable {α : Type} {normalize : String → String}
  {invoke : ProviderRequest → Except String Json} {schema : Json → Option α}
  {request : GatewayRequest}

/-- A request that is not refused calls the provider once, with the prompt of its envelope. -/
theorem execute_invoked (normalize : String → String)
    (invoke : ProviderRequest → Except String Json) (schema : Json → Option α)
    (request : GatewayRequest) :
    (request.Refused ∧ (execute normalize invoke schema request).invoked = []) ∨
    (¬ request.Refused ∧ (execute normalize invoke schema request).invoked =
      [⟨buildPrompt normalize request.envelope, request.model, request.mode,
        request.maxOutputTokens⟩]) := by
  unfold execute GatewayRequest.Refused
  by_cases hpurpose : request.purpose = request.envelope.promptFamily
  · cases hconsent : request.consentGranted with
    | false => simp [hpurpose]
    | true =>
      by_cases hscan : scanDlp request.envelope.content = []
      · right
        simp [hpurpose, hscan]
      · left
        simp [hpurpose, hscan]
  · simp [hpurpose]

/-- A call of the provider has the purpose of its prompt family and the consent. -/
theorem execute_checked (h : ¬ request.Refused) :
    request.purpose = request.envelope.promptFamily ∧ request.consentGranted = true := by
  simp only [GatewayRequest.Refused, not_or, ne_eq, not_not, Bool.not_eq_false] at h
  exact ⟨h.1, h.2.1⟩

/-- Content that is normalized and has no outer white space is sent as it was scanned. -/
theorem volatileContent_of_stable (hnormal : normalize request.envelope.content =
    request.envelope.content) (htrim : trim request.envelope.content = request.envelope.content) :
    (buildPrompt normalize request.envelope).volatileContent = request.envelope.content := by
  simp only [buildPrompt, hnormal, htrim]

/-- An interview whose capsule holds a complete social security number. -/
def exampleGatewayRequest : GatewayRequest where
  organizationId := "o1"
  householdId := "h1"
  purpose := "p"
  consentGranted := true
  envelope := {
    promptFamily := "p"
    promptVersion := "v1"
    globalPolicy := ""
    taskPolicy := ""
    outputSchema := .null
    safeHouseholdCapsule := .str "123-45-6789"
    content := "hello" }
  mode := .standard
  model := "m"
  maxOutputTokens := 1024

end Execute

end LegacyVault
