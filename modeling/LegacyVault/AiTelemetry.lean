import LegacyVault.AiGateway
import LegacyVault.Telemetry

/-!
# Telemetry of the AI gateway

`AiPolicyGateway.execute` with the metrics it emits, and the callback of the
runtime that records them. A metric is emitted before a policy error or a
provider error is thrown, and on the way out after the provider has returned.
A metric that is rejected throws, so its error takes the place of the result.
-/

namespace LegacyVault.AiTelemetry

open EcmaValues Telemetry

/-! ## Metrics -/

/-- `ProviderUsage`. -/
structure ProviderUsage where
  inputTokens : Number
  outputTokens : Number
  cacheHitTokens : Number
  cacheMissTokens : Number

/-- The usage of a request without an answer. -/
def noUsage : ProviderUsage := ⟨.ofNat 0, .ofNat 0, .ofNat 0, .ofNat 0⟩

/-- Outcomes that `execute` reports. -/
inductive MetricOutcome where
  | success | policyBlocked | providerError | schemaError
  deriving DecidableEq

/-- The text of an outcome. -/
def MetricOutcome.text : MetricOutcome → String
  | success => "success"
  | policyBlocked => "policy-blocked"
  | providerError => "provider-error"
  | schemaError => "schema-error"

/-- `GatewayMetric`. -/
structure GatewayMetric where
  outcome : MetricOutcome
  taskFamily : String
  promptVersion : String
  model : String
  mode : AiMode
  usage : ProviderUsage
  latencyMs : Number
  dlpFindingsCount : Number
  schemaSuccess : Bool
  retryCount : Number
  estimatedCostUsd : Number
  errorClass : Option String

section Callback

variable (toLowerCase : String → String)

/-- The labels of the callback. An error class that is empty is left out. -/
def GatewayMetric.labels (metric : GatewayMetric) : List (String × String) :=
  [("provider", "deepseek"), ("task_family", metric.taskFamily),
    ("prompt_version", metric.promptVersion), ("model", metric.model),
    ("mode", metric.mode.text), ("outcome", metric.outcome.text)] ++
    ((nonempty metric.errorClass).map (fun errorClass =>
      ("error_class", toLowerCase errorClass))).toList

/-- The points that the callback records, in order. -/
def GatewayMetric.points (metric : GatewayMetric) : List (String × Number) :=
  [("legacy_ai_request_duration_ms", metric.latencyMs),
    ("legacy_ai_input_tokens_total", metric.usage.inputTokens),
    ("legacy_ai_output_tokens_total", metric.usage.outputTokens),
    ("legacy_ai_cache_hit_tokens_total", metric.usage.cacheHitTokens),
    ("legacy_ai_cache_miss_tokens_total", metric.usage.cacheMissTokens),
    ("legacy_ai_cost_usd_total", metric.estimatedCostUsd),
    ("legacy_ai_dlp_findings_total", metric.dlpFindingsCount),
    ("legacy_ai_retries_total", metric.retryCount),
    ("legacy_ai_schema_success_total", .ofNat (if metric.schemaSuccess then 1 else 0))]

/-- The metric callback of the runtime. -/
def emitMetric (now : Instant) (metric : GatewayMetric) : List MetricPoint × Except String Unit :=
  emitAll (metric.points.map (fun point =>
    record point.1 point.2 (metric.labels toLowerCase) now))

end Callback

/-! ## Executions -/

/-- `ProviderResult`. -/
structure ProviderResult where
  content : String
  model : String
  usage : ProviderUsage
  retryCount : Number

/-- What the provider does. -/
inductive ProviderAnswer where
  | returned (result : ProviderResult)
  /-- What it throws, with the retries of a `ProviderUnavailableError`. -/
  | failed (thrown : Thrown) (retryCount : Option Number)

/-- What `execute` throws. -/
inductive GatewayError where
  | policy (message : String) (findings : List DlpFinding)
  | provider (thrown : Thrown)
  | schema
  | telemetry (message : String)
  deriving DecidableEq

/-- What `execute` is given by the platform. -/
structure GatewayPlatform (α : Type) where
  toLowerCase : String → String
  normalize : String → String
  /-- `request.schema.parse(JSON.parse(content))`. -/
  read : String → Option α
  /-- The estimated cost of a usage. -/
  estimatedCost : ProviderUsage → Number
  now : Instant

section Execute

variable {α : Type} (platform : GatewayPlatform α) (request : GatewayRequest)

/-- Emit a metric, or throw what the callback throws. -/
def emit (metric : GatewayMetric) : Except GatewayError Unit :=
  match (emitMetric platform.toLowerCase platform.now metric).2 with
  | .ok () => .ok ()
  | .error message => .error (.telemetry message)

/-- `emptyMetric`. -/
def emptyMetric : GatewayMetric where
  outcome := .providerError
  taskFamily := request.envelope.promptFamily
  promptVersion := request.envelope.promptVersion
  model := request.model
  mode := request.mode
  usage := noUsage
  latencyMs := .ofNat 0
  dlpFindingsCount := .ofNat 0
  schemaSuccess := false
  retryCount := .ofNat 0
  estimatedCostUsd := .ofNat 0
  errorClass := none

/-- The metric of content that is blocked. -/
def blockedMetric (findings : List DlpFinding) : GatewayMetric :=
  { emptyMetric request with
    outcome := .policyBlocked
    dlpFindingsCount := .ofNat findings.length
    errorClass := some "DlpPolicyViolation" }

/-- The metric of a provider that failed. -/
def failedMetric (latencyMs : Number) (thrown : Thrown) (retryCount : Option Number) :
    GatewayMetric :=
  { emptyMetric request with
    outcome := .providerError
    latencyMs := latencyMs
    retryCount := retryCount.getD (.ofNat 0)
    errorClass := some thrown.reportedName }

/-- The metric of a provider that returned. -/
def returnedMetric (latencyMs : Number) (result : ProviderResult) (schemaSuccess : Bool) :
    GatewayMetric where
  outcome := if schemaSuccess then .success else .schemaError
  taskFamily := request.envelope.promptFamily
  promptVersion := request.envelope.promptVersion
  model := result.model
  mode := request.mode
  usage := result.usage
  latencyMs := latencyMs
  dlpFindingsCount := .ofNat 0
  schemaSuccess := schemaSuccess
  retryCount := result.retryCount
  estimatedCostUsd := platform.estimatedCost result.usage
  errorClass := if schemaSuccess then none else some "SchemaValidationError"

/-- `execute`. The latency is that of the provider. -/
def execute (invoke : ProviderRequest → ProviderAnswer) (latencyMs : Number) :
    Except GatewayError α :=
  if request.purpose ≠ request.envelope.promptFamily then
    .error (.policy "AI purpose does not match prompt family" [])
  else if !request.consentGranted then
    .error (.policy "affirmative external AI consent is required" [])
  else
    let findings := scanDlp request.envelope.content
    if 0 < findings.length then do
      emit platform (blockedMetric request findings)
      .error (.policy "prohibited content blocked before provider boundary" findings)
    else
      match invoke ⟨buildPrompt platform.normalize request.envelope, request.model, request.mode,
        request.maxOutputTokens⟩ with
      | .failed thrown retryCount => do
        emit platform (failedMetric request latencyMs thrown retryCount)
        .error (.provider thrown)
      | .returned result => do
        -- the metric is emitted in the `finally` block
        let parsed := platform.read result.content
        emit platform (returnedMetric platform request latencyMs result parsed.isSome)
        match parsed with
        | some value => .ok value
        | none => .error .schema

/-- What a request should come to: the parsed value, or the error of the policy, of the provider or
of the schema. -/
def outcome (invoke : ProviderRequest → ProviderAnswer) : Except GatewayError α :=
  if request.purpose ≠ request.envelope.promptFamily then
    .error (.policy "AI purpose does not match prompt family" [])
  else if request.consentGranted = false then
    .error (.policy "affirmative external AI consent is required" [])
  else if scanDlp request.envelope.content ≠ [] then
    .error (.policy "prohibited content blocked before provider boundary"
      (scanDlp request.envelope.content))
  else
    match invoke ⟨buildPrompt platform.normalize request.envelope, request.model, request.mode,
      request.maxOutputTokens⟩ with
    | .failed thrown _ => .error (.provider thrown)
    | .returned result =>
      match platform.read result.content with
      | some value => .ok value
      | none => .error .schema

end Execute

/-! ## Metrics that are accepted -/

/-- The texts of a request that are labels. -/
def LabelledBy (request : GatewayRequest) (model : String) : Prop :=
  isContentFree request.envelope.promptFamily = true ∧
    isContentFree request.envelope.promptVersion = true ∧ isContentFree model = true

/-- The counts of a usage are finite and not negative. -/
def UsageMeasured (usage : ProviderUsage) : Prop :=
  isMeasure usage.inputTokens = true ∧ isMeasure usage.outputTokens = true ∧
    isMeasure usage.cacheHitTokens = true ∧ isMeasure usage.cacheMissTokens = true

/-- The labels and the numbers of a metric are accepted. -/
structure MetricAccepted (toLowerCase : String → String) (metric : GatewayMetric) : Prop where
  taskFamily : isContentFree metric.taskFamily = true
  promptVersion : isContentFree metric.promptVersion = true
  model : isContentFree metric.model = true
  errorClass : ∀ errorClass, metric.errorClass = some errorClass → errorClass = "" ∨
    isContentFree (toLowerCase errorClass) = true
  usage : UsageMeasured metric.usage
  latencyMs : isMeasure metric.latencyMs = true
  dlpFindingsCount : isMeasure metric.dlpFindingsCount = true
  retryCount : isMeasure metric.retryCount = true
  estimatedCostUsd : isMeasure metric.estimatedCostUsd = true

theorem nonempty_eq_some {field : Option String} {text : String} :
    nonempty field = some text ↔ field = some text ∧ text ≠ "" := by
  cases field with
  | none => simp [nonempty, Option.filter]
  | some other =>
    by_cases hempty : other = ""
    · subst hempty
      simp [nonempty, Option.filter, eq_comm]
    · simp only [nonempty, Option.filter, bne_iff_ne, ne_eq, hempty, not_false_eq_true,
        ↓reduceIte, Option.some.injEq]
      exact ⟨fun hequal => ⟨hequal, hequal ▸ hempty⟩, And.left⟩

theorem ai_label_keys : ∀ key ∈ ["provider", "task_family", "prompt_version", "model", "mode",
    "outcome", "error_class"], labelKeys.contains key = true := by
  simp [labelKeys]

theorem ai_label_values (mode : AiMode) (outcome : MetricOutcome) :
    isContentFree "deepseek" = true ∧ isContentFree mode.text = true ∧
      isContentFree outcome.text = true := by
  cases mode <;> cases outcome <;> decide +kernel

/-- The labels of a metric are accepted when its texts are. -/
theorem labels_accepted_iff {toLowerCase : String → String} {metric : GatewayMetric} :
    (metric.labels toLowerCase).all labelAccepted = true ↔
      isContentFree metric.taskFamily = true ∧ isContentFree metric.promptVersion = true ∧
        isContentFree metric.model = true ∧
        ∀ errorClass, metric.errorClass = some errorClass → errorClass = "" ∨
          isContentFree (toLowerCase errorClass) = true := by
  have hlabel : ∀ key ∈ ["provider", "task_family", "prompt_version", "model", "mode", "outcome",
      "error_class"], ∀ value, labelAccepted (key, value) = isContentFree value := by
    intro key hkey value
    rw [labelAccepted, ai_label_keys key hkey, Bool.true_and]
  obtain ⟨hprovider, hmode, houtcome⟩ := ai_label_values metric.mode metric.outcome
  have herror : (((nonempty metric.errorClass).map (fun errorClass =>
      ("error_class", toLowerCase errorClass))).toList.all labelAccepted = true) ↔
      ∀ errorClass, metric.errorClass = some errorClass → errorClass = "" ∨
        isContentFree (toLowerCase errorClass) = true := by
    cases hclass : nonempty metric.errorClass with
    | none =>
      simp only [Option.map_none, Option.toList_none, List.all_nil, true_iff]
      intro errorClass hsome
      by_contra hneither
      rw [not_or] at hneither
      have hkept := nonempty_eq_some.mpr ⟨hsome, hneither.1⟩
      rw [hclass] at hkept
      cases hkept
    | some errorClass =>
      obtain ⟨hsome, hne⟩ := nonempty_eq_some.mp hclass
      rw [Option.map_some, Option.toList_some, List.all_cons, List.all_nil, Bool.and_true,
        hlabel _ (by simp), hsome]
      simp [hne]
  rw [GatewayMetric.labels, List.all_append, Bool.and_eq_true, herror]
  simp only [List.all_cons, List.all_nil, Bool.and_true, Bool.and_eq_true]
  rw [hlabel _ (by simp), hlabel _ (by simp), hlabel _ (by simp), hlabel _ (by simp),
    hlabel _ (by simp), hlabel _ (by simp)]
  simp only [hprovider, hmode, houtcome, true_and, and_true, and_assoc]

/-- The callback records a metric that is accepted, and throws at any other. -/
theorem emitMetric_eq_ok {toLowerCase : String → String} {now : Instant}
    {metric : GatewayMetric} :
    (emitMetric toLowerCase now metric).2 = .ok () ↔ MetricAccepted toLowerCase metric := by
  have hnames : ∀ point ∈ metric.points, metricNames.contains point.1 = true := by
    simp [GatewayMetric.points, metricNames]
  have hpoint : ∀ point ∈ metric.points,
      ((∃ recorded, record point.1 point.2 (metric.labels toLowerCase) now = .ok recorded) ↔
        isMeasure point.2 = true ∧ (metric.labels toLowerCase).all labelAccepted = true) := by
    intro point hmem
    have haccepted : recordAccepted point.1 point.2 (metric.labels toLowerCase) = true ↔
        isMeasure point.2 = true ∧ (metric.labels toLowerCase).all labelAccepted = true := by
      rw [recordAccepted, hnames point hmem, Bool.true_and, Bool.and_eq_true]
    rw [← haccepted]
    constructor
    · intro hrecorded
      obtain ⟨recorded, hrecorded⟩ := hrecorded
      by_contra hrejected
      obtain ⟨message, hmessage⟩ := record_of_rejected hrejected now
      rw [hmessage] at hrecorded
      cases hrecorded
    · exact fun h => ⟨_, record_of_accepted h now⟩
  have hsuccess : isMeasure (.ofNat (if metric.schemaSuccess then 1 else 0)) = true := by
    cases metric.schemaSuccess <;> decide
  rw [emitMetric, emitAll_eq_ok, List.forall_mem_map]
  rw [forall₂_congr hpoint]
  simp only [GatewayMetric.points, List.forall_mem_cons, List.not_mem_nil, IsEmpty.forall_iff,
    implies_true, and_true, labels_accepted_iff, hsuccess, true_and]
  constructor
  · rintro ⟨⟨hlatency, hfamily, hversion, hmodel, herror⟩, ⟨hinput, -⟩, ⟨houtput, -⟩, ⟨hhit, -⟩,
      ⟨hmiss, -⟩, ⟨hcost, -⟩, ⟨hfindings, -⟩, ⟨hretries, -⟩, -⟩
    exact ⟨hfamily, hversion, hmodel, herror, ⟨hinput, houtput, hhit, hmiss⟩, hlatency, hfindings,
      hretries, hcost⟩
  · intro h
    obtain ⟨hinput, houtput, hhit, hmiss⟩ := h.usage
    have htexts := And.intro h.taskFamily
      (And.intro h.promptVersion (And.intro h.model h.errorClass))
    exact ⟨⟨h.latencyMs, htexts⟩, ⟨hinput, htexts⟩, ⟨houtput, htexts⟩, ⟨hhit, htexts⟩,
      ⟨hmiss, htexts⟩, ⟨h.estimatedCostUsd, htexts⟩, ⟨h.dlpFindingsCount, htexts⟩,
      ⟨h.retryCount, htexts⟩, htexts⟩

/-! ## Executions that metrics do not change -/

/-- What the request and the provider's answer need for the metric to be accepted. -/
def Undisturbed {α : Type} (platform : GatewayPlatform α) (request : GatewayRequest)
    (invoke : ProviderRequest → ProviderAnswer) : Prop :=
  request.purpose ≠ request.envelope.promptFamily ∨ request.consentGranted = false ∨
    if scanDlp request.envelope.content ≠ [] then LabelledBy request request.model
    else
      match invoke ⟨buildPrompt platform.normalize request.envelope, request.model, request.mode,
        request.maxOutputTokens⟩ with
      | .failed thrown retryCount =>
        LabelledBy request request.model ∧
          (thrown.reportedName = "" ∨
            isContentFree (platform.toLowerCase thrown.reportedName) = true) ∧
          isMeasure (retryCount.getD (.ofNat 0)) = true
      | .returned result =>
        LabelledBy request result.model ∧ UsageMeasured result.usage ∧
          isMeasure result.retryCount = true ∧
          isMeasure (platform.estimatedCost result.usage) = true

/-- On the classes that the gateway reports of its own, `toLowerCase` changes capital letters. -/
structure GatewayPlatform.Sound {α : Type} (platform : GatewayPlatform α) : Prop where
  policy : platform.toLowerCase "DlpPolicyViolation" = "dlppolicyviolation"
  schema : platform.toLowerCase "SchemaValidationError" = "schemavalidationerror"

section Undisturbed

variable {α : Type} {platform : GatewayPlatform α} {request : GatewayRequest}
variable {invoke : ProviderRequest → ProviderAnswer} {latencyMs : Number}

/-- A metric that is accepted is emitted; any other throws an error of its own. -/
theorem emit_cases (platform : GatewayPlatform α) (metric : GatewayMetric) :
    (MetricAccepted platform.toLowerCase metric ∧ emit platform metric = .ok ()) ∨
      (¬MetricAccepted platform.toLowerCase metric ∧
        ∃ message, emit platform metric = .error (.telemetry message)) := by
  rw [← @emitMetric_eq_ok _ platform.now, emit]
  cases (emitMetric platform.toLowerCase platform.now metric).2 with
  | ok _ => exact Or.inl ⟨rfl, rfl⟩
  | error message => exact Or.inr ⟨by simp, message, rfl⟩

/-- What follows an emission is what comes of both just when the metric is accepted. -/
theorem emit_bind_eq_iff (metric : GatewayMetric) {rest : Except GatewayError α}
    (hrest : ∀ message, rest ≠ .error (.telemetry message)) :
    (do emit platform metric; rest) = rest ↔ MetricAccepted platform.toLowerCase metric := by
  rcases emit_cases platform metric with ⟨haccepted, hemit⟩ | ⟨hrejected, message, hemit⟩
  · rw [hemit]
    exact iff_of_true rfl haccepted
  · rw [hemit]
    exact iff_of_false (fun hequal => hrest message hequal.symm) hrejected

/-- A count is a measure. -/
theorem ofNat_isMeasure (n : Nat) : isMeasure (.ofNat n) = true := by
  have hdigits : ∀ c ∈ Nat.toDigits 10 n, c ≠ '-' := by
    intro c hc hdash
    have hdigit := Nat.isDigit_of_mem_toDigits (by decide : 0 < 10) (by decide : 10 ≤ 10) hc
    rw [hdash] at hdigit
    exact absurd hdigit (by decide)
  have hfirst : (Nat.toDigits 10 n).headD '0' ≠ '-' := by
    cases hlist : Nat.toDigits 10 n with
    | nil => decide
    | cons c cs => exact hdigits c (hlist ▸ List.mem_cons_self)
  exact bne_iff_ne.mpr hfirst

theorem noUsage_measured : UsageMeasured noUsage := by
  refine ⟨?_, ?_, ?_, ?_⟩ <;> exact ofNat_isMeasure 0

/-- The metric of blocked content is accepted when the request's texts are labels. -/
theorem blockedMetric_accepted_iff (hsound : platform.Sound) (findings : List DlpFinding) :
    MetricAccepted platform.toLowerCase (blockedMetric request findings) ↔
      LabelledBy request request.model := by
  constructor
  · exact fun h => ⟨h.taskFamily, h.promptVersion, h.model⟩
  · intro h
    obtain ⟨hfamily, hversion, hmodel⟩ := h
    refine ⟨hfamily, hversion, hmodel, ?_, noUsage_measured, ofNat_isMeasure 0,
      ofNat_isMeasure _, ofNat_isMeasure 0, ofNat_isMeasure 0⟩
    intro errorClass herror
    obtain rfl := Option.some.inj herror
    rw [hsound.policy]
    exact Or.inr (by decide +kernel)

/-- The metric of a failed provider is accepted when the texts and the error's name are labels. -/
theorem failedMetric_accepted_iff (hlatency : isMeasure latencyMs = true) (thrown : Thrown)
    (retryCount : Option Number) :
    MetricAccepted platform.toLowerCase (failedMetric request latencyMs thrown retryCount) ↔
      LabelledBy request request.model ∧
        (thrown.reportedName = "" ∨
          isContentFree (platform.toLowerCase thrown.reportedName) = true) ∧
        isMeasure (retryCount.getD (.ofNat 0)) = true := by
  constructor
  · exact fun h => ⟨⟨h.taskFamily, h.promptVersion, h.model⟩, h.errorClass _ rfl, h.retryCount⟩
  · intro h
    obtain ⟨⟨hfamily, hversion, hmodel⟩, hname, hretries⟩ := h
    refine ⟨hfamily, hversion, hmodel, ?_, noUsage_measured, hlatency, ofNat_isMeasure 0, hretries,
      ofNat_isMeasure 0⟩
    intro errorClass herror
    obtain rfl := Option.some.inj herror
    exact hname

/-- The metric of an answer is accepted when its model is a label and its numbers are measures. -/
theorem returnedMetric_accepted_iff (hsound : platform.Sound)
    (hlatency : isMeasure latencyMs = true) (result : ProviderResult) (schemaSuccess : Bool) :
    MetricAccepted platform.toLowerCase
        (returnedMetric platform request latencyMs result schemaSuccess) ↔
      LabelledBy request result.model ∧ UsageMeasured result.usage ∧
        isMeasure result.retryCount = true ∧
        isMeasure (platform.estimatedCost result.usage) = true := by
  constructor
  · exact fun h => ⟨⟨h.taskFamily, h.promptVersion, h.model⟩, h.usage, h.retryCount,
      h.estimatedCostUsd⟩
  · intro h
    obtain ⟨⟨hfamily, hversion, hmodel⟩, husage, hretries, hcost⟩ := h
    refine ⟨hfamily, hversion, hmodel, ?_, husage, hlatency, ofNat_isMeasure 0, hretries, hcost⟩
    intro errorClass herror
    cases schemaSuccess with
    | true => cases herror
    | false =>
      obtain rfl := Option.some.inj herror
      rw [hsound.schema]
      exact Or.inr (by decide +kernel)

/-- Metrics leave the outcome of an execution as it is just when the texts and the numbers of the
metric that it emits are accepted. -/
theorem execute_eq_outcome_iff (hsound : platform.Sound) (hlatency : isMeasure latencyMs = true) :
    execute platform request invoke latencyMs = outcome platform request invoke ↔
      Undisturbed platform request invoke := by
  unfold execute outcome Undisturbed
  by_cases hpurpose : request.purpose = request.envelope.promptFamily
  · cases hconsent : request.consentGranted with
    | false => simp [hpurpose]
    | true =>
      by_cases hscan : scanDlp request.envelope.content = []
      · simp only [hpurpose, hscan, ne_eq, not_true_eq_false, ↓reduceIte, Bool.not_true,
          Bool.false_eq_true, reduceCtorEq, List.length_nil, Nat.lt_irrefl, false_or]
        cases invoke ⟨buildPrompt platform.normalize request.envelope, request.model, request.mode,
            request.maxOutputTokens⟩ with
        | failed thrown retryCount =>
          exact (emit_bind_eq_iff _ (by simp)).trans
            (failedMetric_accepted_iff hlatency thrown retryCount)
        | returned result =>
          refine (emit_bind_eq_iff _ ?_).trans
            (returnedMetric_accepted_iff hsound hlatency result _)
          intro message
          cases platform.read result.content <;> simp
      · have hpositive : 0 < (scanDlp request.envelope.content).length :=
          List.length_pos_iff.mpr hscan
        simp only [hpurpose, hscan, hpositive, ne_eq, not_true_eq_false, not_false_eq_true,
          ↓reduceIte, Bool.not_true, Bool.false_eq_true, reduceCtorEq, false_or]
        exact (emit_bind_eq_iff _ (by simp)).trans (blockedMetric_accepted_iff hsound _)
  · simp [hpurpose]

end Undisturbed

/-- A platform that reads any content and prices every usage at nothing. -/
def examplePlatform : GatewayPlatform String where
  toLowerCase text := String.ofList (text.toList.map Char.toLower)
  normalize text := text
  read content := some content
  estimatedCost _ := .ofNat 0
  now := 0

theorem examplePlatform_sound : examplePlatform.Sound := ⟨by decide +kernel, by decide +kernel⟩

/-- A provider that answers with the given model. -/
def exampleAnswer (model : String) : ProviderAnswer :=
  .returned ⟨"ok", model, ⟨.ofNat 3, .ofNat 2, .ofNat 0, .ofNat 3⟩, .ofNat 0⟩

theorem execute_eq_outcome_iff_example :
    execute examplePlatform exampleGatewayRequest (fun _ => exampleAnswer "deepseek-chat")
        (.ofNat 5) =
      outcome examplePlatform exampleGatewayRequest (fun _ => exampleAnswer "deepseek-chat") ↔
    Undisturbed examplePlatform exampleGatewayRequest
      (fun _ => exampleAnswer "deepseek-chat") :=
  execute_eq_outcome_iff examplePlatform_sound (by decide)

/-- A model with capital letters takes the place of the value that the provider returned. -/
theorem execute_model_throws :
    execute examplePlatform exampleGatewayRequest (fun _ => exampleAnswer "DeepSeek-V3")
        (.ofNat 5) ≠
      outcome examplePlatform exampleGatewayRequest (fun _ => exampleAnswer "DeepSeek-V3") := by
  have hscan : scanDlp exampleGatewayRequest.envelope.content = [] := by decide +kernel
  have hexecute : execute examplePlatform exampleGatewayRequest
      (fun _ => exampleAnswer "DeepSeek-V3") (.ofNat 5) = (do
        emit examplePlatform (returnedMetric examplePlatform exampleGatewayRequest (.ofNat 5)
          ⟨"ok", "DeepSeek-V3", ⟨.ofNat 3, .ofNat 2, .ofNat 0, .ofNat 3⟩, .ofNat 0⟩ true)
        .ok "ok") := by
    simp only [execute, hscan]
    rfl
  have houtcome : outcome examplePlatform exampleGatewayRequest
      (fun _ => exampleAnswer "DeepSeek-V3") = .ok "ok" := by
    simp only [outcome, hscan]
    rfl
  intro hequal
  rw [hexecute, houtcome] at hequal
  have haccepted := (emit_bind_eq_iff _ (by simp)).mp hequal
  exact absurd haccepted.model (by decide)

end LegacyVault.AiTelemetry
