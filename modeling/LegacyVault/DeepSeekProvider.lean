import LegacyVault.AiGateway
import LegacyVault.Library.CircuitBreaker
import LegacyVault.Library.EcmaConversions
import LegacyVault.Library.RetryLoop

/-!
# The DeepSeek provider

`invoke` of the provider behind the AI gateway: its circuit breaker, the loop
that tries a request again, and what it reads of a completion. Invocations
follow one another; each brings what comes of its calls of the transport and
the times it reads of the clock.

The count of failures is reset by a response that carries content, even when
its usage is then refused. What opens the circuit is an invocation whose
attempts are all used up.
-/

namespace LegacyVault

open CircuitBreaker EcmaValues JsonText RetryLoop

/-- `DeepSeekConfig`. The timeout shows in the errors of the transport. -/
structure DeepSeekConfig where
  apiKey : Option String
  baseUrl : String
  model : String
  maxRetries : Nat

/-- A value that is thrown: a `ProviderResponseError`, another error, or anything else. -/
inductive ThrownValue where
  | responseError (message : String)
  | error (name : String)
  | other

/-- What comes of a call of the transport: an error, or a response with its status and its
`retry-after` header, the error of cancelling its body, and its body as `json()` reads it. -/
inductive TransportOutcome where
  | threw (error : ThrownValue)
  | response (status : Nat) (retryAfter : Option String) (cancelled : Option ThrownValue)
      (json : Except ThrownValue Value)

/-- What the transport is called with. The path is resolved against the base. -/
structure ProviderCall where
  path : String
  base : String
  authorization : String
  body : String

/-- `ProviderUsage`. -/
structure ProviderUsage where
  inputTokens : Number
  outputTokens : Number
  cacheHitTokens : Number
  cacheMissTokens : Number

/-- `ProviderResult`. The content, the model and the id are the values of the response. -/
structure ProviderResult where
  content : Value
  model : Value
  usage : ProviderUsage
  retryCount : Nat
  requestId : Option Value

/-- Why an invocation fails: a `ProviderUnavailableError` or a `ProviderResponseError`. -/
inductive InvokeError where
  | unavailable (message : String) (retryCount : Nat)
  | response (message : String)

/-! ## The request -/

/-- The body of a call. -/
def completionBody (config : DeepSeekConfig) (request : ProviderRequest) : String :=
  stringify (.obj ([("model", .str (if request.model = "" then config.model else request.model)),
    ("messages", .arr [
      .obj [("role", .str "system"), ("content", .str request.prompt.stablePrefix)],
      .obj [("role", .str "user"), ("content", .str request.prompt.volatileContent)]]),
    ("max_tokens", .nat request.maxOutputTokens),
    ("response_format", .obj [("type", .str "json_object")])] ++
    if request.mode = .thinking then [("thinking", .obj [("type", .str "enabled")])] else []))

/-- The call of an attempt. -/
def providerCall (config : DeepSeekConfig) (apiKey : String) (request : ProviderRequest) :
    ProviderCall where
  path := "chat/completions"
  base := if config.baseUrl.toList.getLast? = some '/' then config.baseUrl
    else config.baseUrl ++ "/"
  authorization := "Bearer " ++ apiKey
  body := completionBody config request

/-! ## The response -/

/-- `usageCounter`. -/
def usageCounter (value : Option Value) (field : String) : Except String Number :=
  match value with
  | none => .ok (.ofNat 0)
  | some (.num counter) =>
    if counter.natValue?.any (· ≤ 9007199254740991) then .ok counter
    else .error ("DeepSeek " ++ field ++ " is invalid")
  | some _ => .error ("DeepSeek " ++ field ++ " is invalid")

/-- The counters of a response. -/
def readUsage (body : Value) : Except String ProviderUsage := do
  let usage := readMember "usage" (some body)
  let inputTokens ← usageCounter (readMember "prompt_tokens" usage) "prompt_tokens"
  let outputTokens ← usageCounter (readMember "completion_tokens" usage) "completion_tokens"
  let cacheHitTokens ←
    usageCounter (readMember "prompt_cache_hit_tokens" usage) "prompt_cache_hit_tokens"
  let cacheMissTokens ←
    usageCounter (readMember "prompt_cache_miss_tokens" usage) "prompt_cache_miss_tokens"
  pure ⟨inputTokens, outputTokens, cacheHitTokens, cacheMissTokens⟩

/-- `body.choices?.[0]`. -/
def firstChoice (body : Value) : Option Value :=
  readFirst (readMember "choices" (some body))

/-- `body.choices?.[0]?.message?.content`, when it is true. -/
def completionContent (body : Value) : Option Value :=
  (readMember "content" (readMember "message" (firstChoice body))).filter Value.truthy

/-- How the attempts of an invocation are answered. A refusal says whether its response has
carried content. -/
inductive CompletionAnswer where
  | returned (result : ProviderResult)
  | refused (message : String) (content : Bool)

/-- An attempt, with its wait, the last error, and the answer. -/
abbrev ProviderStep := Step (Option ℚ) (Option ThrownValue) CompletionAnswer

/-- The `catch` of an attempt. -/
def providerCaught (error : ThrownValue) : ProviderStep :=
  match error with
  | .responseError message => .done (.refused message false)
  | error => .again none (some error)

/-- Read the body of a successful response. A body that is `null` throws, and so does a reason
without a text. -/
def readCompletion (request : ProviderRequest) (attempt : Nat) (body : Value) : ProviderStep :=
  match body with
  | .null => providerCaught (.error "TypeError")
  | body =>
    match completionContent body with
    | none =>
      match (orElse (readMember "finish_reason" (firstChoice body)) (.str "unknown")).text? with
      | none => providerCaught (.error "TypeError")
      | some reason =>
        .done (.refused ("DeepSeek response content is missing (" ++ reason ++ ")") false)
    | some content =>
      match readUsage body with
      | .error message => .done (.refused message true)
      | .ok usage =>
        .done (.returned ⟨content, orElse (readMember "model" (some body)) (.str request.model),
          usage, attempt, (readMember "id" (some body)).filter Value.truthy⟩)

/-! ## An invocation -/

/-- `retryDelayMs`. `dateParse` is `Date.parse`, when that is finite. -/
def retryDelayMs (dateParse : String → Option Int) (retryAfter : Option String)
    (attempt now : Nat) : ℚ :=
  match retryAfter.filter (· ≠ "") with
  | none => min 2000 (250 * 2 ^ attempt)
  | some text =>
    match (finiteNumber? text).filter (fun seconds => 0 ≤ seconds) with
    | some seconds => clampedProduct 0 5000 seconds 1000
    | none =>
      match dateParse text with
      | some date => min 5000 (max 0 ((date - now : Int) : ℚ))
      | none => min 2000 (250 * 2 ^ attempt)

/-- An invocation: its request, what comes of the calls of its attempts, and the times it reads:
at the circuit, for a date in a header, and at its end. -/
structure Invocation where
  request : ProviderRequest
  transport : Nat → TransportOutcome
  startedAt : Nat
  dateNow : Nat → Nat
  endedAt : Nat

/-- An attempt. The state is the last error. -/
def providerAttempt (dateParse : String → Option Int) (config : DeepSeekConfig)
    (invocation : Invocation) (attempt : Nat) (lastError : Option ThrownValue) : ProviderStep :=
  match invocation.transport attempt with
  | .threw error => providerCaught error
  | .response status retryAfter cancelled json =>
    if status = 429 ∨ 500 ≤ status then
      match cancelled with
      | some error => providerCaught error
      | none =>
        if attempt < config.maxRetries then
          .again (some (retryDelayMs dateParse retryAfter attempt (invocation.dateNow attempt)))
            lastError
        else .stop (some (.error "Error"))
    else if responseOk status = false then
      .done (.refused ("DeepSeek HTTP " ++ toString status) false)
    else
      match json with
      | .error error => providerCaught error
      | .ok body => readCompletion invocation.request attempt body

/-- The name of the last error. -/
def lastErrorName : Option ThrownValue → String
  | some (.error name) => name
  | some (.responseError _) => "ProviderResponseError"
  | _ => "DeepSeek request failed"

/-- What `invoke` has called, its waits, its result, and the breaker it leaves. -/
structure Invoked where
  calls : List ProviderCall
  waits : List (Option ℚ)
  result : Except InvokeError ProviderResult
  breaker : Breaker

/-- The attempts of an invocation. -/
def providerTrace (dateParse : String → Option Int) (config : DeepSeekConfig) (apiKey : String)
    (invocation : Invocation) :
    Trace ProviderCall (Option ℚ) (Option ThrownValue) CompletionAnswer :=
  RetryLoop.run (fun _ => providerCall config apiKey invocation.request)
    (providerAttempt dateParse config invocation) (config.maxRetries + 1) 0 none

/-- What the answer of the attempts, or their failure, comes to. -/
def settled (config : DeepSeekConfig) (breaker : Breaker) (invocation : Invocation)
    (trace : Trace ProviderCall (Option ℚ) (Option ThrownValue) CompletionAnswer) : Invoked :=
  match trace.ending with
  | .ok (.returned result) =>
    ⟨trace.calls, trace.waits, .ok result, { breaker with failures := 0 }⟩
  | .ok (.refused message content) =>
    ⟨trace.calls, trace.waits, .error (.response message),
      if content then { breaker with failures := 0 } else breaker⟩
  | .error lastError =>
    ⟨trace.calls, trace.waits,
      .error (.unavailable (lastErrorName lastError) config.maxRetries),
      if 3 ≤ breaker.failures + 1 then ⟨breaker.failures + 1, invocation.endedAt + 30000⟩
      else { breaker with failures := breaker.failures + 1 }⟩

/-- `invoke`. -/
def invoke (dateParse : String → Option Int) (config : DeepSeekConfig) (breaker : Breaker)
    (invocation : Invocation) : Invoked :=
  match config.apiKey.filter (· ≠ "") with
  | none => ⟨[], [], .error (.unavailable "DeepSeek is not configured" 0), breaker⟩
  | some apiKey =>
    if breaker.isOpen invocation.startedAt then
      ⟨[], [], .error (.unavailable "DeepSeek circuit is open" 0), breaker⟩
    else settled config breaker invocation (providerTrace dateParse config apiKey invocation)

/-! ## What an invocation comes to -/

/-- The body carries content. -/
def bodyCarriesContent : Except ThrownValue Value → Bool
  | .error _ => false
  | .ok body => (completionContent body).isSome

/-- The response carries content. -/
def TransportOutcome.carriesContent : TransportOutcome → Bool
  | .threw _ => false
  | .response status _ _ json => responseOk status && bodyCarriesContent json

/-- A number from zero to the largest safe integer. -/
def IsSafeCounter (counter : Number) : Prop :=
  ∃ value, counter = .ofNat value ∧ value ≤ 9007199254740991

/-- All counters are safe. -/
structure ProviderUsage.Safe (usage : ProviderUsage) : Prop where
  inputTokens : IsSafeCounter usage.inputTokens
  outputTokens : IsSafeCounter usage.outputTokens
  cacheHitTokens : IsSafeCounter usage.cacheHitTokens
  cacheMissTokens : IsSafeCounter usage.cacheMissTokens

theorem usageCounter_safe {value : Option Value} {field : String} {counter : Number}
    (h : usageCounter value field = .ok counter) : IsSafeCounter counter := by
  unfold usageCounter at h
  split at h
  · obtain rfl := Except.ok.inj h
    exact ⟨0, rfl, Nat.zero_le _⟩
  · rename_i found
    split at h
    · rename_i hsafe
      obtain rfl := Except.ok.inj h
      obtain ⟨n, hn, hle⟩ := (Option.any_eq_true _ _).mp hsafe
      exact ⟨n, Number.natValue?_eq_some hn, of_decide_eq_true hle⟩
    · exact absurd h (by simp)
  · exact absurd h (by simp)

theorem readUsage_safe {body : Value} {usage : ProviderUsage} (h : readUsage body = .ok usage) :
    usage.Safe := by
  simp only [readUsage, bind, Except.bind, pure, Except.pure] at h
  split at h
  · exact absurd h (by simp)
  rename_i inputTokens hinput
  split at h
  · exact absurd h (by simp)
  rename_i outputTokens houtput
  split at h
  · exact absurd h (by simp)
  rename_i cacheHitTokens hhit
  split at h
  · exact absurd h (by simp)
  rename_i cacheMissTokens hmiss
  obtain rfl := Except.ok.inj h
  exact ⟨usageCounter_safe hinput, usageCounter_safe houtput, usageCounter_safe hhit,
    usageCounter_safe hmiss⟩

/-- What an attempt that ends in a certain way says of its outcome. -/
def AttemptSays (config : DeepSeekConfig) (outcome : TransportOutcome) (attempt : Nat) :
    ProviderStep → Prop
  | .again _ _ => outcome.carriesContent = false
  | .stop _ => outcome.carriesContent = false ∧ config.maxRetries ≤ attempt
  | .done (.returned result) => outcome.carriesContent = true ∧ result.usage.Safe
  | .done (.refused _ content) => outcome.carriesContent = content

/-- An error that is caught is refused or tried again. -/
theorem providerCaught_says {config : DeepSeekConfig} {outcome : TransportOutcome} {attempt : Nat}
    (h : outcome.carriesContent = false) (error : ThrownValue) :
    AttemptSays config outcome attempt (providerCaught error) := by
  cases error with
  | responseError message => exact h
  | error name => exact h
  | other => exact h

/-- Content is read, and then the usage. -/
theorem readCompletion_says {config : DeepSeekConfig} {outcome : TransportOutcome} {attempt : Nat}
    (request : ProviderRequest) {body : Value}
    (h : outcome.carriesContent = (completionContent body).isSome) :
    AttemptSays config outcome attempt (readCompletion request attempt body) := by
  unfold readCompletion
  split
  · exact providerCaught_says h _
  · cases hcontent : completionContent body with
    | none =>
      rw [hcontent] at h
      simp only
      split
      · exact providerCaught_says h _
      · exact h
    | some content =>
      rw [hcontent] at h
      simp only
      cases husage : readUsage body with
      | error message => exact h
      | ok usage => exact ⟨h, readUsage_safe husage⟩

/-- Every attempt says what its outcome is. -/
theorem providerAttempt_says (dateParse : String → Option Int) (config : DeepSeekConfig)
    (invocation : Invocation) (attempt : Nat) (lastError : Option ThrownValue) :
    AttemptSays config (invocation.transport attempt) attempt
      (providerAttempt dateParse config invocation attempt lastError) := by
  unfold providerAttempt
  cases invocation.transport attempt with
  | threw error => exact providerCaught_says rfl error
  | response status retryAfter cancelled json =>
    simp only
    by_cases hfailed : status = 429 ∨ 500 ≤ status
    · have hnone : (TransportOutcome.response status retryAfter cancelled json).carriesContent =
          false := by
        have hnot : responseOk status = false :=
          Bool.eq_false_iff.mpr fun hok => not_failed_of_ok hok hfailed
        rw [TransportOutcome.carriesContent, hnot, Bool.false_and]
      rw [if_pos hfailed]
      cases cancelled with
      | some error => exact providerCaught_says hnone error
      | none =>
        by_cases hmore : attempt < config.maxRetries
        · simp only [if_pos hmore]
          exact hnone
        · simp only [if_neg hmore]
          exact ⟨hnone, Nat.not_lt.mp hmore⟩
    · rw [if_neg hfailed]
      by_cases hok : responseOk status = false
      · rw [if_pos hok]
        change (responseOk status && bodyCarriesContent json) = false
        rw [hok, Bool.false_and]
      · rw [if_neg hok]
        cases json with
        | error error =>
          refine providerCaught_says ?_ error
          rw [TransportOutcome.carriesContent, bodyCarriesContent, Bool.and_false]
        | ok body =>
          refine readCompletion_says invocation.request ?_
          rw [TransportOutcome.carriesContent, (Bool.not_eq_false _).mp hok, Bool.true_and,
            bodyCarriesContent]

/-- One of the first responses carries content. -/
def servedWithin (transport : Nat → TransportOutcome) (count : Nat) : Bool :=
  (List.range count).any (fun attempt => (transport attempt).carriesContent)

theorem servedWithin_succ (transport : Nat → TransportOutcome) (count : Nat) :
    servedWithin transport (count + 1) =
      (servedWithin transport count || (transport count).carriesContent) := by
  simp only [servedWithin, List.range_succ, List.any_append, List.any_cons, List.any_nil,
    Bool.or_false]

theorem servedWithin_eq_false {transport : Nat → TransportOutcome} {count : Nat}
    (h : ∀ attempt < count, (transport attempt).carriesContent = false) :
    servedWithin transport count = false := by
  rw [servedWithin, List.any_eq_false]
  intro attempt hattempt
  rw [h attempt (List.mem_range.mp hattempt)]
  exact Bool.false_ne_true

section Trace

variable {dateParse : String → Option Int} {config : DeepSeekConfig} {apiKey : String}
  {invocation : Invocation}

/-- No response that is followed by another attempt carries content. -/
theorem providerTrace_waits : servedWithin invocation.transport
    (providerTrace dateParse config apiKey invocation).waits.length = false := by
  refine servedWithin_eq_false fun attempt hattempt => ?_
  obtain ⟨before, after, hstep⟩ := waits_getElem? (List.getElem?_eq_getElem hattempt)
  have hsays := providerAttempt_says dateParse config invocation (0 + attempt) before
  rw [hstep, Nat.zero_add] at hsays
  exact hsays

/-- The answer says whether a response has carried content. -/
theorem providerTrace_answered {answered : CompletionAnswer}
    (h : (providerTrace dateParse config apiKey invocation).ending = .ok answered) :
    (providerTrace dateParse config apiKey invocation).calls ≠ [] ∧
      match answered with
      | .returned result => servedWithin invocation.transport
          (providerTrace dateParse config apiKey invocation).calls.length = true ∧
            result.usage.Safe
      | .refused _ content => servedWithin invocation.transport
          (providerTrace dateParse config apiKey invocation).calls.length = content := by
  have hwaits : servedWithin invocation.transport
      (providerTrace dateParse config apiKey invocation).waits.length = false :=
    providerTrace_waits
  obtain ⟨hcalls, before, hstep⟩ := done_of_ending h
  have hsays := providerAttempt_says dateParse config invocation
    (0 + (providerTrace dateParse config apiKey invocation).waits.length) before
  rw [providerTrace, hstep] at hsays
  have hlength : (providerTrace dateParse config apiKey invocation).calls.length =
      (providerTrace dateParse config apiKey invocation).waits.length + 1 := hcalls
  have hserved : servedWithin invocation.transport
      (providerTrace dateParse config apiKey invocation).calls.length =
      (invocation.transport
        (0 + (providerTrace dateParse config apiKey invocation).waits.length)).carriesContent := by
    rw [hlength, servedWithin_succ, hwaits, Bool.false_or, Nat.zero_add]
  constructor
  · intro hnil
    rw [hnil] at hlength
    exact absurd hlength (by simp)
  · cases answered with
    | returned result => exact ⟨hserved.trans hsays.1, hsays.2⟩
    | refused message content => exact hserved.trans hsays

/-- A loop that is not answered has used all its attempts, and no response has carried content. -/
theorem providerTrace_exhausted {lastError : Option ThrownValue}
    (h : (providerTrace dateParse config apiKey invocation).ending = .error lastError) :
    (providerTrace dateParse config apiKey invocation).calls.length = config.maxRetries + 1 ∧
      servedWithin invocation.transport (config.maxRetries + 1) = false := by
  have hwaits : servedWithin invocation.transport
      (providerTrace dateParse config apiKey invocation).waits.length = false :=
    providerTrace_waits
  have hle : (providerTrace dateParse config apiKey invocation).calls.length ≤
      config.maxRetries + 1 := calls_length_le
  rcases exhausted_of_ending h with ⟨hcalls, hall⟩ | ⟨before, hcalls, hstep⟩
  · have hlength : (providerTrace dateParse config apiKey invocation).waits.length =
        config.maxRetries + 1 := hall
    rw [hlength] at hwaits
    exact ⟨hcalls, hwaits⟩
  · have hsays := providerAttempt_says dateParse config invocation
      (0 + (providerTrace dateParse config apiKey invocation).waits.length) before
    rw [providerTrace, hstep] at hsays
    obtain ⟨hnone, hlast⟩ : (invocation.transport
        (0 + (providerTrace dateParse config apiKey invocation).waits.length)).carriesContent =
          false ∧
        config.maxRetries ≤ 0 + (providerTrace dateParse config apiKey invocation).waits.length :=
      hsays
    rw [Nat.zero_add] at hnone hlast
    have hlength : (providerTrace dateParse config apiKey invocation).calls.length =
        (providerTrace dateParse config apiKey invocation).waits.length + 1 := hcalls
    have hequal : (providerTrace dateParse config apiKey invocation).waits.length =
        config.maxRetries := by omega
    rw [hequal] at hwaits hnone hlength
    exact ⟨hlength, by rw [servedWithin_succ, hwaits, hnone]; rfl⟩

end Trace

/-! ## Runs -/

/-- An invocation with the breaker it finds and what it comes to. -/
structure InvocationRecord where
  before : Breaker
  invocation : Invocation
  invoked : Invoked

/-- All attempts have been made, and the invocation has failed. -/
def InvocationRecord.exhausted (config : DeepSeekConfig) (record : InvocationRecord) : Bool :=
  record.invoked.calls.length == config.maxRetries + 1 &&
    match record.invoked.result with
    | .error (.unavailable _ _) => true
    | _ => false

/-- A response has carried content. -/
def InvocationRecord.served (record : InvocationRecord) : Bool :=
  servedWithin record.invocation.transport record.invoked.calls.length

/-- What the invocation means to a breaker. -/
def InvocationRecord.entry (config : DeepSeekConfig) (record : InvocationRecord) : Entry where
  startedAt := record.invocation.startedAt
  endedAt := record.invocation.endedAt
  verdict := if record.exhausted config then .failed else if record.served then .served
    else .neutral

/-- Invocations one after the other, the latest first, with a clock that does not go back. -/
inductive ProviderRun (dateParse : String → Option Int) (config : DeepSeekConfig) :
    List InvocationRecord → Breaker → Nat → Prop
  | nil : ProviderRun dateParse config [] .closed 0
  | cons {log : List InvocationRecord} {breaker : Breaker} {latest : Nat}
      {invocation : Invocation} (hlog : ProviderRun dateParse config log breaker latest)
      (hstart : latest ≤ invocation.startedAt) (hend : invocation.startedAt ≤ invocation.endedAt) :
      ProviderRun dateParse config
        (⟨breaker, invocation, invoke dateParse config breaker invocation⟩ :: log)
        (invoke dateParse config breaker invocation).breaker invocation.endedAt

/-- What a single invocation does. -/
structure InvocationRecord.Guarded (config : DeepSeekConfig) (record : InvocationRecord) :
    Prop where
  bounded : record.invoked.calls.length ≤ config.maxRetries + 1
  /-- The transport is called only while the circuit is closed. -/
  closed : record.invoked.calls ≠ [] → ∀ now, record.invocation.startedAt ≤ now →
    record.before.isOpen now = false
  /-- A `ProviderResponseError` is no exhausted invocation and opens nothing. -/
  refused : ∀ message, record.invoked.result = .error (.response message) →
    record.exhausted config = false ∧
      ∀ now, record.invoked.breaker.isOpen now = record.before.isOpen now
  usage : ∀ result, record.invoked.result = .ok result → result.usage.Safe
  recorded : record.invoked.breaker = record.before.record 3 30000 (record.entry config)

/-- A circuit that is closed at the start stays closed until the invocation ends. -/
theorem isOpen_later {breaker : Breaker} {startedAt now : Nat}
    (h : breaker.isOpen startedAt = false) (hnow : startedAt ≤ now) :
    breaker.isOpen now = false := by
  simp only [Breaker.isOpen, decide_eq_false_iff_not, Nat.not_lt] at h ⊢
  exact Nat.le_trans h hnow

/-- An invocation that calls nothing and leaves the breaker. -/
theorem guarded_of_uncalled {config : DeepSeekConfig} {breaker : Breaker} {invocation : Invocation}
    {message : String} :
    InvocationRecord.Guarded config ⟨breaker, invocation,
      ⟨[], [], .error (.unavailable message 0), breaker⟩⟩ := by
  constructor
  · exact Nat.zero_le _
  · exact fun hcalls => absurd rfl hcalls
  · intro response hresult
    exact absurd hresult (by simp)
  · exact fun result hresult => absurd hresult (by simp)
  · rfl

/-- An invocation whose attempts have been made. -/
theorem settled_guarded {dateParse : String → Option Int} {config : DeepSeekConfig}
    {apiKey : String} {breaker : Breaker} {invocation : Invocation}
    (hclosed : breaker.isOpen invocation.startedAt = false) :
    InvocationRecord.Guarded config ⟨breaker, invocation, settled config breaker invocation
      (providerTrace dateParse config apiKey invocation)⟩ := by
  have hbounded : (providerTrace dateParse config apiKey invocation).calls.length ≤
      config.maxRetries + 1 := calls_length_le
  have hlater : ∀ now, invocation.startedAt ≤ now → breaker.isOpen now = false :=
    fun _ hnow => isOpen_later hclosed hnow
  unfold settled
  cases hending : (providerTrace dateParse config apiKey invocation).ending with
  | ok answered =>
    obtain ⟨-, hanswered⟩ := providerTrace_answered hending
    cases answered with
    | returned result =>
      obtain ⟨hserved, hsafe⟩ := hanswered
      constructor
      · exact hbounded
      · exact fun _ => hlater
      · intro message hresult
        exact absurd hresult (by simp)
      · intro other hresult
        rw [← Except.ok.inj hresult]
        exact hsafe
      · have hverdict : (InvocationRecord.entry config ⟨breaker, invocation,
            ⟨(providerTrace dateParse config apiKey invocation).calls,
              (providerTrace dateParse config apiKey invocation).waits, .ok result,
              { breaker with failures := 0 }⟩⟩).verdict = .served := by
          simp only [InvocationRecord.entry, InvocationRecord.exhausted, Bool.and_false,
            Bool.false_eq_true, if_false, InvocationRecord.served, hserved, if_true]
        rw [Breaker.record, hverdict]
    | refused message content =>
      have hexhausted : ∀ after, InvocationRecord.exhausted config ⟨breaker, invocation,
          ⟨(providerTrace dateParse config apiKey invocation).calls,
            (providerTrace dateParse config apiKey invocation).waits,
            .error (.response message), after⟩⟩ = false := by
        intro after
        simp only [InvocationRecord.exhausted, Bool.and_false]
      constructor
      · exact hbounded
      · exact fun _ => hlater
      · intro other _
        refine ⟨hexhausted _, fun now => ?_⟩
        cases content with
        | true => rfl
        | false => rfl
      · intro other hresult
        exact absurd hresult (by simp)
      · have hserved : InvocationRecord.served ⟨breaker, invocation,
            ⟨(providerTrace dateParse config apiKey invocation).calls,
              (providerTrace dateParse config apiKey invocation).waits,
              .error (.response message),
              if content then { breaker with failures := 0 } else breaker⟩⟩ = content :=
          hanswered
        rw [Breaker.record, InvocationRecord.entry, hexhausted, hserved]
        cases content with
        | true => rfl
        | false => rfl
  | error lastError =>
    obtain ⟨hcalls, hserved⟩ := providerTrace_exhausted hending
    have hexhausted : ∀ after, InvocationRecord.exhausted config ⟨breaker, invocation,
        ⟨(providerTrace dateParse config apiKey invocation).calls,
          (providerTrace dateParse config apiKey invocation).waits,
          .error (.unavailable (lastErrorName lastError) config.maxRetries), after⟩⟩ = true := by
      intro after
      simp only [InvocationRecord.exhausted, hcalls, beq_self_eq_true, Bool.and_true]
    constructor
    · exact hbounded
    · exact fun _ => hlater
    · intro message hresult
      exact absurd hresult (by simp)
    · intro other hresult
      exact absurd hresult (by simp)
    · rw [Breaker.record, InvocationRecord.entry, hexhausted]
      rfl

/-- Every invocation keeps to the circuit. -/
theorem invoke_guarded (dateParse : String → Option Int) (config : DeepSeekConfig)
    (breaker : Breaker) (invocation : Invocation) :
    InvocationRecord.Guarded config
      ⟨breaker, invocation, invoke dateParse config breaker invocation⟩ := by
  unfold invoke
  cases config.apiKey.filter (· ≠ "") with
  | none => exact guarded_of_uncalled
  | some apiKey =>
    simp only
    cases hopen : breaker.isOpen invocation.startedAt with
    | true => exact guarded_of_uncalled
    | false => exact settled_guarded hopen

/-- An exhausted invocation has begun with the circuit closed. -/
theorem InvocationRecord.Guarded.admitted {config : DeepSeekConfig} {record : InvocationRecord}
    (h : record.Guarded config) (hfailed : (record.entry config).verdict = .failed) :
    record.before.isOpen record.invocation.startedAt = false := by
  have hexhausted : record.exhausted config = true := by
    by_contra hnot
    simp only [InvocationRecord.entry, hnot, if_false] at hfailed
    split at hfailed <;> exact absurd hfailed (by simp)
  refine h.closed (fun hnil => ?_) _ (Nat.le_refl _)
  simp only [InvocationRecord.exhausted, hnil, List.length_nil, Bool.and_eq_true,
    beq_iff_eq] at hexhausted
  exact absurd hexhausted.1 (by simp)

/-- A run is a log of its breaker. -/
theorem ProviderRun.logged {dateParse : String → Option Int} {config : DeepSeekConfig}
    {log : List InvocationRecord} {breaker : Breaker} {latest : Nat}
    (h : ProviderRun dateParse config log breaker latest) :
    Logged 3 30000 (log.map (InvocationRecord.entry config)) breaker latest := by
  induction h with
  | nil => exact .nil
  | @cons log breaker latest invocation hlog hstart hend ih =>
    have hguarded := invoke_guarded dateParse config breaker invocation
    have hrecorded := hguarded.recorded
    simp only at hrecorded
    rw [List.map_cons, hrecorded]
    exact Logged.cons ih hstart hend hguarded.admitted

/-- Every invocation of a run keeps to the circuit. -/
theorem ProviderRun.guarded {dateParse : String → Option Int} {config : DeepSeekConfig}
    {log : List InvocationRecord} {breaker : Breaker} {latest : Nat}
    (h : ProviderRun dateParse config log breaker latest) :
    ∀ record ∈ log, record.Guarded config := by
  induction h with
  | nil => exact fun _ hin => absurd hin List.not_mem_nil
  | @cons log breaker latest invocation hlog hstart hend ih =>
    intro record hrecord
    rcases List.mem_cons.mp hrecord with rfl | hearlier
    · exact invoke_guarded dateParse config breaker invocation
    · exact ih record hearlier

/-- A provider without retries. -/
def exampleDeepSeek : DeepSeekConfig := ⟨some "key", "https://api.deepseek.com", "deepseek-chat", 0⟩

/-- An invocation that meets a server failure, all at one time. -/
def exampleOutage : Invocation where
  request := ⟨⟨"prefix", "content"⟩, "deepseek-chat", .standard, 100⟩
  transport := fun _ => .response 503 none none (.error .other)
  startedAt := 0
  dateNow := fun _ => 0
  endedAt := 0

/-- A failing invocation after a run. -/
theorem ProviderRun.outage {log : List InvocationRecord} {breaker : Breaker}
    (h : ProviderRun (fun _ => none) exampleDeepSeek log breaker 0) :
    ProviderRun (fun _ => none) exampleDeepSeek
      (⟨breaker, exampleOutage, invoke (fun _ => none) exampleDeepSeek breaker exampleOutage⟩ ::
        log)
      (invoke (fun _ => none) exampleDeepSeek breaker exampleOutage).breaker 0 :=
  .cons h (Nat.le_refl 0) (Nat.le_refl 0)

end LegacyVault
