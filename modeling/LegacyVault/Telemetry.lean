import LegacyVault.Dlp
import LegacyVault.Entities
import LegacyVault.Library.EcmaValues

/-!
# Telemetry

The checks of the observability runtime and what it emits: log records, metric
points, error reports and spans with the exceptions they record. A run is a
tree, since an operation in a span uses the runtime itself.

What the span API makes of a recorded exception is a parameter. Metric
instruments, which repeat the points, and the start and end of exporters are
left out.
-/

namespace LegacyVault.Telemetry

open EcmaText EcmaValues JsonText RegularExpressions

/-! ## Checks -/

/-- `metricNames`. -/
def metricNames : List String :=
  ["legacy_http_request_duration_ms", "legacy_http_requests_total", "legacy_queue_depth",
    "legacy_queue_failures_total", "legacy_db_pool_waiting", "legacy_object_failures_total",
    "legacy_auth_failures_total", "legacy_ai_request_duration_ms", "legacy_ai_input_tokens_total",
    "legacy_ai_output_tokens_total", "legacy_ai_cache_hit_tokens_total",
    "legacy_ai_cache_miss_tokens_total", "legacy_ai_cost_usd_total",
    "legacy_ai_dlp_findings_total", "legacy_ai_retries_total", "legacy_ai_schema_success_total",
    "legacy_deletion_backlog", "legacy_privacy_request_oldest_age_seconds",
    "legacy_export_failures_total", "legacy_report_duration_ms",
    "legacy_emergency_requests_total", "legacy_tenant_isolation_denials_total",
    "legacy_audit_chain_failures_total", "legacy_backup_failures_total"]

/-- `labelKeys`. -/
def labelKeys : List String :=
  ["service", "environment", "method", "route", "status_class", "operation", "queue", "provider",
    "task_family", "prompt_version", "model", "mode", "outcome", "error_class",
    "policy_decision"]

/-- A character of a class whose pattern ignores case. -/
def anyCaseChar (accepts : Char → Bool) : Pattern := .char (fun c => accepts (foldCase c))

/-- `forbiddenKeys`. -/
def forbiddenKeys : Pattern :=
  oneOf (["payload", "body", "document", "content", "prompt", "output", "cookie",
    "authorization", "credential", "password", "secret", "token"].map anyCase ++
    [sequence [anyCase "signed", (anyCaseChar (fun c => c == '_' || c == '-')).optional,
      anyCase "url"]] ++
    ["ciphertext", "plaintext", "email", "name", "address", "phone", "ssn", "card"].map anyCase)

/-- `forbiddenValue`. -/
def forbiddenValue : Pattern :=
  oneOf [
    sequence [anyCase "bearer", space.plus, (Pattern.char (fun c => !isSpace c)).plus],
    sequence [anyCase "sk-", .repeated 12 none (anyCaseChar Char.isAlphanum)],
    anyCase "-----BEGIN",
    sequence [anyCaseBoundary, digit.times 3, .char (· == '-'), digit.times 2,
      .char (· == '-'), digit.times 4, anyCaseBoundary],
    sequence [anyCaseBoundary,
      .repeated 13 (some 19) (.seq digit (Pattern.char (fun c => c == ' ' || c == '-')).star),
      anyCaseBoundary],
    sequence [anyCaseBoundary,
      (anyCaseChar (fun c => c.isAlphanum || "._%+-".toList.contains c)).plus, .char (· == '@'),
      (anyCaseChar (fun c => c.isAlphanum || c == '.' || c == '-')).plus, .char (· == '.'),
      .repeated 2 none (anyCaseChar Char.isAlpha), anyCaseBoundary]]

/-- Lowercase letters and digits. -/
def isLowerOrDigit (c : Char) : Bool := c.isLower || c.isDigit

/-- A first character and at most so many of a class after it. -/
def hasShape (first rest : Char → Bool) (most : Nat) (text : String) : Bool :=
  match text.toList with
  | [] => false
  | c :: cs => first c && decide (cs.length ≤ most) && cs.all rest

/-- Characters after the first of a canonical value. -/
def isCanonicalRest (c : Char) : Bool := isLowerOrDigit c || "._:/-".toList.contains c

/-- What `assertCanonical` accepts. -/
def isCanonical (text : String) : Bool :=
  hasShape isLowerOrDigit isCanonicalRest 159 text && !forbiddenValue.test text.toList

/-- What `assertContentFreeValue` accepts. -/
def isContentFree (text : String) : Bool :=
  hasShape (fun c => isLowerOrDigit c || c == '/') isCanonicalRest 159 text &&
    !forbiddenValue.test text.toList

/-- What `assertErrorClass` accepts. -/
def isErrorClass (text : String) : Bool :=
  hasShape Char.isAlpha (fun c => c.isAlphanum || c == '.') 119 text &&
    !forbiddenValue.test text.toList

/-- What `assertIdentifier` accepts. -/
def isIdentifier (text : String) : Bool :=
  hasShape (fun c => c.isAlphanum || c == '_' || c == '-')
    (fun c => c.isAlphanum || c == '_' || c == '-') 127 text

/-- A lowercase hexadecimal digit. -/
def isLowerHex (c : Char) : Bool := c.isDigit || (decide ('a' ≤ c) && decide (c ≤ 'f'))

/-- A trace id. -/
def isTraceId (text : String) : Bool :=
  decide (text.toList.length = 32) && text.toList.all isLowerHex

/-- What `assertPseudonym` accepts. -/
def isPseudonym (kind text : String) : Bool :=
  (kind ++ "_").toList.isPrefixOf text.toList &&
    decide ((text.toList.drop (kind.length + 1)).length = 16) &&
    (text.toList.drop (kind.length + 1)).all isLowerHex

/-- `Number.isFinite(value) && value >= 0`. -/
def isMeasure : Number → Bool
  | .finite literal => literal.first != '-'
  | _ => false

/-- A field that is checked when it is there and not empty. -/
def isAbsentOr (accepts : String → Bool) (field : Option String) : Bool :=
  field.all (fun text => text == "" || accepts text)

/-- The first check that fails throws. -/
def assertAll : List (Bool × String) → Except String Unit
  | [] => .ok ()
  | (accepted, message) :: checks => if accepted then assertAll checks else .error message

/-! ## Emission -/

inductive TelemetryLevel where
  | debug | info | warn | error
  deriving DecidableEq

inductive TelemetryOutcome where
  | success | denied | failure | degraded
  deriving DecidableEq

/-- `ContentFreeLogInput`, with the other members an object may have. -/
structure LogInput where
  level : TelemetryLevel
  service : String
  environment : String
  requestId : String
  traceId : String
  action : String
  outcome : TelemetryOutcome
  durationMs : Number
  tenantPseudonym : Option String
  actorPseudonym : Option String
  policyDecision : Option String
  errorClass : Option String
  others : List (String × Json)

/-- `ContentFreeLogRecord`. -/
structure LogRecord where
  timestamp : Instant
  level : TelemetryLevel
  service : String
  environment : String
  requestId : String
  traceId : String
  action : String
  outcome : TelemetryOutcome
  durationMs : Number
  tenantPseudonym : Option String
  actorPseudonym : Option String
  policyDecision : Option String
  errorClass : Option String

/-- What `log` checks, in order. -/
def LogInput.checks (input : LogInput) : List (Bool × String) :=
  [(input.others.isEmpty, "telemetry field is forbidden"),
    (isCanonical input.service, "service is not content-free"),
    (isCanonical input.environment, "environment is not content-free"),
    (isIdentifier input.requestId, "request ID is invalid"),
    (isTraceId input.traceId, "trace ID is invalid"),
    (isCanonical input.action, "action is not content-free"),
    (isMeasure input.durationMs, "duration is invalid"),
    (isAbsentOr (isPseudonym "tenant") input.tenantPseudonym, "tenant pseudonym is invalid"),
    (isAbsentOr (isPseudonym "actor") input.actorPseudonym, "actor pseudonym is invalid"),
    (isAbsentOr isCanonical input.policyDecision, "policy decision is not content-free"),
    (isAbsentOr isErrorClass input.errorClass, "error class is invalid")]

/-- A member that is left out when its text is empty. -/
def nonempty (field : Option String) : Option String := field.filter (· != "")

/-- `log`. None of the members it accepts matches `forbiddenKeys`. -/
def LogInput.log (input : LogInput) (timestamp : Instant) : Except String LogRecord := do
  assertAll input.checks
  pure {
    timestamp := timestamp
    level := input.level
    service := input.service
    environment := input.environment
    requestId := input.requestId
    traceId := input.traceId
    action := input.action
    outcome := input.outcome
    durationMs := input.durationMs
    tenantPseudonym := nonempty input.tenantPseudonym
    actorPseudonym := nonempty input.actorPseudonym
    policyDecision := nonempty input.policyDecision
    errorClass := nonempty input.errorClass }

/-- Members of the log input, none of them forbidden. -/
example : ["level", "service", "environment", "requestId", "traceId", "action", "outcome",
    "durationMs", "tenantPseudonym", "actorPseudonym", "policyDecision", "errorClass"].all
    (fun name => !forbiddenKeys.test name.toList) = true := by decide +kernel

/-- `MetricPoint`. -/
structure MetricPoint where
  name : String
  value : Number
  labels : List (String × String)
  observedAt : Instant

/-- What is checked of a label, a tag or a text attribute: its key, then its value. -/
def labelChecks (kind notAllowed : String) (label : String × String) : List (Bool × String) :=
  [(labelKeys.contains label.1, notAllowed),
    (isContentFree label.2, kind ++ label.1 ++ " is not content-free")]

/-- Labels in the order of their keys. -/
def sortedLabels (labels : List (String × String)) : List (String × String) :=
  labels.insertionSort (fun a b => a.1 ≤ b.1)

/-- `metrics.record`. -/
def record (name : String) (value : Number) (labels : List (String × String))
    (observedAt : Instant) : Except String MetricPoint := do
  assertAll ([(metricNames.contains name, "metric name is not allowed"),
    (isMeasure value, "metric value is invalid")] ++
    (sortedLabels labels).flatMap (labelChecks "metric label " "metric label is not allowed"))
  pure ⟨name, value, sortedLabels labels, observedAt⟩

/-- What an operation throws. -/
inductive Thrown where
  /-- An `Error`. -/
  | error (name message stack : String) (cause : Option Json)
  /-- Anything else. -/
  | other (value : Json)
  deriving DecidableEq

/-- The name that is reported of what was thrown. -/
def Thrown.reportedName : Thrown → String
  | error name _ _ _ => name
  | other _ => "UnknownError"

/-- The error that `captureException` reports. -/
def capture (error : Thrown) (tags : List (String × String)) :
    Except String (String × List (String × String)) := do
  assertAll (tags.flatMap (labelChecks "error tag " "error tag is not allowed"))
  pure (error.reportedName, tags)

/-- The value of a span attribute. -/
inductive AttributeValue where
  | text (value : String)
  | other (value : Json)
  deriving DecidableEq

/-- What is checked of a span attribute. Only texts are. -/
def attributeChecks : String × AttributeValue → List (Bool × String)
  | (key, .text value) => labelChecks "" "span attribute is not allowed" (key, value)
  | (key, .other _) => [(labelKeys.contains key, "span attribute is not allowed")]

/-- What `withSpan` checks before it starts the span. -/
def spanChecks (name : String) (attributes : List (String × AttributeValue)) :
    List (Bool × String) :=
  (isCanonical name, "span name is not content-free") :: attributes.flatMap attributeChecks

/-- What `withSpan` gives to `recordException`. -/
def Thrown.recorded : Thrown → Thrown
  | error name message stack cause => .error name message stack cause
  | other _ => .other (.str "UnknownError")

/-- One piece of telemetry, for the given form of recorded exceptions. -/
inductive Event (Recorded : Type) where
  | log (record : LogRecord)
  | metric (point : MetricPoint)
  | report (errorName : String) (tags : List (String × String))
  | startSpan (name : String) (attributes : List (String × AttributeValue))
  | recordException (exception : Recorded)
  | endSpan

/-- One use of the runtime. -/
inductive Action where
  | log (input : LogInput) (timestamp : Instant)
  | record (name : String) (value : Number) (labels : List (String × String))
    (observedAt : Instant)
  | captureException (error : Thrown) (tags : List (String × String))
  /-- A span, what its operation does, and what the operation throws. -/
  | withSpan (name : String) (attributes : List (String × AttributeValue))
    (operation : List Action) (thrown : Option Thrown)

/-- What a check lets through. -/
def emitted {α Recorded : Type} (event : α → Event Recorded) :
    Except String α → List (Event Recorded)
  | .ok value => [event value]
  | .error _ => []

/-- What is emitted one after another, up to the first that is rejected, which throws. -/
def emitAll {α : Type} : List (Except String α) → List α × Except String Unit
  | [] => ([], .ok ())
  | .ok event :: rest => (event :: (emitAll rest).1, (emitAll rest).2)
  | .error message :: _ => ([], .error message)

/-- Nothing throws when nothing is rejected. -/
theorem emitAll_eq_ok {α : Type} {emissions : List (Except String α)} :
    (emitAll emissions).2 = .ok () ↔
      ∀ emission ∈ emissions, ∃ event, emission = .ok event := by
  induction emissions with
  | nil => simp [emitAll]
  | cons emission rest ih =>
    cases emission with
    | ok event => simp [emitAll, ih]
    | error message => simp [emitAll]

/-- What nothing rejects is emitted. -/
theorem emitAll_map_ok {α : Type} (events : List α) :
    emitAll (events.map Except.ok) = (events, .ok ()) := by
  induction events with
  | nil => rfl
  | cons event events ih => rw [List.map_cons, emitAll, ih]

section Runs

variable {Recorded : Type} (sentry : Bool) (spanRecords : Thrown → Recorded)

mutual

/-- The telemetry of one use. A span that is rejected does not run its operation. -/
def Action.telemetry : Action → List (Event Recorded)
  | .log input timestamp => emitted .log (input.log timestamp)
  | .record name value labels observedAt => emitted .metric (record name value labels observedAt)
  | .captureException error tags =>
    if sentry then emitted (fun report => .report report.1 report.2) (capture error tags) else []
  | .withSpan name attributes operation thrown =>
    match assertAll (spanChecks name attributes) with
    | .error _ => []
    | .ok () =>
      .startSpan name attributes :: (telemetry operation ++
        ((thrown.map (fun error => .recordException (spanRecords error.recorded))).toList ++
          [.endSpan]))

/-- The telemetry of a run. -/
def telemetry : List Action → List (Event Recorded)
  | [] => []
  | action :: actions => action.telemetry ++ telemetry actions

end

end Runs

/-! ## Runs that differ in content -/

/-- Two values of a field are equal, or both are rejected. -/
def SameOrRejected {α : Type} (accepts : α → Bool) (a b : α) : Prop :=
  a = b ∨ (accepts a = false ∧ accepts b = false)

section SameOrRejected

variable {α : Type} {accepts : α → Bool} {a b : α}

theorem SameOrRejected.accepts_eq (h : SameOrRejected accepts a b) : accepts a = accepts b := by
  rcases h with hsame | ⟨ha, hb⟩
  · rw [hsame]
  · rw [ha, hb]

theorem SameOrRejected.eq (h : SameOrRejected accepts a b) (haccepted : accepts a = true) :
    a = b := by
  rcases h with hsame | ⟨ha, -⟩
  · exact hsame
  · exact absurd (ha.symm.trans haccepted) (by decide)

end SameOrRejected

/-- Two members have one key, and one value unless both are rejected. -/
def SameMember {β : Type} (accepts : String × β → Bool) (member other : String × β) : Prop :=
  member.1 = other.1 ∧ SameOrRejected accepts member other

section SameMember

variable {β : Type} {accepts : String × β → Bool} {members others : List (String × β)}

/-- Members that are all accepted are the same. -/
theorem members_eq (h : List.Forall₂ (SameMember accepts) members others)
    (haccepted : ∀ member ∈ members, accepts member = true) : members = others := by
  induction h with
  | nil => rfl
  | cons hsame _ ih =>
    obtain ⟨hhead, htail⟩ := List.forall_mem_cons.mp haccepted
    rw [hsame.2.eq hhead, ih htail]

/-- Members of the two runs are accepted together. -/
theorem members_accepted_iff (h : List.Forall₂ (SameMember accepts) members others) :
    (∀ member ∈ members, accepts member = true) ↔ ∀ member ∈ others, accepts member = true := by
  induction h with
  | nil => simp
  | cons hsame _ ih => rw [List.forall_mem_cons, List.forall_mem_cons, hsame.2.accepts_eq, ih]

end SameMember

theorem assertAll_eq_ok {checks : List (Bool × String)} :
    assertAll checks = .ok () ↔ ∀ check ∈ checks, check.1 = true := by
  induction checks with
  | nil => simp [assertAll]
  | cons check checks ih =>
    obtain ⟨accepted, message⟩ := check
    cases accepted with
    | true => simp [assertAll, ih]
    | false => simp [assertAll]

/-- Two log inputs differ only in values of rejected fields. -/
structure LogInput.SameButRejected (input other : LogInput) : Prop where
  level : input.level = other.level
  service : SameOrRejected isCanonical input.service other.service
  environment : SameOrRejected isCanonical input.environment other.environment
  requestId : SameOrRejected isIdentifier input.requestId other.requestId
  traceId : SameOrRejected isTraceId input.traceId other.traceId
  action : SameOrRejected isCanonical input.action other.action
  outcome : input.outcome = other.outcome
  durationMs : SameOrRejected isMeasure input.durationMs other.durationMs
  tenantPseudonym : SameOrRejected (isAbsentOr (isPseudonym "tenant")) input.tenantPseudonym
    other.tenantPseudonym
  actorPseudonym : SameOrRejected (isAbsentOr (isPseudonym "actor")) input.actorPseudonym
    other.actorPseudonym
  policyDecision : SameOrRejected (isAbsentOr isCanonical) input.policyDecision
    other.policyDecision
  errorClass : SameOrRejected (isAbsentOr isErrorClass) input.errorClass other.errorClass
  others : input.others.map Prod.fst = other.others.map Prod.fst

/-- A log call emits and throws the same. -/
theorem LogInput.SameButRejected.log_eq {input other : LogInput}
    (h : input.SameButRejected other) (timestamp : Instant) :
    input.log timestamp = other.log timestamp := by
  have hothers : input.others.isEmpty = other.others.isEmpty := by
    rw [← List.isEmpty_map (f := Prod.fst), h.others, List.isEmpty_map]
  have hchecks : input.checks = other.checks := by
    simp only [LogInput.checks, hothers, h.service.accepts_eq, h.environment.accepts_eq,
      h.requestId.accepts_eq, h.traceId.accepts_eq, h.action.accepts_eq, h.durationMs.accepts_eq,
      h.tenantPseudonym.accepts_eq, h.actorPseudonym.accepts_eq, h.policyDecision.accepts_eq,
      h.errorClass.accepts_eq]
  unfold LogInput.log
  rw [← hchecks]
  cases hassert : assertAll input.checks with
  | error message => rfl
  | ok _ =>
    have haccepted := assertAll_eq_ok.mp hassert
    simp only [LogInput.checks, List.forall_mem_cons] at haccepted
    obtain ⟨-, hservice, henvironment, hrequestId, htraceId, haction, hduration, htenant, hactor,
      hpolicy, herror, -⟩ := haccepted
    rw [h.level, h.service.eq hservice, h.environment.eq henvironment,
      h.requestId.eq hrequestId, h.traceId.eq htraceId, h.action.eq haction, h.outcome,
      h.durationMs.eq hduration, h.tenantPseudonym.eq htenant, h.actorPseudonym.eq hactor,
      h.policyDecision.eq hpolicy, h.errorClass.eq herror]

/-- A label is accepted: its key is known and its value free of content. -/
def labelAccepted (label : String × String) : Bool :=
  labelKeys.contains label.1 && isContentFree label.2

theorem labelChecks_accepted {kind notAllowed : String} {label : String × String} :
    (∀ check ∈ labelChecks kind notAllowed label, check.1 = true) ↔
      labelAccepted label = true := by
  simp [labelChecks, labelAccepted]

theorem assertLabels_eq_ok {kind notAllowed : String} {labels : List (String × String)} :
    assertAll (labels.flatMap (labelChecks kind notAllowed)) = .ok () ↔
      ∀ label ∈ labels, labelAccepted label = true := by
  simp only [assertAll_eq_ok, List.forall_mem_flatMap, labelChecks_accepted]

/-- A metric point is recorded when its name, its value and all its labels are accepted. -/
def recordAccepted (name : String) (value : Number) (labels : List (String × String)) : Bool :=
  metricNames.contains name && isMeasure value && labels.all labelAccepted

theorem assertRecord_eq_ok {name : String} {value : Number} {labels : List (String × String)} :
    assertAll ([(metricNames.contains name, "metric name is not allowed"),
      (isMeasure value, "metric value is invalid")] ++ (sortedLabels labels).flatMap
        (labelChecks "metric label " "metric label is not allowed")) = .ok () ↔
      recordAccepted name value labels = true := by
  have hperm : ∀ label, label ∈ sortedLabels labels ↔ label ∈ labels :=
    fun label => List.mem_insertionSort _
  simp only [assertAll_eq_ok, List.forall_mem_append, List.forall_mem_cons,
    List.forall_mem_flatMap, labelChecks_accepted, hperm, recordAccepted, Bool.and_eq_true,
    List.all_eq_true]
  simp

/-- `record` stores the point or throws. -/
theorem record_of_accepted {name : String} {value : Number} {labels : List (String × String)}
    (h : recordAccepted name value labels = true) (observedAt : Instant) :
    record name value labels observedAt = .ok ⟨name, value, sortedLabels labels, observedAt⟩ := by
  rw [record, assertRecord_eq_ok.mpr h]
  rfl

theorem record_of_rejected {name : String} {value : Number} {labels : List (String × String)}
    (h : ¬recordAccepted name value labels = true) (observedAt : Instant) :
    ∃ message, record name value labels observedAt = .error message := by
  rw [record]
  cases hassert : assertAll ([(metricNames.contains name, "metric name is not allowed"),
      (isMeasure value, "metric value is invalid")] ++ (sortedLabels labels).flatMap
        (labelChecks "metric label " "metric label is not allowed")) with
  | ok _ => exact absurd (assertRecord_eq_ok.mp hassert) h
  | error message => exact ⟨message, rfl⟩

/-- The name of a metric, its value unless it is rejected, and its labels decide what `record`
emits. -/
theorem record_emitted_eq {Recorded : Type} (name : String) {value other : Number}
    {labels others : List (String × String)} (hvalue : SameOrRejected isMeasure value other)
    (hlabels : List.Forall₂ (SameMember labelAccepted) labels others) (observedAt : Instant) :
    (emitted .metric (record name value labels observedAt) : List (Event Recorded)) =
      emitted .metric (record name other others observedAt) := by
  have hall : labels.all labelAccepted = others.all labelAccepted := by
    rw [Bool.eq_iff_iff, List.all_eq_true, List.all_eq_true, members_accepted_iff hlabels]
  have hsame : recordAccepted name value labels = recordAccepted name other others := by
    rw [recordAccepted, recordAccepted, hvalue.accepts_eq, hall]
  by_cases haccepted : recordAccepted name value labels = true
  · have hparts := haccepted
    simp only [recordAccepted, Bool.and_eq_true, List.all_eq_true] at hparts
    obtain ⟨⟨-, hmeasure⟩, hlabel⟩ := hparts
    rw [← hvalue.eq hmeasure, ← members_eq hlabels hlabel]
  · have hrejected : ¬recordAccepted name other others = true := hsame ▸ haccepted
    obtain ⟨message, hfirst⟩ := record_of_rejected haccepted observedAt
    obtain ⟨message', hsecond⟩ := record_of_rejected hrejected observedAt
    rw [hfirst, hsecond]
    rfl

/-- Two thrown values differ at most in message, stack and cause of an error. -/
def Thrown.SameName : Thrown → Thrown → Prop
  | .error name _ _ _, .error name' _ _ _ => name = name'
  | .other value, .other value' => value = value'
  | _, _ => False

theorem Thrown.SameName.refl (thrown : Thrown) : thrown.SameName thrown := by
  cases thrown <;> exact Eq.refl _

theorem Thrown.SameName.reportedName_eq {thrown other : Thrown} (h : thrown.SameName other) :
    thrown.reportedName = other.reportedName := by
  cases thrown with
  | error name message stack cause =>
    cases other with
    | error name' message' stack' cause' => exact h
    | other value => exact h.elim
  | other value =>
    cases other with
    | error name message stack cause => exact h.elim
    | other value' => rfl

theorem capture_emitted_eq {Recorded : Type} {error other : Thrown}
    {tags others : List (String × String)} (herror : error.SameName other)
    (htags : List.Forall₂ (SameMember labelAccepted) tags others) :
    (emitted (fun report => .report report.1 report.2) (capture error tags) :
        List (Event Recorded)) =
      emitted (fun report => .report report.1 report.2) (capture other others) := by
  unfold capture
  cases hfirst : assertAll (tags.flatMap (labelChecks "error tag " "error tag is not allowed")) with
  | ok _ =>
    rw [← members_eq htags (assertLabels_eq_ok.mp hfirst), hfirst, herror.reportedName_eq]
  | error message =>
    cases hsecond : assertAll
        (others.flatMap (labelChecks "error tag " "error tag is not allowed")) with
    | error message => rfl
    | ok _ =>
      have hok := (@assertLabels_eq_ok "error tag " "error tag is not allowed" tags).mpr ((members_accepted_iff htags).mpr
          (assertLabels_eq_ok.mp hsecond))
      exact absurd (hfirst.symm.trans hok) (by simp)

/-- A span attribute is accepted. -/
def attributeAccepted (entry : String × AttributeValue) : Bool :=
  (attributeChecks entry).all Prod.fst

/-- A span starts when its name and its attributes are accepted. -/
def spanAccepted (name : String) (attributes : List (String × AttributeValue)) : Bool :=
  isCanonical name && attributes.all attributeAccepted

theorem assertSpan_eq_ok {name : String} {attributes : List (String × AttributeValue)} :
    assertAll (spanChecks name attributes) = .ok () ↔ spanAccepted name attributes = true := by
  simp only [assertAll_eq_ok, spanChecks, List.forall_mem_cons, List.forall_mem_flatMap,
    spanAccepted, Bool.and_eq_true, List.all_eq_true, attributeAccepted]

/-- A span emits its start, its operation's telemetry, what was thrown, and its end, or nothing. -/
theorem withSpan_telemetry {Recorded : Type} (sentry : Bool) (spanRecords : Thrown → Recorded)
    (name : String) (attributes : List (String × AttributeValue)) (operation : List Action)
    (thrown : Option Thrown) :
    (Action.withSpan name attributes operation thrown).telemetry sentry spanRecords =
      if spanAccepted name attributes then
        .startSpan name attributes :: (telemetry sentry spanRecords operation ++
          ((thrown.map (fun error => .recordException (spanRecords error.recorded))).toList ++
            [.endSpan]))
      else [] := by
  rw [Action.telemetry]
  cases hassert : assertAll (spanChecks name attributes) with
  | ok _ => rw [if_pos (assertSpan_eq_ok.mp hassert)]
  | error message =>
    have hrejected : ¬ spanAccepted name attributes = true := by
      intro haccepted
      exact absurd (hassert.symm.trans (assertSpan_eq_ok.mpr haccepted)) (by simp)
    rw [if_neg hrejected]

mutual

/-- Two uses differ only in the message, stack and cause of errors and in values of rejected
fields. -/
def Action.SameButContent : Action → Action → Prop
  | .log input timestamp, .log other timestamp' =>
    input.SameButRejected other ∧ timestamp = timestamp'
  | .record name value labels observedAt, .record name' value' labels' observedAt' =>
    name = name' ∧ SameOrRejected isMeasure value value' ∧
      List.Forall₂ (SameMember labelAccepted) labels labels' ∧ observedAt = observedAt'
  | .captureException error tags, .captureException other tags' =>
    error.SameName other ∧ List.Forall₂ (SameMember labelAccepted) tags tags'
  | .withSpan name attributes operation thrown, .withSpan name' attributes' operation' thrown' =>
    SameOrRejected isCanonical name name' ∧ List.Forall₂ (SameMember attributeAccepted) attributes attributes' ∧
      SameButContent operation operation' ∧ Option.Rel Thrown.SameName thrown thrown'
  | _, _ => False

/-- Two runs differ only in the message, stack and cause of errors and in values of rejected
fields. -/
def SameButContent : List Action → List Action → Prop
  | [], [] => True
  | action :: actions, other :: others =>
    action.SameButContent other ∧ SameButContent actions others
  | _, _ => False

end

mutual

/-- No operation of a span throws an error. -/
def Action.NoErrorInSpan : Action → Prop
  | .withSpan name attributes operation thrown =>
    spanAccepted name attributes = true → NoErrorInSpan operation ∧
      ∀ name message stack cause, thrown ≠ some (.error name message stack cause)
  | _ => True

/-- No operation of any span of the run throws an error. -/
def NoErrorInSpan : List Action → Prop
  | [] => True
  | action :: actions => action.NoErrorInSpan ∧ NoErrorInSpan actions

end

section Runs

variable {Recorded : Type} {sentry : Bool} {spanRecords : Thrown → Recorded}

/-- What a span records of the two errors is the same unless one is an `Error`. -/
theorem recorded_eq {thrown thrown' : Option Thrown} (h : Option.Rel Thrown.SameName thrown thrown')
    (hnone : ∀ name message stack cause, thrown ≠ some (.error name message stack cause)) :
    thrown.map Thrown.recorded = thrown'.map Thrown.recorded := by
  cases h with
  | none => rfl
  | @some error error' hsame =>
    cases error with
    | error name message stack cause => exact absurd rfl (hnone name message stack cause)
    | other value =>
      cases error' with
      | error name message stack cause => exact hsame.elim
      | other value' => rfl

/-- Spans that start with the same, run operations with the same telemetry and end without an error
emit the same. -/
theorem withSpan_telemetry_eq {name name' : String}
    {attributes attributes' : List (String × AttributeValue)} {operation operation' : List Action}
    {thrown thrown' : Option Thrown} (hname : SameOrRejected isCanonical name name')
    (hattributes : List.Forall₂ (SameMember attributeAccepted) attributes attributes')
    (hthrown : Option.Rel Thrown.SameName thrown thrown')
    (hoperation : spanAccepted name attributes = true →
      telemetry sentry spanRecords operation = telemetry sentry spanRecords operation')
    (hnone : spanAccepted name attributes = true →
      ∀ errorName message stack cause, thrown ≠ some (.error errorName message stack cause)) :
    (Action.withSpan name attributes operation thrown).telemetry sentry spanRecords =
      (Action.withSpan name' attributes' operation' thrown').telemetry sentry spanRecords := by
  rw [withSpan_telemetry, withSpan_telemetry]
  have haccepted : spanAccepted name attributes = spanAccepted name' attributes' := by
    have hall := members_accepted_iff hattributes
    rw [Bool.eq_iff_iff]
    simp only [spanAccepted, hname.accepts_eq, Bool.and_eq_true, List.all_eq_true, hall]
  by_cases hstarts : spanAccepted name attributes = true
  · have hstarts' : spanAccepted name' attributes' = true := haccepted.symm.trans hstarts
    obtain ⟨hnameAccepted, hattributesAccepted⟩ := Bool.and_eq_true_iff.mp hstarts
    have hevents : thrown.map (fun error => Event.recordException (spanRecords error.recorded)) =
        thrown'.map (fun error => Event.recordException (spanRecords error.recorded)) := by
      have hmap := congrArg (Option.map (fun recorded => Event.recordException
        (spanRecords recorded))) (recorded_eq hthrown (hnone hstarts))
      rw [Option.map_map, Option.map_map] at hmap
      exact hmap
    rw [if_pos hstarts, if_pos hstarts', hoperation hstarts, hevents, hname.eq hnameAccepted,
      members_eq hattributes (List.all_eq_true.mp hattributesAccepted)]
  · have hrejected : ¬ spanAccepted name' attributes' = true := haccepted ▸ hstarts
    rw [if_neg hstarts, if_neg hrejected]

mutual

theorem Action.telemetry_eq (action : Action) {other : Action} (h : action.SameButContent other)
    (hfree : action.NoErrorInSpan) :
    action.telemetry sentry spanRecords = other.telemetry sentry spanRecords := by
  match action with
  | .log input timestamp =>
    cases other <;> try exact h.elim
    obtain ⟨hinput, htimestamp⟩ := h
    rw [Action.telemetry, Action.telemetry, hinput.log_eq, htimestamp]
  | .record name value labels observedAt =>
    cases other <;> try exact h.elim
    obtain ⟨hname, hvalue, hlabels, hobserved⟩ := h
    rw [Action.telemetry, Action.telemetry, record_emitted_eq name hvalue hlabels observedAt, hname,
      hobserved]
  | .captureException error tags =>
    cases other <;> try exact h.elim
    obtain ⟨herror, htags⟩ := h
    rw [Action.telemetry, Action.telemetry, capture_emitted_eq herror htags]
  | .withSpan name attributes operation thrown =>
    cases other <;> try exact h.elim
    obtain ⟨hname, hattributes, hoperation, hthrown⟩ := h
    exact withSpan_telemetry_eq hname hattributes hthrown
      (fun hstarts => telemetry_eq operation hoperation (hfree hstarts).1)
      (fun hstarts => (hfree hstarts).2)

/-- Without an error in a span, runs that differ in content emit the same. -/
theorem telemetry_eq (actions : List Action) {others : List Action}
    (h : SameButContent actions others) (hfree : NoErrorInSpan actions) :
    telemetry sentry spanRecords actions = telemetry sentry spanRecords others := by
  match actions with
  | [] =>
    cases others with
    | nil => rfl
    | cons other others => exact h.elim
  | action :: actions =>
    cases others with
    | nil => exact h.elim
    | cons other others =>
      rw [telemetry, telemetry, action.telemetry_eq h.1 hfree.1, telemetry_eq actions h.2 hfree.2]

end

/-- The error with another message. -/
def Thrown.altered : Thrown → Thrown
  | .error name message stack cause => .error name (message ++ "!") stack cause
  | .other value => .other value

mutual

/-- The use with another message of every error that is thrown in a span. -/
def Action.altered : Action → Action
  | .withSpan name attributes operation thrown =>
    .withSpan name attributes (altered operation) (thrown.map Thrown.altered)
  | action => action

/-- The run with another message of every error that is thrown in a span. -/
def altered : List Action → List Action
  | [] => []
  | action :: actions => action.altered :: altered actions

end

theorem LogInput.SameButRejected.refl (input : LogInput) : input.SameButRejected input :=
  ⟨rfl, .inl rfl, .inl rfl, .inl rfl, .inl rfl, .inl rfl, rfl, .inl rfl, .inl rfl, .inl rfl,
    .inl rfl, .inl rfl, rfl⟩

theorem sameMember_refl {β : Type} (accepts : String × β → Bool) (members : List (String × β)) :
    List.Forall₂ (SameMember accepts) members members :=
  List.forall₂_same.mpr (fun _ _ => ⟨rfl, .inl rfl⟩)

theorem Thrown.sameName_altered (thrown : Option Thrown) :
    Option.Rel Thrown.SameName thrown (thrown.map Thrown.altered) := by
  cases thrown with
  | none => exact .none
  | some error =>
    cases error with
    | error name message stack cause => exact .some rfl
    | other value => exact .some rfl

mutual

theorem Action.sameButContent_altered (action : Action) :
    action.SameButContent action.altered := by
  match action with
  | .log input timestamp => exact ⟨.refl input, rfl⟩
  | .record name value labels observedAt => exact ⟨rfl, .inl rfl, sameMember_refl _ _, rfl⟩
  | .captureException error tags => exact ⟨.refl error, sameMember_refl _ _⟩
  | .withSpan name attributes operation thrown =>
    exact ⟨.inl rfl, sameMember_refl _ _, sameButContent_altered operation,
      Thrown.sameName_altered thrown⟩

theorem sameButContent_altered (actions : List Action) :
    SameButContent actions (altered actions) := by
  match actions with
  | [] => exact trivial
  | action :: actions => exact ⟨action.sameButContent_altered, sameButContent_altered actions⟩

end

mutual

theorem Action.telemetry_altered_length (action : Action) :
    (action.altered.telemetry sentry spanRecords).length =
      (action.telemetry sentry spanRecords).length := by
  match action with
  | .log input timestamp => rfl
  | .record name value labels observedAt => rfl
  | .captureException error tags => rfl
  | .withSpan name attributes operation thrown =>
    rw [Action.altered, withSpan_telemetry, withSpan_telemetry]
    split
    · simp only [List.length_cons, List.length_append, telemetry_altered_length operation,
        Option.map_map]
      cases thrown <;> rfl
    · rfl

theorem telemetry_altered_length (actions : List Action) :
    (telemetry sentry spanRecords (altered actions)).length =
      (telemetry sentry spanRecords actions).length := by
  match actions with
  | [] => rfl
  | action :: actions =>
    simp only [altered, telemetry, List.length_append, action.telemetry_altered_length,
      telemetry_altered_length actions]

end

/-- What is recorded of an error shows its message. -/
def RecordsMessage (spanRecords : Thrown → Recorded) : Prop :=
  ∀ name message message' stack cause,
    spanRecords (.error name message stack cause) = spanRecords (.error name message' stack cause) →
    message = message'

mutual

theorem Action.noErrorInSpan_of_altered (hrecords : RecordsMessage spanRecords) {action : Action}
    (h : action.telemetry sentry spanRecords = action.altered.telemetry sentry spanRecords) :
    action.NoErrorInSpan := by
  match action with
  | .log input timestamp => exact trivial
  | .record name value labels observedAt => exact trivial
  | .captureException error tags => exact trivial
  | .withSpan name attributes operation thrown =>
    intro hstarts
    rw [Action.altered, withSpan_telemetry, withSpan_telemetry, if_pos hstarts, if_pos hstarts] at h
    have hlength : ∀ events : Option Thrown,
        ((events.map (fun error => Event.recordException (spanRecords error.recorded))).toList ++
          [.endSpan] : List (Event Recorded)).length =
        (((events.map Thrown.altered).map
          (fun error => Event.recordException (spanRecords error.recorded))).toList ++
          [.endSpan] : List (Event Recorded)).length := by
      intro events
      cases events <;> rfl
    obtain ⟨hoperation, hend⟩ := List.append_inj' (List.cons.inj h).2 (hlength thrown)
    refine ⟨noErrorInSpan_of_altered hrecords hoperation, ?_⟩
    rintro name' message stack cause rfl
    have hevent := (List.cons.inj hend).1
    have hmessage := hrecords name' _ _ stack cause (Event.recordException.inj hevent)
    have hlong := congrArg String.length hmessage
    simp at hlong

theorem noErrorInSpan_of_altered (hrecords : RecordsMessage spanRecords) {actions : List Action}
    (h : telemetry sentry spanRecords actions = telemetry sentry spanRecords (altered actions)) :
    NoErrorInSpan actions := by
  match actions with
  | [] => exact trivial
  | action :: actions =>
    rw [altered, telemetry, telemetry] at h
    obtain ⟨haction, hactions⟩ := List.append_inj' h (telemetry_altered_length actions).symm
    exact ⟨Action.noErrorInSpan_of_altered hrecords haction,
      noErrorInSpan_of_altered hrecords hactions⟩

end

/-- Every run that differs from the given one only in content emits the same telemetry if and only
if no operation of a span throws an error. -/
theorem telemetry_content_free_iff (hrecords : RecordsMessage spanRecords) (run : List Action) :
    (∀ other, SameButContent run other →
      telemetry sentry spanRecords run = telemetry sentry spanRecords other) ↔
    NoErrorInSpan run := by
  constructor
  · intro hsame
    exact noErrorInSpan_of_altered hrecords (hsame _ (sameButContent_altered run))
  · intro hfree other hother
    exact telemetry_eq run hother hfree

end Runs

/-- The attributes of the exception event of a span: type, message and stack. -/
def exceptionAttributes : Thrown → Option String × Option String × Option String
  | .error name message stack _ => (nonempty name, nonempty message, nonempty stack)
  | .other (.str text) => (none, nonempty text, none)
  | .other _ => (none, none, none)

/-- A span whose operation throws an error with the given message. -/
def exampleFailing (message : String) : List Action :=
  [.withSpan "vault.read" [] [] (some (.error "Error" message "" none))]

theorem telemetry_content_free_iff_example :
    (∀ other, SameButContent (exampleFailing "a") other →
      telemetry true exceptionAttributes (exampleFailing "a") =
        telemetry true exceptionAttributes other) ↔ NoErrorInSpan (exampleFailing "a") := by
  have hrecords : RecordsMessage exceptionAttributes := by
    intro name message message' stack cause h
    have hmessage : nonempty (some message) = nonempty (some message') := by
      simpa [exceptionAttributes] using h
    by_cases hempty : message = ""
    · by_cases hempty' : message' = "" <;> simp_all [nonempty, Option.filter]
    · by_cases hempty' : message' = "" <;> simp_all [nonempty, Option.filter]
  exact telemetry_content_free_iff hrecords (exampleFailing "a")

/-- The message of an error that an operation throws is recorded by its span. -/
theorem telemetry_leaks : ¬ ∀ run other, SameButContent run other →
    telemetry true exceptionAttributes run = telemetry true exceptionAttributes other := by
  intro h
  have hsame : SameButContent (exampleFailing "a") (exampleFailing "b") :=
    ⟨⟨.inl rfl, .nil, trivial, .some rfl⟩, trivial⟩
  have hevents := h _ _ hsame
  have haccepted : spanAccepted "vault.read" [] = true := by decide +kernel
  simp [exampleFailing, telemetry, withSpan_telemetry, haccepted, exceptionAttributes,
    Thrown.recorded, nonempty, Option.filter] at hevents

end LegacyVault.Telemetry
