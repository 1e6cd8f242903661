import LegacyVault.Library.PatternMatches
import LegacyVault.Telemetry
import Mathlib.Data.Bool.AllAny

/-!
# Telemetry of requests

The hooks of `buildServer`: when a request has been answered, two metrics and
a log record are emitted; when one throws, the error is reported. All checks
of the runtime throw, so a rejected label ends the hook.

The URL of a route is a label. Three routes have URLs that no label may have.
-/

namespace LegacyVault.Telemetry

open EcmaText EcmaValues RegularExpressions

/-! ## Requests -/

/-- The routes that `buildServer` registers, each with its method. -/
def registeredRoutes : List (String × String) :=
  [("GET", "/health/live"), ("GET", "/health/ready"), ("GET", "/health/dependencies"),
    ("GET", "/openapi.json"),
    ("GET", "/v1/facts"), ("GET", "/v1/consents"), ("POST", "/v1/facts"), ("GET", "/v1/documents"),
    ("GET", "/v1/documents/:id/content"), ("GET", "/v1/audit-events"), ("POST", "/v1/documents"),
    ("POST", "/v1/documents/:id/upload-url"), ("POST", "/v1/extractions/manual"),
    ("POST", "/v1/ai-settings/interview"), ("POST", "/v1/documents/:id/complete"),
    ("POST", "/v1/facts/:id/confirm"), ("POST", "/v1/facts/:id/reject"),
    ("POST", "/v1/facts/:id/dispute"), ("POST", "/v1/emergency-access"),
    ("POST", "/v1/emergency-access/:id/decide"), ("POST", "/v1/emergency-access/:id/release"),
    ("POST", "/v1/consents"), ("POST", "/v1/consents/:id/withdraw"),
    ("GET", "/v1/privacy-requests"), ("POST", "/v1/privacy-requests"),
    ("POST", "/v1/privacy-requests/:requestId/confirm-deletion"),
    ("POST", "/v1/privacy-requests/:requestId/cancel-deletion"), ("POST", "/v1/exports"),
    ("GET", "/v1/exports/:id"), ("GET", "/v1/reports/:id"), ("POST", "/v1/reports"),
    ("POST", "/v1/billing/checkout"), ("POST", "/v1/billing/portal"),
    ("GET", "/v1/billing/subscription"), ("GET", "/v1/billing/refunds"),
    ("GET", "/v1/households"), ("POST", "/v1/households"), ("GET", "/v1/members"),
    ("POST", "/v1/members/invitations"), ("POST", "/v1/members/invitations/:token/accept"),
    ("POST", "/v1/members/invitations/:id/revoke"), ("POST", "/v1/members/:id/role"),
    ("POST", "/v1/billing/webhooks/stripe"), ("GET", "/api/auth/*"), ("POST", "/api/auth/*")]

/-- The methods that the HTTP parser accepts. -/
def httpMethods : List String :=
  ["ACL", "BIND", "CHECKOUT", "CONNECT", "COPY", "DELETE", "GET", "HEAD", "LINK", "LOCK",
    "M-SEARCH", "MERGE", "MKACTIVITY", "MKCALENDAR", "MKCOL", "MOVE", "NOTIFY", "OPTIONS", "PATCH",
    "POST", "PROPFIND", "PROPPATCH", "PURGE", "PUT", "QUERY", "REBIND", "REPORT", "SEARCH",
    "SOURCE", "SUBSCRIBE", "TRACE", "UNBIND", "UNLINK", "UNLOCK", "UNSUBSCRIBE"]

/-- What the hooks read of a request. -/
structure Request where
  method : String
  /-- `routeOptions.url`, which a request without a route does not have. -/
  routeUrl : Option String
  /-- The header `x-request-id`. -/
  requestIdHeader : Option String
  /-- The header `traceparent`, when it is a text. -/
  traceparent : Option String

/-- A route answers to its method, and one for `GET` to `HEAD` too. -/
def Request.Admitted (request : Request) : Prop :=
  match request.routeUrl with
  | some url => (request.method, url) ∈ registeredRoutes ∨
    (request.method = "HEAD" ∧ ("GET", url) ∈ registeredRoutes)
  | none => request.method ∈ httpMethods

/-- `routeOptions.url || "unmatched"`. -/
def Request.route (request : Request) : String := request.routeUrl.getD "unmatched"

/-- `NODE_ENV`. -/
inductive NodeEnvironment where
  | development | test | production
  deriving DecidableEq

/-- The text of an environment. -/
def NodeEnvironment.text : NodeEnvironment → String
  | development => "development"
  | test => "test"
  | production => "production"

/-- A finite number that is not negative. -/
structure Measure where
  value : Number
  valid : isMeasure value = true

/-- What the hooks are given by the platform. -/
structure HookPlatform where
  environment : NodeEnvironment
  /-- The id of a request without a header for it. -/
  generatedId : String
  /-- The hexadecimal digest of SHA-256. -/
  sha256 : String → String
  /-- `toLowerCase`. -/
  toLowerCase : String → String
  /-- The current time. -/
  now : Instant

/-- What is known of the platform. -/
structure HookPlatform.Sound (platform : HookPlatform) : Prop where
  generatedId : isIdentifier platform.generatedId = true
  digestLength : ∀ text, (platform.sha256 text).toList.length = 64
  digestHex : ∀ text, (platform.sha256 text).toList.all isLowerHex = true
  /-- On ASCII, only capital letters change. -/
  toLowerCase : ∀ text : String, text.toList.all (fun c => decide (c.val < 128)) = true →
    platform.toLowerCase text = String.ofList (text.toList.map Char.toLower)

/-! ## Hooks -/

/-- `traceIdFromTraceparent`. -/
def traceIdFromTraceparent (traceparent : Option String) : Option String :=
  traceparent.bind (fun text =>
    let parent := (trim text).toList
    let traceId := (parent.drop 3).take 32
    if parent.length = 55 ∧ parent.take 3 = ['0', '0', '-'] ∧ traceId.all isLowerHex ∧
        (parent.drop 35).take 1 = ['-'] ∧ ((parent.drop 36).take 16).all isLowerHex ∧
        (parent.drop 52).take 1 = ['-'] ∧ (parent.drop 53).all isLowerHex ∧
        ¬traceId.all (· == '0') then
      some (String.ofList traceId)
    else none)

section Hooks

variable (platform : HookPlatform) (request : Request)

/-- `request.id`: a header that is not empty, or what is generated. -/
def requestId : String := (nonempty request.requestIdHeader).getD platform.generatedId

/-- The outcome of a status code. -/
def statusOutcome (statusCode : Nat) : TelemetryOutcome :=
  if statusCode < 400 then .success else if statusCode < 500 then .denied else .failure

/-- The text of an outcome. -/
def TelemetryOutcome.text : TelemetryOutcome → String
  | success => "success"
  | denied => "denied"
  | failure => "failure"
  | degraded => "degraded"

/-- The labels of the metrics of a request. -/
def requestLabels (statusCode : Nat) : List (String × String) :=
  [("service", "legacy-api"), ("environment", platform.environment.text),
    ("method", platform.toLowerCase request.method), ("route", request.route),
    ("status_class", toString (statusCode / 100) ++ "xx"),
    ("outcome", (statusOutcome statusCode).text)]

/-- The trace id of a request. -/
def requestTraceId : String :=
  (traceIdFromTraceparent request.traceparent).getD
    (String.ofList ((platform.sha256 (requestId platform request)).toList.take 32))

/-- The log input of a request that has been answered. -/
def completionLog (statusCode : Nat) (durationMs : Measure) : LogInput where
  level := if 500 ≤ statusCode then .error else .info
  service := "legacy-api"
  environment := platform.environment.text
  requestId := requestId platform request
  traceId := requestTraceId platform request
  action := platform.toLowerCase request.method ++ ":" ++ request.route
  outcome := statusOutcome statusCode
  durationMs := durationMs.value
  tenantPseudonym := none
  actorPseudonym := none
  policyDecision := none
  errorClass := none
  others := []

/-- The `onResponse` hook. -/
def onResponse (statusCode : Nat) (durationMs : Measure) :
    List (Event Empty) × Except String Unit :=
  let labels := requestLabels platform request statusCode
  emitAll [
    (record "legacy_http_request_duration_ms" durationMs.value labels platform.now).map .metric,
    (record "legacy_http_requests_total" (.ofNat 1) labels platform.now).map .metric,
    ((completionLog platform request statusCode durationMs).log platform.now).map .log]

/-- The tags of an error of a request. -/
def errorTags (errorName : String) : List (String × String) :=
  [("service", "legacy-api"), ("environment", platform.environment.text),
    ("method", platform.toLowerCase request.method), ("route", request.route),
    ("error_class", platform.toLowerCase errorName)]

/-- The `onError` hook. -/
def onError (name message stack : String) (cause : Option JsonText.Json) : Except String Unit :=
  (capture (.error name message stack cause) (errorTags platform request name)).map (fun _ => ())

end Hooks

/-- Both metrics and the log record of a request are emitted, and nothing throws. -/
def RecordsCompletion (outcome : List (Event Empty) × Except String Unit) : Prop :=
  ∃ duration total completed,
    outcome = ([.metric duration, .metric total, .log completed], .ok ()) ∧
      duration.name = "legacy_http_request_duration_ms" ∧
      total.name = "legacy_http_requests_total"

/-- The routes whose URLs no label may have. -/
def unlabelledRoutes : List String :=
  ["/api/auth/*", "/v1/privacy-requests/:requestId/confirm-deletion",
    "/v1/privacy-requests/:requestId/cancel-deletion"]

/-! ## Texts without content -/

/-- The characters of labels are ASCII. -/
theorem toNat_canonicalRest {c : Char} (hc : isCanonicalRest c = true) : c.toNat < 128 := by
  have hclass : c.isLower = true ∨ c.isDigit = true ∨ c ∈ ['.', '_', ':', '/', '-'] := by
    simpa [isCanonicalRest, isLowerOrDigit, or_assoc] using hc
  rcases hclass with hlower | hdigit | hmem
  · have hrange : (decide ('a'.val ≤ c.val) && decide (c.val ≤ 'z'.val)) = true := hlower
    simp only [Bool.and_eq_true, decide_eq_true_eq, UInt32.le_iff_toNat_le] at hrange
    exact Nat.lt_of_le_of_lt hrange.2 (by decide)
  · simp only [Char.isDigit, Bool.and_eq_true, decide_eq_true_eq, UInt32.le_iff_toNat_le] at hdigit
    exact Nat.lt_of_le_of_lt hdigit.2 (by decide)
  · have hall : ∀ d ∈ ['.', '_', ':', '/', '-'], d.toNat < 128 :=
      List.all_iff_forall_prop.mp (by decide)
    exact hall c hmem

/-- Folding does not change a character of labels, which is not white space. -/
theorem foldCase_canonicalRest {c : Char} (hc : isCanonicalRest c = true) :
    foldCase c = c ∧ isSpace c = false := by
  have hall : ∀ n < 128, isCanonicalRest (Char.ofNat n) = true →
      foldCase (Char.ofNat n) = Char.ofNat n ∧ isSpace (Char.ofNat n) = false := by decide +kernel
  have hchar := hall c.toNat (toNat_canonicalRest hc)
  rw [Char.ofNat_toNat] at hchar
  exact hchar hc

/-- A text of the characters of labels is free of content when it has few digits and dashes. -/
theorem forbiddenValue_test_eq_false {text : List Char}
    (hshape : ∀ c ∈ text, isCanonicalRest c = true) (hdigits : text.countP Char.isDigit < 9)
    (hdashes : text.countP (· == '-') < 5)
    (hkey : text.countP (· == 'k') = 0 ∨ text.countP (· == '-') = 0) :
    forbiddenValue.test text = false := by
  have hspace : text.countP isSpace < 1 := by
    rw [Nat.lt_one_iff, List.countP_eq_zero]
    intro c hc
    simp [(foldCase_canonicalRest (hshape c hc)).2]
  have hat : text.countP (· == '@') < 1 := by
    rw [Nat.lt_one_iff, List.countP_eq_zero]
    intro c hc hequal
    have hcanonical := hshape c hc
    rw [beq_iff_eq.mp hequal] at hcanonical
    exact absurd hcanonical (by decide)
  have hfold : ∀ k : Char, foldCase k = k →
      text.countP (fun c => foldCase k == foldCase c) = text.countP (· == k) := by
    intro k hk
    refine List.countP_congr (fun c hc => ?_)
    rw [hk, (foldCase_canonicalRest (hshape c hc)).1, beq_iff_eq, beq_iff_eq, eq_comm]
  have hbearer : (sequence [anyCase "bearer", space.plus,
      (Pattern.char (fun c => !isSpace c)).plus]).Takes 1 isSpace := by
    have hspaces : space.plus.Takes (1 * 1) isSpace := .repeated (.char (fun _ hc => hc)) (by simp)
    exact .seq (.zero _ _) (.seq hspaces (.zero _ _))
  have hsecret : ∀ k ∈ ['k', '-'], (sequence [anyCase "sk-",
      .repeated 12 none (anyCaseChar Char.isAlphanum)]).Takes 1
        (fun c => foldCase k == foldCase c) := by
    have hliteral : ∀ k ∈ ['k', '-'],
        (anyCase "sk-").Takes 1 (fun c => foldCase k == foldCase c) := by
      intro k hk
      rcases List.mem_pair.mp hk with rfl | rfl
      · exact .seq (.zero _ _) (.seq (m := 1) (n := 0) (.char (fun _ hc => hc)) (.zero _ _))
      · exact .seq (.zero _ _) (.seq (.zero _ _) (.char (fun _ hc => hc)))
    exact fun k hk => .seq (n := 0) (hliteral k hk) (.zero _ _)
  have hkeyed : (anyCase "-----BEGIN").Takes 5 (fun c => foldCase '-' == foldCase c) := by
    have hdash : (Pattern.char (fun c => foldCase '-' == foldCase c)).Takes 1
        (fun c => foldCase '-' == foldCase c) := .char (fun _ hc => hc)
    exact .seq hdash (.seq hdash (.seq hdash (.seq hdash (.seq (n := 0) hdash (.zero _ _)))))
  have hsocial : (sequence [anyCaseBoundary, digit.times 3, .char (· == '-'), digit.times 2,
      .char (· == '-'), digit.times 4, anyCaseBoundary]).Takes 9 Char.isDigit := by
    have hdigit : ∀ n, (digit.times n).Takes (n * 1) Char.isDigit :=
      fun n => .repeated (.char (fun _ hc => hc)) (fun _ hlimit => (Option.some.inj hlimit).le)
    exact .seq (.zero _ _) (.seq (hdigit 3) (.seq (.zero _ _) (.seq (hdigit 2)
      (.seq (.zero _ _) (.seq (n := 0) (hdigit 4) (.zero _ _))))))
  have hcard : (sequence [anyCaseBoundary,
      .repeated 13 (some 19) (.seq digit (Pattern.char (fun c => c == ' ' || c == '-')).star),
      anyCaseBoundary]).Takes 13 Char.isDigit := by
    have hdigit : digit.Takes 1 Char.isDigit := .char (fun _ hc => hc)
    have hdigits : (Pattern.repeated 13 (some 19)
        (.seq digit (Pattern.char (fun c => c == ' ' || c == '-')).star)).Takes (13 * (1 + 0))
          Char.isDigit := .repeated (.seq hdigit (.zero _ _)) (by simp)
    exact .seq (.zero _ _) (.seq (n := 0) hdigits (.zero _ _))
  have hmail : (sequence [anyCaseBoundary,
      (anyCaseChar (fun c => c.isAlphanum || "._%+-".toList.contains c)).plus, .char (· == '@'),
      (anyCaseChar (fun c => c.isAlphanum || c == '.' || c == '-')).plus, .char (· == '.'),
      .repeated 2 none (anyCaseChar Char.isAlpha), anyCaseBoundary]).Takes 1 (· == '@') := by
    exact .seq (.zero _ _) (.seq (.zero _ _) (.seq (n := 0) (.char (fun _ hc => hc)) (.zero _ _)))
  simp only [forbiddenValue, oneOf, test_alt, Bool.or_eq_false_iff]
  refine ⟨hbearer.test_eq_false hspace, ?_, ?_, ?_, ?_, hmail.test_eq_false hat⟩
  · rcases hkey with hnone | hnone
    · refine (hsecret 'k' (by simp)).test_eq_false ?_
      rw [hfold 'k' (by decide), hnone]
      exact Nat.one_pos
    · refine (hsecret '-' (by simp)).test_eq_false ?_
      rw [hfold '-' (by decide), hnone]
      exact Nat.one_pos
  · refine hkeyed.test_eq_false ?_
    rw [hfold '-' (by decide)]
    exact hdashes
  · exact hsocial.test_eq_false hdigits
  · exact hcard.test_eq_false (by omega)

/-! ## Labels of requests -/

/-- The characters of a text that is plain enough to be a part of a label. -/
structure Plain (text : List Char) : Prop where
  shape : text.all isCanonicalRest = true
  short : text.length ≤ 60
  digits : text.countP Char.isDigit ≤ 1
  dashes : text.countP (· == '-') ≤ 2
  keyless : text.countP (· == 'k') = 0 ∨ text.countP (· == '-') = 0

instance (text : List Char) : Decidable (Plain text) :=
  decidable_of_iff (text.all isCanonicalRest = true ∧ text.length ≤ 60 ∧
      text.countP Char.isDigit ≤ 1 ∧ text.countP (· == '-') ≤ 2 ∧
      (text.countP (· == 'k') = 0 ∨ text.countP (· == '-') = 0))
    ⟨fun ⟨shape, short, digits, dashes, keyless⟩ => ⟨shape, short, digits, dashes, keyless⟩,
      fun h => ⟨h.shape, h.short, h.digits, h.dashes, h.keyless⟩⟩

/-- A method in lower case. -/
def lowerMethod (method : String) : String := String.ofList (method.toList.map Char.toLower)

theorem routes_checked : ∀ route ∈ registeredRoutes,
    (route.2 ∈ unlabelledRoutes ∧ isContentFree route.2 = false) ∨
      (route.2 ∉ unlabelledRoutes ∧ Plain route.2.toList ∧ route.2.toList.head? = some '/') := by
  decide +kernel

theorem registered_methods : ∀ route ∈ registeredRoutes, route.1 = "GET" ∨ route.1 = "POST" := by
  decide +kernel

theorem methods_checked : ∀ method ∈ httpMethods,
    method.toList.all (fun c => decide (c.val < 128)) = true ∧ Plain (lowerMethod method).toList ∧
      (lowerMethod method).toList.head?.any Char.isLower = true := by
  decide +kernel

theorem answering_methods : ∀ method ∈ ["GET", "POST", "HEAD"], method ∈ httpMethods ∧
    (lowerMethod method).toList.countP (· == 'k') = 0 ∧
      (lowerMethod method).toList.countP (· == '-') = 0 := by
  decide +kernel

theorem unmatched_checked : "unmatched" ∉ unlabelledRoutes ∧ Plain "unmatched".toList ∧
    "unmatched".toList.head? = some 'u' ∧ "unmatched".toList.countP (· == 'k') = 0 ∧
      "unmatched".toList.countP (· == '-') = 0 := by
  decide +kernel

/-- What plain texts have in common with texts of labels. -/
theorem Plain.forbidden {text : List Char} (h : Plain text) :
    forbiddenValue.test text = false := by
  have hdigits := h.digits
  have hdashes := h.dashes
  exact forbiddenValue_test_eq_false (List.all_eq_true.mp h.shape) (by omega) (by omega) h.keyless

/-- A plain text that begins like a label is one. -/
theorem Plain.isContentFree {text : String} (h : Plain text.toList)
    (hfirst : text.toList.head?.any (fun c => isLowerOrDigit c || c == '/') = true) :
    isContentFree text = true := by
  have hforbidden := h.forbidden
  have hshort := h.short
  have hshape := h.shape
  unfold Telemetry.isContentFree hasShape
  cases hlist : text.toList with
  | nil => simp [hlist] at hfirst
  | cons c cs =>
    rw [hlist] at hfirst hforbidden hshort hshape
    rw [List.all_cons, Bool.and_eq_true] at hshape
    rw [List.length_cons] at hshort
    have hlength : cs.length ≤ 159 := by omega
    simp only [List.head?_cons, Option.any_some] at hfirst
    simp only [hfirst, hlength, decide_true, hshape.2, hforbidden, Bool.not_false, Bool.and_self]

/-- Two plain texts make an action, unless they bring a dash and the letter before it together. -/
theorem action_canonical {method route : String} (hmethod : Plain method.toList)
    (hroute : Plain route.toList) (hfirst : method.toList.head?.any Char.isLower = true)
    (hkey : method.toList.countP (· == 'k') + route.toList.countP (· == 'k') = 0 ∨
      method.toList.countP (· == '-') + route.toList.countP (· == '-') = 0) :
    isCanonical (method ++ ":" ++ route) = true := by
  have hlist : (method ++ ":" ++ route).toList = method.toList ++ ':' :: route.toList := by
    simp
  have hforbidden : forbiddenValue.test (method.toList ++ ':' :: route.toList) = false := by
    have hcount : ∀ accepts : Char → Bool, accepts ':' = false →
        (method.toList ++ ':' :: route.toList).countP accepts =
          method.toList.countP accepts + route.toList.countP accepts := by
      intro accepts hcolon
      rw [List.countP_append, List.countP_cons_of_neg (by simp [hcolon])]
    have hdigits := hmethod.digits
    have hdigits' := hroute.digits
    have hdashes := hmethod.dashes
    have hdashes' := hroute.dashes
    refine forbiddenValue_test_eq_false ?_ ?_ ?_ ?_
    · intro c hc
      rcases List.mem_append.mp hc with hmem | hmem
      · exact List.all_eq_true.mp hmethod.shape c hmem
      · rcases List.mem_cons.mp hmem with rfl | hrest
        · decide
        · exact List.all_eq_true.mp hroute.shape c hrest
    · rw [hcount _ (by decide)]
      omega
    · rw [hcount _ (by decide)]
      omega
    · rw [hcount _ (by decide), hcount _ (by decide)]
      exact hkey
  unfold isCanonical hasShape
  rw [hlist]
  cases hcs : method.toList with
  | nil => simp [hcs] at hfirst
  | cons c cs =>
    have hshape := hmethod.shape
    have hshort := hmethod.short
    have hshort' := hroute.short
    rw [hcs] at hfirst hforbidden hshape hshort
    rw [List.all_cons, Bool.and_eq_true] at hshape
    rw [List.length_cons] at hshort
    have hlower : isLowerOrDigit c = true := by
      simpa [isLowerOrDigit] using Or.inl hfirst
    have hlength : (cs ++ ':' :: route.toList).length ≤ 159 := by
      rw [List.length_append, List.length_cons]
      omega
    have hall : (cs ++ ':' :: route.toList).all isCanonicalRest = true := by
      rw [List.all_append, List.all_cons, hshape.2, hroute.shape]
      decide
    rw [List.cons_append] at hforbidden ⊢
    simp only [hlower, hlength, decide_true, hall, hforbidden, Bool.not_false, Bool.and_self]

/-- What is known of the method and the route of a request that is answered. -/
structure Request.Labelled (request : Request) : Prop where
  ascii : request.method.toList.all (fun c => decide (c.val < 128)) = true
  method : isContentFree (lowerMethod request.method) = true
  unlabelled : request.route ∈ unlabelledRoutes → isContentFree request.route = false
  labelled : request.route ∉ unlabelledRoutes → isContentFree request.route = true ∧
    isCanonical (lowerMethod request.method ++ ":" ++ request.route) = true

theorem Request.Admitted.labelled {request : Request} (h : request.Admitted) :
    request.Labelled := by
  have hmethods : ∀ method ∈ httpMethods, isContentFree (lowerMethod method) = true := by
    intro method hmethod
    obtain ⟨-, hplain, hfirst⟩ := methods_checked method hmethod
    refine hplain.isContentFree ?_
    rw [Option.any_eq_true] at hfirst ⊢
    obtain ⟨c, hc, hlower⟩ := hfirst
    exact ⟨c, hc, by simp [isLowerOrDigit, hlower]⟩
  unfold Request.Admitted at h
  cases hurl : request.routeUrl with
  | none =>
    rw [hurl] at h
    obtain ⟨hascii, hplain, hfirst⟩ := methods_checked request.method h
    obtain ⟨hlabelled, hroute, hstart, hkeys, hdashes⟩ := unmatched_checked
    refine ⟨hascii, hmethods _ h, fun hmem => absurd hmem ?_, fun _ => ⟨?_, ?_⟩⟩
    · rwa [Request.route, hurl, Option.getD_none]
    · rw [Request.route, hurl, Option.getD_none]
      exact hroute.isContentFree (by rw [hstart]; decide)
    · rw [Request.route, hurl, Option.getD_none]
      refine action_canonical hplain hroute hfirst ?_
      rw [hkeys, hdashes]
      exact hplain.keyless
  | some url =>
    rw [hurl] at h
    have hregistered : request.method ∈ ["GET", "POST", "HEAD"] ∧
        ∃ method, (method, url) ∈ registeredRoutes := by
      rcases h with hroute | ⟨hhead, hroute⟩
      · refine ⟨?_, _, hroute⟩
        rcases registered_methods _ hroute with hmethod | hmethod
        · rw [show request.method = "GET" from hmethod]
          simp
        · rw [show request.method = "POST" from hmethod]
          simp
      · refine ⟨?_, _, hroute⟩
        rw [hhead]
        simp
    obtain ⟨hmethod, method, hroute⟩ := hregistered
    obtain ⟨hknown, hkeys, hdashes⟩ := answering_methods _ hmethod
    obtain ⟨hascii, hplain, hfirst⟩ := methods_checked _ hknown
    refine ⟨hascii, hmethods _ hknown, fun hmem => ?_, fun hmem => ?_⟩
    · rw [Request.route, hurl, Option.getD_some] at hmem ⊢
      rcases routes_checked _ hroute with hbad | hgood
      · exact hbad.2
      · exact absurd hmem hgood.1
    · rw [Request.route, hurl, Option.getD_some] at hmem ⊢
      rcases routes_checked _ hroute with hbad | hgood
      · exact absurd hbad.1 hmem
      · obtain ⟨-, hurlPlain, hstart⟩ := hgood
        refine ⟨hurlPlain.isContentFree (by rw [hstart]; decide), ?_⟩
        refine action_canonical hplain hurlPlain hfirst ?_
        rw [hkeys, hdashes, Nat.zero_add, Nat.zero_add]
        exact hurlPlain.keyless

/-! ## Hooks that do not throw -/

section Total

variable {platform : HookPlatform} {request : Request} {statusCode : Nat}

theorem environment_checked (environment : NodeEnvironment) :
    isContentFree environment.text = true ∧ isCanonical environment.text = true := by
  cases environment <;> decide +kernel

theorem statusClass_contentFree (hleast : 100 ≤ statusCode) (hmost : statusCode ≤ 999) :
    isContentFree (toString (statusCode / 100) ++ "xx") = true := by
  have hall : ∀ hundreds < 10, 1 ≤ hundreds →
      isContentFree (toString hundreds ++ "xx") = true := by decide +kernel
  exact hall _ (by omega) (by omega)

theorem statusOutcome_contentFree (statusCode : Nat) :
    isContentFree (statusOutcome statusCode).text = true := by
  have hall : ∀ outcome ∈ [TelemetryOutcome.success, .denied, .failure],
      isContentFree outcome.text = true := by decide +kernel
  refine hall _ ?_
  unfold statusOutcome
  split
  · simp
  · split
    · simp
    · simp

theorem label_keys : ∀ key ∈ ["service", "environment", "method", "route", "status_class",
    "outcome", "error_class"], labelKeys.contains key = true := by
  simp [labelKeys]

theorem service_checked : isContentFree "legacy-api" = true ∧ isCanonical "legacy-api" = true := by
  decide +kernel

/-- A label of a known key is accepted when its value is. -/
theorem labelAccepted_iff {key value : String} (hkey : key ∈ ["service", "environment", "method",
    "route", "status_class", "outcome", "error_class"]) :
    labelAccepted (key, value) = true ↔ isContentFree value = true := by
  rw [labelAccepted, label_keys key hkey, Bool.true_and]

theorem lower_method (hsound : platform.Sound) (hrequest : request.Admitted) :
    platform.toLowerCase request.method = lowerMethod request.method :=
  hsound.toLowerCase _ hrequest.labelled.ascii

theorem route_contentFree_iff (hrequest : request.Admitted) :
    isContentFree request.route = true ↔ request.route ∉ unlabelledRoutes := by
  constructor
  · intro hfree hmem
    exact absurd (hfree.symm.trans (hrequest.labelled.unlabelled hmem)) (by decide)
  · exact fun hmem => (hrequest.labelled.labelled hmem).1

/-- The labels of a request are accepted when its route is. -/
theorem requestLabels_accepted_iff (hsound : platform.Sound) (hrequest : request.Admitted)
    (hleast : 100 ≤ statusCode) (hmost : statusCode ≤ 999) :
    (requestLabels platform request statusCode).all labelAccepted = true ↔
      request.route ∉ unlabelledRoutes := by
  have hmethod := hrequest.labelled.method
  simp only [requestLabels, List.all_cons, List.all_nil, Bool.and_true, Bool.and_eq_true]
  rw [labelAccepted_iff (by simp), labelAccepted_iff (by simp), labelAccepted_iff (by simp),
    labelAccepted_iff (by simp), labelAccepted_iff (by simp), labelAccepted_iff (by simp),
    lower_method hsound hrequest, route_contentFree_iff hrequest]
  simp only [service_checked, environment_checked, hmethod, statusClass_contentFree hleast hmost,
    statusOutcome_contentFree, true_and, and_true]

/-- The tags of an error are accepted when its route and its name are. -/
theorem errorTags_accepted_iff (hsound : platform.Sound) (hrequest : request.Admitted)
    (name : String) :
    (∀ tag ∈ errorTags platform request name, labelAccepted tag = true) ↔
      request.route ∉ unlabelledRoutes ∧ isContentFree (platform.toLowerCase name) = true := by
  have hmethod := hrequest.labelled.method
  simp only [errorTags, List.forall_mem_cons, List.not_mem_nil,
    IsEmpty.forall_iff, implies_true, and_true]
  rw [labelAccepted_iff (by simp), labelAccepted_iff (by simp), labelAccepted_iff (by simp),
    labelAccepted_iff (by simp), labelAccepted_iff (by simp), lower_method hsound hrequest,
    route_contentFree_iff hrequest]
  simp only [service_checked, environment_checked, hmethod, true_and]

/-- A request has an id that is an identifier unless its header has another text. -/
theorem requestId_isIdentifier_iff (hsound : platform.Sound) :
    isIdentifier (requestId platform request) = true ↔
      ∀ id, request.requestIdHeader = some id → id = "" ∨ isIdentifier id = true := by
  unfold requestId nonempty
  cases hheader : request.requestIdHeader with
  | none => simp [hsound.generatedId]
  | some id =>
    by_cases hempty : id = ""
    · simp [hempty, hsound.generatedId, Option.filter]
    · simp [hempty, Option.filter]

/-- The trace id of a request is one. -/
theorem requestTraceId_isTraceId (hsound : platform.Sound) :
    isTraceId (requestTraceId platform request) = true := by
  unfold requestTraceId
  cases htrace : traceIdFromTraceparent request.traceparent with
  | none =>
    have hlength := hsound.digestLength (requestId platform request)
    have hhex := hsound.digestHex (requestId platform request)
    rw [Option.getD_none, isTraceId, String.toList_ofList, List.length_take, hlength]
    simp only [Bool.and_eq_true]
    refine ⟨by decide, List.all_eq_true.mpr (fun c hc => ?_)⟩
    exact List.all_eq_true.mp hhex c (List.mem_of_mem_take hc)
  | some traceId =>
    obtain ⟨text, -, htext⟩ := Option.bind_eq_some_iff.mp htrace
    simp only [Option.ite_none_right_eq_some, Option.some.injEq] at htext
    obtain ⟨⟨hlength, -, hhex, -⟩, rfl⟩ := htext
    rw [Option.getD_some, isTraceId, String.toList_ofList, List.length_take, List.length_drop,
      hlength, hhex]
    decide

/-- The log record of a request is emitted when its route and its id are accepted. -/
theorem completionLog_ok_iff (hsound : platform.Sound) (hrequest : request.Admitted)
    (statusCode : Nat) (durationMs : Measure) (hroute : request.route ∉ unlabelledRoutes) :
    (∃ logged, (completionLog platform request statusCode durationMs).log platform.now =
      .ok logged) ↔ isIdentifier (requestId platform request) = true := by
  have hchecks : (∀ check ∈ (completionLog platform request statusCode durationMs).checks,
      check.1 = true) ↔ isIdentifier (requestId platform request) = true := by
    have haction := (hrequest.labelled.labelled hroute).2
    rw [← lower_method hsound hrequest] at haction
    simp only [LogInput.checks, completionLog, List.forall_mem_cons, List.not_mem_nil,
      IsEmpty.forall_iff, implies_true, List.isEmpty_nil, service_checked, environment_checked,
      requestTraceId_isTraceId hsound, haction, durationMs.valid, isAbsentOr, Option.all_none,
      true_and, and_true]
  rw [LogInput.log]
  cases hassert : assertAll (completionLog platform request statusCode durationMs).checks with
  | ok _ =>
    have haccepted := hchecks.mp (assertAll_eq_ok.mp hassert)
    exact ⟨fun _ => haccepted, fun _ => ⟨_, rfl⟩⟩
  | error message =>
    constructor
    · intro hlogged
      obtain ⟨logged, hlogged⟩ := hlogged
      exact absurd hlogged (by simp [Bind.bind, Except.bind])
    · intro haccepted
      exact absurd (hassert.symm.trans (assertAll_eq_ok.mpr (hchecks.mpr haccepted))) (by simp)

/-- Nothing is rejected of a request on a route that labels can have and with an id that is an
identifier, and only then is everything emitted. -/
theorem onResponse_records_iff (hsound : platform.Sound) (hrequest : request.Admitted)
    (hleast : 100 ≤ statusCode) (hmost : statusCode ≤ 999) (durationMs : Measure) :
    RecordsCompletion (onResponse platform request statusCode durationMs) ↔
      request.route ∉ unlabelledRoutes ∧ isIdentifier (requestId platform request) = true := by
  have hlabels := requestLabels_accepted_iff hsound hrequest hleast hmost
  have hrecord : ∀ name value, metricNames.contains name = true → isMeasure value = true →
      (recordAccepted name value (requestLabels platform request statusCode) = true ↔
        request.route ∉ unlabelledRoutes) := by
    intro name value hname hvalue
    rw [recordAccepted, hname, hvalue, Bool.true_and, Bool.true_and, hlabels]
  have hduration := hrecord "legacy_http_request_duration_ms" durationMs.value (by simp [metricNames])
    durationMs.valid
  have htotal := hrecord "legacy_http_requests_total" (.ofNat 1) (by simp [metricNames]) (by decide)
  constructor
  · intro hrecords
    obtain ⟨duration, total, completed, houtcome, -, -⟩ := hrecords
    have hall := emitAll_eq_ok.mp (congrArg Prod.snd houtcome)
    have hroute : request.route ∉ unlabelledRoutes := by
      by_contra hmem
      obtain ⟨message, hmessage⟩ := record_of_rejected
        (fun haccepted => hduration.mp haccepted hmem) platform.now
      obtain ⟨event, hevent⟩ := hall _ List.mem_cons_self
      rw [hmessage] at hevent
      cases hevent
    refine ⟨hroute, (completionLog_ok_iff hsound hrequest statusCode durationMs hroute).mp ?_⟩
    obtain ⟨event, hevent⟩ := hall _
      (List.mem_cons_of_mem _ (List.mem_cons_of_mem _ List.mem_cons_self))
    cases hlog : (completionLog platform request statusCode durationMs).log platform.now with
    | ok logged => exact ⟨logged, rfl⟩
    | error message =>
      rw [hlog] at hevent
      cases hevent
  · intro h
    obtain ⟨hroute, hid⟩ := h
    obtain ⟨logged, hlogged⟩ :=
      (completionLog_ok_iff hsound hrequest statusCode durationMs hroute).mpr hid
    obtain ⟨duration, hfirst, hname⟩ : ∃ point, record "legacy_http_request_duration_ms"
        durationMs.value (requestLabels platform request statusCode) platform.now = .ok point ∧
        point.name = "legacy_http_request_duration_ms" :=
      ⟨_, record_of_accepted (hduration.mpr hroute) platform.now, rfl⟩
    obtain ⟨total, hsecond, hname'⟩ : ∃ point, record "legacy_http_requests_total" (.ofNat 1)
        (requestLabels platform request statusCode) platform.now = .ok point ∧
        point.name = "legacy_http_requests_total" :=
      ⟨_, record_of_accepted (htotal.mpr hroute) platform.now, rfl⟩
    refine ⟨duration, total, logged, ?_, hname, hname'⟩
    rw [onResponse, hfirst, hsecond, hlogged]
    exact emitAll_map_ok [Event.metric duration, Event.metric total, Event.log logged]

/-- An error is reported on a route that labels can have and with a name that is free of content in
lower case. -/
theorem onError_eq_ok_iff (hsound : platform.Sound) (hrequest : request.Admitted)
    (name message stack : String) (cause : Option JsonText.Json) :
    onError platform request name message stack cause = .ok () ↔
      request.route ∉ unlabelledRoutes ∧ isContentFree (platform.toLowerCase name) = true := by
  rw [← errorTags_accepted_iff hsound hrequest name,
    ← @assertLabels_eq_ok "error tag " "error tag is not allowed"]
  unfold onError capture
  cases assertAll ((errorTags platform request name).flatMap
      (labelChecks "error tag " "error tag is not allowed")) with
  | ok _ => simp [Bind.bind, Except.bind, Except.map, pure, Except.pure]
  | error message => simp [Bind.bind, Except.bind, Except.map]

/-- Requests are recorded unless their route is one of three that labels cannot have, or a client
names them with a text that is no identifier. Errors are reported unless they are of such a route,
or their name in lower case is no label. -/
theorem requestTelemetry_total_iff (platform : HookPlatform) (hsound : platform.Sound)
    (request : Request) (hrequest : request.Admitted) (statusCode : Nat)
    (hleast : 100 ≤ statusCode) (hmost : statusCode ≤ 999) (durationMs : Measure)
    (name message stack : String) (cause : Option JsonText.Json) :
    (RecordsCompletion (onResponse platform request statusCode durationMs) ↔
      request.route ∉ unlabelledRoutes ∧
        ∀ id, request.requestIdHeader = some id → id = "" ∨ isIdentifier id = true) ∧
    (onError platform request name message stack cause = .ok () ↔
      request.route ∉ unlabelledRoutes ∧ isContentFree (platform.toLowerCase name) = true) := by
  refine ⟨?_, onError_eq_ok_iff hsound hrequest name message stack cause⟩
  rw [onResponse_records_iff hsound hrequest hleast hmost, requestId_isIdentifier_iff hsound]

end Total

/-- A platform that digests every text to zeros. -/
def exampleHooks : HookPlatform where
  environment := .production
  generatedId := "req-1"
  sha256 _ := String.ofList (List.replicate 64 '0')
  toLowerCase text := String.ofList (text.toList.map Char.toLower)
  now := 0

theorem exampleHooks_sound : exampleHooks.Sound where
  generatedId := by decide
  digestLength _ := by rw [exampleHooks, String.toList_ofList, List.length_replicate]
  digestHex _ := by
    rw [exampleHooks, String.toList_ofList]
    decide
  toLowerCase _ _ := rfl

/-- A request for facts, with an id if the client gives one. -/
def exampleRequest (id : Option String) : Request := ⟨"GET", some "/v1/facts", id, none⟩

/-- A request that cancels a deletion. -/
def exampleCancellation : Request :=
  ⟨"POST", some "/v1/privacy-requests/:requestId/cancel-deletion", none, none⟩

theorem exampleRequest_admitted (id : Option String) : (exampleRequest id).Admitted := by
  have hroute : ("GET", "/v1/facts") ∈ registeredRoutes := by decide
  exact Or.inl hroute

theorem exampleCancellation_admitted : exampleCancellation.Admitted :=
  Or.inl (by rw [exampleCancellation]; decide)

/-- A duration of twelve milliseconds. -/
def exampleDuration : Measure := ⟨.ofNat 12, by decide⟩

theorem requestTelemetry_total_iff_example :
    (RecordsCompletion (onResponse exampleHooks (exampleRequest (some "request_1")) 200
        exampleDuration) ↔
      (exampleRequest (some "request_1")).route ∉ unlabelledRoutes ∧
        ∀ id, (exampleRequest (some "request_1")).requestIdHeader = some id →
          id = "" ∨ isIdentifier id = true) ∧
    (onError exampleHooks (exampleRequest (some "request_1")) "Error" "" "" none = .ok () ↔
      (exampleRequest (some "request_1")).route ∉ unlabelledRoutes ∧
        isContentFree (exampleHooks.toLowerCase "Error") = true) :=
  requestTelemetry_total_iff exampleHooks exampleHooks_sound (exampleRequest (some "request_1"))
    (exampleRequest_admitted _) 200 (by decide) (by decide) exampleDuration "Error" "" "" none

/-- A cancelled deletion is not recorded, nor is a request that its client names freely, and an
error with a name of two words is not reported. -/
theorem requestTelemetry_throws :
    ¬RecordsCompletion (onResponse exampleHooks exampleCancellation 200 exampleDuration) ∧
    ¬RecordsCompletion (onResponse exampleHooks (exampleRequest (some "a b")) 200
      exampleDuration) ∧
    onError exampleHooks (exampleRequest none) "Not Found" "" "" none ≠ .ok () := by
  refine ⟨fun hrecords => ?_, fun hrecords => ?_, fun hreports => ?_⟩
  · have hroute := ((onResponse_records_iff exampleHooks_sound exampleCancellation_admitted
      (by decide) (by decide) _).mp hrecords).1
    exact hroute (by rw [exampleCancellation]; decide)
  · have hid := ((onResponse_records_iff exampleHooks_sound (exampleRequest_admitted _)
      (by decide) (by decide) _).mp hrecords).2
    exact absurd hid (by decide)
  · have hname := ((onError_eq_ok_iff exampleHooks_sound (exampleRequest_admitted _) _ _ _ _).mp
      hreports).2
    exact absurd hname (by decide +kernel)

end LegacyVault.Telemetry
