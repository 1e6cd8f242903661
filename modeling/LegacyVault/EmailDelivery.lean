import LegacyVault.Library.CanonicalJson
import LegacyVault.Library.EcmaConversions
import LegacyVault.Library.RetryLoop

/-!
# Delivery of e-mails

`send` of the Resend adapter: its checks, the request it makes, and the loop
that tries again after a throttled or failed response, a body that cannot be
read, or an error of the transport.

The wait after a throttled or failed response is read from the `retry-after`
header. A header that is missing is `null`, and `Number(null)` is zero.
-/

namespace LegacyVault

open EcmaText EcmaValues JsonText RetryLoop

/-- `EmailMessage`. The recipient is its `to`. -/
structure EmailMessage where
  recipient : String
  subject : String
  html : String
  text : String
  idempotencyKey : String

/-- `EmailConfig`. The sender is its `from`; the timeout shows in the errors of the transport. -/
structure EmailConfig where
  apiKey : Option String
  sender : String
  baseUrl : Option String
  maxAttempts : Option Number

/-- What is read of a URL. -/
structure Url where
  protocol : String
  hostname : String
  href : String
  deriving DecidableEq

/-- What the transport is called with. -/
structure EmailRequest where
  url : String
  authorization : String
  contentType : String
  idempotencyKey : String
  body : String
  deriving DecidableEq

/-- What comes of a call of the transport: a response with its status, its `retry-after` header
and its body, when that is JSON, or an error of `fetch`. -/
inductive EmailOutcome where
  | response (status : Nat) (retryAfter : Option String) (body : Option Value)
  | threw

/-- `EmailProviderError`. -/
structure EmailProviderError where
  message : String
  status : Option Nat
  retryCount : Nat
  deriving DecidableEq

/-- Why an e-mail is not sent. -/
inductive EmailFailure where
  | error (message : String)
  | provider (error : EmailProviderError)
  deriving DecidableEq

/-! ## The request -/

/-- `/\r|\n/u.test(value)`. -/
def hasLineBreak (value : String) : Bool := value.toList.any (fun c => c == '\r' || c == '\n')

/-- The body of the request. -/
def emailBody (config : EmailConfig) (message : EmailMessage) : String :=
  stringify (.obj [("from", .str config.sender), ("to", .arr [.str message.recipient]),
    ("subject", .str message.subject), ("html", .str message.html), ("text", .str message.text)])

/-- `config.maxAttempts ?? 3`, when it is a safe integer from 1 to 5. -/
def checkedAttempts (config : EmailConfig) : Option Nat :=
  ((config.maxAttempts.getD (.ofNat 3)).natValue?).filter (fun n => 1 ≤ n && n ≤ 5)

/-- The request of a message and the number of attempts, after the checks of `send`.
`resolve` is `new URL`. -/
def emailRequest (resolve : String → String → Option Url) (config : EmailConfig)
    (message : EmailMessage) : Except EmailFailure (EmailRequest × Nat) :=
  match config.apiKey.filter (· ≠ "") with
  | none => .error (.error "Resend is not configured")
  | some apiKey =>
    if [message.recipient, message.subject, config.sender].any hasLineBreak then
      .error (.error "email header injection blocked")
    else
      match resolve "emails" (config.baseUrl.getD "https://api.resend.com/") with
      | none => .error (.error "Invalid URL")
      | some endpoint =>
        if endpoint.protocol ≠ "https:" ∨ endpoint.hostname ≠ "api.resend.com" then
          .error (.error "Resend endpoint is invalid")
        else
          match checkedAttempts config with
          | none => .error (.error "Resend max attempts is invalid")
          | some maxAttempts =>
            .ok (⟨endpoint.href, "Bearer " ++ apiKey, "application/json", message.idempotencyKey,
              emailBody config message⟩, maxAttempts)

/-! ## The attempts -/

/-- `Math.min(100 * 2 ** attempt, 2_000)`. -/
def emailBackoff (attempt : Nat) : ℚ := min (100 * 2 ^ attempt) 2000

/-- `Number(response.headers.get("retry-after"))`, when it is finite. -/
def retryAfterNumber (retryAfter : Option String) : Option ℚ :=
  match retryAfter with
  | none => some 0
  | some text => finiteNumber? text

/-- The wait after a response that is tried again. -/
def emailWait (retryAfter : Option String) (attempt : Nat) : ℚ :=
  match retryAfterNumber retryAfter with
  | some seconds => clampedProduct 0 2000 seconds 1000
  | none => emailBackoff attempt

/-- What is read of the body of a successful response. -/
inductive EmailBody where
  /-- The body is not JSON, or is `null`. -/
  | unreadable
  | invalid
  | accepted (id : String)

/-- Read the id of a body. -/
def readEmailBody : Option Value → EmailBody
  | none => .unreadable
  | some .null => .unreadable
  | some body =>
    match readMember "id" (some body) with
    | some (.str id) => if id = "" then .invalid else .accepted id
    | _ => .invalid

/-- An attempt after an error that is not an `EmailProviderError`. -/
def emailCaught (maxAttempts attempt : Nat) (lastStatus : Option Nat) :
    Step ℚ (Option Nat) (Except EmailFailure String) :=
  if maxAttempts ≤ attempt + 1 then
    .done (.error (.provider ⟨"Resend transport unavailable", lastStatus, attempt⟩))
  else .again (emailBackoff attempt) lastStatus

/-- An attempt of `send`. The state is the last status. -/
def emailAttempt (maxAttempts : Nat) (transport : Nat → EmailOutcome) (attempt : Nat)
    (lastStatus : Option Nat) : Step ℚ (Option Nat) (Except EmailFailure String) :=
  match transport attempt with
  | .threw => emailCaught maxAttempts attempt lastStatus
  | .response status retryAfter body =>
    if responseOk status then
      match readEmailBody body with
      | .unreadable => emailCaught maxAttempts attempt (some status)
      | .invalid => .done (.error (.provider ⟨"Resend response invalid", some status, attempt⟩))
      | .accepted id => .done (.ok id)
    else if ¬ (status = 429 ∨ 500 ≤ status) ∨ maxAttempts ≤ attempt + 1 then
      .done (.error (.provider ⟨"Resend HTTP " ++ toString status, some status, attempt⟩))
    else .again (emailWait retryAfter attempt) (some status)

/-- What `send` has called, how long it has waited after each call that was not its last, and
what it returns. -/
structure EmailDelivery where
  requests : List EmailRequest
  waits : List ℚ
  result : Except EmailFailure String

/-- The loop of `send`. -/
def emailTrace (request : EmailRequest) (maxAttempts : Nat) (transport : Nat → EmailOutcome) :
    Trace EmailRequest ℚ (Option Nat) (Except EmailFailure String) :=
  RetryLoop.run (fun _ => request) (emailAttempt maxAttempts transport) maxAttempts 0 none

/-- What `send` does after its checks. -/
def deliverEmail (request : EmailRequest) (maxAttempts : Nat) (transport : Nat → EmailOutcome) :
    EmailDelivery :=
  let trace := emailTrace request maxAttempts transport
  ⟨trace.calls, trace.waits, match trace.ending with
    | .ok result => result
    | .error lastStatus => .error (.provider ⟨"Resend delivery failed", lastStatus, 0⟩)⟩

/-- `send`, with what comes of its calls of the transport in turn. -/
def sendEmail (resolve : String → String → Option Url) (config : EmailConfig)
    (message : EmailMessage) (transport : Nat → EmailOutcome) : EmailDelivery :=
  match emailRequest resolve config message with
  | .error failure => ⟨[], [], .error failure⟩
  | .ok (request, maxAttempts) => deliverEmail request maxAttempts transport

/-! ## What an attempt comes to -/

/-- The id of a success. -/
def EmailOutcome.accepted? : EmailOutcome → Option String
  | .threw => none
  | .response status _ body =>
    if responseOk status then
      match readEmailBody body with
      | .accepted id => some id
      | _ => none
    else none

/-- Not a success, and not a response that is final. -/
def EmailOutcome.retryable : EmailOutcome → Bool
  | .threw => true
  | .response status _ body =>
    if responseOk status then
      match readEmailBody body with
      | .unreadable => true
      | _ => false
    else status == 429 || decide (500 ≤ status)

/-- The wait before the next attempt. -/
def EmailOutcome.wait (attempt : Nat) : EmailOutcome → ℚ
  | .threw => emailBackoff attempt
  | .response status retryAfter _ =>
    if responseOk status then emailBackoff attempt else emailWait retryAfter attempt

/-- The result of an attempt that is the last: the id of its success, or an error with its
index. -/
def EmailOutcome.Ends (outcome : EmailOutcome) (attempt : Nat)
    (result : Except EmailFailure String) : Prop :=
  match outcome.accepted? with
  | some id => result = .ok id
  | none => ∃ error, result = .error (.provider error) ∧ error.retryCount = attempt

/-- An error that is caught is tried again while attempts remain. -/
theorem emailCaught_cases (maxAttempts attempt : Nat) (lastStatus : Option Nat) :
    (attempt + 1 < maxAttempts ∧
      emailCaught maxAttempts attempt lastStatus = .again (emailBackoff attempt) lastStatus) ∨
    (¬ attempt + 1 < maxAttempts ∧ ∃ error : EmailProviderError, error.retryCount = attempt ∧
      emailCaught maxAttempts attempt lastStatus = .done (.error (.provider error))) := by
  unfold emailCaught
  by_cases hlast : maxAttempts ≤ attempt + 1
  · rw [if_pos hlast]
    exact Or.inr ⟨Nat.not_lt.mpr hlast, _, rfl, rfl⟩
  · rw [if_neg hlast]
    exact Or.inl ⟨Nat.not_le.mp hlast, rfl⟩

/-- An attempt goes on when its outcome is retryable and attempts remain; otherwise it is the
last. -/
theorem emailAttempt_cases (maxAttempts : Nat) (transport : Nat → EmailOutcome) (attempt : Nat)
    (lastStatus : Option Nat) :
    (((transport attempt).retryable = true ∧ attempt + 1 < maxAttempts) ∧
      ∃ after, emailAttempt maxAttempts transport attempt lastStatus =
        .again ((transport attempt).wait attempt) after) ∨
    (¬ ((transport attempt).retryable = true ∧ attempt + 1 < maxAttempts) ∧
      ∃ result, emailAttempt maxAttempts transport attempt lastStatus = .done result ∧
        (transport attempt).Ends attempt result) := by
  cases houtcome : transport attempt with
  | threw =>
    have hcaught : emailAttempt maxAttempts transport attempt lastStatus =
        emailCaught maxAttempts attempt lastStatus := by
      rw [emailAttempt, houtcome]
    rw [hcaught]
    rcases emailCaught_cases maxAttempts attempt lastStatus with
      ⟨hmore, hagain⟩ | ⟨hlast, error, hcount, hdone⟩
    · exact Or.inl ⟨⟨rfl, hmore⟩, lastStatus, hagain⟩
    · exact Or.inr ⟨fun hboth => hlast hboth.2, _, hdone, error, rfl, hcount⟩
  | response status retryAfter body =>
    by_cases hok : responseOk status = true
    · cases hbody : readEmailBody body with
      | unreadable =>
        have hcaught : emailAttempt maxAttempts transport attempt lastStatus =
            emailCaught maxAttempts attempt (some status) := by
          simp only [emailAttempt, houtcome, hok, if_true, hbody]
        rw [hcaught]
        rcases emailCaught_cases maxAttempts attempt (some status) with
          ⟨hmore, hagain⟩ | ⟨hlast, error, hcount, hdone⟩
        · have hretryable : (EmailOutcome.response status retryAfter body).retryable = true := by
            simp only [EmailOutcome.retryable, hok, if_true, hbody]
          have hwait : (EmailOutcome.response status retryAfter body).wait attempt =
              emailBackoff attempt := by
            rw [EmailOutcome.wait, if_pos hok]
          exact Or.inl ⟨⟨hretryable, hmore⟩, some status, by rw [hwait]; exact hagain⟩
        · refine Or.inr ⟨fun hboth => hlast hboth.2, _, hdone, ?_⟩
          simp only [EmailOutcome.Ends, EmailOutcome.accepted?, hok, if_true, hbody]
          exact ⟨error, rfl, hcount⟩
      | invalid =>
        refine Or.inr ⟨?_, .error (.provider ⟨"Resend response invalid", some status, attempt⟩),
          ?_, ?_⟩
        · simp only [EmailOutcome.retryable, hok, if_true, hbody]
          exact fun hboth => absurd hboth.1 Bool.noConfusion
        · simp only [emailAttempt, houtcome, hok, if_true, hbody]
        · simp only [EmailOutcome.Ends, EmailOutcome.accepted?, hok, if_true, hbody]
          exact ⟨_, rfl, rfl⟩
      | accepted id =>
        refine Or.inr ⟨?_, .ok id, ?_, ?_⟩
        · simp only [EmailOutcome.retryable, hok, if_true, hbody]
          exact fun hboth => absurd hboth.1 Bool.noConfusion
        · simp only [emailAttempt, houtcome, hok, if_true, hbody]
        · simp only [EmailOutcome.Ends, EmailOutcome.accepted?, hok, if_true, hbody]
    · have hretryable : (EmailOutcome.response status retryAfter body).retryable = true ↔
          status = 429 ∨ 500 ≤ status := by
        rw [EmailOutcome.retryable, if_neg hok, Bool.or_eq_true, beq_iff_eq, decide_eq_true_iff]
      by_cases hgo : (status = 429 ∨ 500 ≤ status) ∧ attempt + 1 < maxAttempts
      · refine Or.inl ⟨⟨hretryable.mpr hgo.1, hgo.2⟩, some status, ?_⟩
        have hagain : ¬ (¬ (status = 429 ∨ 500 ≤ status) ∨ maxAttempts ≤ attempt + 1) :=
          fun hlast => hlast.elim (fun hfinal => hfinal hgo.1) (Nat.not_le.mpr hgo.2)
        simp only [emailAttempt, houtcome, EmailOutcome.wait]
        rw [if_neg hok, if_neg hok, if_neg hagain]
      · refine Or.inr ⟨fun hboth => hgo ⟨hretryable.mp hboth.1, hboth.2⟩,
          .error (.provider ⟨"Resend HTTP " ++ toString status, some status, attempt⟩), ?_, ?_⟩
        · have hlast : ¬ (status = 429 ∨ 500 ≤ status) ∨ maxAttempts ≤ attempt + 1 :=
            (not_and_or.mp hgo).imp_right Nat.not_lt.mp
          simp only [emailAttempt, houtcome]
          rw [if_neg hok, if_pos hlast]
        · simp only [EmailOutcome.Ends, EmailOutcome.accepted?]
          rw [if_neg hok]
          exact ⟨_, rfl, rfl⟩

/-! ## The retries -/

/-- The number of a `retry-after` header that holds one. -/
def numericRetryAfter (retryAfter : Option String) : Option ℚ :=
  retryAfter.bind fun text => if isBlank text then none else finiteNumber? text

/-- The `retry-after` header of a response. -/
def EmailOutcome.retryAfter : EmailOutcome → Option String
  | .response _ retryAfter _ => retryAfter
  | .threw => none

/-- The seconds of a numeric header within 0 to 2000 ms, or the back-off without one. -/
def promisedWait (outcome : EmailOutcome) (attempt : Nat) : ℚ :=
  match numericRetryAfter outcome.retryAfter with
  | some seconds => clampedProduct 0 2000 seconds 1000
  | none => emailBackoff attempt

/-- A delivery as it is meant to be. -/
structure EmailRetries (config : EmailConfig) (message : EmailMessage) (maxAttempts : Nat)
    (transport : Nat → EmailOutcome) (delivery : EmailDelivery) : Prop where
  bounded : delivery.requests.length ≤ maxAttempts
  /-- Every request has the one body and the one key. -/
  alike : ∀ request ∈ delivery.requests, request.body = emailBody config message ∧
    request.idempotencyKey = message.idempotencyKey
  /-- There is a next request exactly after a retryable outcome, while attempts remain. -/
  stops : ∀ attempt < delivery.requests.length, attempt + 1 < delivery.requests.length ↔
    (transport attempt).retryable = true ∧ attempt + 1 < maxAttempts
  ends : ∃ last, delivery.requests.length = last + 1 ∧
    (transport last).Ends last delivery.result
  /-- One wait before every retry, as promised. -/
  between : delivery.waits.length + 1 = delivery.requests.length
  waits : ∀ attempt delay, delivery.waits[attempt]? = some delay →
    delay = promisedWait (transport attempt) attempt

/-- An attempt that is followed by another. -/
def Retried (maxAttempts : Nat) (transport : Nat → EmailOutcome) (attempt : Nat) : Prop :=
  attempt + 1 < maxAttempts ∧ ∀ earlier ≤ attempt, (transport earlier).retryable = true

/-- A throttled or failed response names a time, numeric or not; a successful one that cannot be
read names none, or that of the back-off. -/
def EmailOutcome.KeepsWait (attempt : Nat) : EmailOutcome → Prop
  | .threw => True
  | .response status retryAfter _ =>
    if responseOk status then
      ∀ seconds, numericRetryAfter retryAfter = some seconds →
        clampedProduct 0 2000 seconds 1000 = emailBackoff attempt
    else ∃ text, retryAfter = some text ∧ isBlank text = false

theorem emailBackoff_pos (attempt : Nat) : 0 < emailBackoff attempt := by
  have hpower : (0 : ℚ) < 100 * 2 ^ attempt := by positivity
  exact lt_min hpower (by norm_num)

/-- A header that is missing or blank is no wait at all. -/
theorem emailWait_zero {retryAfter : Option String}
    (h : ∀ text, retryAfter = some text → isBlank text = true) (attempt : Nat) :
    emailWait retryAfter attempt = 0 := by
  have hzero : retryAfterNumber retryAfter = some 0 := by
    cases retryAfter with
    | none => rfl
    | some text => exact finiteNumber?_blank (h text rfl)
  rw [emailWait, hzero]
  exact clampedProduct_zero le_rfl (by norm_num) 1000

/-- The wait is the promised one exactly under the condition. -/
theorem wait_eq_promised_iff (outcome : EmailOutcome) (attempt : Nat) :
    outcome.wait attempt = promisedWait outcome attempt ↔ outcome.KeepsWait attempt := by
  cases outcome with
  | threw => exact iff_of_true rfl trivial
  | response status retryAfter body =>
    rw [EmailOutcome.wait, EmailOutcome.KeepsWait, promisedWait, EmailOutcome.retryAfter]
    by_cases hok : responseOk status = true
    · rw [if_pos hok, if_pos hok]
      cases hheader : numericRetryAfter retryAfter with
      | none => exact iff_of_true rfl (by simp)
      | some seconds =>
        constructor
        · intro hsame other hother
          rw [← Option.some.inj hother]
          exact hsame.symm
        · exact fun hkept => (hkept seconds rfl).symm
    · rw [if_neg hok, if_neg hok]
      by_cases hblank : ∀ text, retryAfter = some text → isBlank text = true
      · have hnone : numericRetryAfter retryAfter = none := by
          cases retryAfter with
          | none => rfl
          | some text => exact if_pos (hblank text rfl)
        rw [emailWait_zero hblank, hnone]
        refine iff_of_false (emailBackoff_pos attempt).ne ?_
        rintro ⟨text, hgiven, hnot⟩
        exact absurd (hblank text hgiven) (by simp [hnot])
      · obtain ⟨text, hgiven, hnot⟩ :
            ∃ text, retryAfter = some text ∧ isBlank text = false := by
          simpa using hblank
        subst hgiven
        have hnumeric : numericRetryAfter (some text) = finiteNumber? text := by
          rw [numericRetryAfter, Option.bind_some, if_neg (by simp [hnot])]
        rw [hnumeric]
        exact iff_of_true rfl ⟨text, rfl, hnot⟩

/-- A request passes the checks with one to five attempts, the body and the key. -/
theorem emailRequest_ok {resolve : String → String → Option Url} {config : EmailConfig}
    {message : EmailMessage} {request : EmailRequest} {maxAttempts : Nat}
    (h : emailRequest resolve config message = .ok (request, maxAttempts)) :
    0 < maxAttempts ∧ request.body = emailBody config message ∧
      request.idempotencyKey = message.idempotencyKey := by
  unfold emailRequest at h
  split at h
  · exact absurd h (by simp)
  split at h
  · exact absurd h (by simp)
  split at h
  · exact absurd h (by simp)
  split at h
  · exact absurd h (by simp)
  split at h
  · exact absurd h (by simp)
  · rename_i attempts hattempts
    obtain ⟨hrequest, hmax⟩ := Prod.mk.inj (Except.ok.inj h)
    obtain ⟨-, hbounds⟩ := Option.filter_eq_some_iff.mp hattempts
    have hpositive : 1 ≤ attempts := by
      rw [Bool.and_eq_true, decide_eq_true_iff, decide_eq_true_iff] at hbounds
      exact hbounds.1
    exact ⟨hmax ▸ hpositive, hrequest ▸ rfl, hrequest ▸ rfl⟩

section Loop

variable {request : EmailRequest} {maxAttempts : Nat} {transport : Nat → EmailOutcome}

/-- A wait is that of an attempt that goes on. -/
theorem emailTrace_wait {attempt : Nat} {delay : ℚ}
    (h : (emailTrace request maxAttempts transport).waits[attempt]? = some delay) :
    ((transport attempt).retryable = true ∧ attempt + 1 < maxAttempts) ∧
      delay = (transport attempt).wait attempt := by
  obtain ⟨before, after, hstep⟩ := waits_getElem? h
  rw [Nat.zero_add] at hstep
  rcases emailAttempt_cases maxAttempts transport attempt before with
    ⟨hgo, after', hagain⟩ | ⟨-, result, hdone, -⟩
  · rw [hagain] at hstep
    obtain ⟨hdelay, -⟩ := Step.again.inj hstep
    exact ⟨hgo, hdelay.symm⟩
  · exact absurd (hdone.symm.trans hstep) (by simp)

/-- The loop is done at an attempt that does not go on. -/
theorem emailTrace_done (request : EmailRequest) (transport : Nat → EmailOutcome)
    (hpositive : 0 < maxAttempts) :
    ∃ result, (emailTrace request maxAttempts transport).ending = .ok result ∧
      (emailTrace request maxAttempts transport).calls.length =
        (emailTrace request maxAttempts transport).waits.length + 1 ∧
      ¬ ((transport (emailTrace request maxAttempts transport).waits.length).retryable = true ∧
        (emailTrace request maxAttempts transport).waits.length + 1 < maxAttempts) ∧
      (transport (emailTrace request maxAttempts transport).waits.length).Ends
        (emailTrace request maxAttempts transport).waits.length result := by
  cases hending : (emailTrace request maxAttempts transport).ending with
  | ok result =>
    obtain ⟨hcalls, before, hstep⟩ := done_of_ending hending
    rw [Nat.zero_add] at hstep
    refine ⟨result, rfl, hcalls, ?_⟩
    rcases emailAttempt_cases maxAttempts transport
        (emailTrace request maxAttempts transport).waits.length before with
      ⟨-, after, hagain⟩ | ⟨hlast, found, hdone, hends⟩
    · exact absurd (hagain.symm.trans hstep) (by simp)
    · have hresult : found = result := Step.done.inj (hdone.symm.trans hstep)
      exact ⟨hlast, hresult ▸ hends⟩
  | error final =>
    rcases exhausted_of_ending hending with ⟨-, hwaits⟩ | ⟨before, -, hstep⟩
    · -- The last attempt of all would have gone on.
      have hlast : maxAttempts - 1 < (emailTrace request maxAttempts transport).waits.length := by
        have hlength : (emailTrace request maxAttempts transport).waits.length = maxAttempts :=
          hwaits
        omega
      have hmore := (emailTrace_wait (List.getElem?_eq_getElem hlast)).1.2
      omega
    · rcases emailAttempt_cases maxAttempts transport
          (0 + (emailTrace request maxAttempts transport).waits.length) before with
        ⟨-, after, hagain⟩ | ⟨-, found, hdone, -⟩
      · exact absurd (hagain.symm.trans hstep) (by simp)
      · exact absurd (hdone.symm.trans hstep) (by simp)

/-- Every attempt that is followed by another has its wait. -/
theorem emailTrace_retried (request : EmailRequest) {attempt : Nat}
    (h : Retried maxAttempts transport attempt) :
    (emailTrace request maxAttempts transport).waits[attempt]? =
      some ((transport attempt).wait attempt) := by
  have hlength : attempt < (emailTrace request maxAttempts transport).waits.length := by
    refine lt_waits_length (Nat.lt_of_succ_lt h.1) fun earlier hearlier before => ?_
    rw [Nat.zero_add]
    have hmore : earlier + 1 < maxAttempts :=
      Nat.lt_of_le_of_lt (Nat.succ_le_succ hearlier) h.1
    rcases emailAttempt_cases maxAttempts transport earlier before with
      ⟨-, after, hagain⟩ | ⟨hlast, -⟩
    · exact ⟨_, after, hagain⟩
    · exact absurd ⟨h.2 earlier hearlier, hmore⟩ hlast
  have hwait := List.getElem?_eq_getElem hlength
  rw [hwait, (emailTrace_wait hwait).2]

/-- The attempts before a wait are all followed by another. -/
theorem retried_of_wait {attempt : Nat} {delay : ℚ}
    (h : (emailTrace request maxAttempts transport).waits[attempt]? = some delay) :
    Retried maxAttempts transport attempt := by
  have hlength : attempt < (emailTrace request maxAttempts transport).waits.length :=
    (List.getElem?_eq_some_iff.mp h).1
  constructor
  · exact (emailTrace_wait h).1.2
  · intro earlier hearlier
    exact (emailTrace_wait (List.getElem?_eq_getElem (Nat.lt_of_le_of_lt hearlier hlength))).1.1

end Loop

/-- After the checks the requests and the waits are those of the loop. -/
theorem sendEmail_trace {resolve : String → String → Option Url} {config : EmailConfig}
    {message : EmailMessage} {request : EmailRequest} {maxAttempts : Nat}
    (h : emailRequest resolve config message = .ok (request, maxAttempts))
    (transport : Nat → EmailOutcome) :
    (sendEmail resolve config message transport).requests =
        (emailTrace request maxAttempts transport).calls ∧
      (sendEmail resolve config message transport).waits =
        (emailTrace request maxAttempts transport).waits := by
  simp only [sendEmail, h, deliverEmail, and_self]

/-- A delivery is as it is meant to be exactly when every response that is tried again keeps to
the wait. -/
theorem email_retries_iff {resolve : String → String → Option Url} {config : EmailConfig}
    {message : EmailMessage} {request : EmailRequest} {maxAttempts : Nat}
    (h : emailRequest resolve config message = .ok (request, maxAttempts))
    (transport : Nat → EmailOutcome) :
    EmailRetries config message maxAttempts transport
        (sendEmail resolve config message transport) ↔
      ∀ attempt, Retried maxAttempts transport attempt →
        (transport attempt).KeepsWait attempt := by
  obtain ⟨hpositive, hbody, hkey⟩ := emailRequest_ok h
  obtain ⟨result, hending, hcalls, hlast, hends⟩ :=
    emailTrace_done request transport hpositive
  obtain ⟨hrequests, hwaits⟩ := sendEmail_trace h transport
  have hresult : (sendEmail resolve config message transport).result = result := by
    simp only [sendEmail, h, deliverEmail, hending]
  constructor
  · intro hmeant attempt hretried
    have hwait := emailTrace_retried request hretried
    rw [← hwaits] at hwait
    exact (wait_eq_promised_iff _ attempt).mp (hmeant.waits attempt _ hwait)
  · intro hkeeps
    constructor
    · rw [hrequests]
      exact calls_length_le
    · intro made hmade
      rw [hrequests] at hmade
      obtain ⟨-, rfl⟩ := mem_calls hmade
      exact ⟨hbody, hkey⟩
    · intro attempt hattempt
      rw [hrequests, hcalls] at hattempt ⊢
      rcases Nat.lt_succ_iff_lt_or_eq.mp hattempt with hearlier | hequal
      · exact iff_of_true (Nat.succ_lt_succ hearlier)
          (emailTrace_wait (List.getElem?_eq_getElem hearlier)).1
      · rw [hequal]
        exact iff_of_false (Nat.lt_irrefl _) hlast
    · rw [hrequests, hresult]
      exact ⟨_, hcalls, hends⟩
    · rw [hrequests, hwaits]
      exact hcalls.symm
    · intro attempt delay hdelay
      rw [hwaits] at hdelay
      rw [(emailTrace_wait hdelay).2]
      exact (wait_eq_promised_iff _ attempt).mpr (hkeeps attempt (retried_of_wait hdelay))

/-- Two attempts. -/
def exampleEmailConfig : EmailConfig :=
  ⟨some "key", "notices@example.test", none, some (.ofNat 2)⟩

/-- A message. -/
def exampleEmail : EmailMessage :=
  ⟨"recipient@example.test", "Annual review ready", "html", "text", "notification"⟩

/-- The endpoint of every path. -/
def exampleResolve (path _base : String) : Option Url :=
  some ⟨"https:", "api.resend.com", "https://api.resend.com/" ++ path⟩

/-- The request of the message. -/
def exampleEmailRequest : EmailRequest :=
  ⟨"https://api.resend.com/emails", "Bearer key", "application/json", "notification",
    emailBody exampleEmailConfig exampleEmail⟩

theorem emailRequest_example :
    emailRequest exampleResolve exampleEmailConfig exampleEmail =
      .ok (exampleEmailRequest, 2) := by
  rfl

/-- A throttled response, then a success. -/
def exampleThrottled (retryAfter : Option String) : Nat → EmailOutcome
  | 0 => .response 429 retryAfter none
  | _ => .response 200 none (some (.obj [("id", .str "email")]))

theorem email_retries_iff_example :
    EmailRetries exampleEmailConfig exampleEmail 2 (exampleThrottled (some "30"))
      (sendEmail exampleResolve exampleEmailConfig exampleEmail
        (exampleThrottled (some "30"))) := by
  refine (email_retries_iff emailRequest_example (exampleThrottled (some "30"))).mpr ?_
  intro attempt hretried
  obtain rfl : attempt = 0 := by
    have hfirst := hretried.1
    omega
  exact ⟨"30", rfl, by decide⟩

/-- Without the header the second attempt follows at once. -/
theorem missing_header_waits_zero :
    (sendEmail exampleResolve exampleEmailConfig exampleEmail (exampleThrottled none)).waits[0]? =
        some 0 ∧
      ¬ EmailRetries exampleEmailConfig exampleEmail 2 (exampleThrottled none)
        (sendEmail exampleResolve exampleEmailConfig exampleEmail (exampleThrottled none)) := by
  have hretried : Retried 2 (exampleThrottled none) 0 := by
    refine ⟨by decide, fun earlier hearlier => ?_⟩
    rw [Nat.le_zero.mp hearlier]
    rfl
  have hmissing : ∀ text, (none : Option String) = some text → isBlank text = true := by simp
  have hzero : (exampleThrottled none 0).wait 0 = 0 := emailWait_zero hmissing 0
  have hwait := emailTrace_retried exampleEmailRequest hretried
  rw [← (sendEmail_trace emailRequest_example (exampleThrottled none)).2, hzero] at hwait
  refine ⟨hwait, fun h => ?_⟩
  have hpromised : (0 : ℚ) = emailBackoff 0 := h.waits 0 0 hwait
  exact (emailBackoff_pos 0).ne hpromised

end LegacyVault
