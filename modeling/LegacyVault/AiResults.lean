import LegacyVault.AiInterviewRuns

/-!
# What AI results reach

Which calls can be answered with one result, and what a result has passed
before it is answered or stored.

Two calls share a result through the exact-result cache when their household,
content and consent version agree, and through an idempotency map when their
household, content, replica and idempotency key do. Neither key names the
consent record. Results stay with their consent in the runs in which calls
that agree so act under one consent record.
-/

namespace LegacyVault

open JsonText LabelledCache RowTransaction

section Isolation

variable (runtime : AiRuntime)

/-- One consent record at one policy version. -/
def SameConsentRecord (a b : ActiveConsent) : Prop := a.id = b.id ∧ a.policyVersion = b.policyVersion

/-- The calls have one household and content, and one consent version or one idempotency key
on one replica. -/
def MayShare (a b : AiCall) : Prop :=
  SameHousehold runtime a.interview b.interview ∧ SameContent runtime a.interview b.interview ∧
    (a.interview.consent.version = b.interview.consent.version ∨
      (a.replica = b.replica ∧ runtime.normalize a.interview.input.idempotencyKey =
        runtime.normalize b.interview.input.idempotencyKey))

/-- Calls that may share a result act under one consent record. -/
def ConsentSeparated (admitted : List AiCall) : Prop :=
  ∀ a ∈ admitted, ∀ b ∈ admitted, MayShare runtime a b →
    SameConsentRecord a.interview.consent b.interview.consent

/-- The result was produced under the consent of the call, and the response names it. -/
def AiAnswer.Isolated (answer : AiAnswer) : Prop :=
  SameConsentRecord answer.producer.interview.consent answer.call.interview.consent ∧
    SameConsentRecord answer.response.consent answer.call.interview.consent

instance (a b : ActiveConsent) : Decidable (SameConsentRecord a b) :=
  inferInstanceAs (Decidable (_ ∧ _))

instance (a b : AdmittedInterview) : Decidable (SameHousehold runtime a b) :=
  inferInstanceAs (Decidable (_ ∧ _))

instance (a b : AdmittedInterview) : Decidable (SameContent runtime a b) :=
  inferInstanceAs (Decidable (_ = _))

instance (a b : AiCall) : Decidable (MayShare runtime a b) :=
  inferInstanceAs (Decidable (_ ∧ _ ∧ _))

instance (admitted : List AiCall) : Decidable (ConsentSeparated runtime admitted) :=
  inferInstanceAs (Decidable (∀ a ∈ admitted, ∀ b ∈ admitted, _ → _))

instance (answer : AiAnswer) : Decidable answer.Isolated := inferInstanceAs (Decidable (_ ∧ _))

variable {runtime}

theorem SameConsentRecord.trans {a b c : ActiveConsent} (h : SameConsentRecord a b)
    (h' : SameConsentRecord b c) : SameConsentRecord a c :=
  ⟨h.1.trans h'.1, h.2.trans h'.2⟩

/-- A result is supplied among calls that may share it. -/
theorem Supplies.mayShare {admitted : List AiCall} {producer call : AiCall}
    (h : Supplies runtime admitted producer call) : MayShare runtime producer call := by
  obtain ⟨hhousehold, hcontent, hversion⟩ := exactCacheKey_shared h.2
  exact ⟨hhousehold, hcontent, Or.inl hversion⟩

/-- A response is replayed among calls that may share its result. -/
theorem SameIdempotentRequest.mayShare {a b : AiCall} (h : SameIdempotentRequest runtime a b) :
    MayShare runtime a b := by
  obtain ⟨hreplica, hkey, hhash⟩ := h
  obtain ⟨hhousehold, hidempotency⟩ := idempotencyCacheKey_inj.mp hkey
  have hcontent : SameContent runtime a.interview b.interview :=
    congrArg runtime.normalize (requestHash_inj.mp hhash)
  exact ⟨hhousehold, hcontent, Or.inr ⟨hreplica, hidempotency⟩⟩

/-- In every run in which calls that may share a result act under one consent record, every
result stays with the consent it was produced under, and every response names the consent of
its call. -/
theorem results_stay_with_consent (runtime : AiRuntime) (vault : Vault) (events : List AiEvent)
    (h : ConsentSeparated runtime ((AiSystem.initial vault).run runtime events).admitted) :
    ∀ answer ∈ ((AiSystem.initial vault).run runtime events).answers, answer.Isolated := by
  intro answer hanswer
  have htraced := (traced_initial runtime vault).run events
  obtain ⟨hcall, author, hauthored, hrelated⟩ := htraced.answers answer hanswer
  have hproduced : SameConsentRecord answer.producer.interview.consent
      author.interview.consent :=
    h _ hauthored.supplied.1 _ hauthored.called hauthored.supplied.mayShare
  have hreplayed : SameConsentRecord author.interview.consent answer.call.interview.consent := by
    rcases hrelated with heq | hsame
    · rw [heq]
      exact ⟨rfl, rfl⟩
    · have hshared := h _ hcall _ hauthored.called hsame.mayShare
      exact ⟨hshared.1.symm, hshared.2.symm⟩
  obtain ⟨result, hresponse, -⟩ := hauthored.responds
  refine ⟨hproduced.trans hreplayed, ?_⟩
  rw [hresponse]
  exact hreplayed

/-- The caller's consent to external AI, under a policy version. -/
def exampleConsent (id policyVersion : String) (grantedAt : Instant) : AiEvent :=
  .recordConsent exampleCaller ⟨id, "p1", .externalAi, policyVersion, grantedAt⟩

/-- A call of the caller's under one idempotency key. -/
def exampleBegin (id : Nat) : AiEvent :=
  .begin id 0 exampleCaller ⟨"k1", 1, "hello", [.insurance]⟩

/-- A call that the provider answers, and then the same request again. -/
def exampleReplayedRun (between : List AiEvent) : List AiEvent :=
  [exampleConsent "c1" "2026-01" 1, exampleBegin 0, .cacheMiss 0,
    .provider 0 (.ok (.obj [("candidates", .arr []), ("followUpQuestion", .null)])),
    .store 0 true, .finish 0] ++ between ++ [exampleBegin 1]

theorem results_stay_with_consent_example :
    ((AiSystem.initial Store.empty).run exampleRuntime
      (exampleReplayedRun [])).answers.length = 2 ∧
    ∀ answer ∈ ((AiSystem.initial Store.empty).run exampleRuntime
      (exampleReplayedRun [])).answers, answer.Isolated :=
  ⟨by decide +kernel, results_stay_with_consent exampleRuntime Store.empty (exampleReplayedRun [])
    (by decide +kernel)⟩

/-- After a withdrawal and a new grant under another policy version, the idempotency map answers
with the result and the consent block of the withdrawn consent. -/
theorem results_cross_consents :
    ¬ ∀ answer ∈ ((AiSystem.initial Store.empty).run exampleRuntime
      (exampleReplayedRun [.withdrawConsent exampleCaller "c1" 1 2,
        exampleConsent "c2" "2026-02" 3])).answers, answer.Isolated := by
  decide +kernel

end Isolation

section Policy

mutual

/-- The strings of a value at any depth. Member names are not among them. -/
def stringLeaves : Json → List String
  | .str value => [value]
  | .arr items => itemLeaves items
  | .obj members => memberLeaves members
  | _ => []

/-- The strings of the items of an array. -/
def itemLeaves : List Json → List String
  | [] => []
  | item :: items => stringLeaves item ++ itemLeaves items

/-- The strings of the members of an object. -/
def memberLeaves : List (String × Json) → List String
  | [] => []
  | (_, value) :: members => stringLeaves value ++ memberLeaves members

end

/-- The strings of a candidate that are scanned: its quote and its proposed value. -/
def AiCandidate.leaves (candidate : AiCandidate) : List String :=
  candidate.evidenceQuote :: (candidate.proposedValue.map stringLeaves).getD []

/-- The strings of a result. -/
def AiInterviewResult.leaves (result : AiInterviewResult) : List String :=
  result.candidates.flatMap AiCandidate.leaves ++ result.followUpQuestion.toList

/-- Nothing is found in the text but prompt injection. -/
def Unobjectionable (text : String) : Prop := ∀ finding ∈ scanDlp text, finding = .promptInjection

/-- Every quote occurs in the message. -/
def Quoted (message : String) (result : AiInterviewResult) : Prop :=
  ∀ candidate ∈ result.candidates, candidate.evidenceQuote.toList <:+: message.toList

/-- Every candidate has a canonical category that was requested. -/
def Confined (categories : List RecordCategory) (result : AiInterviewResult) : Prop :=
  ∀ candidate ∈ result.candidates, ∃ category ∈ categories,
    recordCategoryFromFieldKey candidate.fieldKey = some category

/-- What a response may hold for a request. -/
structure OutputPolicy (interview : AdmittedInterview) (result : AiInterviewResult) : Prop where
  /-- Candidates keep to the requested categories. -/
  confined : Confined interview.categories result
  /-- Candidates quote the message. -/
  quoted : Quoted interview.input.message result
  /-- Nothing prohibited is found in any string. -/
  clean : ∀ leaf ∈ result.leaves, Unobjectionable leaf

variable {runtime : AiRuntime} {interview : AdmittedInterview}

/-- What passes the checks: a value of the schema, confined, with a text in which nothing is
found but prompt injection. -/
theorem handleValue_ok {value : Json} {result : AiInterviewResult} :
    handleValue runtime interview value = .ok result ↔
      aiInterviewSchema runtime value = some result ∧ Confined interview.categories result ∧
      Unobjectionable (stableStringify runtime.normalize result.toJson) := by
  unfold handleValue
  cases hparsed : aiInterviewSchema runtime value with
  | none => simp
  | some parsed =>
    simp only [Option.some.injEq]
    rw [checkResult_ok, checkCandidates_ok]
    constructor
    · rintro ⟨rfl, hconfined, hclean⟩
      exact ⟨rfl, hconfined, hclean⟩
    · rintro ⟨rfl, hconfined, hclean⟩
      exact ⟨rfl, hconfined, hclean⟩

/-- The provider's answer that does not pass the checks ends the call, and changes no cache. -/
theorem takeAnswer_refused {s : AiSystem} {id : Nat} {call : AiCall} {value : Json}
    {error : String} (h : handleValue runtime call.interview value = .error error) :
    s.takeAnswer runtime id call (.ok value) = s.withCall id none := by
  unfold AiSystem.takeAnswer
  split
  · rfl
  · rename_i parsed hparsed
    obtain ⟨value', hvalue', hschema⟩ := execute_result_ok hparsed
    have hsame : value = value' := Except.ok.inj hvalue'
    rw [handleValue, hsame, hschema] at h
    have hrefused : checkResult runtime call.interview.categories parsed = .error error := h
    rw [hrefused]

/-- A cached value that does not pass the checks is answered to nobody: the call ends, or goes
on to the provider with the entry deleted. -/
theorem takeCached_refused {s : AiSystem} {id : Nat} {call : AiCall}
    {held : Labelled AiCall Json} {error : String}
    (h : handleValue runtime call.interview held.value = .error error) :
    s.takeCached runtime id call held = s.withCall id none ∨
      s.takeCached runtime id call held =
        { s with exactCache := s.exactCache.delete (call.interview.exactCacheKey runtime) }.withCall
          id (some ⟨call, .invoking⟩) := by
  unfold AiSystem.takeCached
  cases hparsed : aiInterviewSchema runtime held.value with
  | none => exact Or.inr rfl
  | some parsed =>
    rw [handleValue, hparsed] at h
    have hrefused : checkResult runtime call.interview.categories parsed = .error error := h
    exact Or.inl (by simp [hrefused])

/-- Everything answered or held in a cache has passed the checks of a call. -/
structure OnlyChecked (runtime : AiRuntime) (s : AiSystem) : Prop where
  /-- The answers are results handled for a call that made the same request. -/
  answers : ∀ answer ∈ s.answers, ∃ author ∈ s.admitted,
    (answer.call = author ∨ SameIdempotentRequest runtime answer.call author) ∧
    HandledFor runtime author.interview answer.response.result
  /-- The exact-result cache holds canonical results. -/
  exact : ∀ entry ∈ s.exactCache, ∃ result,
    entry.2.value = canonicalize runtime.normalize result.toJson ∧
      HandledFor runtime entry.2.label.interview result
  /-- The idempotency maps hold responses. -/
  remembered : ∀ replica, ∀ entry ∈ s.idempotency replica, ∃ author ∈ s.admitted,
    HandledFor runtime author.interview entry.2.value.response.result

/-- What is traced has passed the checks. -/
theorem Traced.onlyChecked {s : AiSystem} (h : Traced runtime s) : OnlyChecked runtime s where
  answers := by
    intro answer hanswer
    obtain ⟨-, author, hauthored, hrelated⟩ := h.answers answer hanswer
    obtain ⟨result, hresponse, hhandled⟩ := hauthored.responds
    refine ⟨author, hauthored.called, hrelated, ?_⟩
    rw [hresponse]
    exact hhandled
  exact := by
    intro entry hentry
    obtain ⟨result, hvalue, hhandled, -⟩ := h.exact entry hentry
    exact ⟨result, hvalue, hhandled⟩
  remembered := by
    intro replica entry hentry
    obtain ⟨author, hauthored, -⟩ := h.remembered replica entry hentry
    obtain ⟨result, hresponse, hhandled⟩ := hauthored.responds
    refine ⟨author, hauthored.called, ?_⟩
    rw [hresponse]
    exact hhandled

/-- An admitted interview about insurance, with the message "hello". -/
def exampleInterview : AdmittedInterview where
  identity := exampleCaller
  input := ⟨"k1", 1, "hello", [.insurance]⟩
  consent := ⟨"c1", "2026-01", 1⟩

/-- A value with a quote that does not occur in the message. -/
def exampleUnquotedValue : Json :=
  .obj [("candidates", .arr [.obj [("fieldKey", .str "insurance.carrier"),
      ("proposedValue", .str "Acme"), ("evidenceQuote", .str "made up"), ("confidence", .nat 1)]]),
    ("followUpQuestion", .null)]

end Policy

end LegacyVault
