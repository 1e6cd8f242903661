import LegacyVault.AiInterviews
import LegacyVault.Library.LabelledCache

/-!
# Runs of AI interviews

Calls of `runAiInterview` among consent writes: the replicas of the API share
the database and the exact-result cache, and each has an idempotency map of
its own. A call is cut at its waits, and between them anything may happen. A
call that waits may fail, a cached entry may expire at any time, and a replica
may restart.

Every cached result and every answer is labelled with the call whose provider
request produced it. The labels are not part of the program.
-/

namespace LegacyVault

open JsonText LabelledCache RowTransaction

/-- A call that was admitted, on one of the replicas. -/
structure AiCall where
  replica : Nat
  interview : AdmittedInterview
  deriving DecidableEq

/-- What the idempotency map holds for a key. -/
structure IdempotentResponse where
  requestHash : String
  response : AiResponse
  deriving DecidableEq

/-- Where a call waits. -/
inductive AiPhase where
  /-- For the exact-result cache. -/
  | readingCache
  /-- For the provider. -/
  | invoking
  /-- To store the provider's result. -/
  | storing (result : Labelled AiCall AiInterviewResult)
  /-- To answer. -/
  | answering (result : Labelled AiCall AiInterviewResult)

/-- The result a call holds. -/
def AiPhase.result : AiPhase → Option (Labelled AiCall AiInterviewResult)
  | storing result | answering result => some result
  | readingCache | invoking => none

/-- A call in progress. -/
structure AiProgress where
  call : AiCall
  phase : AiPhase

/-- A call that was answered, and whose provider request produced the result. -/
structure AiAnswer where
  call : AiCall
  response : AiResponse
  producer : AiCall

/-- The database, the caches, the calls in progress, and the history of calls. -/
structure AiSystem where
  vault : Vault
  exactCache : Cache String AiCall Json
  idempotency : Nat → Cache String AiCall IdempotentResponse
  calls : Nat → Option AiProgress
  admitted : List AiCall
  answers : List AiAnswer

/-- A system in which nothing has been called. -/
def AiSystem.initial (vault : Vault) : AiSystem :=
  ⟨vault, [], fun _ => [], fun _ => none, [], []⟩

/-- Consent writes, the steps of calls, and what may happen between them. -/
inductive AiEvent where
  /-- `recordConsent`. -/
  | recordConsent (context : TenantContext) (input : ConsentWrite)
  /-- `withdrawConsent`. -/
  | withdrawConsent (context : TenantContext) (consentId : Identifier) (expectedVersion : Nat)
      (withdrawnAt : Instant)
  /-- A call begins, up to its first cache read. -/
  | begin (id replica : Nat) (identity : TenantContext) (input : AiInterviewInput)
  /-- The exact-result cache has an entry. -/
  | cacheHit (id : Nat)
  /-- The exact-result cache has no entry, or does not answer. -/
  | cacheMiss (id : Nat)
  /-- The provider answers or fails. -/
  | provider (id : Nat) (answer : Except String Json)
  /-- The result is stored, or the store fails. -/
  | store (id : Nat) (written : Bool)
  /-- The call answers. -/
  | finish (id : Nat)
  /-- A call in progress fails. -/
  | fail (id : Nat)
  /-- An entry expires or is purged. -/
  | evict (key : String)
  /-- A replica restarts. -/
  | restart (replica : Nat)

/-- The consent `getActiveConsent` returns for the calling person. -/
def activeAiConsent (identity : TenantContext) (vault : Vault) : Option ActiveConsent :=
  (activeConsent identity identity.actorId .externalAi vault).map ConsentRow.active

/-- Parse and check a value of the provider or of the cache. -/
def handleValue (runtime : AiRuntime) (interview : AdmittedInterview) (value : Json) :
    Except String AiInterviewResult :=
  match aiInterviewSchema runtime value with
  | none => .error "SchemaValidationError"
  | some parsed => checkResult runtime interview.categories parsed

namespace AiSystem

/-- Replace or end a call. -/
def withCall (s : AiSystem) (id : Nat) (progress : Option AiProgress) : AiSystem :=
  { s with calls := Function.update s.calls id progress }

/-- A call begins: consent, categories, and the idempotency map. -/
def beginCall (runtime : AiRuntime) (s : AiSystem) (id replica : Nat) (identity : TenantContext)
    (input : AiInterviewInput) : AiSystem :=
  if (s.calls id).isSome then s
  else match admitInterview runtime identity input (activeAiConsent identity s.vault) with
    | .error _ => s
    | .ok interview =>
      let call : AiCall := ⟨replica, interview⟩
      let s := { s with admitted := call :: s.admitted }
      match (s.idempotency replica).get (interview.idempotencyCacheKey runtime) with
      | some held =>
        if held.value.requestHash = interview.requestHash runtime then
          { s with answers := ⟨call, held.value.response, held.label⟩ :: s.answers }
        else s
      | none => s.withCall id (some ⟨call, .readingCache⟩)

/-- A call takes a cached value. One that does not parse is deleted, and counts as a miss. -/
def takeCached (runtime : AiRuntime) (s : AiSystem) (id : Nat) (call : AiCall)
    (held : Labelled AiCall Json) : AiSystem :=
  match aiInterviewSchema runtime held.value with
  | none =>
    { s with exactCache := s.exactCache.delete (call.interview.exactCacheKey runtime) }.withCall id
      (some ⟨call, .invoking⟩)
  | some parsed =>
    match checkResult runtime call.interview.categories parsed with
    | .error _ => s.withCall id none
    | .ok result => s.withCall id (some ⟨call, .answering ⟨result, held.label⟩⟩)

/-- A call takes the provider's answer. -/
def takeAnswer (runtime : AiRuntime) (s : AiSystem) (id : Nat) (call : AiCall)
    (answer : Except String Json) : AiSystem :=
  match (execute runtime.normalize (fun _ => answer) (aiInterviewSchema runtime)
      (call.interview.gatewayRequest runtime)).result with
  | .error _ => s.withCall id none
  | .ok parsed =>
    match checkResult runtime call.interview.categories parsed with
    | .error _ => s.withCall id none
    | .ok result => s.withCall id (some ⟨call, .storing ⟨result, call⟩⟩)

/-- A call stores its result in the exact-result cache. -/
def storeResult (runtime : AiRuntime) (s : AiSystem) (id : Nat) (call : AiCall)
    (result : Labelled AiCall AiInterviewResult) (written : Bool) : AiSystem :=
  let s := if written then
      { s with
        exactCache := s.exactCache.set (call.interview.exactCacheKey runtime)
          ⟨canonicalize runtime.normalize result.value.toJson, result.label⟩ }
    else s
  s.withCall id (some ⟨call, .answering result⟩)

/-- A call answers, and its response is kept in the idempotency map. -/
def answerCall (runtime : AiRuntime) (s : AiSystem) (id : Nat) (call : AiCall)
    (result : Labelled AiCall AiInterviewResult) : AiSystem :=
  let response := call.interview.respond runtime result.value
  { s with
    idempotency := Function.update s.idempotency call.replica
      (((s.idempotency call.replica).set (call.interview.idempotencyCacheKey runtime)
        ⟨⟨call.interview.requestHash runtime, response⟩, result.label⟩).bound 1000)
    calls := Function.update s.calls id none
    answers := ⟨call, response, result.label⟩ :: s.answers }

/-- One event. An event that does not apply changes nothing. -/
def step (runtime : AiRuntime) (s : AiSystem) : AiEvent → AiSystem
  | .recordConsent context input =>
    { s with vault := ((LegacyVault.recordConsent context input).transact s.vault).2 }
  | .withdrawConsent context consentId expectedVersion withdrawnAt =>
    { s with
      vault := ((LegacyVault.withdrawConsent context consentId expectedVersion withdrawnAt).transact
        s.vault).2 }
  | .begin id replica identity input => s.beginCall runtime id replica identity input
  | .cacheHit id =>
    match s.calls id with
    | some ⟨call, .readingCache⟩ =>
      match s.exactCache.get (call.interview.exactCacheKey runtime) with
      | some held => s.takeCached runtime id call held
      | none => s
    | _ => s
  | .cacheMiss id =>
    match s.calls id with
    | some ⟨call, .readingCache⟩ => s.withCall id (some ⟨call, .invoking⟩)
    | _ => s
  | .provider id answer =>
    match s.calls id with
    | some ⟨call, .invoking⟩ => s.takeAnswer runtime id call answer
    | _ => s
  | .store id written =>
    match s.calls id with
    | some ⟨call, .storing result⟩ => s.storeResult runtime id call result written
    | _ => s
  | .finish id =>
    match s.calls id with
    | some ⟨call, .answering result⟩ => s.answerCall runtime id call result
    | _ => s
  | .fail id => s.withCall id none
  | .evict key => { s with exactCache := s.exactCache.delete key }
  | .restart replica =>
    { s with
      idempotency := Function.update s.idempotency replica []
      calls := fun id => (s.calls id).filter (fun progress => progress.call.replica ≠ replica) }

/-- The events of a run, one after the other. -/
def run (runtime : AiRuntime) (s : AiSystem) (events : List AiEvent) : AiSystem :=
  events.foldl (step runtime) s

end AiSystem

/-- The provider's result parses by the schema. -/
theorem execute_result_ok {runtime : AiRuntime} {answer : Except String Json}
    {request : GatewayRequest} {parsed : AiInterviewResult}
    (h : (execute runtime.normalize (fun _ => answer) (aiInterviewSchema runtime)
      request).result = .ok parsed) :
    ∃ value, answer = .ok value ∧ aiInterviewSchema runtime value = some parsed := by
  unfold execute at h
  split at h
  · simp at h
  · split at h
    · simp at h
    · split at h
      · simp at h
      · cases answer with
        | error error => simp at h
        | ok value =>
          cases hparsed : aiInterviewSchema runtime value with
          | none => simp [hparsed] at h
          | some other =>
            have heq : other = parsed := by simpa [hparsed] using h
            exact ⟨value, rfl, by rw [hparsed, heq]⟩

section Provenance

variable {runtime : AiRuntime}

/-- The result came from a provider call or a cache entry that passed the checks of an
interview. -/
def HandledFor (runtime : AiRuntime) (interview : AdmittedInterview)
    (result : AiInterviewResult) : Prop :=
  ∃ value, handleValue runtime interview value = .ok result

/-- The producer was admitted, and shares the exact-cache key of the call. -/
def Supplies (runtime : AiRuntime) (admitted : List AiCall) (producer call : AiCall) : Prop :=
  producer ∈ admitted ∧
    producer.interview.exactCacheKey runtime = call.interview.exactCacheKey runtime

/-- The calls made one request under one idempotency key of one replica. -/
def SameIdempotentRequest (runtime : AiRuntime) (a b : AiCall) : Prop :=
  a.replica = b.replica ∧
    a.interview.idempotencyCacheKey runtime = b.interview.idempotencyCacheKey runtime ∧
    a.interview.requestHash runtime = b.interview.requestHash runtime

/-- What the author of a response relates it to. -/
structure Authored (runtime : AiRuntime) (admitted : List AiCall) (author : AiCall)
    (response : AiResponse) (producer : AiCall) : Prop where
  /-- The author was admitted. -/
  called : author ∈ admitted
  /-- The response is the author's, with a result that passed its checks. -/
  responds : ∃ result, response = author.interview.respond runtime result ∧
    HandledFor runtime author.interview result
  /-- The result was produced for the author's key. -/
  supplied : Supplies runtime admitted producer author

/-- What holds in every run: cached results passed the checks of the call that stored them,
and every answer is the response of a call that made the same request. -/
structure Traced (runtime : AiRuntime) (s : AiSystem) : Prop where
  /-- The exact-result cache. -/
  exact : s.exactCache.Holds (fun key held => ∃ result,
    held.value = canonicalize runtime.normalize result.toJson ∧
    HandledFor runtime held.label.interview result ∧ held.label ∈ s.admitted ∧
    key = held.label.interview.exactCacheKey runtime)
  /-- The idempotency maps. -/
  remembered : ∀ replica, (s.idempotency replica).Holds (fun key held => ∃ author,
    Authored runtime s.admitted author held.value.response held.label ∧
    author.replica = replica ∧ key = author.interview.idempotencyCacheKey runtime ∧
    held.value.requestHash = author.interview.requestHash runtime)
  /-- The calls in progress. -/
  calls : ∀ id progress, s.calls id = some progress → progress.call ∈ s.admitted ∧
    ∀ result, progress.phase.result = some result →
      HandledFor runtime progress.call.interview result.value ∧
        Supplies runtime s.admitted result.label progress.call
  /-- A call that stores its result has produced it. -/
  produced : ∀ id call result, s.calls id = some ⟨call, .storing result⟩ → result.label = call
  /-- The answers. -/
  answers : ∀ answer ∈ s.answers, answer.call ∈ s.admitted ∧ ∃ author,
    Authored runtime s.admitted author answer.response answer.producer ∧
    (answer.call = author ∨ SameIdempotentRequest runtime answer.call author)

theorem Supplies.mono {admitted admitted' : List AiCall} {producer call : AiCall}
    (h : Supplies runtime admitted producer call) (hsub : ∀ a ∈ admitted, a ∈ admitted') :
    Supplies runtime admitted' producer call :=
  ⟨hsub _ h.1, h.2⟩

theorem Authored.mono {admitted admitted' : List AiCall} {author producer : AiCall}
    {response : AiResponse} (h : Authored runtime admitted author response producer)
    (hsub : ∀ a ∈ admitted, a ∈ admitted') :
    Authored runtime admitted' author response producer :=
  ⟨hsub _ h.called, h.responds, h.supplied.mono hsub⟩

/-- Admitting a call keeps what was traced. -/
theorem Traced.admit {s : AiSystem} (h : Traced runtime s) (call : AiCall) :
    Traced runtime { s with admitted := call :: s.admitted } := by
  have hsub : ∀ a ∈ s.admitted, a ∈ call :: s.admitted :=
    fun a hmem => List.mem_cons_of_mem _ hmem
  exact {
    exact := by
      refine h.exact.mono ?_
      rintro key held ⟨result, hvalue, hhandled, hmem, hkey⟩
      exact ⟨result, hvalue, hhandled, hsub _ hmem, hkey⟩
    remembered := by
      intro replica
      refine (h.remembered replica).mono ?_
      rintro key held ⟨author, hauthored, hrest⟩
      exact ⟨author, hauthored.mono hsub, hrest⟩
    calls := by
      intro id progress hprogress
      obtain ⟨hmem, hresult⟩ := h.calls id progress hprogress
      refine ⟨hsub _ hmem, ?_⟩
      intro result hphase
      obtain ⟨hhandled, hsupplies⟩ := hresult result hphase
      exact ⟨hhandled, hsupplies.mono hsub⟩
    produced := h.produced
    answers := by
      intro answer hanswer
      obtain ⟨hmem, author, hauthored, hrelated⟩ := h.answers answer hanswer
      exact ⟨hsub _ hmem, author, hauthored.mono hsub, hrelated⟩ }

/-- Replacing a call keeps what is traced, as long as the new one is traced. -/
theorem Traced.withCall {s : AiSystem} (h : Traced runtime s) (id : Nat)
    {progress : Option AiProgress}
    (hcall : ∀ new, progress = some new → new.call ∈ s.admitted ∧
      ∀ result, new.phase.result = some result →
        HandledFor runtime new.call.interview result.value ∧
          Supplies runtime s.admitted result.label new.call)
    (hproduced : ∀ call result, progress = some ⟨call, .storing result⟩ → result.label = call) :
    Traced runtime (s.withCall id progress) where
  exact := h.exact
  remembered := h.remembered
  calls := by
    intro other new hnew
    by_cases hid : other = id
    · rw [hid] at hnew
      have hnew' : progress = some new := by simpa [AiSystem.withCall] using hnew
      exact hcall new hnew'
    · exact h.calls other new (by simpa [AiSystem.withCall, hid] using hnew)
  produced := by
    intro other call result hnew
    by_cases hid : other = id
    · rw [hid] at hnew
      have hnew' : progress = some ⟨call, .storing result⟩ := by
        simpa [AiSystem.withCall] using hnew
      exact hproduced call result hnew'
    · exact h.produced other call result (by simpa [AiSystem.withCall, hid] using hnew)
  answers := h.answers

/-- Ending a call keeps what is traced. -/
theorem Traced.endCall {s : AiSystem} (h : Traced runtime s) (id : Nat) :
    Traced runtime (s.withCall id none) :=
  h.withCall id (fun _ hnew => absurd hnew (by simp)) (fun _ _ hnew => absurd hnew (by simp))

/-- A call that waits without a result is traced once it is admitted. -/
theorem Traced.waiting {s : AiSystem} (h : Traced runtime s) (id : Nat) {call : AiCall}
    (hcall : call ∈ s.admitted) {phase : AiPhase} (hphase : phase.result = none) :
    Traced runtime (s.withCall id (some ⟨call, phase⟩)) := by
  refine h.withCall id ?_ ?_
  · intro new hnew
    have heq := Option.some.inj hnew
    rw [← heq]
    refine ⟨hcall, ?_⟩
    intro result hresult
    exact absurd (hresult.symm.trans hphase) (by simp)
  · intro other result hnew
    have heq := Option.some.inj hnew
    have hstoring : phase = .storing result := congrArg AiProgress.phase heq
    rw [hstoring] at hphase
    exact absurd hphase (by simp [AiPhase.result])

/-- Deleting a cached entry keeps what is traced. -/
theorem Traced.evict {s : AiSystem} (h : Traced runtime s) (key : String) :
    Traced runtime { s with exactCache := s.exactCache.delete key } :=
  ⟨h.exact.delete key, h.remembered, h.calls, h.produced, h.answers⟩

theorem Traced.beginCall {s : AiSystem} (h : Traced runtime s) (id replica : Nat)
    (identity : TenantContext) (input : AiInterviewInput) :
    Traced runtime (s.beginCall runtime id replica identity input) := by
  unfold AiSystem.beginCall
  split
  · exact h
  · split
    · exact h
    · rename_i interview hinterview
      have hadmitted := h.admit ⟨replica, interview⟩
      have hmem : (⟨replica, interview⟩ : AiCall) ∈ (⟨replica, interview⟩ : AiCall) :: s.admitted :=
        List.mem_cons_self
      dsimp only
      split
      · rename_i held hget
        by_cases hhash : held.value.requestHash = interview.requestHash runtime
        · rw [if_pos hhash]
          obtain ⟨author, hauthored, hreplica, hkey, hrequest⟩ :=
            (hadmitted.remembered replica).get hget
          have hsame : SameIdempotentRequest runtime ⟨replica, interview⟩ author :=
            ⟨hreplica.symm, hkey, hhash.symm.trans hrequest⟩
          refine ⟨hadmitted.exact, hadmitted.remembered, hadmitted.calls, hadmitted.produced, ?_⟩
          intro answer hanswer
          rcases List.mem_cons.mp hanswer with heq | hold
          · rw [heq]
            exact ⟨hmem, author, hauthored, Or.inr hsame⟩
          · exact hadmitted.answers answer hold
        · rw [if_neg hhash]
          exact hadmitted
      · exact hadmitted.waiting id hmem rfl

theorem Traced.takeCached {s : AiSystem} (h : Traced runtime s) {id : Nat} {call : AiCall}
    {held : Labelled AiCall Json} (hcall : s.calls id = some ⟨call, .readingCache⟩)
    (hget : s.exactCache.get (call.interview.exactCacheKey runtime) = some held) :
    Traced runtime (s.takeCached runtime id call held) := by
  have hmem : call ∈ s.admitted := (h.calls id _ hcall).1
  unfold AiSystem.takeCached
  split
  · exact (h.evict _).waiting id hmem rfl
  · rename_i parsed hparsed
    split
    · exact h.endCall id
    · rename_i result hresult
      have hhandled : HandledFor runtime call.interview result :=
        ⟨held.value, by rw [handleValue, hparsed]; exact hresult⟩
      obtain ⟨_, _, _, hlabel, hkey⟩ := h.exact.get hget
      refine h.withCall id ?_ (fun _ _ hnew => by simp at hnew)
      intro new hnew
      have heq := Option.some.inj hnew
      rw [← heq]
      refine ⟨hmem, ?_⟩
      intro found hfound
      have hfound' := Option.some.inj hfound
      rw [← hfound']
      exact ⟨hhandled, hlabel, hkey.symm⟩

theorem Traced.takeAnswer {s : AiSystem} (h : Traced runtime s) {id : Nat} {call : AiCall}
    (hcall : s.calls id = some ⟨call, .invoking⟩) (answer : Except String Json) :
    Traced runtime (s.takeAnswer runtime id call answer) := by
  have hmem : call ∈ s.admitted := (h.calls id _ hcall).1
  unfold AiSystem.takeAnswer
  split
  · exact h.endCall id
  · rename_i parsed hparsed
    obtain ⟨value, -, hvalue⟩ := execute_result_ok hparsed
    split
    · exact h.endCall id
    · rename_i result hresult
      have hhandled : HandledFor runtime call.interview result :=
        ⟨value, by rw [handleValue, hvalue]; exact hresult⟩
      refine h.withCall id ?_ ?_
      · intro new hnew
        have heq := Option.some.inj hnew
        rw [← heq]
        refine ⟨hmem, ?_⟩
        intro found hfound
        have hfound' := Option.some.inj hfound
        rw [← hfound']
        exact ⟨hhandled, hmem, rfl⟩
      · intro other found hnew
        have heq := Option.some.inj hnew
        have hother : call = other := congrArg AiProgress.call heq
        have hphase := congrArg AiProgress.phase heq
        have hfound : (⟨result, call⟩ : Labelled AiCall AiInterviewResult) = found :=
          AiPhase.storing.inj hphase
        rw [← hfound, hother]

theorem Traced.storeResult {s : AiSystem} (h : Traced runtime s) {id : Nat} {call : AiCall}
    {result : Labelled AiCall AiInterviewResult}
    (hcall : s.calls id = some ⟨call, .storing result⟩) (written : Bool) :
    Traced runtime (s.storeResult runtime id call result written) := by
  obtain ⟨hmem, hresult⟩ := h.calls id _ hcall
  obtain ⟨hhandled, hsupplies⟩ := hresult result rfl
  have hlabel : result.label = call := h.produced id call result hcall
  have hanswering : ∀ s' : AiSystem, s'.admitted = s.admitted → Traced runtime s' →
      Traced runtime (s'.withCall id (some ⟨call, .answering result⟩)) := by
    intro s' hadmitted h'
    refine h'.withCall id ?_ (fun _ _ hnew => by simp at hnew)
    intro new hnew
    have heq := Option.some.inj hnew
    rw [← heq, hadmitted]
    refine ⟨hmem, ?_⟩
    intro found hfound
    have hfound' := Option.some.inj hfound
    rw [← hfound']
    exact ⟨hhandled, hsupplies⟩
  unfold AiSystem.storeResult
  cases written with
  | false => exact hanswering s rfl h
  | true =>
    refine hanswering _ rfl ⟨h.exact.set ?_, h.remembered, h.calls, h.produced, h.answers⟩
    refine ⟨result.value, rfl, ?_, hsupplies.1, hsupplies.2.symm⟩
    rw [hlabel]
    exact hhandled

theorem Traced.answerCall {s : AiSystem} (h : Traced runtime s) {id : Nat} {call : AiCall}
    {result : Labelled AiCall AiInterviewResult}
    (hcall : s.calls id = some ⟨call, .answering result⟩) :
    Traced runtime (s.answerCall runtime id call result) := by
  obtain ⟨hmem, hresult⟩ := h.calls id _ hcall
  obtain ⟨hhandled, hsupplies⟩ := hresult result rfl
  have hauthored : Authored runtime s.admitted call
      (call.interview.respond runtime result.value) result.label :=
    ⟨hmem, ⟨result.value, rfl, hhandled⟩, hsupplies⟩
  have hended := h.endCall id
  exact {
    exact := h.exact
    remembered := by
      intro replica
      by_cases hreplica : replica = call.replica
      · rw [hreplica]
        simp only [AiSystem.answerCall, Function.update_self]
        exact ((h.remembered call.replica).set ⟨call, hauthored, rfl, rfl, rfl⟩).bound 1000
      · simp only [AiSystem.answerCall, Function.update_of_ne hreplica]
        exact h.remembered replica
    calls := hended.calls
    produced := hended.produced
    answers := by
      intro answer hanswer
      rcases List.mem_cons.mp hanswer with heq | hold
      · rw [heq]
        exact ⟨hmem, call, hauthored, Or.inl rfl⟩
      · exact h.answers answer hold }

theorem Traced.restart {s : AiSystem} (h : Traced runtime s) (replica : Nat) :
    Traced runtime (s.step runtime (.restart replica)) := by
  have hkept : ∀ id progress, (s.calls id).filter
      (fun progress => decide (progress.call.replica ≠ replica)) = some progress →
      s.calls id = some progress :=
    fun id progress hfilter => (Option.filter_eq_some_iff.mp hfilter).1
  exact {
    exact := h.exact
    remembered := by
      intro other
      by_cases hother : other = replica
      · rw [hother]
        simp only [AiSystem.step, Function.update_self]
        exact Cache.holds_nil
      · simp only [AiSystem.step, Function.update_of_ne hother]
        exact h.remembered other
    calls := fun id progress hprogress => h.calls id progress (hkept id progress hprogress)
    produced := fun id call result hcall => h.produced id call result (hkept id _ hcall)
    answers := h.answers }

/-- Every event keeps what is traced. -/
theorem Traced.step {s : AiSystem} (h : Traced runtime s) (event : AiEvent) :
    Traced runtime (s.step runtime event) := by
  cases event with
  | recordConsent context input =>
    exact ⟨h.exact, h.remembered, h.calls, h.produced, h.answers⟩
  | withdrawConsent context consentId expectedVersion withdrawnAt =>
    exact ⟨h.exact, h.remembered, h.calls, h.produced, h.answers⟩
  | begin id replica identity input => exact h.beginCall id replica identity input
  | cacheHit id =>
    simp only [AiSystem.step]
    split
    · rename_i call hcall
      split
      · rename_i held hget
        exact h.takeCached hcall hget
      · exact h
    · exact h
  | cacheMiss id =>
    simp only [AiSystem.step]
    split
    · rename_i call hcall
      exact h.waiting id (h.calls id _ hcall).1 rfl
    · exact h
  | provider id answer =>
    simp only [AiSystem.step]
    split
    · rename_i call hcall
      exact h.takeAnswer hcall answer
    · exact h
  | store id written =>
    simp only [AiSystem.step]
    split
    · rename_i call result hcall
      exact h.storeResult hcall written
    · exact h
  | finish id =>
    simp only [AiSystem.step]
    split
    · rename_i call result hcall
      exact h.answerCall hcall
    · exact h
  | fail id => exact h.endCall id
  | evict key => exact h.evict key
  | restart replica => exact h.restart replica

/-- What holds in every run. -/
theorem Traced.run {s : AiSystem} (h : Traced runtime s) (events : List AiEvent) :
    Traced runtime (s.run runtime events) := by
  induction events generalizing s with
  | nil => exact h
  | cons event events ih => exact ih (h.step event)

theorem traced_initial (runtime : AiRuntime) (vault : Vault) :
    Traced runtime (AiSystem.initial vault) where
  exact := Cache.holds_nil
  remembered := fun _ => Cache.holds_nil
  calls := fun _ _ hprogress => absurd hprogress (by simp [AiSystem.initial])
  produced := fun _ _ _ hcall => absurd hcall (by simp [AiSystem.initial])
  answers := fun _ hanswer => absurd hanswer (by simp [AiSystem.initial])

end Provenance

end LegacyVault
