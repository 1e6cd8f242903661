import LegacyVault.AiResults
import Mathlib.Data.List.Dedup
import Mathlib.Data.List.Perm.Subperm

/-!
# One inference for an idempotency key

Calls of `runAiInterview` that carry one idempotency key on one replica. A
call looks its key up when it begins, and stores its response when it answers;
it waits in between. A log goes along with a run and records, for each call
that was answered, whether the provider was invoked for it.

The responses agree, and the provider was invoked for one call at most, in the
runs in which no call answers over a response that is already kept. A call with
another content is refused where it finds the key in the map.
-/

namespace LegacyVault

open JsonText LabelledCache RowTransaction

/-- A call that was answered, and whether the provider was invoked for it. -/
structure AiOutcome where
  call : AiCall
  response : AiResponse
  invoked : Bool

/-- A run with its answered calls, newest first. -/
structure AiLog where
  system : AiSystem
  /-- The call in progress holds a result the provider gave for it. -/
  invoked : Nat → Bool
  outcomes : List AiOutcome

/-- Whether the result a call holds came from its own provider invocation: it stores such results
only, and keeps what it holds while it answers. -/
def AiSystem.holdsInvocation (s : AiSystem) (before : Nat → Bool) (id : Nat) : Bool :=
  match (s.calls id).map AiProgress.phase with
  | some (.storing _) => true
  | some (.answering _) => before id
  | _ => false

namespace AiLog

/-- A log of nothing yet. -/
def start (s : AiSystem) : AiLog := ⟨s, s.holdsInvocation (fun _ => false), []⟩

/-- Whether an event answers with a result the provider gave for the call. -/
def answersInvoked (log : AiLog) : AiEvent → Bool
  | .finish id => log.invoked id
  | _ => false

/-- One event, with the call it answers. -/
def step (runtime : AiRuntime) (log : AiLog) (event : AiEvent) : AiLog :=
  let next := log.system.step runtime event
  let answered := next.answers.take (next.answers.length - log.system.answers.length)
  { system := next
    invoked := next.holdsInvocation log.invoked
    outcomes := answered.map
      (fun answer => ⟨answer.call, answer.response, log.answersInvoked event⟩) ++ log.outcomes }

/-- The events of a run, one after the other. -/
def run (runtime : AiRuntime) (log : AiLog) (events : List AiEvent) : AiLog :=
  events.foldl (step runtime) log

end AiLog

/-- A request under an idempotency key of one replica. -/
structure IdempotentRequest where
  replica : Nat
  /-- Key of the idempotency map. -/
  key : String
  /-- Digest of the categories and the message. -/
  requestHash : String

namespace IdempotentRequest

variable (runtime : AiRuntime) (request : IdempotentRequest)

/-- The call carries the idempotency key, on the replica. -/
def CarriedBy (call : AiCall) : Prop :=
  call.replica = request.replica ∧ call.interview.idempotencyCacheKey runtime = request.key

instance (call : AiCall) : Decidable (request.CarriedBy runtime call) :=
  inferInstanceAs (Decidable (_ ∧ _))

/-- The call sends the categories and the message of the request. -/
def Asks (call : AiCall) : Prop := call.interview.requestHash runtime = request.requestHash

/-- The answered calls under the key for which the provider was invoked. -/
def inferences (outcomes : List AiOutcome) : List AiOutcome :=
  outcomes.filter (fun outcome => request.CarriedBy runtime outcome.call ∧ outcome.invoked)

/-- The other keys that were answered on the replica. -/
def otherKeys (outcomes : List AiOutcome) : List String :=
  ((outcomes.filter (fun outcome => outcome.call.replica = request.replica)).map
    (fun outcome => outcome.call.interview.idempotencyCacheKey runtime)).dedup.filter
      (· ≠ request.key)

/-- The map does not have the key, and no call in progress carries it. -/
structure Unused (s : AiSystem) : Prop where
  unknown : (s.idempotency request.replica).get request.key = none
  idle : ∀ id progress, s.calls id = some progress → ¬ request.CarriedBy runtime progress.call

/-- One inference: the answers agree, the provider was invoked for one answered call at most, and
a call with another content neither goes on nor is answered. -/
structure OneInference (log : AiLog) : Prop where
  same : ∀ a ∈ log.outcomes, ∀ b ∈ log.outcomes, request.CarriedBy runtime a.call →
    request.CarriedBy runtime b.call → a.response = b.response
  once : (request.inferences runtime log.outcomes).length ≤ 1
  answered : ∀ outcome ∈ log.outcomes, request.CarriedBy runtime outcome.call →
    request.Asks runtime outcome.call
  inProgress : ∀ id progress, log.system.calls id = some progress →
    request.CarriedBy runtime progress.call → request.Asks runtime progress.call

/-- An event that does not disturb the request: no call answers under the key while the map
has it, no call with another content begins under it while the map does not, and the replica
goes on. -/
def Undisturbed (s : AiSystem) : AiEvent → Prop
  | .begin id replica identity input => ∀ interview,
    admitInterview runtime identity input (activeAiConsent identity s.vault) = .ok interview →
      s.calls id = none → request.CarriedBy runtime ⟨replica, interview⟩ →
      ¬ request.Asks runtime ⟨replica, interview⟩ →
        (s.idempotency request.replica).get request.key ≠ none
  | .finish id => ∀ call result, s.calls id = some ⟨call, .answering result⟩ →
    request.CarriedBy runtime call → (s.idempotency request.replica).get request.key = none
  | .restart replica => replica ≠ request.replica
  | _ => True

/-- Every event of a run leaves the request undisturbed where it happens. -/
def UndisturbedRun (s : AiSystem) : List AiEvent → Prop
  | [] => True
  | event :: events =>
    request.Undisturbed runtime s event ∧ UndisturbedRun (s.step runtime event) events

end IdempotentRequest

/-! ## What an event does -/

/-- What an event does to the calls, the idempotency maps and the answers. -/
inductive AiSystem.Moves (runtime : AiRuntime) (s : AiSystem) : AiEvent → AiSystem → Prop where
  /-- No call begins or is answered. -/
  | goesOn {event : AiEvent} {next : AiSystem} (hmaps : next.idempotency = s.idempotency)
      (hanswers : next.answers = s.answers)
      (hcalls : ∀ id progress, next.calls id = some progress →
        ∃ old, s.calls id = some old ∧ old.call = progress.call) : Moves runtime s event next
  /-- A call begins, and does not find its key. -/
  | begins {id replica : Nat} {identity : TenantContext} {input : AiInterviewInput}
      {interview : AdmittedInterview}
      (hadmitted : admitInterview runtime identity input (activeAiConsent identity s.vault) =
        .ok interview) (hid : s.calls id = none)
      (hget : (s.idempotency replica).get (interview.idempotencyCacheKey runtime) = none) :
      Moves runtime s (.begin id replica identity input)
        ({ s with admitted := ⟨replica, interview⟩ :: s.admitted }.withCall id
          (some ⟨⟨replica, interview⟩, .readingCache⟩))
  /-- A call begins, and answers with what it finds. -/
  | replays {id replica : Nat} {identity : TenantContext} {input : AiInterviewInput}
      {interview : AdmittedInterview} {held : Labelled AiCall IdempotentResponse}
      (hget : (s.idempotency replica).get (interview.idempotencyCacheKey runtime) = some held)
      (hhash : held.value.requestHash = interview.requestHash runtime) :
      Moves runtime s (.begin id replica identity input)
        { s with
          admitted := ⟨replica, interview⟩ :: s.admitted
          answers := ⟨⟨replica, interview⟩, held.value.response, held.label⟩ :: s.answers }
  /-- A call answers. -/
  | answers {id : Nat} {call : AiCall} {result : Labelled AiCall AiInterviewResult}
      (hcall : s.calls id = some ⟨call, .answering result⟩) :
      Moves runtime s (.finish id) (s.answerCall runtime id call result)
  /-- A replica restarts. -/
  | restarts (replica : Nat) :
      Moves runtime s (.restart replica) (s.step runtime (.restart replica))

section Moves

variable {runtime : AiRuntime} {s : AiSystem}

/-- Nothing happens. -/
theorem AiSystem.Moves.refl (event : AiEvent) : s.Moves runtime event s :=
  .goesOn rfl rfl (fun _ progress hprogress => ⟨progress, hprogress, rfl⟩)

/-- A call ends. -/
theorem AiSystem.Moves.endCall (event : AiEvent) (id : Nat) :
    s.Moves runtime event (s.withCall id none) := by
  refine .goesOn rfl rfl ?_
  intro other progress hprogress
  by_cases hother : other = id
  · exact absurd hprogress (by simp [AiSystem.withCall, hother])
  · exact ⟨progress, by simpa [AiSystem.withCall, hother] using hprogress, rfl⟩

/-- A call goes on. -/
theorem AiSystem.Moves.enter (event : AiEvent) {id : Nat} {old : AiProgress}
    (hold : s.calls id = some old) (phase : AiPhase) (exactCache : Cache String AiCall Json) :
    s.Moves runtime event ({ s with exactCache }.withCall id (some ⟨old.call, phase⟩)) := by
  refine .goesOn rfl rfl ?_
  intro other progress hprogress
  by_cases hother : other = id
  · have heq : (⟨old.call, phase⟩ : AiProgress) = progress := by
      simpa [AiSystem.withCall, hother] using hprogress
    exact ⟨old, by rw [hother, hold], by rw [← heq]⟩
  · exact ⟨progress, by simpa [AiSystem.withCall, hother] using hprogress, rfl⟩

theorem AiSystem.Moves.beginCall (id replica : Nat) (identity : TenantContext)
    (input : AiInterviewInput) :
    s.Moves runtime (.begin id replica identity input)
      (s.beginCall runtime id replica identity input) := by
  unfold AiSystem.beginCall
  split
  · exact .refl _
  · rename_i hfree
    split
    · exact .refl _
    · rename_i interview hadmitted
      dsimp only
      split
      · rename_i held hget
        split
        · rename_i hhash
          exact .replays hget hhash
        · exact .goesOn rfl rfl (fun _ progress hprogress => ⟨progress, hprogress, rfl⟩)
      · rename_i hget
        exact .begins hadmitted (by simpa using hfree) hget

theorem AiSystem.Moves.takeCached (event : AiEvent) {id : Nat} {call : AiCall}
    (hcall : s.calls id = some ⟨call, .readingCache⟩) (held : Labelled AiCall Json) :
    s.Moves runtime event (s.takeCached runtime id call held) := by
  unfold AiSystem.takeCached
  split
  · exact .enter event hcall .invoking _
  · split
    · exact .endCall event id
    · exact .enter event hcall _ s.exactCache

theorem AiSystem.Moves.takeAnswer (event : AiEvent) {id : Nat} {call : AiCall}
    (hcall : s.calls id = some ⟨call, .invoking⟩) (answer : Except String Json) :
    s.Moves runtime event (s.takeAnswer runtime id call answer) := by
  unfold AiSystem.takeAnswer
  split
  · exact .endCall event id
  · split
    · exact .endCall event id
    · exact .enter event hcall _ s.exactCache

theorem AiSystem.Moves.storeResult (event : AiEvent) {id : Nat} {call : AiCall}
    {result : Labelled AiCall AiInterviewResult}
    (hcall : s.calls id = some ⟨call, .storing result⟩) (written : Bool) :
    s.Moves runtime event (s.storeResult runtime id call result written) := by
  cases written with
  | false => exact .enter event hcall (.answering result) s.exactCache
  | true => exact .enter event hcall (.answering result) _

/-- What a step does. -/
theorem AiSystem.moves (runtime : AiRuntime) (s : AiSystem) (event : AiEvent) :
    s.Moves runtime event (s.step runtime event) := by
  cases event with
  | recordConsent context input =>
    exact .goesOn rfl rfl (fun _ progress hprogress => ⟨progress, hprogress, rfl⟩)
  | withdrawConsent context consentId expectedVersion withdrawnAt =>
    exact .goesOn rfl rfl (fun _ progress hprogress => ⟨progress, hprogress, rfl⟩)
  | begin id replica identity input => exact .beginCall id replica identity input
  | cacheHit id =>
    simp only [AiSystem.step]
    split
    · rename_i call hcall
      split
      · rename_i held hget
        exact .takeCached _ hcall held
      · exact .refl _
    · exact .refl _
  | cacheMiss id =>
    simp only [AiSystem.step]
    split
    · rename_i call hcall
      exact .enter _ hcall .invoking s.exactCache
    · exact .refl _
  | provider id answer =>
    simp only [AiSystem.step]
    split
    · rename_i call hcall
      exact .takeAnswer _ hcall answer
    · exact .refl _
  | store id written =>
    simp only [AiSystem.step]
    split
    · rename_i call result hcall
      exact .storeResult _ hcall written
    · exact .refl _
  | finish id =>
    simp only [AiSystem.step]
    split
    · rename_i call result hcall
      exact .answers hcall
    · exact .refl _
  | fail id => exact .endCall _ id
  | evict key => exact .goesOn rfl rfl (fun _ progress hprogress => ⟨progress, hprogress, rfl⟩)
  | restart replica => exact .restarts replica

end Moves

/-! ## Invariant -/

namespace IdempotentRequest

section Invariant

variable {runtime : AiRuntime} {request : IdempotentRequest} {log : AiLog}

/-- What holds in every undisturbed run. -/
structure Kept (runtime : AiRuntime) (request : IdempotentRequest) (log : AiLog) : Prop where
  /-- Every answer under the key is the one the map has. -/
  held : ∀ outcome ∈ log.outcomes, request.CarriedBy runtime outcome.call →
    ∃ held, (log.system.idempotency request.replica).get request.key = some held ∧
      outcome.response = held.value.response
  hash : ∀ held, (log.system.idempotency request.replica).get request.key = some held →
    held.value.requestHash = request.requestHash
  once : (request.inferences runtime log.outcomes).length ≤ 1
  answered : ∀ outcome ∈ log.outcomes, request.CarriedBy runtime outcome.call →
    request.Asks runtime outcome.call
  inProgress : ∀ id progress, log.system.calls id = some progress →
    request.CarriedBy runtime progress.call → request.Asks runtime progress.call
  /-- The map has no key twice after the key of the request. -/
  distinct : ((log.system.idempotency request.replica).keysAfter request.key).Nodup
  /-- What came after the key was answered since. -/
  later : ∀ other ∈ (log.system.idempotency request.replica).keysAfter request.key,
    other ∈ request.otherKeys runtime log.outcomes

theorem Kept.oneInference (h : Kept runtime request log) : request.OneInference runtime log where
  same := by
    intro a ha b hb hcarriedA hcarriedB
    obtain ⟨held, hget, hresponse⟩ := h.held a ha hcarriedA
    obtain ⟨held', hget', hresponse'⟩ := h.held b hb hcarriedB
    have hheld : held = held' := Option.some.inj (hget.symm.trans hget')
    rw [hresponse, hresponse', hheld]
  once := h.once
  answered := h.answered
  inProgress := h.inProgress

theorem Unused.kept {s : AiSystem} (h : request.Unused runtime s) :
    Kept runtime request (AiLog.start s) where
  held := fun _ hmem => absurd hmem List.not_mem_nil
  hash := fun held hget => absurd (h.unknown.symm.trans hget) (by simp)
  once := Nat.zero_le 1
  answered := fun _ hmem => absurd hmem List.not_mem_nil
  inProgress := fun id progress hprogress hcarried => absurd hcarried (h.idle id progress hprogress)
  distinct := by simp [AiLog.start, Cache.keysAfter_of_none h.unknown]
  later := by simp [AiLog.start, Cache.keysAfter_of_none h.unknown]

/-- A longer log has the other keys of a shorter one. -/
theorem otherKeys_subset {outcomes outcomes' : List AiOutcome} (hsub : outcomes ⊆ outcomes') :
    request.otherKeys runtime outcomes ⊆ request.otherKeys runtime outcomes' := by
  intro other hother
  simp only [otherKeys, List.mem_filter, List.mem_dedup, List.mem_map] at hother ⊢
  obtain ⟨⟨found, ⟨hfound, hreplica⟩, hkey⟩, hne⟩ := hother
  exact ⟨⟨found, ⟨hsub hfound, hreplica⟩, hkey⟩, hne⟩

theorem inferences_cons (outcome : AiOutcome) (outcomes : List AiOutcome) :
    request.inferences runtime (outcome :: outcomes) =
      if request.CarriedBy runtime outcome.call ∧ outcome.invoked then
        outcome :: request.inferences runtime outcomes
      else request.inferences runtime outcomes := by
  simp [inferences, List.filter_cons]

end Invariant

end IdempotentRequest

namespace AiLog

variable {runtime : AiRuntime} {log : AiLog} {event : AiEvent}

/-- An event that answers nothing adds nothing to the log. -/
theorem step_outcomes_of_eq (h : (log.system.step runtime event).answers = log.system.answers) :
    (log.step runtime event).outcomes = log.outcomes := by
  simp [AiLog.step, h]

/-- An answer is added to the log. -/
theorem step_outcomes_of_cons {answer : AiAnswer}
    (h : (log.system.step runtime event).answers = answer :: log.system.answers) :
    (log.step runtime event).outcomes =
      ⟨answer.call, answer.response, log.answersInvoked event⟩ :: log.outcomes := by
  simp [AiLog.step, h]

end AiLog

namespace IdempotentRequest

section Steps

variable {runtime : AiRuntime} {request : IdempotentRequest} {log next : AiLog}

/-- Where the replica's map stays and nothing is answered, calls may go on, and calls that ask the
same may begin. -/
theorem Kept.goesOn (h : Kept runtime request log)
    (hmap : next.system.idempotency request.replica = log.system.idempotency request.replica)
    (houtcomes : next.outcomes = log.outcomes)
    (hcalls : ∀ id progress, next.system.calls id = some progress →
      (∃ old, log.system.calls id = some old ∧ old.call = progress.call) ∨
        (request.CarriedBy runtime progress.call → request.Asks runtime progress.call)) :
    Kept runtime request next where
  held := by
    rw [hmap, houtcomes]
    exact h.held
  hash := by
    rw [hmap]
    exact h.hash
  once := by
    rw [houtcomes]
    exact h.once
  answered := by
    rw [houtcomes]
    exact h.answered
  inProgress := by
    intro id progress hprogress hcarried
    rcases hcalls id progress hprogress with ⟨old, hold, hcall⟩ | hasks
    · rw [← hcall] at hcarried ⊢
      exact h.inProgress id old hold hcarried
    · exact hasks hcarried
  distinct := by
    rw [hmap]
    exact h.distinct
  later := by
    rw [hmap, houtcomes]
    exact h.later

/-- An answer from the map keeps the answers. -/
theorem Kept.replays (h : Kept runtime request log) (outcome : AiOutcome)
    (hmap : next.system.idempotency = log.system.idempotency)
    (hcalls : next.system.calls = log.system.calls)
    (houtcomes : next.outcomes = outcome :: log.outcomes) (hinvoked : outcome.invoked = false)
    {held : Labelled AiCall IdempotentResponse}
    (hget : (log.system.idempotency outcome.call.replica).get
      (outcome.call.interview.idempotencyCacheKey runtime) = some held)
    (hresponse : outcome.response = held.value.response)
    (hhash : held.value.requestHash = outcome.call.interview.requestHash runtime) :
    Kept runtime request next := by
  have hfound : request.CarriedBy runtime outcome.call →
      (log.system.idempotency request.replica).get request.key = some held := by
    intro hcarried
    rw [← hcarried.1, ← hcarried.2]
    exact hget
  exact {
    held := by
      rw [hmap, houtcomes]
      intro other hmem hcarried
      rcases List.mem_cons.mp hmem with heq | hold
      · rw [heq] at hcarried ⊢
        exact ⟨held, hfound hcarried, hresponse⟩
      · exact h.held other hold hcarried
    hash := by
      rw [hmap]
      exact h.hash
    once := by
      rw [houtcomes, inferences_cons, if_neg (by simp [hinvoked])]
      exact h.once
    answered := by
      rw [houtcomes]
      intro other hmem hcarried
      rcases List.mem_cons.mp hmem with heq | hold
      · rw [heq] at hcarried ⊢
        exact hhash.symm.trans (h.hash held (hfound hcarried))
      · exact h.answered other hold hcarried
    inProgress := by
      rw [hcalls]
      exact h.inProgress
    distinct := by
      rw [hmap]
      exact h.distinct
    later := by
      rw [hmap, houtcomes]
      exact fun other hother =>
        otherKeys_subset (List.subset_cons_self _ _) (h.later other hother) }

/-- The other keys that came after the key are fewer than those that were answered. -/
theorem length_keysAfter_lt {cache : Cache String AiCall IdempotentResponse}
    {outcomes : List AiOutcome} (hdistinct : (cache.keysAfter request.key).Nodup)
    (hlater : cache.keysAfter request.key ⊆ request.otherKeys runtime outcomes)
    (hfew : (request.otherKeys runtime outcomes).length < 1000) :
    (cache.keysAfter request.key).length < 1000 :=
  lt_of_le_of_lt (hdistinct.subperm hlater).length_le hfew

/-- An answer under another key, on the replica or elsewhere, keeps the map's answer. -/
theorem Kept.answersOther (h : Kept runtime request log) (outcome : AiOutcome)
    {value : Labelled AiCall IdempotentResponse}
    (hcarried : ¬ request.CarriedBy runtime outcome.call)
    (hmap : next.system.idempotency = Function.update log.system.idempotency outcome.call.replica
      (((log.system.idempotency outcome.call.replica).set
        (outcome.call.interview.idempotencyCacheKey runtime) value).bound 1000))
    (hcalls : ∀ id progress, next.system.calls id = some progress →
      log.system.calls id = some progress)
    (houtcomes : next.outcomes = outcome :: log.outcomes)
    (hfew : (request.otherKeys runtime next.outcomes).length < 1000) :
    Kept runtime request next := by
  have hkept : (next.system.idempotency request.replica).get request.key =
        (log.system.idempotency request.replica).get request.key ∧
      ((next.system.idempotency request.replica).keysAfter request.key).Nodup ∧
      ∀ other ∈ (next.system.idempotency request.replica).keysAfter request.key,
        other ∈ request.otherKeys runtime next.outcomes := by
    have holder : ∀ other ∈ request.otherKeys runtime log.outcomes,
        other ∈ request.otherKeys runtime next.outcomes := by
      rw [houtcomes]
      exact otherKeys_subset (List.subset_cons_self _ _)
    by_cases hreplica : outcome.call.replica = request.replica
    · have hne : outcome.call.interview.idempotencyCacheKey runtime ≠ request.key :=
        fun hkey => hcarried ⟨hreplica, hkey⟩
      have hnew : outcome.call.interview.idempotencyCacheKey runtime ∈
          request.otherKeys runtime next.outcomes := by
        rw [houtcomes]
        simp [otherKeys, hreplica, hne]
      rw [hreplica] at hmap
      rw [hmap, Function.update_self]
      have hset := Cache.keysAfter_set (log.system.idempotency request.replica) hne value
      have hdistinct : (((log.system.idempotency request.replica).set
          (outcome.call.interview.idempotencyCacheKey runtime) value).keysAfter
            request.key).Nodup := by
        rcases hset with hsame | ⟨hfresh, happended⟩
        · rw [hsame]
          exact h.distinct
        · rw [happended]
          have hnot : outcome.call.interview.idempotencyCacheKey runtime ∉
              (log.system.idempotency request.replica).keysAfter request.key :=
            fun hmem => Cache.get_eq_none_iff.mp hfresh
              ((Cache.keysAfter_sublist _ _).subset hmem)
          rw [← List.concat_eq_append]
          exact h.distinct.concat hnot
      have hlater : ∀ other ∈ ((log.system.idempotency request.replica).set
          (outcome.call.interview.idempotencyCacheKey runtime) value).keysAfter request.key,
            other ∈ request.otherKeys runtime next.outcomes := by
        intro other hother
        rcases hset with hsame | ⟨-, happended⟩
        · rw [hsame] at hother
          exact holder other (h.later other hother)
        · rw [happended] at hother
          rcases List.mem_append.mp hother with hold | hlast
          · exact holder other (h.later other hold)
          · rw [List.mem_singleton.mp hlast]
            exact hnew
      obtain ⟨hget, hafter⟩ :=
        Cache.bound_of_keysAfter (length_keysAfter_lt hdistinct hlater hfew)
      rw [hget, hafter, Cache.get_set_of_ne _ hne]
      exact ⟨rfl, hdistinct, hlater⟩
    · rw [hmap, Function.update_of_ne (Ne.symm hreplica)]
      exact ⟨rfl, h.distinct, fun other hother => holder other (h.later other hother)⟩
  obtain ⟨hget, hdistinct, hlater⟩ := hkept
  exact {
    held := by
      rw [hget, houtcomes]
      intro other hmem hother
      rcases List.mem_cons.mp hmem with heq | hold
      · exact absurd (heq ▸ hother) hcarried
      · exact h.held other hold hother
    hash := by
      rw [hget]
      exact h.hash
    once := by
      rw [houtcomes, inferences_cons, if_neg (fun hboth => hcarried hboth.1)]
      exact h.once
    answered := by
      rw [houtcomes]
      intro other hmem hother
      rcases List.mem_cons.mp hmem with heq | hold
      · exact absurd (heq ▸ hother) hcarried
      · exact h.answered other hold hother
    inProgress := fun id progress hprogress =>
      h.inProgress id progress (hcalls id progress hprogress)
    distinct := hdistinct
    later := hlater }

/-- The first answer under the key becomes the map's answer. -/
theorem Kept.answersFirst (h : Kept runtime request log) (outcome : AiOutcome)
    (label : AiCall) (hasks : request.Asks runtime outcome.call)
    (hnone : (log.system.idempotency request.replica).get request.key = none)
    (hmap : next.system.idempotency request.replica =
      ((log.system.idempotency request.replica).set request.key
        ⟨⟨request.requestHash, outcome.response⟩, label⟩).bound 1000)
    (hcalls : ∀ id progress, next.system.calls id = some progress →
      log.system.calls id = some progress)
    (houtcomes : next.outcomes = outcome :: log.outcomes) :
    Kept runtime request next := by
  have hafter := Cache.keysAfter_set_self hnone
    (⟨⟨request.requestHash, outcome.response⟩, label⟩ : Labelled AiCall IdempotentResponse)
  obtain ⟨hget, hbounded⟩ :=
    Cache.bound_of_keysAfter (show _ < 1000 by rw [hafter]; exact Nat.zero_lt_succ 999)
  rw [Cache.get_set_self, ← hmap] at hget
  rw [hafter, ← hmap] at hbounded
  have hfirst : ∀ other ∈ log.outcomes, ¬ request.CarriedBy runtime other.call := by
    intro other hmem hother
    obtain ⟨held, hheld, -⟩ := h.held other hmem hother
    exact absurd (hnone.symm.trans hheld) (by simp)
  exact {
    held := by
      rw [houtcomes]
      intro other hmem hother
      rcases List.mem_cons.mp hmem with heq | hold
      · exact ⟨_, hget, by rw [heq]⟩
      · exact absurd hother (hfirst other hold)
    hash := by
      intro held hheld
      rw [← Option.some.inj (hget.symm.trans hheld)]
    once := by
      have hnothing : request.inferences runtime log.outcomes = [] := by
        refine List.filter_eq_nil_iff.mpr ?_
        intro other hmem
        simp [hfirst other hmem]
      rw [houtcomes, inferences_cons, hnothing]
      split <;> simp
    answered := by
      rw [houtcomes]
      intro other hmem hother
      rcases List.mem_cons.mp hmem with heq | hold
      · rw [heq]
        exact hasks
      · exact absurd hother (hfirst other hold)
    inProgress := fun id progress hprogress =>
      h.inProgress id progress (hcalls id progress hprogress)
    distinct := by
      rw [hbounded]
      exact List.nodup_nil
    later := by
      rw [hbounded]
      exact fun other hother => absurd hother List.not_mem_nil }

/-- An undisturbed event keeps what is kept. -/
theorem Kept.moves (h : Kept runtime request log) {event : AiEvent}
    (hmoves : log.system.Moves runtime event next.system)
    (hundisturbed : request.Undisturbed runtime log.system event)
    (hsame : next.system.answers = log.system.answers → next.outcomes = log.outcomes)
    (hcons : ∀ answer, next.system.answers = answer :: log.system.answers →
      next.outcomes = ⟨answer.call, answer.response, log.answersInvoked event⟩ :: log.outcomes)
    (hfew : (request.otherKeys runtime next.outcomes).length < 1000) :
    Kept runtime request next := by
  obtain ⟨after, invoked, outcomes⟩ := next
  cases hmoves with
  | goesOn hmaps hanswers hcalls =>
    refine h.goesOn (congrFun hmaps _) (hsame hanswers) ?_
    exact fun id progress hprogress => Or.inl (hcalls id progress hprogress)
  | @begins id replica identity input interview hadmitted hid hget =>
    have hasks : request.CarriedBy runtime ⟨replica, interview⟩ →
        request.Asks runtime ⟨replica, interview⟩ := by
      intro hcarried
      by_contra hother
      have hknown := hundisturbed interview hadmitted hid hcarried hother
      rw [← hcarried.1, ← hcarried.2] at hknown
      exact hknown hget
    refine h.goesOn rfl (hsame rfl) ?_
    intro other progress hprogress
    by_cases hother : other = id
    · have heq : (⟨⟨replica, interview⟩, .readingCache⟩ : AiProgress) = progress := by
        simpa [AiSystem.withCall, hother] using hprogress
      rw [← heq]
      exact Or.inr hasks
    · exact Or.inl ⟨progress, by simpa [AiSystem.withCall, hother] using hprogress, rfl⟩
  | @replays id replica identity input interview held hget hhash =>
    have hadded := hcons ⟨⟨replica, interview⟩, held.value.response, held.label⟩ rfl
    exact h.replays ⟨⟨replica, interview⟩, held.value.response, false⟩ rfl rfl hadded rfl hget
      rfl hhash
  | @answers id call result hcall =>
    have hadded := hcons ⟨call, call.interview.respond runtime result.value, result.label⟩ rfl
    have hcalls : ∀ other progress, (log.system.answerCall runtime id call result).calls other =
        some progress → log.system.calls other = some progress := by
      intro other progress hprogress
      by_cases hother : other = id
      · exact absurd hprogress (by simp [AiSystem.answerCall, hother])
      · simpa [AiSystem.answerCall, hother] using hprogress
    by_cases hcarried : request.CarriedBy runtime call
    · have hasks : request.Asks runtime call :=
        h.inProgress id ⟨call, .answering result⟩ hcall hcarried
      refine h.answersFirst ⟨call, _, log.answersInvoked (.finish id)⟩ result.label hasks
        (hundisturbed call result hcall hcarried) ?_ hcalls hadded
      simp only [hcarried.1, hcarried.2, Function.update_self]
      rw [hasks]
    · exact h.answersOther ⟨call, _, log.answersInvoked (.finish id)⟩ hcarried rfl hcalls hadded
        hfew
  | restarts replica =>
    refine h.goesOn (Function.update_of_ne (Ne.symm hundisturbed) _ _) (hsame rfl) ?_
    intro other progress hprogress
    exact Or.inl ⟨progress, (Option.filter_eq_some_iff.mp hprogress).1, rfl⟩

/-- An undisturbed event keeps what is kept. -/
theorem Kept.step (h : Kept runtime request log) {event : AiEvent}
    (hundisturbed : request.Undisturbed runtime log.system event)
    (hfew : (request.otherKeys runtime (log.step runtime event).outcomes).length < 1000) :
    Kept runtime request (log.step runtime event) :=
  h.moves (AiSystem.moves runtime log.system event) hundisturbed AiLog.step_outcomes_of_eq
    (fun _ => AiLog.step_outcomes_of_cons) hfew

/-- The log only grows. -/
theorem otherKeys_subset_run (log : AiLog) (events : List AiEvent) :
    request.otherKeys runtime log.outcomes ⊆
      request.otherKeys runtime (log.run runtime events).outcomes := by
  induction events generalizing log with
  | nil => exact fun _ hmem => hmem
  | cons event events ih =>
    have hgrown : log.outcomes ⊆ (log.step runtime event).outcomes := List.subset_append_right _ _
    exact List.Subset.trans (otherKeys_subset hgrown) (ih (log.step runtime event))

/-- What is kept in an undisturbed run. -/
theorem Kept.run (h : Kept runtime request log) {events : List AiEvent}
    (hundisturbed : request.UndisturbedRun runtime log.system events)
    (hfew : (request.otherKeys runtime (log.run runtime events).outcomes).length < 1000) :
    Kept runtime request (log.run runtime events) := by
  induction events generalizing log with
  | nil => exact h
  | cons event events ih =>
    have hdistinct : (request.otherKeys runtime (log.step runtime event).outcomes).Nodup :=
      (List.nodup_dedup _).filter _
    have hlater : request.otherKeys runtime (log.step runtime event).outcomes ⊆
        request.otherKeys runtime (log.run runtime (event :: events)).outcomes :=
      otherKeys_subset_run (log.step runtime event) events
    have hstep : (request.otherKeys runtime (log.step runtime event).outcomes).length < 1000 :=
      lt_of_le_of_lt (hdistinct.subperm hlater).length_le hfew
    exact ih (h.step hundisturbed.1 hstep) hundisturbed.2 hfew

end Steps

end IdempotentRequest

/-! ## Main result -/

/-- In every undisturbed run that begins without the key and answers fewer than a thousand other
keys on the replica, the calls that are answered agree, the provider was invoked for one of them
at most, and a call with another content neither goes on nor is answered. -/
theorem one_inference_of_undisturbed (runtime : AiRuntime) (request : IdempotentRequest)
    (s : AiSystem) (events : List AiEvent) (hunused : request.Unused runtime s)
    (hundisturbed : request.UndisturbedRun runtime s events)
    (hfew : (request.otherKeys runtime
      ((AiLog.start s).run runtime events).outcomes).length < 1000) :
    request.OneInference runtime ((AiLog.start s).run runtime events) :=
  (hunused.kept.run hundisturbed hfew).oneInference

/-- The request of the example interview, on the first replica. -/
def exampleRequest : IdempotentRequest where
  replica := 0
  key := exampleInterview.idempotencyCacheKey exampleRuntime
  requestHash := exampleInterview.requestHash exampleRuntime

/-- Nothing has been called under the key of the example. -/
theorem exampleRequest_unused :
    exampleRequest.Unused exampleRuntime (AiSystem.initial Store.empty) where
  unknown := rfl
  idle := fun _ _ hprogress => absurd hprogress (by simp [AiSystem.initial])

/-- The calls of the example ask the same. -/
theorem exampleBegin_undisturbed {s : AiSystem} (id : Nat)
    (hconsent : activeAiConsent exampleCaller s.vault = some ⟨"c1", "2026-01", 1⟩) :
    exampleRequest.Undisturbed exampleRuntime s (exampleBegin id) := by
  intro interview hadmitted _ _ hother
  have hexample : admitInterview exampleRuntime exampleCaller ⟨"k1", 1, "hello", [.insurance]⟩
      (some ⟨"c1", "2026-01", 1⟩) = .ok exampleInterview := by decide +kernel
  rw [hconsent, hexample] at hadmitted
  have heq : exampleInterview = interview := Except.ok.inj hadmitted
  rw [← heq] at hother
  exact absurd rfl hother

/-- The call of the example, and the same request after it was answered. -/
theorem one_inference_of_undisturbed_example :
    exampleRequest.OneInference exampleRuntime ((AiLog.start (AiSystem.initial Store.empty)).run
      exampleRuntime (exampleReplayedRun [])) := by
  refine one_inference_of_undisturbed exampleRuntime exampleRequest (AiSystem.initial Store.empty)
    (exampleReplayedRun []) exampleRequest_unused ?_ (by decide +kernel)
  refine ⟨trivial, ?_, trivial, trivial, trivial, ?_, ?_, trivial⟩
  · exact exampleBegin_undisturbed 0 (by decide +kernel)
  · intro call result _ _
    exact Option.isNone_iff_eq_none.mp (by decide +kernel)
  · exact exampleBegin_undisturbed 1 (by decide +kernel)

/-- Two calls of the example that overlap, with an answer of the provider for each. -/
def exampleOverlappingRun : List AiEvent :=
  [exampleConsent "c1" "2026-01" 1, exampleBegin 0, exampleBegin 1, .cacheMiss 0, .cacheMiss 1,
    .provider 0 (.ok (.obj [("candidates", .arr []), ("followUpQuestion", .null)])),
    .provider 1 (.ok (.obj [("candidates", .arr []), ("followUpQuestion", .str "Which?")])),
    .store 0 true, .store 1 true, .finish 0, .finish 1]

/-- Overlapping calls both miss the map: the provider is invoked for both, and their answers
differ. -/
theorem overlapping_calls_infer_twice :
    exampleRequest.Unused exampleRuntime (AiSystem.initial Store.empty) ∧
    ¬ exampleRequest.OneInference exampleRuntime
      ((AiLog.start (AiSystem.initial Store.empty)).run exampleRuntime exampleOverlappingRun) := by
  refine ⟨exampleRequest_unused, ?_⟩
  intro h
  exact absurd h.once (by decide +kernel)

end LegacyVault
