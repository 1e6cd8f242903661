import Mathlib.Data.List.Basic

/-!
# Retry loops

A loop of at most so many attempts. Every attempt makes one call. It is done,
goes on to the next attempt after a wait, or stops the loop. A loop that is
not done has exhausted its attempts and ends with the state they leave.
-/

namespace LegacyVault.RetryLoop

variable {κ ω σ ρ : Type}

/-- What an attempt comes to. -/
inductive Step (ω σ ρ : Type) where
  | done (result : ρ)
  | again (wait : ω) (state : σ)
  | stop (state : σ)

/-- Calls of a loop, its waits, and its result or the state of an exhausted loop. -/
structure Trace (κ ω σ ρ : Type) where
  calls : List κ
  waits : List ω
  ending : Except σ ρ

/-- Run the attempts from one on, while some remain. -/
def run (call : Nat → κ) (step : Nat → σ → Step ω σ ρ) :
    (remaining attempt : Nat) → σ → Trace κ ω σ ρ
  | 0, _, state => ⟨[], [], .error state⟩
  | remaining + 1, attempt, state =>
    match step attempt state with
    | .done result => ⟨[call attempt], [], .ok result⟩
    | .stop state => ⟨[call attempt], [], .error state⟩
    | .again wait state =>
      let rest := run call step remaining (attempt + 1) state
      ⟨call attempt :: rest.calls, wait :: rest.waits, rest.ending⟩

section Run

variable {call : Nat → κ} {step : Nat → σ → Step ω σ ρ} {remaining attempt : Nat} {state : σ}

theorem run_done {result : ρ} (h : step attempt state = .done result) :
    run call step (remaining + 1) attempt state = ⟨[call attempt], [], .ok result⟩ := by
  rw [run, h]

theorem run_stop {state' : σ} (h : step attempt state = .stop state') :
    run call step (remaining + 1) attempt state = ⟨[call attempt], [], .error state'⟩ := by
  rw [run, h]

theorem run_again {wait : ω} {state' : σ} (h : step attempt state = .again wait state') :
    run call step (remaining + 1) attempt state =
      ⟨call attempt :: (run call step remaining (attempt + 1) state').calls,
        wait :: (run call step remaining (attempt + 1) state').waits,
        (run call step remaining (attempt + 1) state').ending⟩ := by
  rw [run, h]

/-- No more calls than attempts. -/
theorem calls_length_le : (run call step remaining attempt state).calls.length ≤ remaining := by
  induction remaining generalizing attempt state with
  | zero => exact Nat.le_refl 0
  | succ remaining ih =>
    cases h : step attempt state with
    | done result =>
      rw [run_done h]
      exact Nat.succ_le_succ (Nat.zero_le remaining)
    | stop state' =>
      rw [run_stop h]
      exact Nat.succ_le_succ (Nat.zero_le remaining)
    | again wait state' =>
      rw [run_again h]
      exact Nat.succ_le_succ ih

/-- Every call is the call of an attempt. -/
theorem mem_calls {made : κ} (h : made ∈ (run call step remaining attempt state).calls) :
    ∃ index, made = call index := by
  induction remaining generalizing attempt state with
  | zero => exact absurd h List.not_mem_nil
  | succ remaining ih =>
    cases hstep : step attempt state with
    | done result =>
      rw [run_done hstep] at h
      exact ⟨attempt, List.mem_singleton.mp h⟩
    | stop state' =>
      rw [run_stop hstep] at h
      exact ⟨attempt, List.mem_singleton.mp h⟩
    | again wait state' =>
      rw [run_again hstep] at h
      rcases List.mem_cons.mp h with hfirst | hrest
      · exact ⟨attempt, hfirst⟩
      · exact ih hrest

/-- A wait follows an attempt that goes on. -/
theorem waits_getElem? {index : Nat} {wait : ω}
    (h : (run call step remaining attempt state).waits[index]? = some wait) :
    ∃ before after, step (attempt + index) before = .again wait after := by
  induction remaining generalizing attempt state index with
  | zero => exact absurd h (by simp [run])
  | succ remaining ih =>
    cases hstep : step attempt state with
    | done result => exact absurd h (by simp [run_done hstep])
    | stop state' => exact absurd h (by simp [run_stop hstep])
    | again first state' =>
      rw [run_again hstep] at h
      cases index with
      | zero =>
        obtain rfl : first = wait := by simpa using h
        exact ⟨state, state', hstep⟩
      | succ index =>
        have hrest : ∃ before after, step (attempt + 1 + index) before = .again wait after :=
          ih (by simpa using h)
        rwa [Nat.add_right_comm, Nat.add_assoc attempt index 1] at hrest

/-- As long as the attempts go on there are waits. -/
theorem lt_waits_length {index : Nat} (hindex : index < remaining)
    (h : ∀ earlier ≤ index, ∀ before, ∃ wait after,
      step (attempt + earlier) before = .again wait after) :
    index < (run call step remaining attempt state).waits.length := by
  induction remaining generalizing attempt state index with
  | zero => exact absurd hindex (Nat.not_lt_zero index)
  | succ remaining ih =>
    obtain ⟨wait, after, hstep⟩ := h 0 (Nat.zero_le index) state
    rw [Nat.add_zero] at hstep
    rw [run_again hstep]
    cases index with
    | zero => exact Nat.succ_pos _
    | succ index =>
      have hrest : index < (run call step remaining (attempt + 1) after).waits.length := by
        refine ih (Nat.lt_of_succ_lt_succ hindex) fun earlier hearlier before => ?_
        have hnext := h (earlier + 1) (Nat.succ_le_succ hearlier) before
        rwa [Nat.add_comm earlier 1, ← Nat.add_assoc] at hnext
      exact Nat.succ_lt_succ hrest

/-- A loop that is done has made its last call at the attempt that was done. -/
theorem done_of_ending {result : ρ}
    (h : (run call step remaining attempt state).ending = .ok result) :
    (run call step remaining attempt state).calls.length =
        (run call step remaining attempt state).waits.length + 1 ∧
      ∃ before, step (attempt + (run call step remaining attempt state).waits.length) before =
        .done result := by
  induction remaining generalizing attempt state with
  | zero => exact absurd h (by simp [run])
  | succ remaining ih =>
    cases hstep : step attempt state with
    | done found =>
      rw [run_done hstep] at h ⊢
      obtain rfl := Except.ok.inj h
      exact ⟨rfl, state, hstep⟩
    | stop state' =>
      rw [run_stop hstep] at h
      exact absurd h (by simp)
    | again wait state' =>
      rw [run_again hstep] at h ⊢
      obtain ⟨hlength, before, hdone⟩ := ih h
      constructor
      · exact congrArg Nat.succ hlength
      · refine ⟨before, ?_⟩
        rw [List.length_cons, Nat.add_comm _ 1, ← Nat.add_assoc]
        exact hdone

/-- A loop that is not done has gone on at its last attempt, or was stopped there. -/
theorem exhausted_of_ending {final : σ}
    (h : (run call step remaining attempt state).ending = .error final) :
    ((run call step remaining attempt state).calls.length = remaining ∧
        (run call step remaining attempt state).waits.length = remaining) ∨
      ∃ before, (run call step remaining attempt state).calls.length =
          (run call step remaining attempt state).waits.length + 1 ∧
        step (attempt + (run call step remaining attempt state).waits.length) before =
          .stop final := by
  induction remaining generalizing attempt state with
  | zero => exact Or.inl ⟨rfl, rfl⟩
  | succ remaining ih =>
    cases hstep : step attempt state with
    | done found =>
      rw [run_done hstep] at h
      exact absurd h (by simp)
    | stop state' =>
      rw [run_stop hstep] at h ⊢
      obtain rfl := Except.error.inj h
      exact Or.inr ⟨state, rfl, hstep⟩
    | again wait state' =>
      rw [run_again hstep] at h ⊢
      rcases ih h with ⟨hcalls, hwaits⟩ | ⟨before, hlength, hstop⟩
      · exact Or.inl ⟨congrArg Nat.succ hcalls, congrArg Nat.succ hwaits⟩
      · refine Or.inr ⟨before, congrArg Nat.succ hlength, ?_⟩
        rw [List.length_cons, Nat.add_comm _ 1, ← Nat.add_assoc]
        exact hstop

end Run

end LegacyVault.RetryLoop
