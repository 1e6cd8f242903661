import Mathlib.Data.List.Basic

/-!
# Circuit breakers

A breaker counts the calls that have failed since the last one that came to
something. From a threshold on, each such call opens it for a time. Logs are
listed with the latest call first.

While the breaker is open no call can fail. So the breaker is open exactly
when the latest failure has opened it and its time is not over: an earlier
failure that had opened it was over when the latest call began.
-/

namespace LegacyVault.CircuitBreaker

/-- The failures counted, and the time until which calls are refused. -/
structure Breaker where
  failures : Nat
  openUntil : Nat
  deriving DecidableEq

/-- Nothing has failed yet. -/
def Breaker.closed : Breaker := ⟨0, 0⟩

/-- Calls are refused at a time. -/
def Breaker.isOpen (breaker : Breaker) (now : Nat) : Bool := now < breaker.openUntil

/-- What a call means to the breaker. -/
inductive Verdict where
  | served
  | failed
  | neutral
  deriving DecidableEq

/-- A call with the times of its beginning and its end. -/
structure Entry where
  startedAt : Nat
  endedAt : Nat
  verdict : Verdict

section Breaker

variable (threshold cooldown : Nat)

/-- The breaker after a call. -/
def Breaker.record (breaker : Breaker) (entry : Entry) : Breaker :=
  match entry.verdict with
  | .served => { breaker with failures := 0 }
  | .neutral => breaker
  | .failed =>
    if threshold ≤ breaker.failures + 1 then
      ⟨breaker.failures + 1, entry.endedAt + cooldown⟩
    else { breaker with failures := breaker.failures + 1 }

/-- Failures since the last call that was served. -/
def failuresSince : List Entry → Nat
  | [] => 0
  | entry :: log =>
    match entry.verdict with
    | .served => 0
    | .failed => failuresSince log + 1
    | .neutral => failuresSince log

/-- The latest failure ended less than the time before, and reached the threshold. -/
def Tripped (log : List Entry) (now : Nat) : Prop :=
  ∃ later last earlier, log = later ++ last :: earlier ∧ last.verdict = .failed ∧
    (∀ entry ∈ later, entry.verdict ≠ .failed) ∧ now < last.endedAt + cooldown ∧
    threshold ≤ failuresSince (last :: earlier)

/-- Calls one after the other, with a clock that does not go back; a breaker that is open lets no
call fail. -/
inductive Logged : List Entry → Breaker → Nat → Prop
  | nil : Logged [] .closed 0
  | cons {log : List Entry} {breaker : Breaker} {latest : Nat} {entry : Entry}
      (hlog : Logged log breaker latest) (hstart : latest ≤ entry.startedAt)
      (hend : entry.startedAt ≤ entry.endedAt)
      (hadmitted : entry.verdict = .failed → breaker.isOpen entry.startedAt = false) :
      Logged (entry :: log) (breaker.record threshold cooldown entry) entry.endedAt

variable {threshold cooldown}

/-- A call that does not fail leaves the latest failure what it is. -/
theorem tripped_cons_of_ne {log : List Entry} {entry : Entry} {now : Nat}
    (h : entry.verdict ≠ .failed) :
    Tripped threshold cooldown (entry :: log) now ↔ Tripped threshold cooldown log now := by
  constructor
  · rintro ⟨later, last, earlier, hlog, hfailed, hlater, hnow, hcount⟩
    cases later with
    | nil =>
      obtain ⟨rfl, -⟩ := List.cons.inj hlog
      exact absurd hfailed h
    | cons first later =>
      obtain ⟨-, hrest⟩ := List.cons.inj hlog
      exact ⟨later, last, earlier, hrest, hfailed,
        fun other hother => hlater other (List.mem_cons_of_mem _ hother), hnow, hcount⟩
  · rintro ⟨later, last, earlier, hlog, hfailed, hlater, hnow, hcount⟩
    refine ⟨entry :: later, last, earlier, congrArg (entry :: ·) hlog, hfailed, ?_, hnow, hcount⟩
    intro other hother
    rcases List.mem_cons.mp hother with rfl | hin
    · exact h
    · exact hlater other hin

/-- A call that fails is the latest failure. -/
theorem tripped_cons_of_eq {log : List Entry} {entry : Entry} {now : Nat}
    (h : entry.verdict = .failed) :
    Tripped threshold cooldown (entry :: log) now ↔
      now < entry.endedAt + cooldown ∧ threshold ≤ failuresSince log + 1 := by
  have hcount : failuresSince (entry :: log) = failuresSince log + 1 := by
    rw [failuresSince, h]
  constructor
  · rintro ⟨later, last, earlier, hlog, -, hlater, hnow, hreached⟩
    cases later with
    | nil =>
      obtain ⟨rfl, rfl⟩ := List.cons.inj hlog
      exact ⟨hnow, hcount ▸ hreached⟩
    | cons first later =>
      obtain ⟨rfl, -⟩ := List.cons.inj hlog
      exact absurd h (hlater entry List.mem_cons_self)
  · rintro ⟨hnow, hreached⟩
    exact ⟨[], entry, log, rfl, h, fun _ hin => absurd hin List.not_mem_nil, hnow,
      hcount.symm ▸ hreached⟩

/-- The breaker counts the failures since the last call that was served. -/
theorem Logged.failures {log : List Entry} {breaker : Breaker} {latest : Nat}
    (h : Logged threshold cooldown log breaker latest) :
    breaker.failures = failuresSince log := by
  induction h with
  | nil => rfl
  | @cons log breaker latest entry hlog hstart hend hadmitted ih =>
    unfold Breaker.record failuresSince
    cases entry.verdict with
    | served => rfl
    | neutral => exact ih
    | failed =>
      by_cases hreached : threshold ≤ breaker.failures + 1
      · rw [if_pos hreached]
        exact congrArg Nat.succ ih
      · rw [if_neg hreached]
        exact congrArg Nat.succ ih

/-- From the end of its last call on, a breaker is open exactly when the latest failure has
opened it and the time is not over. -/
theorem Logged.isOpen_iff {log : List Entry} {breaker : Breaker} {latest : Nat}
    (h : Logged threshold cooldown log breaker latest) {now : Nat} (hnow : latest ≤ now) :
    breaker.isOpen now = true ↔ Tripped threshold cooldown log now := by
  induction h with
  | nil =>
    refine iff_of_false (by simp [Breaker.isOpen, Breaker.closed]) ?_
    rintro ⟨later, last, earlier, hlog, -⟩
    exact absurd hlog (by simp)
  | @cons log breaker latest entry hlog hstart hend hadmitted ih =>
    have hbefore : latest ≤ now := Nat.le_trans hstart (Nat.le_trans hend hnow)
    cases hverdict : entry.verdict with
    | served =>
      rw [tripped_cons_of_ne (by simp [hverdict]), ← ih hbefore, Breaker.record, hverdict]
      rfl
    | neutral =>
      rw [tripped_cons_of_ne (by simp [hverdict]), ← ih hbefore, Breaker.record, hverdict]
    | failed =>
      rw [tripped_cons_of_eq hverdict, ← hlog.failures, Breaker.record, hverdict]
      by_cases hreached : threshold ≤ breaker.failures + 1
      · simp only
        rw [if_pos hreached, Breaker.isOpen, decide_eq_true_iff]
        exact (and_iff_left hreached).symm
      · -- An earlier time was over when this call began.
        have hclosed : breaker.openUntil ≤ entry.startedAt := by
          simpa [Breaker.isOpen] using hadmitted hverdict
        have hover : ¬ now < breaker.openUntil :=
          Nat.not_lt.mpr (Nat.le_trans hclosed (Nat.le_trans hend hnow))
        simp only
        rw [if_neg hreached, Breaker.isOpen, decide_eq_true_iff]
        exact iff_of_false hover fun hboth => hreached hboth.2

end Breaker

end LegacyVault.CircuitBreaker
