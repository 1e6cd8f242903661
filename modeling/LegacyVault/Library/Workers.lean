import Mathlib.Logic.Function.Basic
import Mathlib.Logic.Relation

/-!
# Executions of a job handler

Any number of executions of a handler over shared rows. An execution serves
one job and stands at one point of the handler, which is left to the program.
What is observed of the executions is kept latest first.
-/

namespace LegacyVault

variable {Rows Job Control Event : Type}

/-- The shared rows, the executions, and what was observed of them. -/
structure Workers (Rows Job Control Event : Type) where
  /-- The shared rows. -/
  rows : Rows
  /-- The executions that have started. -/
  executions : Nat → Option (Job × Control)
  /-- What was observed, latest first. -/
  events : List Event

namespace Workers

/-- No execution has started. -/
def idle (rows : Rows) : Workers Rows Job Control Event := ⟨rows, fun _ => none, []⟩

/-- A transaction has left these rows. -/
def withRows (s : Workers Rows Job Control Event) (rows : Rows) : Workers Rows Job Control Event :=
  { s with rows := rows }

/-- Something is observed. -/
def observe (s : Workers Rows Job Control Event) (events : List Event) :
    Workers Rows Job Control Event :=
  { s with events := events ++ s.events }

/-- An execution goes on. -/
def enter (s : Workers Rows Job Control Event) (execution : Nat) (job : Job) (control : Control) :
    Workers Rows Job Control Event :=
  { s with executions := Function.update s.executions execution (some (job, control)) }

variable {s : Workers Rows Job Control Event} {execution : Nat} {job : Job} {control : Control}

/-- An execution is the one that goes on, or another that stands as before. -/
theorem enter_cases {other : Nat} {job' : Job} {control' : Control}
    (h : (s.enter execution job control).executions other = some (job', control')) :
    (other = execution ∧ job' = job ∧ control' = control) ∨
      (other ≠ execution ∧ s.executions other = some (job', control')) := by
  by_cases hsame : other = execution
  · subst hsame
    obtain ⟨rfl, rfl⟩ : job = job' ∧ control = control' := by simpa [enter] using h
    exact Or.inl ⟨rfl, rfl, rfl⟩
  · exact Or.inr ⟨hsame, by simpa [enter, hsame] using h⟩

/-- An execution that has started stays started. -/
theorem enter_started {other : Nat} (h : s.executions other ≠ none) :
    (s.enter execution job control).executions other ≠ none := by
  by_cases hsame : other = execution
  · subst hsame
    simp [enter]
  · simpa [enter, hsame] using h

theorem enter_started_self : (s.enter execution job control).executions execution ≠ none := by
  simp [enter]

/-- Every execution stands where it may, for the rows and what was observed. -/
def Standing (allowed : Rows → List Event → Nat → Job → Control → Prop)
    (s : Workers Rows Job Control Event) : Prop :=
  ∀ execution job control, s.executions execution = some (job, control) →
    allowed s.rows s.events execution job control

variable {allowed : Rows → List Event → Nat → Job → Control → Prop}

theorem standing_idle (rows : Rows) :
    Standing allowed (idle rows : Workers Rows Job Control Event) :=
  fun _ _ _ h => absurd h (by simp [idle])

/-- An execution goes on to where it may stand. -/
theorem Standing.enter (h : Standing allowed s)
    (hcontrol : allowed s.rows s.events execution job control) :
    Standing allowed (s.enter execution job control) := by
  intro other job' control' hother
  rcases enter_cases hother with ⟨rfl, rfl, rfl⟩ | ⟨-, hbefore⟩
  · exact hcontrol
  · exact h other job' control' hbefore

/-- Executions stand where they may as long as the rows and events allow it. -/
theorem Standing.later {s' : Workers Rows Job Control Event} (h : Standing allowed s)
    (hexecutions : s'.executions = s.executions)
    (hlater : ∀ execution job control, allowed s.rows s.events execution job control →
      allowed s'.rows s'.events execution job control) : Standing allowed s' := by
  intro execution job control hcontrol
  rw [hexecutions] at hcontrol
  exact hlater execution job control (h execution job control hcontrol)

/-- One execution goes on over rows and events that leave the others where they may stand. -/
theorem Standing.moved {rows : Rows} {E : List Event} (h : Standing allowed s)
    (hcontrol : allowed rows (E ++ s.events) execution job control)
    (hothers : ∀ other job control, other ≠ execution →
      allowed s.rows s.events other job control →
        allowed rows (E ++ s.events) other job control) :
    Standing allowed (((s.withRows rows).observe E).enter execution job control) := by
  intro other job' control' hother
  rcases enter_cases hother with ⟨rfl, rfl, rfl⟩ | ⟨hne, hbefore⟩
  · exact hcontrol
  · exact hothers other job' control' hne (h other job' control' hbefore)

end Workers

end LegacyVault
