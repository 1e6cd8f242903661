import LegacyVault.Library.RowTransaction
import Mathlib.Data.List.ReduceOption
import Mathlib.Logic.Relation

/-!
# Statements of row transactions

The statements that programs are written with: plain selects, inserts that
fail or do nothing on a conflict, guarded updates and row locks, deletes, and
statements over all matching rows. Each comes with one lemma about executing
it among other transactions and one about running it alone.

A condition on single writes, kept by every statement of a program, holds
between the rows before and after the program. This is how the tables a
program leaves alone are shown to be unchanged.
-/

namespace LegacyVault.RowTransaction.Program

variable {S : Schema} {ε α β : Type}

/-- A plain select. -/
def select (query : Store S → α) : Program S ε α := peek (fun σ => commit (query σ))

/-- Write the row a statement computes from the current one, and return it.
A statement that gives no row leaves the current one alone. -/
def putRow (t : S.Table) (k : S.Key t) (statement : Option (S.Row t) → Option (S.Row t)) :
    Program S ε (Option (S.Row t)) :=
  access t k (fun v => (statement v).map some) (fun v => commit (statement v))

/-- Insert, doing nothing when the key is taken. Returns the inserted row. -/
def insertOrIgnore (t : S.Table) (k : S.Key t) (row : S.Row t) :
    Program S ε (Option (S.Row t)) :=
  putRow t k (fun v => if v.isNone then some row else none)

/-- Insert, failing when the key is taken. -/
def insertRow (t : S.Table) (k : S.Key t) (row : S.Row t) (duplicate : ε) :
    Program S ε (S.Row t) :=
  insertOrIgnore t k row >>= fun inserted =>
    match inserted with
    | some row => commit row
    | none => rollback duplicate

/-- Update the row when the change applies to it. Returns the changed row. -/
def updateRow (t : S.Table) (k : S.Key t) (change : S.Row t → Option (S.Row t)) :
    Program S ε (Option (S.Row t)) :=
  putRow t k (fun v => v.bind change)

/-- Lock the row when it matches, and return it. -/
def lockRow (t : S.Table) (k : S.Key t) (condition : S.Row t → Bool) :
    Program S ε (Option (S.Row t)) :=
  updateRow t k (fun row => if condition row then some row else none)

/-- Delete the row when it matches. Returns the deleted row. -/
def deleteRow (t : S.Table) (k : S.Key t) (condition : S.Row t → Bool) :
    Program S ε (Option (S.Row t)) :=
  access t k (fun v => if v.any condition then some none else none)
    (fun v => commit (v.filter condition))

/-- Run a program for every element in turn and collect the results. -/
def forEach : List α → (α → Program S ε β) → Program S ε (List β)
  | [], _ => commit []
  | a :: as, body => body a >>= fun b => forEach as body >>= fun bs => commit (b :: bs)

/-- Keys of the rows a condition selects. -/
def matching (t : S.Table) (condition : S.Row t → Bool) : Program S ε (List (S.Key t)) :=
  select (fun σ => ((σ.scan t).filter (fun entry => condition entry.2)).map Prod.fst)

/-- Update every row the change applies to. Rows are found in the snapshot of the
statement and tested again once they are locked. Returns the changed rows. -/
def updateWhere (t : S.Table) (change : S.Row t → Option (S.Row t)) :
    Program S ε (List (S.Row t)) :=
  matching t (fun row => (change row).isSome) >>= fun keys =>
    forEach keys (fun k => updateRow t k change) >>= fun rows => commit rows.reduceOption

/-- Delete every row the condition selects. Returns the deleted rows. -/
def deleteWhere (t : S.Table) (condition : S.Row t → Bool) : Program S ε (List (S.Row t)) :=
  matching t condition >>= fun keys =>
    forEach keys (fun k => deleteRow t k condition) >>= fun rows => commit rows.reduceOption

section Executes

variable {seen : Store S → Prop} {σ : Store S} {ws ws' : List (Write S)}

theorem executes_select {query : Store S → α} {outcome : Except ε α} :
    (select query).Executes seen σ ws outcome ws' ↔
      ∃ σ₀, seen σ₀ ∧ outcome = .ok (query (σ₀.overlay ws)) ∧ ws' = ws :=
  Iff.rfl

/-- A row statement writes the row it computes at its lock, or has found nothing
to write at some moment. -/
theorem executes_putRow {t : S.Table} {k : S.Key t}
    {statement : Option (S.Row t) → Option (S.Row t)} {outcome : Except ε (Option (S.Row t))} :
    (putRow t k statement).Executes seen σ ws outcome ws' ↔
      (∃ row, statement ((σ.overlay ws).get t k) = some row ∧ outcome = .ok (some row) ∧
        ws' = ⟨t, k, some row⟩ :: ws) ∨
      (∃ σ₀, seen σ₀ ∧ statement ((σ₀.overlay ws).get t k) = none ∧ outcome = .ok none ∧
        ws' = ws) := by
  simp only [putRow, Executes]
  constructor
  · rintro (⟨v, hv, ho, hw⟩ | ⟨σ₀, hs, hv, ho, hw⟩)
    · cases hrow : statement ((σ.overlay ws).get t k) with
      | none => simp [hrow] at hv
      | some row =>
        obtain rfl : some row = v := by simpa [hrow] using hv
        exact Or.inl ⟨row, rfl, by rw [ho, hrow], hw⟩
    · have hnone : statement ((σ₀.overlay ws).get t k) = none := by simpa using hv
      exact Or.inr ⟨σ₀, hs, hnone, by rw [ho, hnone], hw⟩
  · rintro (⟨row, hrow, ho, hw⟩ | ⟨σ₀, hs, hnone, ho, hw⟩)
    · exact Or.inl ⟨some row, by rw [hrow]; rfl, by rw [ho, hrow], hw⟩
    · exact Or.inr ⟨σ₀, hs, by rw [hnone]; rfl, by rw [ho, hnone], hw⟩

theorem executes_insertOrIgnore {t : S.Table} {k : S.Key t} {row : S.Row t}
    {outcome : Except ε (Option (S.Row t))} :
    (insertOrIgnore t k row).Executes seen σ ws outcome ws' ↔
      ((σ.overlay ws).get t k = none ∧ outcome = .ok (some row) ∧
        ws' = ⟨t, k, some row⟩ :: ws) ∨
      (∃ σ₀ old, seen σ₀ ∧ (σ₀.overlay ws).get t k = some old ∧ outcome = .ok none ∧
        ws' = ws) := by
  rw [insertOrIgnore, executes_putRow]
  constructor
  · rintro (⟨row', hrow, ho, hw⟩ | ⟨σ₀, hs, hnone, ho, hw⟩)
    · by_cases h : ((σ.overlay ws).get t k).isNone = true
      · rw [if_pos h] at hrow
        obtain rfl := Option.some.inj hrow
        exact Or.inl ⟨Option.isNone_iff_eq_none.mp h, ho, hw⟩
      · rw [if_neg h] at hrow
        exact absurd hrow (by simp)
    · cases hv : (σ₀.overlay ws).get t k with
      | none => simp [hv] at hnone
      | some old => exact Or.inr ⟨σ₀, old, hs, hv, ho, hw⟩
  · rintro (⟨hnone, ho, hw⟩ | ⟨σ₀, old, hs, hold, ho, hw⟩)
    · exact Or.inl ⟨row, by simp [hnone], ho, hw⟩
    · exact Or.inr ⟨σ₀, hs, by simp [hold], ho, hw⟩

theorem executes_insertRow {t : S.Table} {k : S.Key t} {row : S.Row t} {duplicate : ε}
    {outcome : Except ε (S.Row t)} :
    (insertRow t k row duplicate).Executes seen σ ws outcome ws' ↔
      ((σ.overlay ws).get t k = none ∧ outcome = .ok row ∧ ws' = ⟨t, k, some row⟩ :: ws) ∨
      (∃ σ₀ old, seen σ₀ ∧ (σ₀.overlay ws).get t k = some old ∧ outcome = .error duplicate ∧
        ws' = ws) := by
  simp only [insertRow, executes_bind, executes_insertOrIgnore]
  constructor
  · rintro (⟨a, ws₁, ⟨hnone, ha, rfl⟩ | ⟨σ₀, old, hs, hold, ha, rfl⟩, hrest⟩ | ⟨e, -, h⟩)
    · obtain rfl := Except.ok.inj ha
      exact Or.inl ⟨hnone, hrest.1, hrest.2⟩
    · obtain rfl := Except.ok.inj ha
      exact Or.inr ⟨σ₀, old, hs, hold, hrest.1, hrest.2⟩
    · rcases h with ⟨_, h, _⟩ | ⟨_, _, _, _, h, _⟩ <;> exact absurd h (by simp)
  · rintro (⟨hnone, ho, hw⟩ | ⟨σ₀, old, hs, hold, ho, hw⟩)
    · exact Or.inl ⟨some row, _, Or.inl ⟨hnone, rfl, rfl⟩, ho, hw⟩
    · exact Or.inl ⟨none, _, Or.inr ⟨σ₀, old, hs, hold, rfl, rfl⟩, ho, hw⟩

theorem executes_updateRow {t : S.Table} {k : S.Key t} {change : S.Row t → Option (S.Row t)}
    {outcome : Except ε (Option (S.Row t))} :
    (updateRow t k change).Executes seen σ ws outcome ws' ↔
      (∃ old row, (σ.overlay ws).get t k = some old ∧ change old = some row ∧
        outcome = .ok (some row) ∧ ws' = ⟨t, k, some row⟩ :: ws) ∨
      (∃ σ₀, seen σ₀ ∧ ((σ₀.overlay ws).get t k).bind change = none ∧ outcome = .ok none ∧
        ws' = ws) := by
  rw [updateRow, executes_putRow]
  constructor
  · rintro (⟨row, hrow, ho, hw⟩ | h)
    · obtain ⟨old, hold, hchange⟩ := Option.bind_eq_some_iff.mp hrow
      exact Or.inl ⟨old, row, hold, hchange, ho, hw⟩
    · exact Or.inr h
  · rintro (⟨old, row, hold, hchange, ho, hw⟩ | h)
    · exact Or.inl ⟨row, by rw [hold]; exact hchange, ho, hw⟩
    · exact Or.inr h

theorem executes_lockRow {t : S.Table} {k : S.Key t} {condition : S.Row t → Bool}
    {outcome : Except ε (Option (S.Row t))} :
    (lockRow t k condition).Executes seen σ ws outcome ws' ↔
      (∃ row, (σ.overlay ws).get t k = some row ∧ condition row = true ∧
        outcome = .ok (some row) ∧ ws' = ⟨t, k, some row⟩ :: ws) ∨
      (∃ σ₀, seen σ₀ ∧ ((σ₀.overlay ws).get t k).filter condition = none ∧ outcome = .ok none ∧
        ws' = ws) := by
  have hbind : ∀ v : Option (S.Row t), (v.bind fun row => if condition row then some row else none)
      = v.filter condition := by
    intro v
    cases v with
    | none => rfl
    | some row => simp [Option.filter]
  simp only [lockRow, executes_updateRow, hbind]
  constructor
  · rintro (⟨old, row, hold, hchange, ho, hw⟩ | h)
    · by_cases hc : condition old = true
      · rw [if_pos hc] at hchange
        obtain rfl := Option.some.inj hchange
        exact Or.inl ⟨old, hold, hc, ho, hw⟩
      · rw [if_neg hc] at hchange
        exact absurd hchange (by simp)
    · exact Or.inr h
  · rintro (⟨row, hrow, hc, ho, hw⟩ | h)
    · exact Or.inl ⟨row, row, hrow, by rw [if_pos hc], ho, hw⟩
    · exact Or.inr h

/-- An insert that succeeds has written its row under a free key. -/
theorem executes_insertRow_ok {t : S.Table} {k : S.Key t} {row inserted : S.Row t}
    {duplicate : ε} (h : (insertRow t k row duplicate).Executes seen σ ws (.ok inserted) ws') :
    (σ.overlay ws).get t k = none ∧ inserted = row ∧ ws' = ⟨t, k, some row⟩ :: ws := by
  rcases executes_insertRow.mp h with ⟨hfree, hout, hws⟩ | ⟨_, _, _, _, hout, _⟩
  · exact ⟨hfree, Except.ok.inj hout, hws⟩
  · exact absurd hout (by simp)

/-- An update that returns a row has written it. -/
theorem executes_updateRow_some {t : S.Table} {k : S.Key t}
    {change : S.Row t → Option (S.Row t)} {row : S.Row t}
    (h : (updateRow t k change : Program S ε _).Executes seen σ ws (.ok (some row)) ws') :
    ∃ old, (σ.overlay ws).get t k = some old ∧ change old = some row ∧
      ws' = ⟨t, k, some row⟩ :: ws := by
  rcases executes_updateRow.mp h with ⟨old, new, hold, hchange, hout, hws⟩ | ⟨_, _, _, hout, _⟩
  · obtain rfl := Option.some.inj (Except.ok.inj hout)
    exact ⟨old, hold, hchange, hws⟩
  · exact absurd hout (by simp)

/-- A lock that returns a row has found it. -/
theorem executes_lockRow_some {t : S.Table} {k : S.Key t} {condition : S.Row t → Bool}
    {row : S.Row t}
    (h : (lockRow t k condition : Program S ε _).Executes seen σ ws (.ok (some row)) ws') :
    (σ.overlay ws).get t k = some row ∧ condition row = true ∧
      ws' = ⟨t, k, some row⟩ :: ws := by
  rcases executes_lockRow.mp h with ⟨found, hrow, hcondition, hout, hws⟩ | ⟨_, _, _, hout, _⟩
  · obtain rfl := Option.some.inj (Except.ok.inj hout)
    exact ⟨hrow, hcondition, hws⟩
  · exact absurd hout (by simp)

/-- A row is deleted when it matches at its lock, or did not match at some moment. -/
theorem executes_deleteRow {t : S.Table} {k : S.Key t} {condition : S.Row t → Bool}
    {outcome : Except ε (Option (S.Row t))} :
    (deleteRow t k condition).Executes seen σ ws outcome ws' ↔
      (∃ row, (σ.overlay ws).get t k = some row ∧ condition row = true ∧
        outcome = .ok (some row) ∧ ws' = ⟨t, k, none⟩ :: ws) ∨
      (∃ σ₀, seen σ₀ ∧ ((σ₀.overlay ws).get t k).any condition = false ∧ outcome = .ok none ∧
        ws' = ws) := by
  have hfilter : ∀ v : Option (S.Row t), v.any condition = false → v.filter condition = none := by
    intro v hv
    cases v with
    | none => rfl
    | some row => simpa [Option.filter] using hv
  have hstatement : ∀ v : Option (S.Row t), ∀ v',
      (if v.any condition then some none else none : Option (Option (S.Row t))) = some v' ↔
        v' = none ∧ ∃ row, v = some row ∧ condition row = true := by
    intro v v'
    cases v with
    | none => simp
    | some row =>
      by_cases hc : condition row = true
      · simp only [Option.any_some, hc, if_true, Option.some.injEq, exists_eq_left', and_true]
        exact eq_comm
      · simp [hc]
  simp only [deleteRow, Executes, hstatement]
  constructor
  · rintro (⟨v', ⟨rfl, row, hrow, hc⟩, ho, hw⟩ | ⟨σ₀, hs, hv, ho, hw⟩)
    · exact Or.inl ⟨row, hrow, hc, by rw [ho, hrow]; simp [Option.filter, hc], hw⟩
    · have hany : ((σ₀.overlay ws).get t k).any condition = false := by simpa using hv
      exact Or.inr ⟨σ₀, hs, hany, by rw [ho, hfilter _ hany], hw⟩
  · rintro (⟨row, hrow, hc, ho, hw⟩ | ⟨σ₀, hs, hany, ho, hw⟩)
    · exact Or.inl ⟨none, ⟨rfl, row, hrow, hc⟩, by rw [ho, hrow]; simp [Option.filter, hc], hw⟩
    · exact Or.inr ⟨σ₀, hs, by simp [hany], by rw [ho, hfilter _ hany], hw⟩

/-- One change of a row, or several in turn. -/
def Rewrites {t : S.Table} (change : S.Row t → Option (S.Row t)) :
    Option (S.Row t) → Option (S.Row t) → Prop :=
  Relation.ReflTransGen (fun v v' =>
    ∃ old row, v = some old ∧ change old = some row ∧ v' = some row)

/-- A row the change does not apply to is not rewritten. -/
theorem Rewrites.eq_of_none {t : S.Table} {change : S.Row t → Option (S.Row t)} {row : S.Row t}
    {v : Option (S.Row t)} (h : Rewrites change (some row) v) (hnone : change row = none) :
    v = some row := by
  induction h with
  | refl => rfl
  | tail _ hstep ih =>
    obtain ⟨old, new, hold, hchange, rfl⟩ := hstep
    obtain rfl : old = row := Option.some.inj (hold.symm.trans ih)
    exact absurd (hchange.symm.trans hnone) (by simp)

/-- When a changed row is not changed again, a row that is still to change is the first. -/
theorem Rewrites.eq_of_change {t : S.Table} {change : S.Row t → Option (S.Row t)}
    (honce : ∀ a b, change a = some b → change b = none) {v : Option (S.Row t)}
    {old row : S.Row t} (h : Rewrites change v (some old)) (hchange : change old = some row) :
    v = some old := by
  cases h with
  | refl => rfl
  | tail _ hstep =>
    obtain ⟨a, b, -, hab, hb⟩ := hstep
    obtain rfl := Option.some.inj hb
    exact absurd (hchange.symm.trans (honce a old hab)) (by simp)

/-- A change that keeps every row it applies to rewrites nothing. -/
theorem Rewrites.eq_of_same {t : S.Table} {change : S.Row t → Option (S.Row t)}
    (hsame : ∀ a b, change a = some b → b = a) {v v' : Option (S.Row t)}
    (h : Rewrites change v v') : v' = v := by
  induction h with
  | refl => rfl
  | tail _ hstep ih =>
    obtain ⟨a, b, ha, hab, rfl⟩ := hstep
    rw [hsame a b hab, ← ha, ih]

/-- Rewriting makes and deletes no row, and keeps of it what every change keeps. -/
theorem Rewrites.keeps {t : S.Table} {change : S.Row t → Option (S.Row t)}
    (kept : S.Row t → S.Row t → Prop) (hrefl : ∀ row, kept row row)
    (htrans : ∀ a b c, kept a b → kept b c → kept a c)
    (hchange : ∀ old row, change old = some row → kept old row) {v v' : Option (S.Row t)}
    (h : Rewrites change v v') :
    (v = none ∧ v' = none) ∨ ∃ row row', v = some row ∧ v' = some row' ∧ kept row row' := by
  induction h with
  | refl =>
    cases v with
    | none => exact Or.inl ⟨rfl, rfl⟩
    | some row => exact Or.inr ⟨row, row, rfl, rfl, hrefl row⟩
  | tail _ hstep ih =>
    obtain ⟨old, new, hold, happly, rfl⟩ := hstep
    rcases ih with ⟨-, hnone⟩ | ⟨row, row', hrow, hrow', hkept⟩
    · exact absurd (hold.symm.trans hnone) (by simp)
    · obtain rfl : old = row' := Option.some.inj (hold.symm.trans hrow')
      exact Or.inr ⟨row, new, hrow, rfl, htrans _ _ _ hkept (hchange old new happly)⟩

/-- An update in turn of several rows rewrites rows and returns changed ones. -/
theorem executes_forEach_updateRow {t : S.Table} {change : S.Row t → Option (S.Row t)}
    {keys : List (S.Key t)} {outcome : Except ε (List (Option (S.Row t)))}
    (h : (forEach keys (fun k => updateRow t k change)).Executes seen σ ws outcome ws') :
    (∀ k, Rewrites change ((σ.overlay ws).get t k) ((σ.overlay ws').get t k)) ∧
    ∃ rows, outcome = .ok rows ∧ ∀ row, some row ∈ rows → ∃ k old,
      Rewrites change ((σ.overlay ws).get t k) (some old) ∧ change old = some row ∧
      Rewrites change (some row) ((σ.overlay ws').get t k) := by
  induction keys generalizing ws outcome with
  | nil =>
    obtain ⟨rfl, rfl⟩ := h
    exact ⟨fun k => .refl, [], rfl, fun row hmem => absurd hmem (by simp)⟩
  | cons key keys ih =>
    have hfirst : ∀ {o : Except ε (Option (S.Row t))} {ws₁ : List (Write S)},
        (updateRow t key change).Executes seen σ ws o ws₁ →
        (∀ k, Rewrites change ((σ.overlay ws).get t k) ((σ.overlay ws₁).get t k)) ∧
        ∃ result, o = .ok result ∧ ∀ row, result = some row →
          ∃ old, (σ.overlay ws).get t key = some old ∧ change old = some row ∧
            (σ.overlay ws₁).get t key = some row := by
      intro o ws₁ hupdate
      rcases executes_updateRow.mp hupdate with ⟨old, row, hold, hchange, ho, rfl⟩ |
        ⟨σ₀, -, -, ho, rfl⟩
      · refine ⟨fun k => ?_, some row, ho, fun row' hrow' => ?_⟩
        · by_cases hk : k = key
          · subst hk
            rw [Store.overlay_cons, Store.get_set_self, hold]
            exact .single ⟨old, row, rfl, hchange, rfl⟩
          · rw [Store.overlay_cons, Store.get_set_of_key_ne _ _ hk]
            exact .refl
        · obtain rfl := Option.some.inj hrow'
          exact ⟨old, hold, hchange, by rw [Store.overlay_cons, Store.get_set_self]⟩
      · exact ⟨fun k => .refl, none, ho, fun row' hrow' => absurd hrow' (by simp)⟩
    rcases executes_bind.mp h with ⟨result, ws₁, hupdate, hrest⟩ | ⟨e, -, hupdate⟩
    · obtain ⟨hkeys, result', hresult, hrow⟩ := hfirst hupdate
      obtain rfl := Except.ok.inj hresult
      rcases executes_bind.mp hrest with ⟨rows, ws₂, hrows, hcommit⟩ | ⟨e, -, hrows⟩
      · obtain ⟨ho, rfl⟩ := hcommit
        obtain ⟨hlater, rows', hrows', hmem⟩ := ih hrows
        obtain rfl := Except.ok.inj hrows'
        refine ⟨fun k => (hkeys k).trans (hlater k), result :: rows, ho, ?_⟩
        intro row hrowmem
        rcases List.mem_cons.mp hrowmem with hhead | htail
        · obtain ⟨old, hold, hchange, hnew⟩ := hrow row hhead.symm
          refine ⟨key, old, by rw [hold]; exact .refl, hchange, ?_⟩
          rw [← hnew]
          exact hlater key
        · obtain ⟨k, old, hbefore, hchange, hafter⟩ := hmem row htail
          exact ⟨k, old, (hkeys k).trans hbefore, hchange, hafter⟩
      · obtain ⟨-, rows', hrows', -⟩ := ih hrows
        exact absurd hrows' (by simp)
    · obtain ⟨-, result, hresult, -⟩ := hfirst hupdate
      exact absurd hresult (by simp)

/-- An update of all matching rows rewrites rows and returns changed ones. -/
theorem executes_updateWhere {t : S.Table} {change : S.Row t → Option (S.Row t)}
    {outcome : Except ε (List (S.Row t))}
    (h : (updateWhere t change).Executes seen σ ws outcome ws') :
    (∀ k, Rewrites change ((σ.overlay ws).get t k) ((σ.overlay ws').get t k)) ∧
    ∃ rows, outcome = .ok rows ∧ ∀ row ∈ rows, ∃ k old,
      Rewrites change ((σ.overlay ws).get t k) (some old) ∧ change old = some row ∧
      Rewrites change (some row) ((σ.overlay ws').get t k) := by
  rcases executes_bind.mp h with ⟨keys, ws₁, hselect, hrest⟩ | ⟨e, -, hselect⟩
  · obtain ⟨-, -, -, rfl⟩ := executes_select.mp hselect
    rcases executes_bind.mp hrest with ⟨rows, ws₂, hrows, hcommit⟩ | ⟨e, -, hrows⟩
    · obtain ⟨ho, rfl⟩ := hcommit
      obtain ⟨hkeys, rows', hrows', hmem⟩ := executes_forEach_updateRow hrows
      obtain rfl := Except.ok.inj hrows'
      exact ⟨hkeys, _, ho, fun row hrow => hmem row (List.reduceOption_mem_iff.mp hrow)⟩
    · obtain ⟨-, rows', hrows', -⟩ := executes_forEach_updateRow hrows
      exact absurd hrows' (by simp)
  · obtain ⟨σ₀, -, hbad, -⟩ := executes_select.mp hselect
    exact absurd hbad (by simp)

end Executes

section Run

variable {σ : Store S}

@[simp] theorem run_commit (a : α) : (commit a : Program S ε α).run σ = (.ok a, σ) := rfl

@[simp] theorem run_rollback (e : ε) : (rollback e : Program S ε α).run σ = (.error e, σ) := rfl

@[simp] theorem run_select (query : Store S → α) :
    (select query : Program S ε α).run σ = (.ok (query σ), σ) := rfl

/-- Running a sequence alone is running its parts one after the other. -/
theorem run_bind (p : Program S ε α) (f : α → Program S ε β) :
    (p >>= f).run σ = match p.run σ with
      | (.ok a, σ') => (f a).run σ'
      | (.error e, σ') => (.error e, σ') := by
  induction p generalizing σ with
  | commit a => rfl
  | rollback e => rfl
  | access t k statement next ih =>
    rw [access_bind, run, run]
    cases statement (σ.get t k) with
    | none => exact ih _
    | some v => exact ih _
  | peek next ih =>
    rw [peek_bind, run, run]
    exact ih _

theorem run_putRow (t : S.Table) (k : S.Key t)
    (statement : Option (S.Row t) → Option (S.Row t)) :
    (putRow t k statement : Program S ε _).run σ =
      (.ok (statement (σ.get t k)), match statement (σ.get t k) with
        | some row => σ.set t k (some row)
        | none => σ) := by
  rw [putRow, run]
  cases statement (σ.get t k) <;> rfl

theorem run_insertOrIgnore (t : S.Table) (k : S.Key t) (row : S.Row t) :
    (insertOrIgnore t k row : Program S ε _).run σ =
      if (σ.get t k).isNone then (.ok (some row), σ.set t k (some row)) else (.ok none, σ) := by
  rw [insertOrIgnore, run_putRow]
  cases σ.get t k <;> simp

theorem run_insertRow (t : S.Table) (k : S.Key t) (row : S.Row t) (duplicate : ε) :
    (insertRow t k row duplicate : Program S ε _).run σ =
      if (σ.get t k).isNone then (.ok row, σ.set t k (some row)) else (.error duplicate, σ) := by
  rw [insertRow, run_bind, run_insertOrIgnore]
  cases σ.get t k <;> simp

theorem run_updateRow (t : S.Table) (k : S.Key t) (change : S.Row t → Option (S.Row t)) :
    (updateRow t k change : Program S ε _).run σ =
      (.ok ((σ.get t k).bind change), match (σ.get t k).bind change with
        | some row => σ.set t k (some row)
        | none => σ) :=
  run_putRow t k _

end Run

section Writes

/-- Every write the program can make satisfies a condition on the row before and after. -/
def Writes (Q : (t : S.Table) → S.Key t → Option (S.Row t) → Option (S.Row t) → Prop) :
    Program S ε α → Prop
  | commit _ => True
  | rollback _ => True
  | access t k statement next =>
    (∀ v v', statement v = some v' → Q t k v v') ∧ ∀ v, Writes Q (next v)
  | peek next => ∀ σ, Writes Q (next σ)

variable {Q : (t : S.Table) → S.Key t → Option (S.Row t) → Option (S.Row t) → Prop}

@[simp] theorem writes_commit (a : α) : Writes Q (commit a : Program S ε α) := trivial

@[simp] theorem writes_rollback (e : ε) : Writes Q (rollback e : Program S ε α) := trivial

@[simp] theorem writes_select (query : Store S → α) :
    Writes Q (select query : Program S ε α) := fun _ => trivial

theorem writes_bind {p : Program S ε α} {f : α → Program S ε β} (hp : Writes Q p)
    (hf : ∀ a, Writes Q (f a)) : Writes Q (p >>= f) := by
  induction p with
  | commit a => exact hf a
  | rollback e => trivial
  | access t k statement next ih => exact ⟨hp.1, fun v => ih v (hp.2 v)⟩
  | peek next ih => exact fun σ => ih σ (hp σ)

theorem writes_putRow {t : S.Table} {k : S.Key t}
    {statement : Option (S.Row t) → Option (S.Row t)}
    (h : ∀ v row, statement v = some row → Q t k v (some row)) :
    Writes Q (putRow t k statement : Program S ε _) := by
  refine ⟨fun v v' hv => ?_, fun _ => trivial⟩
  obtain ⟨row, hrow, rfl⟩ := Option.map_eq_some_iff.mp hv
  exact h v row hrow

theorem writes_insertOrIgnore {t : S.Table} {k : S.Key t} {row : S.Row t}
    (h : Q t k none (some row)) : Writes Q (insertOrIgnore t k row : Program S ε _) := by
  apply writes_putRow
  intro v row' hrow
  cases v with
  | none =>
    obtain rfl : row = row' := by simpa using hrow
    exact h
  | some old => simp at hrow

theorem writes_insertRow {t : S.Table} {k : S.Key t} {row : S.Row t} {duplicate : ε}
    (h : Q t k none (some row)) : Writes Q (insertRow t k row duplicate : Program S ε _) := by
  refine writes_bind (writes_insertOrIgnore h) (fun inserted => ?_)
  cases inserted <;> trivial

theorem writes_updateRow {t : S.Table} {k : S.Key t} {change : S.Row t → Option (S.Row t)}
    (h : ∀ old row, change old = some row → Q t k (some old) (some row)) :
    Writes Q (updateRow t k change : Program S ε _) := by
  apply writes_putRow
  intro v row hrow
  obtain ⟨old, rfl, hchange⟩ := Option.bind_eq_some_iff.mp hrow
  exact h old row hchange

theorem writes_forEach {as : List α} {body : α → Program S ε β}
    (h : ∀ a, Writes Q (body a)) : Writes Q (forEach as body) := by
  induction as with
  | nil => trivial
  | cons a as ih =>
    exact writes_bind (h a) (fun b => writes_bind ih (fun bs => trivial))

theorem writes_updateWhere {t : S.Table} {change : S.Row t → Option (S.Row t)}
    (h : ∀ k old row, change old = some row → Q t k (some old) (some row)) :
    Writes Q (updateWhere t change : Program S ε _) :=
  writes_bind (writes_select _) (fun _ =>
    writes_bind (writes_forEach (fun k => writes_updateRow (h k))) (fun _ => trivial))

theorem writes_lockRow {t : S.Table} {k : S.Key t} {condition : S.Row t → Bool}
    (h : ∀ row, Q t k (some row) (some row)) :
    Writes Q (lockRow t k condition : Program S ε _) := by
  apply writes_updateRow
  intro old row hchange
  by_cases hc : condition old = true
  · rw [if_pos hc] at hchange
    obtain rfl := Option.some.inj hchange
    exact h old
  · rw [if_neg hc] at hchange
    exact absurd hchange (by simp)

theorem writes_deleteRow {t : S.Table} {k : S.Key t} {condition : S.Row t → Bool}
    (h : ∀ old, condition old = true → Q t k (some old) none) :
    Writes Q (deleteRow t k condition : Program S ε _) := by
  refine ⟨fun v v' hv => ?_, fun _ => trivial⟩
  cases v with
  | none => simp at hv
  | some old =>
    by_cases hc : condition old = true
    · obtain rfl : none = v' := by simpa [hc] using hv
      exact h old hc
    · simp [hc] at hv

theorem writes_deleteWhere {t : S.Table} {condition : S.Row t → Bool}
    (h : ∀ k old, condition old = true → Q t k (some old) none) :
    Writes Q (deleteWhere t condition : Program S ε _) :=
  writes_bind (writes_select _) (fun _ =>
    writes_bind (writes_forEach (fun k => writes_deleteRow (h k))) (fun _ => trivial))

/-- A reflexive and transitive condition on single writes holds between the rows
before and after an execution. -/
theorem Writes.executes (hrefl : ∀ t k v, Q t k v v)
    (htrans : ∀ t k u v w, Q t k u v → Q t k v w → Q t k u w) {p : Program S ε α}
    (hp : Writes Q p) {seen : Store S → Prop} {σ : Store S} {ws ws' : List (Write S)}
    {outcome : Except ε α} (h : p.Executes seen σ ws outcome ws') (t : S.Table) (k : S.Key t) :
    Q t k ((σ.overlay ws).get t k) ((σ.overlay ws').get t k) := by
  induction p generalizing ws with
  | commit a =>
    rw [h.2]
    exact hrefl _ _ _
  | rollback e =>
    rw [h.2]
    exact hrefl _ _ _
  | access t' k' statement next ih =>
    rcases h with ⟨v, hv, hrest⟩ | ⟨σ₀, -, -, hrest⟩
    · have hstep := ih _ (hp.2 _) hrest
      rw [Store.overlay_cons] at hstep
      refine htrans _ _ _ _ _ ?_ hstep
      by_cases ht : t = t'
      · subst ht
        by_cases hk : k = k'
        · subst hk
          rw [Store.get_set_self]
          exact hp.1 _ _ hv
        · rw [Store.get_set_of_key_ne _ _ hk]
          exact hrefl _ _ _
      · rw [Store.get_set_of_table_ne _ _ _ _ ht]
        exact hrefl _ _ _
    · exact ih _ (hp.2 _) hrest
  | peek next ih =>
    obtain ⟨σ₀, -, hrest⟩ := h
    exact ih _ (hp _) hrest

/-- The program never writes the table. -/
def Leaves (t : S.Table) (p : Program S ε α) : Prop := Writes (fun t' _ _ _ => t ≠ t') p

/-- A table the program never writes reads the same afterwards, over any base. -/
theorem Leaves.executes {t : S.Table} {p : Program S ε α} (hp : Leaves t p)
    {seen : Store S → Prop} {σ : Store S} {ws ws' : List (Write S)} {outcome : Except ε α}
    (h : p.Executes seen σ ws outcome ws') (k : S.Key t) (base : Store S) :
    (base.overlay ws').get t k = (base.overlay ws).get t k := by
  induction p generalizing ws with
  | commit a => rw [h.2]
  | rollback e => rw [h.2]
  | access t' k' statement next ih =>
    rcases h with ⟨v, hv, hrest⟩ | ⟨σ₀, -, -, hrest⟩
    · have hne : t ≠ t' := hp.1 _ _ hv
      rw [ih _ (hp.2 _) hrest, Store.overlay_cons, Store.get_set_of_table_ne _ _ _ _ hne]
    · exact ih _ (hp.2 _) hrest
  | peek next ih =>
    obtain ⟨σ₀, -, hrest⟩ := h
    exact ih _ (hp _) hrest

/-- A table the program never writes has the same rows afterwards. -/
theorem Leaves.sameRows {t : S.Table} {p : Program S ε α} (hp : Leaves t p)
    {seen : Store S → Prop} {σ : Store S} {ws ws' : List (Write S)} {outcome : Except ε α}
    (h : p.Executes seen σ ws outcome ws') :
    Store.SameRows t (σ.overlay ws) (σ.overlay ws') :=
  fun k => hp.executes h k σ

/-- A table the program never writes has the same rows after it has run alone. -/
theorem Leaves.transact {t : S.Table} {p : Program S ε α} (hp : Leaves t p) (σ : Store S) :
    Store.SameRows t σ (p.transact σ).2 := by
  obtain ⟨ws', hexec, hws⟩ := run_executes p σ []
  have hsame := hp.sameRows hexec
  rw [hws] at hsame
  rw [Program.transact]
  cases hrun : p.run σ with
  | mk result σ' =>
    rw [Store.overlay_nil, hrun] at hsame
    cases result with
    | ok a => exact hsame
    | error e => exact fun _ => rfl

/-- The program writes nothing. -/
def ReadOnly (p : Program S ε α) : Prop := Writes (fun _ _ _ _ => False) p

/-- A weaker condition on single writes. -/
theorem Writes.mono
    {Q' : (t : S.Table) → S.Key t → Option (S.Row t) → Option (S.Row t) → Prop}
    (hQ : ∀ t k v v', Q t k v v' → Q' t k v v') {p : Program S ε α} (hp : Writes Q p) :
    Writes Q' p := by
  induction p with
  | commit a => trivial
  | rollback e => trivial
  | access t k statement next ih =>
    exact ⟨fun v v' hv => hQ t k v v' (hp.1 v v' hv), fun v => ih v (hp.2 v)⟩
  | peek next ih => exact fun σ => ih σ (hp σ)

/-- A program that writes nothing leaves every table alone. -/
theorem ReadOnly.leaves {p : Program S ε α} (hp : ReadOnly p) (t : S.Table) : Leaves t p :=
  Writes.mono (fun _ _ _ _ => False.elim) hp

/-- A program that writes nothing has no writes afterwards that it had not before. -/
theorem ReadOnly.executes {p : Program S ε α} (hp : ReadOnly p) {seen : Store S → Prop}
    {σ : Store S} {ws ws' : List (Write S)} {outcome : Except ε α}
    (h : p.Executes seen σ ws outcome ws') : ws' = ws := by
  induction p generalizing ws with
  | commit a => exact h.2
  | rollback e => exact h.2
  | access t k statement next ih =>
    rcases h with ⟨v, hv, -⟩ | ⟨σ₀, -, -, hrest⟩
    · exact absurd (hp.1 _ _ hv) id
    · exact ih _ (hp.2 _) hrest
  | peek next ih =>
    obtain ⟨σ₀, -, hrest⟩ := h
    exact ih _ (hp _) hrest

/-- A program that writes nothing leaves the store as it is. -/
theorem ReadOnly.transact {p : Program S ε α} (hp : ReadOnly p) (σ : Store S) :
    (p.transact σ).2 = σ := by
  have hrun : (p.run σ).2 = σ := by
    induction p with
    | commit a => rfl
    | rollback e => rfl
    | access t k statement next ih =>
      cases hvalue : statement (σ.get t k) with
      | none =>
        rw [run, hvalue]
        exact ih _ (hp.2 _)
      | some v => exact absurd (hp.1 _ _ hvalue) id
    | peek next ih => exact ih _ (hp _)
  rw [Program.transact]
  cases h : p.run σ with
  | mk result σ' =>
    rw [h] at hrun
    cases result with
    | ok a => exact hrun
    | error e => rfl

end Writes

section Raises

/-- Every error the program can roll back with satisfies a condition. -/
def Raises (Q : ε → Prop) : Program S ε α → Prop
  | commit _ => True
  | rollback e => Q e
  | access _ _ _ next => ∀ v, Raises Q (next v)
  | peek next => ∀ σ, Raises Q (next σ)

variable {Q : ε → Prop}

@[simp] theorem raises_commit (a : α) : Raises Q (commit a : Program S ε α) := trivial

@[simp] theorem raises_rollback (e : ε) : Raises Q (rollback e : Program S ε α) ↔ Q e := Iff.rfl

@[simp] theorem raises_select (query : Store S → α) :
    Raises Q (select query : Program S ε α) := fun _ => trivial

@[simp] theorem raises_putRow (t : S.Table) (k : S.Key t)
    (statement : Option (S.Row t) → Option (S.Row t)) :
    Raises Q (putRow t k statement : Program S ε _) := fun _ => trivial

@[simp] theorem raises_insertOrIgnore (t : S.Table) (k : S.Key t) (row : S.Row t) :
    Raises Q (insertOrIgnore t k row : Program S ε _) := fun _ => trivial

@[simp] theorem raises_updateRow (t : S.Table) (k : S.Key t)
    (change : S.Row t → Option (S.Row t)) :
    Raises Q (updateRow t k change : Program S ε _) := fun _ => trivial

@[simp] theorem raises_lockRow (t : S.Table) (k : S.Key t) (condition : S.Row t → Bool) :
    Raises Q (lockRow t k condition : Program S ε _) := fun _ => trivial

theorem raises_bind {p : Program S ε α} {f : α → Program S ε β} (hp : Raises Q p)
    (hf : ∀ a, Raises Q (f a)) : Raises Q (p >>= f) := by
  induction p with
  | commit a => exact hf a
  | rollback e => exact hp
  | access t k statement next ih => exact fun v => ih v (hp v)
  | peek next ih => exact fun σ => ih σ (hp σ)

theorem raises_insertRow {t : S.Table} {k : S.Key t} {row : S.Row t} {duplicate : ε}
    (h : Q duplicate) : Raises Q (insertRow t k row duplicate : Program S ε _) := by
  refine raises_bind (raises_insertOrIgnore t k row) (fun inserted => ?_)
  cases inserted with
  | none => exact h
  | some row => trivial

theorem raises_forEach {as : List α} {body : α → Program S ε β}
    (h : ∀ a, Raises Q (body a)) : Raises Q (forEach as body) := by
  induction as with
  | nil => trivial
  | cons a as ih => exact raises_bind (h a) (fun b => raises_bind ih (fun bs => trivial))

@[simp] theorem raises_updateWhere (t : S.Table) (change : S.Row t → Option (S.Row t)) :
    Raises Q (updateWhere t change : Program S ε _) :=
  raises_bind (raises_select _) (fun _ =>
    raises_bind (raises_forEach (fun k => raises_updateRow t k change)) (fun _ => trivial))

/-- A rolled-back execution ends in one of the program's errors. -/
theorem Raises.executes {p : Program S ε α} (hp : Raises Q p) {seen : Store S → Prop}
    {σ : Store S} {ws ws' : List (Write S)} {e : ε}
    (h : p.Executes seen σ ws (.error e) ws') : Q e := by
  induction p generalizing ws with
  | commit a => exact absurd h.1 (by simp)
  | rollback e' =>
    obtain rfl := Except.error.inj h.1
    exact hp
  | access t k statement next ih =>
    rcases h with ⟨v, -, hrest⟩ | ⟨σ₀, -, -, hrest⟩
    · exact ih _ (hp _) hrest
    · exact ih _ (hp _) hrest
  | peek next ih =>
    obtain ⟨σ₀, -, hrest⟩ := h
    exact ih _ (hp _) hrest

end Raises

end LegacyVault.RowTransaction.Program
