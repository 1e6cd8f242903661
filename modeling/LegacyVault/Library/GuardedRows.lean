import LegacyVault.Library.RowInvariants

/-!
# Rows guarded by their versions

Optimistic concurrency: a row carries a version, an operation names the
version it expects, and every change of the row raises it. A guard is passed
when a transaction has found the row at the expected version and left it at a
later one.

When all programs of a protocol raise the versions of the rows they change, a
guard is passed at most once in any run, however its transactions interleave.
-/

namespace LegacyVault.RowTransaction

variable {S : Schema}

/-- What the writes to a table may do. -/
inductive TableRule where
  /-- Rows are inserted, and changed to later versions. -/
  | ascends
  /-- Rows are deleted. -/
  | erases
  /-- Anything. -/
  | free
  deriving DecidableEq

/-- The rule allows a row to become the other. -/
def TableRule.Allows {ρ : Type} (version : ρ → Nat) (v v' : Option ρ) : TableRule → Prop
  | ascends => v' = v ∨ v = none ∨
      ∃ old new, v = some old ∧ v' = some new ∧ version old < version new
  | erases => v' = v ∨ v' = none
  | free => True

namespace TableRule

variable {ρ : Type} {version : ρ → Nat}

@[simp] theorem allows_refl (rule : TableRule) (v : Option ρ) : rule.Allows version v v := by
  cases rule with
  | ascends => exact Or.inl rfl
  | erases => exact Or.inl rfl
  | free => trivial

/-- Writes of one rule compose. -/
theorem Allows.trans {rule : TableRule} {u v w : Option ρ} (h : rule.Allows version u v)
    (h' : rule.Allows version v w) : rule.Allows version u w := by
  cases rule with
  | free => trivial
  | erases =>
    rcases h' with rfl | hnone
    · exact h
    · exact Or.inr hnone
  | ascends =>
    rcases h with rfl | hfree | ⟨old, between, hold, hbetween, hfirst⟩
    · exact h'
    · exact Or.inr (Or.inl hfree)
    · rcases h' with rfl | hfree | ⟨between', new, hbetween', hnew, hsecond⟩
      · exact Or.inr (Or.inr ⟨old, between, hold, hbetween, hfirst⟩)
      · exact absurd (hbetween.symm.trans hfree) (by simp)
      · obtain rfl : between = between' := Option.some.inj (hbetween.symm.trans hbetween')
        exact Or.inr (Or.inr ⟨old, new, hold, hnew, hfirst.trans hsecond⟩)

/-- A table whose rows ascend has its rows inserted. -/
theorem allows_insert (row : ρ) {rule : TableRule} (h : rule ≠ erases) :
    rule.Allows version none (some row) := by
  cases rule with
  | ascends => exact Or.inr (Or.inl rfl)
  | erases => exact absurd rfl h
  | free => trivial

/-- A table whose rows ascend has its rows changed to later versions. -/
theorem allows_update {old new : ρ} (hlater : version old < version new) {rule : TableRule}
    (h : rule ≠ erases) : rule.Allows version (some old) (some new) := by
  cases rule with
  | ascends => exact Or.inr (Or.inr ⟨old, new, rfl, rfl, hlater⟩)
  | erases => exact absurd rfl h
  | free => trivial

/-- A row that is there keeps its version or takes a later one. -/
theorem Allows.version_le {v' : Option ρ} {old : ρ} (h : ascends.Allows version (some old) v') :
    ∃ new, v' = some new ∧ version old ≤ version new := by
  rcases h with rfl | hnone | ⟨old', new, hold, hnew, hlater⟩
  · exact ⟨old, rfl, Nat.le_refl _⟩
  · exact absurd hnone (by simp)
  · obtain rfl := Option.some.inj hold
    exact ⟨new, hnew, Nat.le_of_lt hlater⟩

/-- One rule allows what another does. -/
theorem Allows.mono {rule rule' : TableRule} (hrule : rule' = rule ∨ rule' = free)
    {v v' : Option ρ} (h : rule.Allows version v v') : rule'.Allows version v v' := by
  rcases hrule with rfl | rfl
  · exact h
  · trivial

end TableRule

/-- A row, and the version an operation expects of it. -/
structure Guard (S : Schema) where
  /-- Table of the row. -/
  table : S.Table
  /-- Key of the row. -/
  key : S.Key table
  /-- The expected version. -/
  version : Nat

variable (version : (t : S.Table) → S.Row t → Nat)

/-- The row had the expected version, and has a later one now. -/
def Guard.Passes (g : Guard S) (σ σ' : Store S) : Prop :=
  ∃ before after, σ.get g.table g.key = some before ∧ version g.table before = g.version ∧
    σ'.get g.table g.key = some after ∧ g.version < version g.table after

/-- Writes that keep to the rules of their tables. -/
def Obeys (rule : S.Table → TableRule) :
    (t : S.Table) → S.Key t → Option (S.Row t) → Option (S.Row t) → Prop :=
  fun t _ v v' => (rule t).Allows (version t) v v'

variable {version} {rule : S.Table → TableRule}

theorem obeys_refl (t : S.Table) (k : S.Key t) (v : Option (S.Row t)) :
    Obeys version rule t k v v :=
  TableRule.allows_refl _ v

theorem obeys_trans (t : S.Table) (k : S.Key t) (u v w : Option (S.Row t))
    (h : Obeys version rule t k u v) (h' : Obeys version rule t k v w) :
    Obeys version rule t k u w :=
  TableRule.Allows.trans h h'

section Guard

variable {g : Guard S} {σ₀ σ σ' σ₁ : Store S}

/-- A guard stays passed when the row does not change before. -/
theorem Guard.Passes.after_same (hsame : σ.get g.table g.key = σ₀.get g.table g.key)
    (h : g.Passes version σ σ') : g.Passes version σ₀ σ' := by
  obtain ⟨before, after, hbefore, hexpected, hafter, hlater⟩ := h
  exact ⟨before, after, hsame.symm.trans hbefore, hexpected, hafter, hlater⟩

/-- A guard stays passed while versions ascend. -/
theorem Guard.Passes.then_ascends (h : g.Passes version σ σ')
    (hrow : TableRule.ascends.Allows (version g.table) (σ'.get g.table g.key)
      (σ₁.get g.table g.key)) : g.Passes version σ σ₁ := by
  obtain ⟨before, after, hbefore, hexpected, hafter, hlater⟩ := h
  rw [hafter] at hrow
  obtain ⟨latest, hlatest, hle⟩ := hrow.version_le
  exact ⟨before, latest, hbefore, hexpected, hlatest, Nat.lt_of_lt_of_le hlater hle⟩

/-- A passed guard is not passed again while versions ascend. -/
theorem Guard.Passes.not_again (h : g.Passes version σ₀ σ)
    (hrow : TableRule.ascends.Allows (version g.table) (σ.get g.table g.key)
      (σ'.get g.table g.key)) : ¬ g.Passes version σ' σ₁ := by
  rintro ⟨before, after, hbefore, hexpected, -, -⟩
  obtain ⟨-, after', -, -, hafter', hlater⟩ := h
  rw [hafter'] at hrow
  obtain ⟨latest, hlatest, hle⟩ := hrow.version_le
  obtain rfl : latest = before := Option.some.inj (hlatest.symm.trans hbefore)
  omega

end Guard

namespace Program

variable {ε α β : Type} {g : Guard S}

variable (version) in
/-- Every commit of the program has passed the guard. -/
def Checks (g : Guard S) (p : Program S ε α) : Prop :=
  ∀ (seen : Store S → Prop) (σ : Store S) (ws ws' : List (Write S)) (a : α),
    p.Executes seen σ ws (.ok a) ws' → g.Passes version (σ.overlay ws) (σ.overlay ws')

/-- The program writes rows of the table as they are, if at all. -/
def KeepsRows (t : S.Table) (p : Program S ε α) : Prop :=
  p.Writes (fun t' _ v v' => t = t' → v' = v)

theorem Leaves.keepsRows {t : S.Table} {p : Program S ε α} (h : p.Leaves t) : p.KeepsRows t :=
  Writes.mono (fun _ _ _ _ hne heq => absurd heq hne) h

theorem keepsRows_lockRow (t t' : S.Table) (k : S.Key t') (condition : S.Row t' → Bool) :
    (lockRow t' k condition : Program S ε _).KeepsRows t :=
  writes_lockRow (fun _ _ => rfl)

/-- Rows that are written as they are stay as they are. -/
theorem KeepsRows.executes {t : S.Table} {p : Program S ε α} (hp : p.KeepsRows t)
    {seen : Store S → Prop} {σ : Store S} {ws ws' : List (Write S)} {outcome : Except ε α}
    (h : p.Executes seen σ ws outcome ws') (k : S.Key t) :
    (σ.overlay ws').get t k = (σ.overlay ws).get t k :=
  Writes.executes (Q := fun t' _ v v' => t = t' → v' = v) (fun _ _ _ _ => rfl)
    (fun _ _ _ _ _ huv hvw heq => (hvw heq).trans (huv heq)) hp h t k rfl

/-- What rolls back commits nothing. -/
theorem checks_rollback (e : ε) : (rollback e : Program S ε α).Checks version g := by
  intro seen σ ws ws' a h
  exact absurd h.1 (by simp)

/-- A guard is checked after statements that keep the rows of its table. -/
theorem checks_bind {p : Program S ε α} {f : α → Program S ε β} (hp : p.KeepsRows g.table)
    (hf : ∀ a, (f a).Checks version g) : (p >>= f).Checks version g := by
  intro seen σ ws ws' b h
  obtain ⟨a, ws₁, hfirst, hrest⟩ := executes_bind_ok.mp h
  exact (hf a _ _ _ _ _ hrest).after_same (hp.executes hfirst g.key)

variable (rule) in
/-- A checked guard stays passed when the rest keeps to the rules. -/
theorem Checks.bind (hrule : rule g.table = .ascends) {p : Program S ε α}
    {f : α → Program S ε β} (hp : p.Checks version g)
    (hf : ∀ a, (f a).Writes (Obeys version rule)) : (p >>= f).Checks version g := by
  intro seen σ ws ws' b h
  obtain ⟨a, ws₁, hfirst, hrest⟩ := executes_bind_ok.mp h
  have hrow := Writes.executes obeys_refl obeys_trans (hf a) hrest g.table g.key
  unfold Obeys at hrow
  rw [hrule] at hrow
  exact (hp _ _ _ _ _ hfirst).then_ascends hrow

variable (rule) in
/-- An update whose change asks for the expected version, and raises it, checks the guard:
when it changes no row, the rest does not commit. -/
theorem checks_updateRow (hrule : rule g.table = .ascends)
    {change : S.Row g.table → Option (S.Row g.table)}
    {f : Option (S.Row g.table) → Program S ε β}
    (hchange : ∀ old new, change old = some new →
      version g.table old = g.version ∧ g.version < version g.table new)
    (hnone : (f none).Checks version g)
    (hrest : ∀ row, (f (some row)).Writes (Obeys version rule)) :
    (updateRow g.table g.key change >>= f).Checks version g := by
  intro seen σ ws ws' b h
  obtain ⟨updated, ws₁, hupdate, hafter⟩ := executes_bind_ok.mp h
  rcases executes_updateRow.mp hupdate with ⟨old, new, hold, hnew, hout, rfl⟩ |
    ⟨_, _, _, hout, rfl⟩
  · obtain rfl := Except.ok.inj hout
    obtain ⟨hexpected, hlater⟩ := hchange old new hnew
    have hpassed : g.Passes version (σ.overlay ws)
        (σ.overlay (⟨g.table, g.key, some new⟩ :: ws)) :=
      ⟨old, new, hold, hexpected, Store.get_set_self _ _ _ _, hlater⟩
    have hrow := Writes.executes obeys_refl obeys_trans (hrest new) hafter g.table g.key
    unfold Obeys at hrow
    rw [hrule] at hrow
    exact hpassed.then_ascends hrow
  · obtain rfl := Except.ok.inj hout
    exact hnone _ _ _ _ _ hafter

end Program

namespace Protocol

variable {P : Protocol S} {init : Store S}

/-- Rows have kept to the rules since every step of a run. -/
theorem Run.obeys (hwrites : ∀ r, (P.program r).Writes (Obeys version rule))
    {steps : List (P.System × P.System)} {s : P.System} (hrun : Run init steps s) :
    ∀ step ∈ steps, RowsBecome (Obeys version rule) step.2.committed s.committed := by
  have hinv : P.Invariant init (fun _ σ => RowsBecome (Obeys version rule) init σ)
      (RowsBecome (Obeys version rule)) := rowsBecome_invariant obeys_refl obeys_trans hwrites
  induction hrun with
  | initial => exact fun step hmem => absurd hmem (by simp)
  | @step steps s s' hrun hstep ih =>
    intro step hmem
    rcases List.mem_cons.mp hmem with rfl | hmem
    · exact hinv.refl _
    · exact hinv.trans (ih step hmem) (hinv.step hrun.reachable hstep)

/-- When every program raises the versions of the rows it changes, no two steps of a run pass
the same guard. -/
theorem Run.passes_once (hwrites : ∀ r, (P.program r).Writes (Obeys version rule))
    {steps : List (P.System × P.System)} {s : P.System} (hrun : Run init steps s)
    {g : Guard S} (hrule : rule g.table = .ascends) :
    steps.Pairwise (fun later earlier =>
      ¬ (g.Passes version later.1.committed later.2.committed ∧
        g.Passes version earlier.1.committed earlier.2.committed)) := by
  induction hrun with
  | initial => exact List.Pairwise.nil
  | @step steps s s' hrun hstep ih =>
    refine List.Pairwise.cons ?_ ih
    rintro earlier hmem ⟨hlater, hearlier⟩
    have hrow := hrun.obeys hwrites earlier hmem g.table g.key
    unfold Obeys at hrow
    rw [hrule] at hrow
    exact hearlier.not_again hrow hlater

end Protocol

end LegacyVault.RowTransaction
