import Mathlib.Data.List.AList
import Mathlib.Logic.Function.Basic
import Mathlib.Tactic.Common

/-!
# Row-locking transactions under READ COMMITTED

A keyed row store, transactions as programs of single-row statements and
non-locking snapshot reads, and the interleaving of any number of them. A
statement that writes takes the lock of its row until the transaction ends;
a statement that finds nothing to write, and a plain read, see the committed
rows of that moment under the transaction's own writes. A transaction may be
aborted at any point.

`Executes` is what one transaction can do among others: a
committed transaction acts on the store of its commit, its locked rows read
as that store has them, and its unlocked reads as some earlier committed
store had them. Deadlock detection shows only as an abort. Statement-level
constraints other than the row key are left to the programs.
-/

namespace LegacyVault.RowTransaction

/-- Tables with their key and row types. -/
structure Schema where
  /-- The table names. -/
  Table : Type
  /-- The key that identifies a row of a table. -/
  Key : Table → Type
  /-- The row type of a table. -/
  Row : Table → Type
  /-- Table names are compared. -/
  tableDecEq : DecidableEq Table
  /-- Row keys are compared. -/
  keyDecEq : ∀ t, DecidableEq (Key t)

attribute [instance] Schema.tableDecEq Schema.keyDecEq

/-- The rows of every table, at most one for each key. -/
structure Store (S : Schema) where
  /-- Rows of one table. -/
  rows : (t : S.Table) → AList (fun _ : S.Key t => S.Row t)

/-- One row write: the new row, or `none` for a deletion. -/
structure Write (S : Schema) where
  /-- Table written. -/
  table : S.Table
  /-- Key of the row written. -/
  key : S.Key table
  /-- The row afterwards. -/
  value : Option (S.Row table)

namespace Store

variable {S : Schema}

/-- The store without rows. -/
def empty : Store S := ⟨fun _ => ∅⟩

/-- The row under a key. -/
def get (σ : Store S) (t : S.Table) (k : S.Key t) : Option (S.Row t) := (σ.rows t).lookup k

/-- Replace or delete the row under a key. -/
def set (σ : Store S) (t : S.Table) (k : S.Key t) : Option (S.Row t) → Store S
  | some row => ⟨Function.update σ.rows t ((σ.rows t).insert k row)⟩
  | none => ⟨Function.update σ.rows t ((σ.rows t).erase k)⟩

/-- The rows of a table with their keys, in no particular order. -/
def scan (σ : Store S) (t : S.Table) : List (S.Key t × S.Row t) :=
  (σ.rows t).entries.map (fun entry => (entry.1, entry.2))

/-- The rows of a table. -/
def rowsOf (σ : Store S) (t : S.Table) : List (S.Row t) := (σ.scan t).map Prod.snd

@[simp] theorem get_empty (t : S.Table) (k : S.Key t) : (empty : Store S).get t k = none := rfl

@[simp] theorem get_set_self (σ : Store S) (t : S.Table) (k : S.Key t) (v : Option (S.Row t)) :
    (σ.set t k v).get t k = v := by
  cases v <;> simp [get, set]

theorem get_set_of_key_ne (σ : Store S) {t : S.Table} {k k' : S.Key t} (v : Option (S.Row t))
    (h : k' ≠ k) : (σ.set t k v).get t k' = σ.get t k' := by
  cases v with
  | none => simp [get, set, AList.lookup_erase_ne h]
  | some row => simp [get, set, AList.lookup_insert_ne h]

theorem rows_set_of_table_ne (σ : Store S) {t t' : S.Table} (k : S.Key t) (v : Option (S.Row t))
    (h : t' ≠ t) : (σ.set t k v).rows t' = σ.rows t' := by
  cases v <;> simp [set, h]

theorem get_set_of_table_ne (σ : Store S) {t t' : S.Table} (k : S.Key t) (v : Option (S.Row t))
    (k' : S.Key t') (h : t' ≠ t) : (σ.set t k v).get t' k' = σ.get t' k' := by
  simp only [get, rows_set_of_table_ne σ k v h]

/-- The rows of a table stay as they are. -/
def SameRows (t : S.Table) (σ σ' : Store S) : Prop := ∀ k, σ'.get t k = σ.get t k

/-- One row of a table becomes the given one, and the others stay as they are. -/
structure Replaces (t : S.Table) (k : S.Key t) (v : Option (S.Row t)) (σ σ' : Store S) : Prop where
  /-- The row under the key. -/
  row : σ'.get t k = v
  /-- The other rows. -/
  others : ∀ k', k' ≠ k → σ'.get t k' = σ.get t k'

theorem SameRows.trans {t : S.Table} {σ₁ σ₂ σ₃ : Store S} (h : SameRows t σ₁ σ₂)
    (h' : SameRows t σ₂ σ₃) : SameRows t σ₁ σ₃ := fun k => (h' k).trans (h k)

theorem Replaces.after_same {t : S.Table} {k : S.Key t} {v : Option (S.Row t)}
    {σ₁ σ₂ σ₃ : Store S} (h : SameRows t σ₁ σ₂) (h' : Replaces t k v σ₂ σ₃) :
    Replaces t k v σ₁ σ₃ :=
  ⟨h'.row, fun k' hk => (h'.others k' hk).trans (h k')⟩

theorem Replaces.then_same {t : S.Table} {k : S.Key t} {v : Option (S.Row t)}
    {σ₁ σ₂ σ₃ : Store S} (h : Replaces t k v σ₁ σ₂) (h' : SameRows t σ₂ σ₃) :
    Replaces t k v σ₁ σ₃ :=
  ⟨(h' k).trans h.row, fun k' hk => (h' k').trans (h.others k' hk)⟩

theorem Replaces.trans {t : S.Table} {k : S.Key t} {v v' : Option (S.Row t)}
    {σ₁ σ₂ σ₃ : Store S} (h : Replaces t k v σ₁ σ₂) (h' : Replaces t k v' σ₂ σ₃) :
    Replaces t k v' σ₁ σ₃ :=
  ⟨h'.row, fun k' hk => (h'.others k' hk).trans (h.others k' hk)⟩

/-- A scan lists exactly the rows of the table. -/
theorem mem_scan {σ : Store S} {t : S.Table} {k : S.Key t} {row : S.Row t} :
    (k, row) ∈ σ.scan t ↔ σ.get t k = some row := by
  simp only [scan, get, List.mem_map, Prod.mk.injEq]
  constructor
  · rintro ⟨⟨k', row'⟩, hmem, rfl, rfl⟩
    exact AList.mem_lookup_iff.mpr hmem
  · intro h
    exact ⟨⟨k, row⟩, AList.mem_lookup_iff.mp h, rfl, rfl⟩

theorem mem_rowsOf {σ : Store S} {t : S.Table} {row : S.Row t} :
    row ∈ σ.rowsOf t ↔ ∃ k, σ.get t k = some row := by
  simp only [rowsOf, List.mem_map]
  constructor
  · rintro ⟨⟨k, _⟩, h, rfl⟩
    exact ⟨k, mem_scan.mp h⟩
  · rintro ⟨k, h⟩
    exact ⟨(k, row), mem_scan.mpr h, rfl⟩

/-- Rows that know their keys are listed once each. -/
theorem nodup_keys_rowsOf {σ : Store S} {t : S.Table} {key : S.Row t → S.Key t}
    (h : ∀ k row, σ.get t k = some row → key row = k) : ((σ.rowsOf t).map key).Nodup := by
  have hkeys : (σ.rowsOf t).map key = (σ.rows t).entries.map Sigma.fst := by
    simp only [rowsOf, scan, List.map_map]
    refine List.map_congr_left (fun entry hentry => ?_)
    exact h entry.1 entry.2 (AList.mem_lookup_iff.mpr hentry)
  rw [hkeys]
  exact (σ.rows t).nodupKeys

theorem rowsOf_set_of_table_ne (σ : Store S) {t t' : S.Table} (k : S.Key t)
    (v : Option (S.Row t)) (h : t' ≠ t) : (σ.set t k v).rowsOf t' = σ.rowsOf t' := by
  simp only [rowsOf, scan, rows_set_of_table_ne σ k v h]

/-- The store as a transaction with the given writes sees it. Later writes come first. -/
def overlay (σ : Store S) : List (Write S) → Store S
  | [] => σ
  | w :: ws => (overlay σ ws).set w.table w.key w.value

@[simp] theorem overlay_nil (σ : Store S) : σ.overlay [] = σ := rfl

@[simp] theorem overlay_cons (σ : Store S) (t : S.Table) (k : S.Key t) (v : Option (S.Row t))
    (ws : List (Write S)) : σ.overlay (⟨t, k, v⟩ :: ws) = (σ.overlay ws).set t k v := rfl

/-- A write leaves the rows of other tables alone. -/
theorem sameRows_overlay_cons (σ : Store S) {t t' : S.Table} (k : S.Key t') (v : Option (S.Row t'))
    (ws : List (Write S)) (h : t ≠ t') :
    SameRows t (σ.overlay ws) (σ.overlay (⟨t', k, v⟩ :: ws)) :=
  fun k' => get_set_of_table_ne _ k v k' h

/-- A write replaces one row of its table. -/
theorem replaces_overlay_cons (σ : Store S) {t : S.Table} (k : S.Key t) (v : Option (S.Row t))
    (ws : List (Write S)) : Replaces t k v (σ.overlay ws) (σ.overlay (⟨t, k, v⟩ :: ws)) :=
  ⟨get_set_self _ t k v, fun _ h => get_set_of_key_ne _ v h⟩

/-- A single write leaves the rows of other tables alone. -/
theorem sameRows_write (σ : Store S) {t t' : S.Table} {k : S.Key t'} {v : Option (S.Row t')}
    (h : t ≠ t') : SameRows t σ (σ.overlay [⟨t', k, v⟩]) :=
  sameRows_overlay_cons σ k v [] h

/-- A single write replaces its row. -/
theorem replaces_write (σ : Store S) {t : S.Table} {k : S.Key t} {v : Option (S.Row t)} :
    Replaces t k v σ (σ.overlay [⟨t, k, v⟩]) :=
  replaces_overlay_cons σ k v []

/-- After a replacement a row is the new one, or it is another and as before. -/
theorem Replaces.get_cases {t : S.Table} {k : S.Key t} {v : Option (S.Row t)} {σ σ' : Store S}
    (h : Replaces t k v σ σ') (k' : S.Key t) :
    (k' = k ∧ σ'.get t k' = v) ∨ (k' ≠ k ∧ σ'.get t k' = σ.get t k') := by
  by_cases hk : k' = k
  · subst hk
    exact Or.inl ⟨rfl, h.row⟩
  · exact Or.inr ⟨hk, h.others k' hk⟩

theorem SameRows.refl (t : S.Table) (σ : Store S) : SameRows t σ σ := fun _ => rfl

/-- A write to another table keeps the rows. -/
theorem SameRows.writeOther {σ₁ σ : Store S} {ws : List (Write S)} {t t' : S.Table}
    {k : S.Key t'} {v : Option (S.Row t')} (h : SameRows t σ₁ (σ.overlay ws)) (hne : t ≠ t') :
    SameRows t σ₁ (σ.overlay (⟨t', k, v⟩ :: ws)) :=
  h.trans (sameRows_overlay_cons σ k v ws hne)

/-- The first write to a table replaces one of its rows. -/
theorem SameRows.write {σ₁ σ : Store S} {ws : List (Write S)} {t : S.Table} {k : S.Key t}
    {v : Option (S.Row t)} (h : SameRows t σ₁ (σ.overlay ws)) :
    Replaces t k v σ₁ (σ.overlay (⟨t, k, v⟩ :: ws)) :=
  (replaces_overlay_cons σ k v ws).after_same h

/-- A write to another table keeps the replaced row. -/
theorem Replaces.writeOther {σ₁ σ : Store S} {ws : List (Write S)} {t t' : S.Table}
    {k : S.Key t} {v : Option (S.Row t)} {k' : S.Key t'} {v' : Option (S.Row t')}
    (h : Replaces t k v σ₁ (σ.overlay ws)) (hne : t ≠ t') :
    Replaces t k v σ₁ (σ.overlay (⟨t', k', v'⟩ :: ws)) :=
  h.then_same (sameRows_overlay_cons σ k' v' ws hne)

/-- A second write to the same row replaces it again. -/
theorem Replaces.rewrite {σ₁ σ : Store S} {ws : List (Write S)} {t : S.Table} {k : S.Key t}
    {v v' : Option (S.Row t)} (h : Replaces t k v σ₁ (σ.overlay ws)) :
    Replaces t k v' σ₁ (σ.overlay (⟨t, k, v'⟩ :: ws)) :=
  h.trans (replaces_overlay_cons σ k v' ws)

/-- Rows are inserted under free keys, and the others stay as they are. -/
structure Inserts (t : S.Table) (rows : List (S.Key t × S.Row t)) (σ σ' : Store S) : Prop where
  /-- The new rows. -/
  new : ∀ entry ∈ rows, σ.get t entry.1 = none ∧ σ'.get t entry.1 = some entry.2
  /-- The other rows. -/
  others : ∀ k, (∀ entry ∈ rows, entry.1 ≠ k) → σ'.get t k = σ.get t k

theorem SameRows.inserts {t : S.Table} {σ σ' : Store S} (h : SameRows t σ σ') :
    Inserts t [] σ σ' :=
  ⟨fun entry hmem => absurd hmem (by simp), fun k _ => h k⟩

/-- One more row is inserted before the others. -/
theorem Inserts.after {t : S.Table} {k : S.Key t} {row : S.Row t}
    {rows : List (S.Key t × S.Row t)} {σ₁ σ₂ σ₃ : Store S} (hfree : σ₁.get t k = none)
    (hfirst : Replaces t k (some row) σ₁ σ₂) (h : Inserts t rows σ₂ σ₃) :
    Inserts t ((k, row) :: rows) σ₁ σ₃ where
  new := by
    intro entry hmem
    rcases List.mem_cons.mp hmem with rfl | hmem
    · refine ⟨hfree, ?_⟩
      rw [h.others k ?_]
      · exact hfirst.row
      · rintro other hother rfl
        exact absurd (hfirst.row.symm.trans (h.new other hother).1) (by simp)
    · obtain ⟨hnone, hrow⟩ := h.new entry hmem
      rcases eq_or_ne entry.1 k with hk | hk
      · rw [hk] at hnone
        exact absurd (hfirst.row.symm.trans hnone) (by simp)
      · exact ⟨(hfirst.others _ hk).symm.trans hnone, hrow⟩
  others := by
    intro k' hk'
    have hk : k ≠ k' := hk' (k, row) List.mem_cons_self
    rw [h.others k' (fun entry hmem => hk' entry (List.mem_cons_of_mem _ hmem))]
    exact hfirst.others k' (Ne.symm hk)

theorem Inserts.after_same {t : S.Table} {rows : List (S.Key t × S.Row t)} {σ₁ σ₂ σ₃ : Store S}
    (h : SameRows t σ₁ σ₂) (h' : Inserts t rows σ₂ σ₃) : Inserts t rows σ₁ σ₃ :=
  ⟨fun entry hmem => ⟨(h entry.1).symm.trans (h'.new entry hmem).1, (h'.new entry hmem).2⟩,
    fun k hk => (h'.others k hk).trans (h k)⟩

theorem Inserts.then_same {t : S.Table} {rows : List (S.Key t × S.Row t)} {σ₁ σ₂ σ₃ : Store S}
    (h : Inserts t rows σ₁ σ₂) (h' : SameRows t σ₂ σ₃) : Inserts t rows σ₁ σ₃ :=
  ⟨fun entry hmem => ⟨(h.new entry hmem).1, (h' entry.1).trans (h.new entry hmem).2⟩,
    fun k hk => (h' k).trans (h.others k hk)⟩

/-- After an insertion a row is one of the new ones, or it is another and as before. -/
theorem Inserts.get_cases {t : S.Table} {rows : List (S.Key t × S.Row t)} {σ σ' : Store S}
    (h : Inserts t rows σ σ') (k : S.Key t) :
    (∃ entry ∈ rows, entry.1 = k ∧ σ.get t k = none ∧ σ'.get t k = some entry.2) ∨
      σ'.get t k = σ.get t k := by
  by_cases hk : ∃ entry ∈ rows, entry.1 = k
  · obtain ⟨entry, hmem, rfl⟩ := hk
    exact Or.inl ⟨entry, hmem, rfl, (h.new entry hmem).1, (h.new entry hmem).2⟩
  · exact Or.inr (h.others k (fun entry hmem heq => hk ⟨entry, hmem, heq⟩))

/-- After an insertion the rows are those before and the new ones. -/
theorem Inserts.get_iff {t : S.Table} {rows : List (S.Key t × S.Row t)} {σ σ' : Store S}
    (h : Inserts t rows σ σ') (k : S.Key t) (row : S.Row t) :
    σ'.get t k = some row ↔ σ.get t k = some row ∨ (k, row) ∈ rows := by
  constructor
  · intro hget
    rcases h.get_cases k with ⟨entry, hmem, hk, -, hnew⟩ | hold
    · obtain rfl := Option.some.inj (hnew.symm.trans hget)
      rw [← hk]
      exact Or.inr hmem
    · exact Or.inl (hold.symm.trans hget)
  · rintro (hget | hmem)
    · rcases h.get_cases k with ⟨entry, -, -, hfree, -⟩ | hold
      · exact absurd (hget.symm.trans hfree) (by simp)
      · exact hold.trans hget
    · exact (h.new (k, row) hmem).2

/-- Rows stay, each related to what it was. -/
def Keeps (t : S.Table) (kept : S.Row t → S.Row t → Prop) (σ σ' : Store S) : Prop :=
  ∀ k before, σ.get t k = some before → ∃ after, σ'.get t k = some after ∧ kept before after

theorem SameRows.keeps {t : S.Table} {kept : S.Row t → S.Row t → Prop}
    (hrefl : ∀ row, kept row row) {σ σ' : Store S} (h : SameRows t σ σ') : Keeps t kept σ σ' :=
  fun k before hbefore => ⟨before, (h k).trans hbefore, hrefl before⟩

theorem Keeps.trans {t : S.Table} {kept : S.Row t → S.Row t → Prop}
    (htrans : ∀ a b c, kept a b → kept b c → kept a c) {σ₁ σ₂ σ₃ : Store S}
    (h : Keeps t kept σ₁ σ₂) (h' : Keeps t kept σ₂ σ₃) : Keeps t kept σ₁ σ₃ := by
  intro k before hbefore
  obtain ⟨between, hbetween, hfirst⟩ := h k before hbefore
  obtain ⟨after, hafter, hsecond⟩ := h' k between hbetween
  exact ⟨after, hafter, htrans _ _ _ hfirst hsecond⟩

/-- A row that is replaced by a related one, or inserted, keeps the rows. -/
theorem Replaces.keeps {t : S.Table} {kept : S.Row t → S.Row t → Prop}
    (hrefl : ∀ row, kept row row) {k : S.Key t} {row : S.Row t} {σ σ' : Store S}
    (h : Replaces t k (some row) σ σ') (hkept : ∀ before, σ.get t k = some before →
      kept before row) : Keeps t kept σ σ' := by
  intro k' before hbefore
  rcases h.get_cases k' with ⟨rfl, hrow⟩ | ⟨-, hrow⟩
  · exact ⟨row, hrow, hkept before hbefore⟩
  · exact ⟨before, hrow.trans hbefore, hrefl before⟩

/-- Inserted rows keep the others. -/
theorem Inserts.keeps {t : S.Table} {kept : S.Row t → S.Row t → Prop}
    (hrefl : ∀ row, kept row row) {rows : List (S.Key t × S.Row t)} {σ σ' : Store S}
    (h : Inserts t rows σ σ') : Keeps t kept σ σ' := by
  intro k before hbefore
  rcases h.get_cases k with ⟨_, _, _, hfree, _⟩ | hrow
  · exact absurd (hbefore.symm.trans hfree) (by simp)
  · exact ⟨before, hrow.trans hbefore, hrefl before⟩

end Store

section Locks

variable {S : Schema}

/-- The transaction with these writes holds the lock of a row. -/
def Locked (ws : List (Write S)) (t : S.Table) (k : S.Key t) : Prop :=
  ∃ v, (⟨t, k, v⟩ : Write S) ∈ ws

theorem Locked.cons {ws : List (Write S)} {t : S.Table} {k : S.Key t} (w : Write S)
    (h : Locked ws t k) : Locked (w :: ws) t k :=
  ⟨h.choose, List.mem_cons_of_mem _ h.choose_spec⟩

theorem locked_cons_self (t : S.Table) (k : S.Key t) (v : Option (S.Row t))
    (ws : List (Write S)) : Locked (⟨t, k, v⟩ :: ws) t k :=
  ⟨v, List.mem_cons_self⟩

theorem locked_of_cons {ws : List (Write S)} {t t' : S.Table} {k : S.Key t} {k' : S.Key t'}
    {v : Option (S.Row t)} (h : Locked (⟨t, k, v⟩ :: ws) t' k') :
    (t' = t ∧ k' ≍ k) ∨ Locked ws t' k' := by
  obtain ⟨v', hv⟩ := h
  rcases List.mem_cons.mp hv with heq | hmem
  · injection heq with ht hk _
    exact Or.inl ⟨ht, hk⟩
  · exact Or.inr ⟨v', hmem⟩

/-- Rows outside the write set read as in the base store. -/
theorem Store.overlay_get_of_not_locked (σ : Store S) {ws : List (Write S)} {t : S.Table}
    {k : S.Key t} (h : ¬ Locked ws t k) : (σ.overlay ws).get t k = σ.get t k := by
  induction ws with
  | nil => rfl
  | cons w ws ih =>
    obtain ⟨t', k', v⟩ := w
    have htail : ¬ Locked ws t k := fun hl => h (hl.cons _)
    rw [Store.overlay_cons]
    by_cases ht : t = t'
    · subst ht
      have hk : k ≠ k' := by
        rintro rfl
        exact h (locked_cons_self t k v ws)
      rw [Store.get_set_of_key_ne _ _ hk, ih htail]
    · rw [Store.get_set_of_table_ne _ _ _ _ ht, ih htail]

/-- Bases that agree on a row give overlays that agree on it. -/
theorem Store.overlay_get_congr {σ σ' : Store S} (ws : List (Write S)) {t : S.Table}
    {k : S.Key t} (h : σ'.get t k = σ.get t k) :
    (σ'.overlay ws).get t k = (σ.overlay ws).get t k := by
  induction ws with
  | nil => exact h
  | cons w ws ih =>
    obtain ⟨t', k', v⟩ := w
    rw [Store.overlay_cons, Store.overlay_cons]
    by_cases ht : t = t'
    · subst ht
      by_cases hk : k = k'
      · subst hk
        rw [Store.get_set_self, Store.get_set_self]
      · rw [Store.get_set_of_key_ne _ _ hk, Store.get_set_of_key_ne _ _ hk, ih]
    · rw [Store.get_set_of_table_ne _ _ _ _ ht, Store.get_set_of_table_ne _ _ _ _ ht, ih]

end Locks

/-- A transaction: statements on single rows and snapshot reads, ending in a
commit with a result or a rollback with an error. -/
inductive Program (S : Schema) (ε α : Type) where
  /-- Commit with a result. -/
  | commit (result : α)
  /-- Roll back with an error. -/
  | rollback (error : ε)
  /-- Read one row and write it when the statement says so. -/
  | access (t : S.Table) (k : S.Key t) (statement : Option (S.Row t) → Option (Option (S.Row t)))
      (next : Option (S.Row t) → Program S ε α)
  /-- Read the committed rows under the transaction's own writes. -/
  | peek (next : Store S → Program S ε α)

namespace Program

variable {S : Schema} {ε α β : Type}

/-- Continue a transaction with the result of its first part. -/
def bind : Program S ε α → (α → Program S ε β) → Program S ε β
  | commit a, f => f a
  | rollback e, _ => rollback e
  | access t k statement next, f => access t k statement (fun v => (next v).bind f)
  | peek next, f => peek (fun σ => (next σ).bind f)

instance : Monad (Program S ε) where
  pure := commit
  bind := bind

@[simp] theorem commit_bind (a : α) (f : α → Program S ε β) : commit a >>= f = f a := rfl

@[simp] theorem pure_eq_commit (a : α) : (pure a : Program S ε α) = commit a := rfl

@[simp] theorem rollback_bind (e : ε) (f : α → Program S ε β) :
    (rollback e : Program S ε α) >>= f = rollback e := rfl

theorem access_bind (t : S.Table) (k : S.Key t)
    (statement : Option (S.Row t) → Option (Option (S.Row t)))
    (next : Option (S.Row t) → Program S ε α) (f : α → Program S ε β) :
    access t k statement next >>= f = access t k statement (fun v => next v >>= f) := rfl

theorem peek_bind (next : Store S → Program S ε α) (f : α → Program S ε β) :
    peek next >>= f = peek (fun σ => next σ >>= f) := rfl

/-- Run a transaction alone on a working store. -/
def run : Program S ε α → Store S → Except ε α × Store S
  | commit a, σ => (.ok a, σ)
  | rollback e, σ => (.error e, σ)
  | access t k statement next, σ =>
    match statement (σ.get t k) with
    | some v => run (next (σ.get t k)) (σ.set t k v)
    | none => run (next (σ.get t k)) σ
  | peek next, σ => run (next σ) σ

/-- Run a transaction alone and keep its writes only when it commits. -/
def transact (p : Program S ε α) (σ : Store S) : Except ε α × Store S :=
  match p.run σ with
  | (.ok a, σ') => (.ok a, σ')
  | (.error e, _) => (.error e, σ)

/-- Outcome and write set of a transaction among others. Rows it writes read as
in the store of its commit; everything else as in some store `seen` before. -/
def Executes (seen : Store S → Prop) (σ : Store S) :
    Program S ε α → List (Write S) → Except ε α → List (Write S) → Prop
  | commit a, ws, outcome, ws' => outcome = .ok a ∧ ws' = ws
  | rollback e, ws, outcome, ws' => outcome = .error e ∧ ws' = ws
  | access t k statement next, ws, outcome, ws' =>
    (∃ v, statement ((σ.overlay ws).get t k) = some v ∧
      Executes seen σ (next ((σ.overlay ws).get t k)) (⟨t, k, v⟩ :: ws) outcome ws') ∨
    (∃ σ₀, seen σ₀ ∧ statement ((σ₀.overlay ws).get t k) = none ∧
      Executes seen σ (next ((σ₀.overlay ws).get t k)) ws outcome ws')
  | peek next, ws, outcome, ws' =>
    ∃ σ₀, seen σ₀ ∧ Executes seen σ (next (σ₀.overlay ws)) ws outcome ws'

section Executes

variable {seen : Store S → Prop} {σ : Store S} {ws ws' : List (Write S)}

@[simp] theorem executes_commit {a : α} {outcome : Except ε α} :
    (commit a : Program S ε α).Executes seen σ ws outcome ws' ↔ outcome = .ok a ∧ ws' = ws :=
  Iff.rfl

@[simp] theorem executes_rollback {e : ε} {outcome : Except ε α} :
    (rollback e : Program S ε α).Executes seen σ ws outcome ws' ↔
      outcome = .error e ∧ ws' = ws :=
  Iff.rfl

/-- A sequence executes when its first part commits and the rest goes on from
its writes, or when its first part rolls back. -/
theorem executes_bind {p : Program S ε α} {f : α → Program S ε β} {outcome : Except ε β} :
    (p >>= f).Executes seen σ ws outcome ws' ↔
      (∃ a ws₁, p.Executes seen σ ws (.ok a) ws₁ ∧ (f a).Executes seen σ ws₁ outcome ws') ∨
      (∃ e, outcome = .error e ∧ p.Executes seen σ ws (.error e) ws') := by
  induction p generalizing ws with
  | commit a => simp
  | rollback e =>
    simp only [rollback_bind, executes_rollback]
    constructor
    · rintro ⟨rfl, rfl⟩
      exact Or.inr ⟨e, rfl, rfl, rfl⟩
    · rintro (⟨a, ws₁, ⟨h, -⟩, -⟩ | ⟨e', rfl, h, rfl⟩)
      · exact absurd h (by simp)
      · simp only [Except.error.injEq] at h
        exact ⟨by rw [h], rfl⟩
  | access t k statement next ih =>
    simp only [access_bind, Executes, ih]
    constructor
    · rintro (⟨v, hv, ⟨a, ws₁, h₁, h₂⟩ | ⟨e, he, h⟩⟩ | ⟨σ₀, hs, hv, ⟨a, ws₁, h₁, h₂⟩ | ⟨e, he, h⟩⟩)
      · exact Or.inl ⟨a, ws₁, Or.inl ⟨v, hv, h₁⟩, h₂⟩
      · exact Or.inr ⟨e, he, Or.inl ⟨v, hv, h⟩⟩
      · exact Or.inl ⟨a, ws₁, Or.inr ⟨σ₀, hs, hv, h₁⟩, h₂⟩
      · exact Or.inr ⟨e, he, Or.inr ⟨σ₀, hs, hv, h⟩⟩
    · rintro (⟨a, ws₁, ⟨v, hv, h₁⟩ | ⟨σ₀, hs, hv, h₁⟩, h₂⟩ | ⟨e, he, ⟨v, hv, h⟩ | ⟨σ₀, hs, hv, h⟩⟩)
      · exact Or.inl ⟨v, hv, Or.inl ⟨a, ws₁, h₁, h₂⟩⟩
      · exact Or.inr ⟨σ₀, hs, hv, Or.inl ⟨a, ws₁, h₁, h₂⟩⟩
      · exact Or.inl ⟨v, hv, Or.inr ⟨e, he, h⟩⟩
      · exact Or.inr ⟨σ₀, hs, hv, Or.inr ⟨e, he, h⟩⟩
  | peek next ih =>
    simp only [peek_bind, Executes, ih]
    constructor
    · rintro ⟨σ₀, hs, ⟨a, ws₁, h₁, h₂⟩ | ⟨e, he, h⟩⟩
      · exact Or.inl ⟨a, ws₁, ⟨σ₀, hs, h₁⟩, h₂⟩
      · exact Or.inr ⟨e, he, σ₀, hs, h⟩
    · rintro (⟨a, ws₁, ⟨σ₀, hs, h₁⟩, h₂⟩ | ⟨e, he, σ₀, hs, h⟩)
      · exact ⟨σ₀, hs, Or.inl ⟨a, ws₁, h₁, h₂⟩⟩
      · exact ⟨σ₀, hs, Or.inr ⟨e, he, h⟩⟩

/-- A committed sequence splits into its committed parts. -/
theorem executes_bind_ok {p : Program S ε α} {f : α → Program S ε β} {b : β} :
    (p >>= f).Executes seen σ ws (.ok b) ws' ↔
      ∃ a ws₁, p.Executes seen σ ws (.ok a) ws₁ ∧ (f a).Executes seen σ ws₁ (.ok b) ws' := by
  rw [executes_bind]
  constructor
  · rintro (h | ⟨e, he, -⟩)
    · exact h
    · exact absurd he (by simp)
  · exact Or.inl

/-- Running alone is one of the executions. -/
theorem run_executes (p : Program S ε α) (σ : Store S) (ws : List (Write S)) :
    ∃ ws', p.Executes (· = σ) σ ws (p.run (σ.overlay ws)).1 ws' ∧
      σ.overlay ws' = (p.run (σ.overlay ws)).2 := by
  induction p generalizing ws with
  | commit a => exact ⟨ws, ⟨rfl, rfl⟩, rfl⟩
  | rollback e => exact ⟨ws, ⟨rfl, rfl⟩, rfl⟩
  | access t k statement next ih =>
    cases hv : statement ((σ.overlay ws).get t k) with
    | some v =>
      obtain ⟨ws', h₁, h₂⟩ := ih ((σ.overlay ws).get t k) (⟨t, k, v⟩ :: ws)
      rw [Store.overlay_cons] at h₁ h₂
      refine ⟨ws', ?_, ?_⟩
      · simp only [run, hv]
        exact Or.inl ⟨v, hv, h₁⟩
      · simp only [run, hv, h₂]
    | none =>
      obtain ⟨ws', h₁, h₂⟩ := ih ((σ.overlay ws).get t k) ws
      refine ⟨ws', ?_, ?_⟩
      · simp only [run, hv]
        exact Or.inr ⟨σ, rfl, hv, h₁⟩
      · simp only [run, hv, h₂]
  | peek next ih =>
    obtain ⟨ws', h₁, h₂⟩ := ih (σ.overlay ws) ws
    exact ⟨ws', ⟨σ, rfl, h₁⟩, h₂⟩

/-- A transaction that has run alone is one of the executions. -/
theorem executes_of_transact {p : Program S ε α} {a : α} (h : (p.transact σ).1 = .ok a) :
    ∃ ws', p.Executes (· = σ) σ [] (.ok a) ws' := by
  obtain ⟨ws', hexec, -⟩ := run_executes p σ []
  have hrun : (p.run σ).1 = .ok a := by
    unfold transact at h
    split at h
    · rename_i found hfound
      rw [hfound]
      exact h
    · exact absurd h (by simp)
  rw [Store.overlay_nil, hrun] at hexec
  exact ⟨ws', hexec⟩

end Executes

end Program

end LegacyVault.RowTransaction
