import Mathlib.Data.List.Lex
import Mathlib.Data.List.Sort
import Mathlib.Data.String.Basic
import Mathlib.Tactic.Common

/-!
# Sorting by UTF-16 code units

`Array.prototype.sort` without a comparison orders texts by their UTF-16 code
units. Texts with the same code units are equal, so what a list of distinct
texts is sorted to does not depend on the order it is found in, and texts that
come after all others are sorted behind them.
-/

namespace LegacyVault.CodeUnitOrder

/-- The UTF-16 code units of a character: one, or a pair of surrogates. -/
def unitsOf (c : Char) : List Nat :=
  if c.toNat < 65536 then [c.toNat]
  else [55296 + (c.toNat - 65536) / 1024, 56320 + (c.toNat - 65536) % 1024]

/-- The UTF-16 code units of a text. -/
def codeUnits (text : String) : List Nat := text.toList.flatMap unitsOf

/-- No character is a surrogate. -/
theorem toNat_not_surrogate (c : Char) : c.toNat < 55296 ∨ 57343 < c.toNat := by
  have hvalid : c.toNat < 55296 ∨ 57343 < c.toNat ∧ c.toNat < 1114112 := c.valid
  omega

/-- The first code units of a text tell its first character. -/
theorem unitsOf_append_inj {c d : Char} {xs ys : List Nat}
    (h : unitsOf c ++ xs = unitsOf d ++ ys) : c = d ∧ xs = ys := by
  have hc := toNat_not_surrogate c
  have hd := toNat_not_surrogate d
  have hcmax : c.toNat < 1114112 := by
    have hvalid : c.toNat < 55296 ∨ 57343 < c.toNat ∧ c.toNat < 1114112 := c.valid
    omega
  have hdmax : d.toNat < 1114112 := by
    have hvalid : d.toNat < 55296 ∨ 57343 < d.toNat ∧ d.toNat < 1114112 := d.valid
    omega
  have hsame : c.toNat = d.toNat ∧ xs = ys := by
    unfold unitsOf at h
    split at h <;> split at h <;>
      simp only [List.cons_append, List.nil_append, List.cons.injEq] at h
    · exact h
    · omega
    · omega
    · obtain ⟨hhigh, hlow, hrest⟩ := h
      exact ⟨by omega, hrest⟩
  exact ⟨Char.ext (UInt32.toNat_inj.mp hsame.1), hsame.2⟩

theorem unitsOf_ne_nil (c : Char) : unitsOf c ≠ [] := by
  unfold unitsOf
  split <;> exact List.cons_ne_nil _ _

/-- Texts with the same code units are equal. -/
theorem codeUnits_injective : Function.Injective codeUnits := by
  have hchars : ∀ cs ds : List Char, cs.flatMap unitsOf = ds.flatMap unitsOf → cs = ds := by
    intro cs
    induction cs with
    | nil =>
      intro ds h
      cases ds with
      | nil => rfl
      | cons d ds => exact absurd (List.append_eq_nil_iff.mp h.symm).1 (unitsOf_ne_nil d)
    | cons c cs ih =>
      intro ds h
      cases ds with
      | nil => exact absurd (List.append_eq_nil_iff.mp h).1 (unitsOf_ne_nil c)
      | cons d ds =>
        obtain ⟨rfl, hrest⟩ := unitsOf_append_inj h
        exact congrArg (c :: ·) (ih ds hrest)
  intro a b h
  exact String.toList_injective (hchars _ _ h)

section Sorted

variable {α : Type} (name : α → String)

/-- The first name does not come after the second. -/
def NotAfter (a b : α) : Prop := codeUnits (name a) ≤ codeUnits (name b)

instance : DecidableRel (NotAfter name) :=
  fun a b => inferInstanceAs (Decidable (codeUnits (name a) ≤ codeUnits (name b)))

instance : Std.Total (NotAfter name) := ⟨fun a b => le_total (codeUnits (name a)) (codeUnits (name b))⟩

instance : IsTrans α (NotAfter name) :=
  ⟨fun _ _ _ hab hbc => le_trans (α := List Nat) hab hbc⟩

/-- A list in the order of its names. -/
def sortByName (l : List α) : List α := l.insertionSort (NotAfter name)

variable {name}

theorem mem_sortByName {l : List α} {a : α} : a ∈ sortByName name l ↔ a ∈ l :=
  List.mem_insertionSort _

theorem sortByName_perm (l : List α) : (sortByName name l).Perm l := List.perm_insertionSort _ l

theorem sortByName_pairwise (l : List α) : (sortByName name l).Pairwise (NotAfter name) :=
  List.pairwise_insertionSort _ l

/-- What is added behind all names of a list is sorted behind it, in whatever order it is found. -/
theorem sortByName_append {l first later : List α} (hperm : l.Perm (first ++ later))
    (hnodup : (l.map name).Nodup)
    (hlater : ∀ a ∈ first, ∀ b ∈ later, codeUnits (name a) < codeUnits (name b)) :
    sortByName name l = sortByName name first ++ sortByName name later := by
  have hpairwise : (sortByName name first ++ sortByName name later).Pairwise (NotAfter name) := by
    refine List.pairwise_append.mpr ⟨sortByName_pairwise _, sortByName_pairwise _, ?_⟩
    intro a ha b hb
    exact (hlater a (mem_sortByName.mp ha) b (mem_sortByName.mp hb)).le
  have hsame : (sortByName name l).Perm (sortByName name first ++ sortByName name later) :=
    ((sortByName_perm l).trans hperm).trans
      ((sortByName_perm first).append (sortByName_perm later)).symm
  refine List.Perm.eq_of_pairwise ?_ (sortByName_pairwise l) hpairwise hsame
  intro a b ha hb hab hba
  have hnames : name a = name b := codeUnits_injective (le_antisymm hab hba)
  exact List.inj_on_of_nodup_map hnodup (mem_sortByName.mp ha)
    (hperm.mem_iff.mpr (((sortByName_perm first).append (sortByName_perm later)).mem_iff.mp hb))
    hnames

end Sorted

end LegacyVault.CodeUnitOrder
