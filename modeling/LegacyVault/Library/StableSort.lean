import Mathlib.Data.List.Sort
import Mathlib.Tactic.Common

/-!
# Stable sorting of permuted lists

A stable sort keeps elements that tie in the order it found them in. Two
orders of the same distinct elements are therefore sorted to the same list
exactly when they have the tied elements in the same order.
-/

namespace LegacyVault.StableSort

variable {α : Type}

/-- Distinct elements stand in one order only. -/
theorem not_sublist_swap {l : List α} (hnodup : l.Nodup) {a b : α} (h : [a, b].Sublist l) :
    ¬ [b, a].Sublist l := by
  intro hswap
  induction l with
  | nil => cases h
  | cons c l ih =>
    obtain ⟨hc, hrest⟩ := List.nodup_cons.mp hnodup
    cases h with
    | cons _ hab =>
      cases hswap with
      | cons _ hba => exact ih hrest hab hba
      | cons_cons _ _ => exact hc (hab.subset (by simp))
    | cons_cons _ hb =>
      cases hswap with
      | cons _ hba => exact hc (hba.subset (by simp))
      | cons_cons _ _ => exact hc (hb.subset (by simp))

/-- Two different elements of a list stand in one order or the other. -/
theorem sublist_or_swap {l : List α} {a b : α} (ha : a ∈ l) (hb : b ∈ l) (hne : a ≠ b) :
    [a, b].Sublist l ∨ [b, a].Sublist l := by
  induction l with
  | nil => exact absurd ha List.not_mem_nil
  | cons c l ih =>
    rcases List.mem_cons.mp ha with rfl | ha'
    · rcases List.mem_cons.mp hb with rfl | hb'
      · exact absurd rfl hne
      · exact Or.inl ((List.singleton_sublist.mpr hb').cons_cons _)
    · rcases List.mem_cons.mp hb with rfl | hb'
      · exact Or.inr ((List.singleton_sublist.mpr ha').cons_cons _)
      · exact (ih ha' hb').imp (·.cons _) (·.cons _)

variable {r : α → α → Prop}

variable (r) in
/-- Elements that tie stand in the second list in the order of the first. -/
def TiesAgree (l l' : List α) : Prop :=
  ∀ a b, r a b → r b a → [a, b].Sublist l → [a, b].Sublist l'

section Sorted

variable [DecidableRel r] {l l' : List α}

/-- Elements that tie stand in a sorted list as they did before. -/
theorem sublist_of_sorted (hnodup : l.Nodup) {a b : α} (hba : r b a)
    (h : [a, b].Sublist (l.insertionSort r)) : [a, b].Sublist l := by
  have hperm := List.perm_insertionSort r l
  have hsorted : (l.insertionSort r).Nodup := hperm.nodup_iff.mpr hnodup
  have ha : a ∈ l := hperm.mem_iff.mp (h.subset (by simp))
  have hb : b ∈ l := hperm.mem_iff.mp (h.subset (by simp))
  have hne : a ≠ b := by
    rintro rfl
    exact not_sublist_swap hsorted h h
  refine (sublist_or_swap ha hb hne).resolve_right (fun hswap => ?_)
  exact not_sublist_swap hsorted h (List.pair_sublist_insertionSort hba hswap)

variable [Std.Total r] [IsTrans α r]

/-- Two orders of the same distinct elements are sorted to the same list exactly when they have
tied elements in the same order. -/
theorem insertionSort_eq_iff (hperm : l'.Perm l) (hnodup : l.Nodup) :
    l'.insertionSort r = l.insertionSort r ↔ TiesAgree r l l' := by
  have hnodup' : l'.Nodup := hperm.nodup_iff.mpr hnodup
  constructor
  · intro hequal a b hab hba hsub
    have hsorted := List.pair_sublist_insertionSort hab hsub
    rw [← hequal] at hsorted
    exact sublist_of_sorted hnodup' hba hsorted
  · intro hties
    -- both are sorted by the order that breaks ties as the first list does
    have hpairwise : (l.insertionSort r).Pairwise (fun a b => r a b ∧ (r b a → [a, b].Sublist l)) :=
      List.pairwise_iff_forall_sublist.mpr (fun {a b} hsub =>
        ⟨List.pairwise_iff_forall_sublist.mp (List.pairwise_insertionSort r l) hsub,
          fun hba => sublist_of_sorted hnodup hba hsub⟩)
    have hpairwise' : (l'.insertionSort r).Pairwise
        (fun a b => r a b ∧ (r b a → [a, b].Sublist l)) := by
      refine List.pairwise_iff_forall_sublist.mpr (fun {a b} hsub => ?_)
      have hab := List.pairwise_iff_forall_sublist.mp (List.pairwise_insertionSort r l') hsub
      refine ⟨hab, fun hba => ?_⟩
      have hsub' := sublist_of_sorted hnodup' hba hsub
      have ha : a ∈ l := hperm.mem_iff.mp (hsub'.subset (by simp))
      have hb : b ∈ l := hperm.mem_iff.mp (hsub'.subset (by simp))
      have hne : a ≠ b := by
        rintro rfl
        exact not_sublist_swap hnodup' hsub' hsub'
      refine (sublist_or_swap ha hb hne).resolve_right (fun hswap => ?_)
      exact not_sublist_swap hnodup' hsub' (hties b a hba hab hswap)
    have hsame : (l'.insertionSort r).Perm (l.insertionSort r) :=
      (List.perm_insertionSort r l').trans (hperm.trans (List.perm_insertionSort r l).symm)
    refine List.Perm.eq_of_pairwise ?_ hpairwise' hpairwise hsame
    intro a b _ _ hab hba
    exact absurd (hba.2 hab.1) (not_sublist_swap hnodup (hab.2 hba.1))

/-- What is sorted and has kept the order of tied elements is the stable sort. -/
theorem eq_insertionSort (hperm : l'.Perm l) (hnodup : l.Nodup) (hsorted : l'.Pairwise r)
    (hties : TiesAgree r l l') : l' = l.insertionSort r := by
  rw [← (insertionSort_eq_iff hperm hnodup).mpr hties]
  exact hsorted.insertionSort_eq.symm

end Sorted

end LegacyVault.StableSort
