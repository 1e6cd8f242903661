import Mathlib.Data.List.Basic
import Mathlib.Data.List.Infix

/-!
# Pages behind a cursor

Items in the order of their positions are read page by page. A page has the
first items after a cursor; the cursor of the next page is the position of the
last of them, and there is none when nothing remains. Between pages items may
be appended.

What has been read is always the beginning of the snapshot read last. So the
pages together are the last snapshot, and there are no more of them than it
has items, and one.
-/

namespace LegacyVault.CursorPages

variable {α : Type} (position : α → Nat)

/-- A page and the cursor of the next one. -/
structure Page (α : Type) where
  items : List α
  next : Option Nat

/-- The page after a cursor. -/
def page (after limit : Nat) (items : List α) : Page α :=
  let available := items.filter (fun item => after < position item)
  let taken := available.take limit
  ⟨taken, if taken.length < available.length then taken.getLast?.map position else none⟩

/-- Pages read one after the other from snapshots of which each begins with the one before: the
last snapshot, the items read, the cursor and the number of pages. -/
inductive Reading : List α → List α → Option Nat → Nat → Prop
  | first {items : List α} {limit : Nat} (hlimit : 1 ≤ limit) :
      Reading items (page position 0 limit items).items (page position 0 limit items).next 1
  | next {items items' read : List α} {after pages limit : Nat}
      (hread : Reading items read (some after) pages) (hgrows : items <+: items')
      (hlimit : 1 ≤ limit) :
      Reading items' (read ++ (page position after limit items').items)
        (page position after limit items').next (pages + 1)

variable {position}

/-- The items after a cursor that splits the list. -/
theorem filter_of_split {read rest : List α} {after : Nat}
    (hread : ∀ item ∈ read, position item ≤ after) (hrest : ∀ item ∈ rest, after < position item) :
    (read ++ rest).filter (fun item => after < position item) = rest := by
  have hnone : read.filter (fun item => after < position item) = [] := by
    refine List.filter_eq_nil_iff.mpr fun item hitem => ?_
    rw [decide_eq_true_iff]
    exact Nat.not_lt.mpr (hread item hitem)
  have hall : rest.filter (fun item => after < position item) = rest := by
    refine List.filter_eq_self.mpr fun item hitem => ?_
    exact decide_eq_true (hrest item hitem)
  rw [List.filter_append, hnone, hall, List.nil_append]

/-- A page goes on where the reading stands. -/
theorem page_of_split {read rest : List α} {after limit : Nat} (hlimit : 1 ≤ limit)
    (hread : ∀ item ∈ read, position item ≤ after) (hrest : ∀ item ∈ rest, after < position item) :
    read ++ (page position after limit (read ++ rest)).items <+: read ++ rest ∧
      ((page position after limit (read ++ rest)).next = none →
        read ++ (page position after limit (read ++ rest)).items = read ++ rest) ∧
      ∀ cursor, (page position after limit (read ++ rest)).next = some cursor →
        (page position after limit (read ++ rest)).items ≠ [] ∧
        (read ++ (page position after limit (read ++ rest)).items).getLast?.map position =
          some cursor := by
  unfold page
  simp only [filter_of_split hread hrest]
  constructor
  · exact List.prefix_append_right_inj read |>.mpr (List.take_prefix limit rest)
  constructor
  · intro hnone
    by_cases hmore : (rest.take limit).length < rest.length
    · -- The page is not empty, so there is a cursor.
      rw [if_pos hmore, Option.map_eq_none_iff, List.getLast?_eq_none_iff] at hnone
      rw [hnone] at hmore
      have hpositive : 0 < (rest.take limit).length := by
        rw [List.length_take]
        exact Nat.lt_min.mpr ⟨hlimit, hmore⟩
      rw [hnone] at hpositive
      exact absurd hpositive (Nat.lt_irrefl 0)
    · have hall : rest.take limit = rest :=
        (List.take_prefix limit rest).eq_of_length
          (Nat.le_antisymm (List.take_prefix limit rest).length_le (Nat.not_lt.mp hmore))
      rw [hall]
  · intro cursor hcursor
    by_cases hmore : (rest.take limit).length < rest.length
    · rw [if_pos hmore] at hcursor
      obtain ⟨last, hlast, hposition⟩ := Option.map_eq_some_iff.mp hcursor
      have hne : rest.take limit ≠ [] := by
        intro hnil
        rw [hnil] at hlast
        exact absurd hlast (by simp)
      refine ⟨hne, ?_⟩
      rw [List.getLast?_append_of_ne_nil _ hne, hlast, Option.map_some, hposition]
    · rw [if_neg hmore] at hcursor
      exact absurd hcursor (by simp)

/-- In a list in order, the position of the last item read splits it. -/
theorem split_of_last {read rest : List α} {after : Nat}
    (hsorted : (read ++ rest).Pairwise (fun a b => position a < position b))
    (hlast : read.getLast?.map position = some after) :
    (∀ item ∈ read, position item ≤ after) ∧ ∀ item ∈ rest, after < position item := by
  obtain ⟨last, hgiven, rfl⟩ := Option.map_eq_some_iff.mp hlast
  obtain ⟨earlier, rfl⟩ := List.getLast?_eq_some_iff.mp hgiven
  obtain ⟨hread, -, hcross⟩ := List.pairwise_append.mp hsorted
  obtain ⟨-, -, hearlier⟩ := List.pairwise_append.mp hread
  constructor
  · intro item hitem
    rcases List.mem_append.mp hitem with hin | hin
    · exact Nat.le_of_lt (hearlier item hin last (List.mem_singleton_self last))
    · rw [List.mem_singleton.mp hin]
  · intro item hitem
    exact hcross last (List.mem_append_right earlier (List.mem_singleton_self last)) item hitem

/-- What has been read begins the snapshot read last; it is all of it when there is no cursor, and
ends at the cursor when there is one. Every page but the last has added an item. -/
theorem Reading.invariant {items read : List α} {cursor : Option Nat} {pages : Nat}
    (h : Reading position items read cursor pages)
    (hsorted : items.Pairwise (fun a b => position a < position b))
    (hpositive : ∀ item ∈ items, 0 < position item) :
    read <+: items ∧ (cursor = none → read = items) ∧
      (∀ after, cursor = some after →
        read.getLast?.map position = some after ∧ pages ≤ read.length) ∧
      pages ≤ read.length + 1 := by
  induction h with
  | @first items limit hlimit =>
    have hnothing : ∀ item ∈ ([] : List α), position item ≤ 0 :=
      fun _ hin => absurd hin List.not_mem_nil
    obtain ⟨hbegins, hall, hcursor⟩ := page_of_split hlimit hnothing hpositive
    simp only [List.nil_append] at hbegins hall hcursor
    refine ⟨hbegins, hall, fun after hafter => ?_, Nat.le_add_left 1 _⟩
    obtain ⟨hne, hlast⟩ := hcursor after hafter
    exact ⟨hlast, List.length_pos_iff.mpr hne⟩
  | @next items items' read after pages limit hread hgrows hlimit ih =>
    have hearlier : items.Pairwise (fun a b => position a < position b) :=
      hsorted.sublist hgrows.sublist
    obtain ⟨hbegan, -, hsome, -⟩ := ih hearlier fun item hitem =>
      hpositive item (hgrows.subset hitem)
    obtain ⟨hlast, hpages⟩ := hsome after rfl
    obtain ⟨rest, rfl⟩ := hbegan.trans hgrows
    obtain ⟨hbefore, hafter⟩ := split_of_last hsorted hlast
    obtain ⟨hbegins, hall, hcursor⟩ := page_of_split hlimit hbefore hafter
    have hcount : pages + 1 ≤
        (read ++ (page position after limit (read ++ rest)).items).length + 1 := by
      rw [List.length_append]
      omega
    refine ⟨hbegins, hall, fun next hnext => ?_, hcount⟩
    obtain ⟨hne, hlast'⟩ := hcursor next hnext
    have hadded := List.length_pos_iff.mpr hne
    refine ⟨hlast', ?_⟩
    rw [List.length_append]
    omega

/-- A list in order begins with another when it has the items of the other, and its own after
them. -/
theorem prefix_of_appended {items items' : List α}
    (hsorted : items.Pairwise (fun a b => position a < position b))
    (hsorted' : items'.Pairwise (fun a b => position a < position b))
    (hkept : ∀ item ∈ items, item ∈ items')
    (hadded : ∀ item' ∈ items', item' ∉ items → ∀ item ∈ items, position item < position item') :
    items <+: items' := by
  induction items generalizing items' with
  | nil => exact List.nil_prefix
  | cons first items ih =>
    obtain ⟨hfirst, hrest⟩ := List.pairwise_cons.mp hsorted
    cases items' with
    | nil => exact absurd (hkept first List.mem_cons_self) List.not_mem_nil
    | cons first' items' =>
      obtain ⟨hfirst', hrest'⟩ := List.pairwise_cons.mp hsorted'
      have hsame : first' = first := by
        by_contra hne
        -- The first item stands after the other list's first, which must then be an added one.
        have hlater : position first' < position first := by
          rcases List.mem_cons.mp (hkept first List.mem_cons_self) with hequal | hin
          · exact absurd hequal.symm hne
          · exact hfirst' first hin
        have hearlier : position first < position first' := by
          by_cases hin : first' ∈ first :: items
          · exact hfirst first' ((List.mem_cons.mp hin).resolve_left hne)
          · exact hadded first' List.mem_cons_self hin first List.mem_cons_self
        exact Nat.lt_asymm hlater hearlier
      subst hsame
      refine (List.prefix_cons_inj first').mpr (ih hrest hrest' ?_ ?_)
      · intro item hitem
        rcases List.mem_cons.mp (hkept item (List.mem_cons_of_mem _ hitem)) with hequal | hin
        · exact absurd (hequal ▸ hfirst item hitem) (Nat.lt_irrefl _)
        · exact hin
      · intro item' hitem' hnot item hitem
        refine hadded item' (List.mem_cons_of_mem _ hitem') (fun hin => ?_) item
          (List.mem_cons_of_mem _ hitem)
        rcases List.mem_cons.mp hin with hequal | hin
        · exact absurd (hequal ▸ hfirst' item' hitem') (Nat.lt_irrefl _)
        · exact hnot hin

end LegacyVault.CursorPages
