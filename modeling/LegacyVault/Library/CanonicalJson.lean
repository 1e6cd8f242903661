import LegacyVault.Library.JsonText
import Mathlib.Data.List.Sort

/-!
# Canonical JSON text

Object members are sorted by name and strings are normalized before a value
is written, so that the text does not depend on member order. Member names
are compared by code point, and are not normalized.

Two values with the same canonical text have the same canonical form.
-/

namespace LegacyVault.JsonText

variable (normalize : String → String)

mutual

/-- Sort the members of every object and normalize every string. -/
def canonicalize : Json → Json
  | .arr items => .arr (canonicalizeItems items)
  | .obj members => .obj ((canonicalizeMembers members).insertionSort (fun a b => a.1 ≤ b.1))
  | .str value => .str (normalize value)
  | value => value

/-- The canonical items of an array. -/
def canonicalizeItems : List Json → List Json
  | [] => []
  | item :: items => canonicalize item :: canonicalizeItems items

/-- The members of an object with canonical values. -/
def canonicalizeMembers : List (String × Json) → List (String × Json)
  | [] => []
  | (name, value) :: members => (name, canonicalize value) :: canonicalizeMembers members

end

/-- The canonical text of a value. -/
def stableStringify (value : Json) : String := stringify (canonicalize normalize value)

variable {normalize}

/-- Canonical texts agree exactly when canonical forms do. -/
theorem stableStringify_inj {a b : Json} :
    stableStringify normalize a = stableStringify normalize b ↔
      canonicalize normalize a = canonicalize normalize b :=
  stringify_inj

/-- Numbers are canonical. -/
@[simp] theorem canonicalize_nat (n : Nat) : canonicalize normalize (.nat n) = .nat n := by
  simp [Json.nat, canonicalize]

/-- Lookup of distinct names finds exactly the entries. -/
theorem lookup_eq_some_iff_mem {β : Type} {entries : List (String × β)}
    (h : (entries.map Prod.fst).Nodup) {name : String} {value : β} :
    entries.lookup name = some value ↔ (name, value) ∈ entries := by
  constructor
  · intro hlookup
    obtain ⟨before, after, rfl, -⟩ := List.lookup_eq_some_iff.mp hlookup
    simp
  · intro hmem
    obtain ⟨before, after, rfl⟩ := List.append_of_mem hmem
    refine List.lookup_eq_some_iff.mpr ⟨before, after, rfl, fun entry hentry => ?_⟩
    have hdisjoint := h
    rw [List.map_append, List.map_cons, List.nodup_append] at hdisjoint
    have hne : entry.1 ≠ name :=
      hdisjoint.2.2 entry.1 (List.mem_map_of_mem hentry) name List.mem_cons_self
    exact bne_iff_ne.mpr hne.symm

/-- Lookup of distinct names does not depend on the order of the entries. -/
theorem lookup_perm {β : Type} {entries entries' : List (String × β)} (hperm : entries.Perm entries')
    (h : (entries.map Prod.fst).Nodup) (name : String) :
    entries.lookup name = entries'.lookup name := by
  have h' : (entries'.map Prod.fst).Nodup := (hperm.map Prod.fst).nodup_iff.mp h
  ext value
  rw [lookup_eq_some_iff_mem h, lookup_eq_some_iff_mem h', hperm.mem_iff]

@[simp] theorem canonicalizeMembers_names (members : List (String × Json)) :
    (canonicalizeMembers normalize members).map Prod.fst = members.map Prod.fst := by
  induction members with
  | nil => simp [canonicalizeMembers]
  | cons entry members ih => simp [canonicalizeMembers, ih]

theorem lookup_canonicalizeMembers (members : List (String × Json)) (name : String) :
    (canonicalizeMembers normalize members).lookup name =
      (members.lookup name).map (canonicalize normalize) := by
  induction members with
  | nil => simp [canonicalizeMembers]
  | cons entry members ih =>
    obtain ⟨key, value⟩ := entry
    rw [canonicalizeMembers, List.lookup_cons, List.lookup_cons, ih]
    cases name == key <;> rfl

/-- The members of a canonical object are the canonical members of the object. -/
theorem member_canonicalize {members : List (String × Json)} (h : (members.map Prod.fst).Nodup)
    (name : String) : member name (canonicalize normalize (.obj members)) =
      (member name (.obj members)).map (canonicalize normalize) := by
  have hnames : ((canonicalizeMembers normalize members).map Prod.fst).Nodup := by
    rw [canonicalizeMembers_names]
    exact h
  rw [canonicalize, member, ← lookup_perm (List.perm_insertionSort _ _).symm hnames,
    lookup_canonicalizeMembers, member]

/-- A member that an object has, its canonical form has in canonical form. -/
theorem member_canonicalize_of {value found : Json} {name : String}
    (hnames : (memberNames value).Nodup) (h : member name value = some found) :
    member name (canonicalize normalize value) = some (canonicalize normalize found) := by
  cases value with
  | obj members => rw [member_canonicalize hnames, h, Option.map_some]
  | _ => exact absurd h (by simp [member])

/-- The canonical items of an array are those of its items. -/
@[simp] theorem canonicalizeItems_eq_map (items : List Json) :
    canonicalizeItems normalize items = items.map (canonicalize normalize) := by
  induction items with
  | nil => simp [canonicalizeItems]
  | cons item items ih => simp [canonicalizeItems, ih]

/-- Sorting the members of an object keeps their names. -/
theorem mem_memberNames_canonicalize {members : List (String × Json)} {name : String} :
    name ∈ memberNames (canonicalize normalize (.obj members)) ↔
      name ∈ members.map Prod.fst := by
  rw [canonicalize, memberNames, ((List.perm_insertionSort _ _).map Prod.fst).mem_iff,
    canonicalizeMembers_names]

end LegacyVault.JsonText
