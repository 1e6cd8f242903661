import LegacyVault.Library.CanonicalJson

/-!
# Values of the language and their canonical text

Values that `JSON.stringify` writes: numbers include those that are not
finite, which are written as `null`. A canonical text lists the members of
every object by a comparison of their names, which is a parameter.

Two objects with one canonical text have the same members, up to the values
that are written alike.
-/

namespace LegacyVault.EcmaValues

open JsonText

/-- A number. Finite numbers are carried as the literal that is written for them. -/
inductive Number where
  | finite (literal : NumberLiteral)
  | nan
  | infinity
  | negInfinity
  deriving DecidableEq

/-- An integer that is not negative. -/
def Number.ofNat (n : Nat) : Number := .finite (.ofNat n)

theorem Number.ofNat_injective : Function.Injective Number.ofNat := by
  intro a b h
  exact NumberLiteral.ofNat_injective (Number.finite.inj h)

/-- The value of a number that is an integer and not negative. -/
def Number.natValue? : Number → Option Nat
  | .finite literal =>
    let value := Nat.ofDigitChars 10 (literal.first :: literal.rest) 0
    if NumberLiteral.ofNat value = literal then some value else none
  | _ => none

/-- `Number.isSafeInteger(n) && n >= 1`. -/
def Number.isPositiveSafeInteger (n : Number) : Bool :=
  n.natValue?.any (fun value => 1 ≤ value && value ≤ 9007199254740991)

theorem Number.natValue?_eq_some {n : Number} {value : Nat} (h : n.natValue? = some value) :
    n = .ofNat value := by
  cases n with
  | finite literal =>
    simp only [natValue?] at h
    split at h
    · rename_i hliteral
      rw [Option.some.inj h] at hliteral
      rw [Number.ofNat, hliteral]
    · cases h
  | _ => cases h

/-- The literal of a natural number is its digits. -/
theorem digits_ofNat (n : Nat) :
    (NumberLiteral.ofNat n).first :: (NumberLiteral.ofNat n).rest = Nat.toDigits 10 n := by
  simp only [NumberLiteral.ofNat]
  cases hdigits : Nat.toDigits 10 n with
  | nil => exact absurd hdigits Nat.toDigits_ne_nil
  | cons c cs => rfl

@[simp] theorem Number.natValue?_ofNat (n : Nat) : (Number.ofNat n).natValue? = some n := by
  rw [Number.ofNat, natValue?, digits_ofNat, Nat.ofDigitChars_ten_toDigits]
  exact if_pos rfl

/-- What `JSON.stringify` writes for a number. -/
def Number.toJson : Number → Json
  | .finite literal => .num literal
  | _ => .null

/-- Numbers that are not finite are written alike. -/
def Number.isFinite : Number → Bool
  | .finite _ => true
  | _ => false

@[simp] theorem Number.toJson_ofNat (n : Nat) : (Number.ofNat n).toJson = .nat n := rfl

/-- A value. Objects have the members that are their own, in their order. -/
inductive Value where
  | null
  | bool (value : Bool)
  | num (value : Number)
  | str (value : String)
  | arr (items : List Value)
  | obj (members : List (String × Value))

mutual

/-- What `JSON.stringify` writes for a value. -/
def Value.toJson : Value → Json
  | .null => .null
  | .bool value => .bool value
  | .num value => value.toJson
  | .str value => .str value
  | .arr items => .arr (itemsToJson items)
  | .obj members => .obj (membersToJson members)

/-- The items of an array. -/
def itemsToJson : List Value → List Json
  | [] => []
  | item :: items => item.toJson :: itemsToJson items

/-- The members of an object. -/
def membersToJson : List (String × Value) → List (String × Json)
  | [] => []
  | (name, value) :: members => (name, value.toJson) :: membersToJson members

end

@[simp] theorem itemsToJson_eq_map (items : List Value) :
    itemsToJson items = items.map Value.toJson := by
  induction items with
  | nil => rfl
  | cons item items ih => rw [itemsToJson, ih, List.map_cons]

@[simp] theorem membersToJson_eq_map (members : List (String × Value)) :
    membersToJson members = members.map (fun entry => (entry.1, entry.2.toJson)) := by
  induction members with
  | nil => rfl
  | cons entry members ih => rw [membersToJson, ih, List.map_cons]

section Sorted

variable (le : String → String → Bool)

mutual

/-- Every object with its members sorted by name. -/
def sortMembers : Json → Json
  | .arr items => .arr (sortItems items)
  | .obj members =>
    .obj ((sortMemberValues members).insertionSort (fun a b => le a.1 b.1 = true))
  | value => value

/-- The items of an array with their members sorted. -/
def sortItems : List Json → List Json
  | [] => []
  | item :: items => sortMembers item :: sortItems items

/-- The members of an object, the members of each value sorted. -/
def sortMemberValues : List (String × Json) → List (String × Json)
  | [] => []
  | (name, value) :: members => (name, sortMembers value) :: sortMemberValues members

end

@[simp] theorem sortItems_eq_map (items : List Json) :
    sortItems le items = items.map (sortMembers le) := by
  induction items with
  | nil => simp [sortItems]
  | cons item items ih => rw [sortItems, ih, List.map_cons]

@[simp] theorem sortMemberValues_eq_map (members : List (String × Json)) :
    sortMemberValues le members =
      members.map (fun entry => (entry.1, sortMembers le entry.2)) := by
  induction members with
  | nil => simp [sortMemberValues]
  | cons entry members ih => rw [sortMemberValues, ih, List.map_cons]

/-- The canonical text of a value: its members sorted by name. -/
def canonicalText (value : Value) : String := stringify (sortMembers le value.toJson)

variable {le}

theorem canonicalText_inj {a b : Value} : canonicalText le a = canonicalText le b ↔
    sortMembers le a.toJson = sortMembers le b.toJson := stringify_inj

/-- Objects with the same names whose values are written alike are written alike. -/
theorem sortMembers_obj_congr {a b : List (String × Value)}
    (h : List.Forall₂ (fun x y => x.1 = y.1 ∧
      sortMembers le x.2.toJson = sortMembers le y.2.toJson) a b) :
    sortMembers le (Value.toJson (.obj a)) = sortMembers le (Value.toJson (.obj b)) := by
  have hvalues : sortMemberValues le (membersToJson a) = sortMemberValues le (membersToJson b) := by
    induction h with
    | nil => rfl
    | cons hentry _ ih =>
      rw [membersToJson, membersToJson, sortMemberValues, sortMemberValues, hentry.1, hentry.2, ih]
  rw [Value.toJson, Value.toJson, sortMembers, sortMembers, hvalues]

/-- Looking up a member after a change of the values. -/
theorem lookup_map_value {α β : Type} (f : α → β) (members : List (String × α)) (name : String) :
    (members.map (fun entry => (entry.1, f entry.2))).lookup name = (members.lookup name).map f := by
  induction members with
  | nil => rfl
  | cons entry members ih =>
    obtain ⟨key, value⟩ := entry
    rw [List.map_cons, List.lookup_cons, List.lookup_cons, ih]
    cases name == key <;> rfl

/-- Sorting the members of an object keeps what each name stands for. -/
theorem member_sortMembers {members : List (String × Json)} (h : (members.map Prod.fst).Nodup)
    (name : String) : member name (sortMembers le (.obj members)) =
      (member name (.obj members)).map (sortMembers le) := by
  have hnames : ((sortMemberValues le members).map Prod.fst).Nodup := by
    rw [sortMemberValues_eq_map, List.map_map]
    exact h
  rw [sortMembers, member, ← lookup_perm (List.perm_insertionSort _ _).symm hnames,
    sortMemberValues_eq_map, lookup_map_value, member]

/-- The member of an object as the canonical text has it. -/
def canonicalMember (le : String → String → Bool) (name : String)
    (members : List (String × Value)) : Option Json :=
  (members.lookup name).map (fun value => sortMembers le value.toJson)

/-- Objects with one canonical text have the same members, as far as they are written. -/
theorem canonicalMember_eq {a b : List (String × Value)} (ha : (a.map Prod.fst).Nodup)
    (hb : (b.map Prod.fst).Nodup)
    (h : sortMembers le (Value.toJson (.obj a)) = sortMembers le (Value.toJson (.obj b)))
    (name : String) : canonicalMember le name a = canonicalMember le name b := by
  have hmember : ∀ {members : List (String × Value)}, (members.map Prod.fst).Nodup →
      member name (sortMembers le (Value.toJson (.obj members))) =
        canonicalMember le name members := by
    intro members hdistinct
    have hnames : ((membersToJson members).map Prod.fst).Nodup := by
      rw [membersToJson_eq_map, List.map_map]
      exact hdistinct
    rw [Value.toJson, member_sortMembers hnames, member, membersToJson_eq_map, lookup_map_value,
      Option.map_map, canonicalMember]
    rfl
  rw [← hmember ha, ← hmember hb, h]

end Sorted

end LegacyVault.EcmaValues
