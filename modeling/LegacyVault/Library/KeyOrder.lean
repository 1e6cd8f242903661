import LegacyVault.Library.ParsedValues
import LegacyVault.Library.StableSort

/-!
# Values up to the order of their members

Two values are the same up to the order of members when they differ in
nothing but the order in which their objects list them. Writing the members
of every object in a stable order of their names gives such values one text,
unless an object has two names that tie: then the text keeps the order in
which it found them.

An object lists the names that are indices first, in ascending order. These
are always found in one order, so only ties of other names matter.
-/

namespace LegacyVault.EcmaValues

open JsonText StableSort

/-- Induction over values: arrays from their items, objects from the values of their members. -/
theorem Value.induct {motive : Value → Prop} (null : motive .null)
    (bool : ∀ value, motive (.bool value)) (num : ∀ value, motive (.num value))
    (str : ∀ value, motive (.str value))
    (arr : ∀ items, (∀ item ∈ items, motive item) → motive (.arr items))
    (obj : ∀ members, (∀ entry ∈ members, motive entry.2) → motive (.obj members)) :
    ∀ value, motive value := by
  refine Value.rec (motive_2 := fun items => ∀ item ∈ items, motive item)
    (motive_3 := fun members => ∀ entry ∈ members, motive entry.2)
    (motive_4 := fun entry => motive entry.2) null bool num str arr obj ?_ ?_ ?_ ?_ ?_
  · exact fun item hmem => absurd hmem List.not_mem_nil
  · exact fun item items hitem hitems => List.forall_mem_cons.mpr ⟨hitem, hitems⟩
  · exact fun entry hmem => absurd hmem List.not_mem_nil
  · exact fun entry members hentry hmembers => List.forall_mem_cons.mpr ⟨hentry, hmembers⟩
  · exact fun name value ih => ih

/-! ## Parts of a value -/

section Each

variable (number : Number → Prop) (object : List (String × Value) → Prop)

mutual

/-- A condition on the numbers and on the objects of a value. -/
def Value.Each : Value → Prop
  | .num value => number value
  | .arr items => EachItem items
  | .obj members => object members ∧ EachMember members
  | _ => True

/-- The condition on the items of an array. -/
def EachItem : List Value → Prop
  | [] => True
  | item :: items => item.Each ∧ EachItem items

/-- The condition on the members of an object. -/
def EachMember : List (String × Value) → Prop
  | [] => True
  | (_, value) :: members => value.Each ∧ EachMember members

end

variable {number object}

@[simp] theorem each_arr {items : List Value} :
    (Value.arr items).Each number object ↔ ∀ item ∈ items, item.Each number object := by
  rw [Value.Each]
  induction items with
  | nil => simp [EachItem]
  | cons item items ih => rw [EachItem, ih, List.forall_mem_cons]

@[simp] theorem each_obj {members : List (String × Value)} :
    (Value.obj members).Each number object ↔
      object members ∧ ∀ entry ∈ members, entry.2.Each number object := by
  rw [Value.Each]
  refine and_congr Iff.rfl ?_
  induction members with
  | nil => simp [EachMember]
  | cons entry members ih => rw [EachMember, ih, List.forall_mem_cons]

end Each

/-- The order in which an object lists names: indices first, ascending. -/
def OwnBefore (a b : String) : Prop :=
  match arrayIndex? a, arrayIndex? b with
  | some i, some j => i < j
  | none, some _ => False
  | _, none => True

/-- A value of JSON: its numbers are finite, and its objects list distinct names in their own
order. -/
def Value.IsJson (value : Value) : Prop :=
  value.Each (fun n => n.isFinite = true)
    (fun members => (members.map Prod.fst).Nodup ∧ (members.map Prod.fst).Pairwise OwnBefore)

mutual

/-- A value that has been read. -/
def Value.ofJson : Json → Value
  | .null => .null
  | .bool value => .bool value
  | .num literal => .num (.finite literal)
  | .str value => .str value
  | .arr items => .arr (itemsOfJson items)
  | .obj members => .obj (membersOfJson members)

/-- The items of an array that has been read. -/
def itemsOfJson : List Json → List Value
  | [] => []
  | item :: items => Value.ofJson item :: itemsOfJson items

/-- The members of an object that has been read. -/
def membersOfJson : List (String × Json) → List (String × Value)
  | [] => []
  | (name, value) :: members => (name, Value.ofJson value) :: membersOfJson members

end

mutual

/-- A value that has been read is written as it was. -/
theorem toJson_ofJson : ∀ json, (Value.ofJson json).toJson = json
  | .null => rfl
  | .bool _ => rfl
  | .num _ => rfl
  | .str _ => rfl
  | .arr items => by rw [Value.ofJson, Value.toJson, itemsToJson_ofJson items]
  | .obj members => by rw [Value.ofJson, Value.toJson, membersToJson_ofJson members]

theorem itemsToJson_ofJson : ∀ items, itemsToJson (itemsOfJson items) = items
  | [] => rfl
  | item :: items => by
    rw [itemsOfJson, itemsToJson, toJson_ofJson item, itemsToJson_ofJson items]

theorem membersToJson_ofJson : ∀ members, membersToJson (membersOfJson members) = members
  | [] => rfl
  | (name, value) :: members => by
    rw [membersOfJson, membersToJson, toJson_ofJson value, membersToJson_ofJson members]

end

/-- Two names of an object that a comparison does not tell apart, and that are no indices. -/
def Tied (le : String → String → Bool) (a b : String) : Prop :=
  a ≠ b ∧ arrayIndex? a = none ∧ arrayIndex? b = none ∧ le a b = true ∧ le b a = true

/-- No object of the value has two names that tie. -/
def Value.Untied (le : String → String → Bool) (value : Value) : Prop :=
  value.Each (fun _ => True)
    (fun members => ∀ a ∈ members.map Prod.fst, ∀ b ∈ members.map Prod.fst, ¬Tied le a b)

/-! ## Equality up to the order of members -/

section Same

variable (text : String → String)

mutual

/-- The values are the same up to the order of members, with their strings compared by a text
of theirs. -/
def Value.SameUpTo : Value → Value → Prop
  | .null, .null => True
  | .bool a, .bool b => a = b
  | .num a, .num b => a = b
  | .str a, .str b => text a = text b
  | .arr a, .arr b => SameItems a b
  | .obj a, .obj b => a.length = b.length ∧ SameMembers a b
  | _, _ => False

/-- The items of two arrays are the same. -/
def SameItems : List Value → List Value → Prop
  | [], [] => True
  | a :: as, b :: bs => a.SameUpTo b ∧ SameItems as bs
  | _, _ => False

/-- The members of one object are found in another. -/
def SameMembers : List (String × Value) → List (String × Value) → Prop
  | [], _ => True
  | (name, value) :: members, others =>
    (∃ other, others.lookup name = some other ∧ value.SameUpTo other) ∧
      SameMembers members others

end

variable {text}

@[simp] theorem same_arr {a b : List Value} :
    (Value.arr a).SameUpTo text (.arr b) ↔ List.Forall₂ (Value.SameUpTo text) a b := by
  rw [Value.SameUpTo]
  induction a generalizing b with
  | nil => cases b <;> simp [SameItems]
  | cons x a ih =>
    cases b with
    | nil => simp [SameItems]
    | cons y b => rw [SameItems, ih, List.forall₂_cons]

@[simp] theorem same_obj {a b : List (String × Value)} :
    (Value.obj a).SameUpTo text (.obj b) ↔ a.length = b.length ∧
      ∀ entry ∈ a, ∃ other, b.lookup entry.1 = some other ∧ entry.2.SameUpTo text other := by
  rw [Value.SameUpTo]
  refine and_congr Iff.rfl ?_
  induction a with
  | nil => simp [SameMembers]
  | cons entry a ih => rw [SameMembers, ih, List.forall_mem_cons]

end Same

/-! ## Names that tie -/

section TiesKept

variable (le : String → String → Bool)

mutual

/-- Names of one object that tie stand in the other value in the same order. -/
def Value.TiesKept : Value → Value → Prop
  | .arr a, .arr b => TiesKeptItems a b
  | .obj a, .obj b =>
    TiesAgree (Tied le) (a.map Prod.fst) (b.map Prod.fst) ∧ TiesKeptMembers a b
  | _, _ => True

/-- Ties are kept in the items of two arrays. -/
def TiesKeptItems : List Value → List Value → Prop
  | a :: as, b :: bs => a.TiesKept b ∧ TiesKeptItems as bs
  | _, _ => True

/-- Ties are kept in the members of one object that are found in another. -/
def TiesKeptMembers : List (String × Value) → List (String × Value) → Prop
  | [], _ => True
  | (name, value) :: members, others =>
    (∀ other, others.lookup name = some other → value.TiesKept other) ∧
      TiesKeptMembers members others

end

variable {le}

@[simp] theorem tiesKept_arr {a b : List Value} :
    (Value.arr a).TiesKept le (.arr b) ↔ ∀ pair ∈ a.zip b, pair.1.TiesKept le pair.2 := by
  rw [Value.TiesKept]
  induction a generalizing b with
  | nil => simp [TiesKeptItems]
  | cons x a ih =>
    cases b with
    | nil => simp [TiesKeptItems]
    | cons y b => rw [TiesKeptItems, ih, List.zip_cons_cons, List.forall_mem_cons]

@[simp] theorem tiesKept_obj {a b : List (String × Value)} :
    (Value.obj a).TiesKept le (.obj b) ↔
      TiesAgree (Tied le) (a.map Prod.fst) (b.map Prod.fst) ∧
        ∀ entry ∈ a, ∀ other, b.lookup entry.1 = some other → entry.2.TiesKept le other := by
  rw [Value.TiesKept]
  refine and_congr Iff.rfl ?_
  induction a with
  | nil => simp [TiesKeptMembers]
  | cons entry a ih => rw [TiesKeptMembers, ih, List.forall_mem_cons]

end TiesKept

/-! ## The order of names -/

/-- Different names are not before each other, unless neither is an index. -/
theorem OwnBefore.asymm {a b : String} (h : OwnBefore a b) (h' : OwnBefore b a) :
    arrayIndex? a = none ∧ arrayIndex? b = none := by
  unfold OwnBefore at h h'
  cases ha : arrayIndex? a with
  | none =>
    cases hb : arrayIndex? b with
    | none => exact ⟨rfl, rfl⟩
    | some j => simp [ha, hb] at h
  | some i =>
    cases hb : arrayIndex? b with
    | none => simp [ha, hb] at h'
    | some j =>
      simp only [ha, hb] at h h'
      omega

/-- An index is the index of one name. -/
theorem arrayIndex?_injective {a b : String} {i : Nat} (ha : arrayIndex? a = some i)
    (hb : arrayIndex? b = some i) : a = b := by
  have hdigits : ∀ {name : String}, arrayIndex? name = some i → Nat.toDigits 10 i = name.toList := by
    intro name hname
    simp only [arrayIndex?, Option.ite_none_right_eq_some, Option.some.injEq] at hname
    rw [← hname.2]
    exact hname.1.1
  exact String.toList_injective ((hdigits ha).symm.trans (hdigits hb))

/-- An object lists distinct names in their own order. -/
theorem ownOrder_pairwise {members : List (String × Value)} (h : (members.map Prod.fst).Nodup) :
    ((ownOrder members).map Prod.fst).Pairwise OwnBefore := by
  have hnodup : ((ownOrder members).map Prod.fst).Nodup :=
    ((ownOrder_perm members).map Prod.fst).nodup_iff.mpr h
  rw [List.pairwise_map, ownOrder, List.pairwise_append]
  rw [ownOrder, List.map_append, List.nodup_append] at hnodup
  have hindex : ∀ entry ∈ (members.filter (fun entry => (arrayIndex? entry.1).isSome)).insertionSort
      (fun a b => (arrayIndex? a.1).getD 0 ≤ (arrayIndex? b.1).getD 0),
      ∃ i, arrayIndex? entry.1 = some i := by
    intro entry hentry
    have hmem := (List.perm_insertionSort _ _).mem_iff.mp hentry
    exact Option.isSome_iff_exists.mp (by simpa using (List.mem_filter.mp hmem).2)
  have hother : ∀ entry ∈ members.filter (fun entry => (arrayIndex? entry.1).isNone),
      arrayIndex? entry.1 = none := by
    intro entry hentry
    simpa using (List.mem_filter.mp hentry).2
  refine ⟨?_, ?_, ?_⟩
  · have : Std.Total (fun a b : String × Value =>
        (arrayIndex? a.1).getD 0 ≤ (arrayIndex? b.1).getD 0) := ⟨fun a b => Nat.le_total _ _⟩
    have : IsTrans (String × Value) (fun a b =>
        (arrayIndex? a.1).getD 0 ≤ (arrayIndex? b.1).getD 0) := ⟨fun a b c => Nat.le_trans⟩
    have hsorted := List.pairwise_insertionSort (fun a b : String × Value =>
      (arrayIndex? a.1).getD 0 ≤ (arrayIndex? b.1).getD 0)
      (members.filter (fun entry => (arrayIndex? entry.1).isSome))
    have hdistinct := List.pairwise_map.mp hnodup.1
    refine (hsorted.and hdistinct).imp_of_mem (fun {a b} ha hb hab => ?_)
    obtain ⟨i, hi⟩ := hindex a ha
    obtain ⟨j, hj⟩ := hindex b hb
    have hle : i ≤ j := by simpa [hi, hj] using hab.1
    have hne : i ≠ j := by
      rintro rfl
      exact hab.2 (arrayIndex?_injective hi hj)
    simp only [OwnBefore, hi, hj]
    omega
  · refine List.pairwise_of_forall_mem_list (fun a ha b hb => ?_)
    simp [OwnBefore, hother a ha, hother b hb]
  · intro a ha b hb
    obtain ⟨i, hi⟩ := hindex a ha
    simp [OwnBefore, hi, hother b hb]

/-! ## Values in a stable order of names -/

section Written

variable (le : String → String → Bool) (text : String → String)

mutual

/-- What is written of a value, its strings as a text of theirs and the members of its objects
in a stable order of their names. -/
def Value.written : Value → Json
  | .null => .null
  | .bool value => .bool value
  | .num value => value.toJson
  | .str value => .str (text value)
  | .arr items => .arr (writtenItems items)
  | .obj members =>
    .obj ((writtenMembers members).insertionSort (fun a b => le a.1 b.1 = true))

/-- The items of an array as they are written. -/
def writtenItems : List Value → List Json
  | [] => []
  | item :: items => item.written :: writtenItems items

/-- The members of an object as they are written, in their own order. -/
def writtenMembers : List (String × Value) → List (String × Json)
  | [] => []
  | (name, value) :: members => (name, value.written) :: writtenMembers members

end

@[simp] theorem writtenItems_eq_map (items : List Value) :
    writtenItems le text items = items.map (Value.written le text) := by
  induction items with
  | nil => rw [writtenItems, List.map_nil]
  | cons item items ih => rw [writtenItems, ih, List.map_cons]

@[simp] theorem writtenMembers_eq_map (members : List (String × Value)) :
    writtenMembers le text members =
      members.map (fun entry => (entry.1, entry.2.written le text)) := by
  induction members with
  | nil => rw [writtenMembers, List.map_nil]
  | cons entry members ih => rw [writtenMembers, ih, List.map_cons]

theorem written_arr (items : List Value) :
    (Value.arr items).written le text = .arr (items.map (Value.written le text)) := by
  rw [Value.written, writtenItems_eq_map]

theorem written_obj (members : List (String × Value)) :
    (Value.obj members).written le text =
      .obj ((members.map (fun entry => (entry.1, entry.2.written le text))).insertionSort
        (fun a b => le a.1 b.1 = true)) := by
  rw [Value.written, writtenMembers_eq_map]

variable {le text}

/-- The names of written members. -/
theorem written_names (members : List (String × Value)) :
    (members.map (fun entry => (entry.1, entry.2.written le text))).map Prod.fst =
      members.map Prod.fst := by
  rw [List.map_map]
  rfl

/-- A number of JSON is finite. -/
theorem Value.IsJson.finite {n : Number} (h : (Value.num n).IsJson) :
    ∃ literal, n = .finite literal := by
  cases n with
  | finite literal => exact ⟨literal, rfl⟩
  | _ => exact absurd (show false = true from h) (by decide)

/-- Objects that are written alike have the same members, as far as they are written. -/
theorem written_members_perm {a b : List (String × Value)}
    (h : (Value.obj a).written le text = (Value.obj b).written le text) :
    (a.map (fun entry => (entry.1, entry.2.written le text))).Perm
      (b.map (fun entry => (entry.1, entry.2.written le text))) := by
  rw [written_obj, written_obj, Json.obj.injEq] at h
  have hsorted := List.perm_insertionSort (fun a b : String × Json => le a.1 b.1 = true)
    (b.map (fun entry => (entry.1, entry.2.written le text)))
  rw [← h] at hsorted
  exact (List.perm_insertionSort _ _).symm.trans hsorted

/-- Values that are written alike are the same up to the order of members. -/
theorem same_of_written (a : Value) : ∀ b : Value, a.IsJson → b.IsJson →
    a.written le text = b.written le text → a.SameUpTo text b := by
  induction a using Value.induct with
  | null =>
    intro b _ hb h
    cases b with
    | null => trivial
    | num n =>
      obtain ⟨literal, rfl⟩ := hb.finite
      cases h
    | _ => cases h
  | bool value =>
    intro b _ hb h
    cases b with
    | bool other => exact Json.bool.inj h
    | num n =>
      obtain ⟨literal, rfl⟩ := hb.finite
      cases h
    | _ => cases h
  | num n =>
    intro b ha hb h
    obtain ⟨literal, rfl⟩ := ha.finite
    cases b with
    | num n =>
      obtain ⟨other, rfl⟩ := hb.finite
      have hliteral : literal = other := Json.num.inj h
      rw [hliteral]
      rfl
    | _ => cases h
  | str value =>
    intro b _ hb h
    cases b with
    | str other => exact Json.str.inj h
    | num n =>
      obtain ⟨literal, rfl⟩ := hb.finite
      cases h
    | _ => cases h
  | arr items ih =>
    intro b ha hb h
    cases b with
    | arr others =>
      rw [written_arr, written_arr, Json.arr.injEq] at h
      rw [Value.IsJson, each_arr] at ha hb
      rw [same_arr]
      induction items generalizing others with
      | nil =>
        obtain rfl := List.map_eq_nil_iff.mp h.symm
        exact .nil
      | cons item items ihitems =>
        cases others with
        | nil => exact absurd h (by simp)
        | cons other others =>
          obtain ⟨hfirst, hrest⟩ := List.cons.inj h
          have hitem := ih item List.mem_cons_self other (ha item List.mem_cons_self)
            (hb other List.mem_cons_self) hfirst
          refine .cons hitem (ihitems ?_ ?_ others ?_ hrest)
          · exact fun item hmem => ih item (List.mem_cons_of_mem _ hmem)
          · exact fun item hmem => ha item (List.mem_cons_of_mem _ hmem)
          · exact fun item hmem => hb item (List.mem_cons_of_mem _ hmem)
    | num n =>
      obtain ⟨literal, rfl⟩ := hb.finite
      cases h
    | _ => cases h
  | obj members ih =>
    intro b ha hb h
    cases b with
    | obj others =>
      have hperm := written_members_perm h
      rw [Value.IsJson, each_obj] at ha hb
      rw [same_obj]
      refine ⟨by simpa using hperm.length_eq, fun entry hentry => ?_⟩
      have hmem := hperm.subset (List.mem_map_of_mem hentry)
      obtain ⟨other, hother, hequal⟩ := List.mem_map.mp hmem
      obtain ⟨hname, hwritten⟩ := Prod.mk.inj hequal
      refine ⟨other.2, (lookup_eq_some_iff_mem hb.1.1).mpr (hname ▸ hother), ?_⟩
      exact ih entry hentry other.2 (ha.2 entry hentry) (hb.2 other hother) hwritten.symm
    | num n =>
      obtain ⟨literal, rfl⟩ := hb.finite
      cases h
    | _ => cases h

/-! ## Ties -/

variable (le) in
/-- The order of members by their names. -/
def NameLe {α : Type} (a b : String × α) : Prop := le a.1 b.1 = true

instance {α : Type} : DecidableRel (NameLe (α := α) le) :=
  fun a b => inferInstanceAs (Decidable (le a.1 b.1 = true))

/-- Members of two objects that list names in their own order are sorted to the same list just
when names that tie stand in the same order. -/
theorem sorted_eq_iff {α : Type} (hle : NamesOrdered le) {a b : List (String × α)}
    (hperm : b.Perm a) (hnodup : (a.map Prod.fst).Nodup)
    (ha : (a.map Prod.fst).Pairwise OwnBefore) (hb : (b.map Prod.fst).Pairwise OwnBefore) :
    b.insertionSort (NameLe le) = a.insertionSort (NameLe le) ↔
      TiesAgree (Tied le) (a.map Prod.fst) (b.map Prod.fst) := by
  have : Std.Total (NameLe (α := α) le) := ⟨fun x y => hle.total x.1 y.1⟩
  have : IsTrans (String × α) (NameLe le) := ⟨fun x y z => hle.trans x.1 y.1 z.1⟩
  rw [insertionSort_eq_iff hperm hnodup.of_map]
  constructor
  · intro hties x y hxy _ hsub
    obtain ⟨pair, hpair, hnames⟩ := List.sublist_map_iff.mp hsub
    obtain ⟨p, q, rfl⟩ : ∃ p q, pair = [p, q] := by
      have hlength := congrArg List.length hnames
      rw [List.length_map] at hlength
      exact List.length_eq_two.mp hlength.symm
    obtain ⟨rfl, hq⟩ := List.cons.inj hnames
    obtain ⟨rfl, -⟩ := List.cons.inj hq
    obtain ⟨-, -, -, hle', hge'⟩ := hxy
    exact (hties p q hle' hge' hpair).map Prod.fst
  · intro hties x y hxy hyx hsub
    have hx : x ∈ a := hsub.subset (by simp)
    have hy : y ∈ a := hsub.subset (by simp)
    have hnames := hsub.map Prod.fst
    have hne : x.1 ≠ y.1 := by
      intro hname
      rw [List.map_cons, List.map_cons, List.map_nil, hname] at hnames
      exact not_sublist_swap hnodup hnames hnames
    have hfirst : OwnBefore x.1 y.1 :=
      List.pairwise_iff_forall_sublist.mp (List.pairwise_map.mp ha) hsub
    refine (sublist_or_swap (hperm.mem_iff.mpr hx) (hperm.mem_iff.mpr hy) ?_).resolve_right ?_
    · exact fun hequal => hne (congrArg Prod.fst hequal)
    · intro hswap
      have hsecond : OwnBefore y.1 x.1 :=
        List.pairwise_iff_forall_sublist.mp (List.pairwise_map.mp hb) hswap
      obtain ⟨hnone, hnone'⟩ := hfirst.asymm hsecond
      have hkept := hties x.1 y.1 ⟨hne, hnone, hnone', hxy, hyx⟩
        ⟨hne.symm, hnone', hnone, hyx, hxy⟩ hnames
      have hdistinct : (b.map Prod.fst).Nodup := (hperm.map Prod.fst).nodup_iff.mpr hnodup
      exact not_sublist_swap hdistinct hkept (hswap.map Prod.fst)

/-- Members of objects that are the same, and values that are written alike when they are the
same, give the same written members. -/
theorem same_members_perm {a b : List (String × Value)}
    (h : (Value.obj a).SameUpTo text (.obj b)) (ha : (a.map Prod.fst).Nodup)
    (hb : (b.map Prod.fst).Nodup)
    (hwritten : ∀ entry ∈ a, ∀ other, (entry.1, other) ∈ b → entry.2.SameUpTo text other →
      entry.2.written le text = other.written le text) :
    (a.map (fun entry => (entry.1, entry.2.written le text))).Perm
      (b.map (fun entry => (entry.1, entry.2.written le text))) := by
  obtain ⟨hlength, hsame⟩ := same_obj.mp h
  have hsubset : a.map (fun entry => (entry.1, entry.2.written le text)) ⊆
      b.map (fun entry => (entry.1, entry.2.written le text)) := by
    intro written hmem
    obtain ⟨entry, hentry, rfl⟩ := List.mem_map.mp hmem
    obtain ⟨other, hlookup, hother⟩ := hsame entry hentry
    have hfound := (lookup_eq_some_iff_mem hb).mp hlookup
    have hequal := hwritten entry hentry other hfound hother
    exact List.mem_map.mpr ⟨(entry.1, other), hfound, by rw [hequal]⟩
  have hnodup : (a.map (fun entry => (entry.1, entry.2.written le text))).Nodup := by
    refine List.Nodup.of_map Prod.fst ?_
    rw [written_names]
    exact ha
  exact (List.subperm_of_subset hnodup hsubset).perm_of_length_le (by simp [hlength])

/-- Values that are the same up to the order of members are written alike when names that tie
stand in the same order. -/
theorem written_of_same (hle : NamesOrdered le) (a : Value) : ∀ b : Value, a.IsJson → b.IsJson →
    a.TiesKept le b → a.SameUpTo text b → a.written le text = b.written le text := by
  induction a using Value.induct with
  | null =>
    intro b _ _ _ h
    cases b <;> first | rfl | exact absurd h id
  | bool value =>
    intro b _ _ _ h
    cases b with
    | bool other =>
      obtain rfl : value = other := h
      rfl
    | _ => exact absurd h id
  | num n =>
    intro b _ _ _ h
    cases b with
    | num other =>
      obtain rfl : n = other := h
      rfl
    | _ => exact absurd h id
  | str value =>
    intro b _ _ _ h
    cases b with
    | str other =>
      have htext : text value = text other := h
      rw [Value.written, Value.written, htext]
    | _ => exact absurd h id
  | arr items ih =>
    intro b ha hb hkept h
    cases b with
    | arr others =>
      rw [Value.IsJson, each_arr] at ha hb
      rw [tiesKept_arr] at hkept
      rw [written_arr, written_arr, Json.arr.injEq]
      have hsame := same_arr.mp h
      clear h
      induction hsame with
      | nil => rfl
      | @cons item other items others hitem _ ihitems =>
        rw [List.zip_cons_cons, List.forall_mem_cons] at hkept
        have hfirst := ih item List.mem_cons_self other (ha item List.mem_cons_self)
          (hb other List.mem_cons_self) hkept.1 hitem
        have hrest := ihitems (fun item hmem => ih item (List.mem_cons_of_mem _ hmem))
          (fun item hmem => ha item (List.mem_cons_of_mem _ hmem))
          (fun item hmem => hb item (List.mem_cons_of_mem _ hmem)) hkept.2
        rw [List.map_cons, List.map_cons, hfirst, hrest]
    | _ => exact absurd h id
  | obj members ih =>
    intro b ha hb hkept h
    cases b with
    | obj others =>
      rw [Value.IsJson, each_obj] at ha hb
      rw [tiesKept_obj] at hkept
      have hperm := same_members_perm h ha.1.1 hb.1.1 (fun entry hentry other hmem hother =>
        ih entry hentry other (ha.2 entry hentry) (hb.2 _ hmem)
          (hkept.2 entry hentry other ((lookup_eq_some_iff_mem hb.1.1).mpr hmem)) hother)
      rw [written_obj, written_obj, Json.obj.injEq]
      refine ((sorted_eq_iff hle hperm.symm ?_ ?_ ?_).mpr ?_).symm
      · rw [written_names]
        exact ha.1.1
      · rw [written_names]
        exact ha.1.2
      · rw [written_names]
        exact hb.1.2
      · rw [written_names, written_names]
        exact hkept.1
    | _ => exact absurd h id

/-- In values that are written alike, names that tie stand in the same order. -/
theorem tiesKept_of_written (hle : NamesOrdered le) (a : Value) : ∀ b : Value, a.IsJson →
    b.IsJson → a.written le text = b.written le text → a.TiesKept le b := by
  induction a using Value.induct with
  | arr items ih =>
    intro b ha hb h
    cases b with
    | arr others =>
      rw [written_arr, written_arr, Json.arr.injEq] at h
      rw [Value.IsJson, each_arr] at ha hb
      rw [tiesKept_arr]
      intro pair hpair
      have hzip : (pair.1.written le text, pair.2.written le text) ∈
          (items.map (Value.written le text)).zip (others.map (Value.written le text)) := by
        rw [List.zip_map]
        exact List.mem_map_of_mem (f := Prod.map _ _) hpair
      rw [h, List.zip_eq_zipWith, List.zipWith_self] at hzip
      obtain ⟨written, -, hequal⟩ := List.mem_map.mp hzip
      obtain ⟨hfirst, hsecond⟩ := Prod.mk.inj hequal
      exact ih pair.1 (List.of_mem_zip hpair).1 pair.2 (ha _ (List.of_mem_zip hpair).1)
        (hb _ (List.of_mem_zip hpair).2) (hfirst.symm.trans hsecond)
    | _ => trivial
  | obj members ih =>
    intro b ha hb h
    cases b with
    | obj others =>
      have hperm := written_members_perm h
      rw [written_obj, written_obj, Json.obj.injEq] at h
      rw [Value.IsJson, each_obj] at ha hb
      rw [tiesKept_obj]
      refine ⟨?_, fun entry hentry other hlookup => ?_⟩
      · have hties := (sorted_eq_iff (a := members.map (fun entry =>
          (entry.1, entry.2.written le text))) hle hperm.symm ?_ ?_ ?_).mp h.symm
        · rwa [written_names, written_names] at hties
        · rw [written_names]
          exact ha.1.1
        · rw [written_names]
          exact ha.1.2
        · rw [written_names]
          exact hb.1.2
      · have hmem := (lookup_eq_some_iff_mem hb.1.1).mp hlookup
        have hwritten := hperm.subset (List.mem_map_of_mem hentry)
        obtain ⟨found, hfound, hequal⟩ := List.mem_map.mp hwritten
        obtain ⟨hname, hvalue⟩ := Prod.mk.inj hequal
        have hsame : found = (entry.1, other) :=
          List.inj_on_of_nodup_map hb.1.1 hfound hmem hname
        rw [hsame] at hvalue
        exact ih entry hentry other (ha.2 entry hentry) (hb.2 _ hmem) hvalue.symm
    | _ => trivial
  | _ => exact fun _ _ _ _ => by trivial

/-- Values are written alike just when they are the same up to the order of members and names
that tie stand in the same order. -/
theorem written_eq_iff (hle : NamesOrdered le) {a b : Value} (ha : a.IsJson) (hb : b.IsJson) :
    a.written le text = b.written le text ↔ a.SameUpTo text b ∧ a.TiesKept le b := by
  constructor
  · exact fun h => ⟨same_of_written a b ha hb h, tiesKept_of_written hle a b ha hb h⟩
  · exact fun ⟨hsame, hkept⟩ => written_of_same hle a b ha hb hkept hsame

/-- Ties are kept of a value that has none. -/
theorem Value.Untied.tiesKept (a : Value) : ∀ b : Value, a.Untied le → a.TiesKept le b := by
  induction a using Value.induct with
  | arr items ih =>
    intro b huntied
    cases b with
    | arr others =>
      rw [Value.Untied, each_arr] at huntied
      rw [tiesKept_arr]
      intro pair hpair
      have hmem := (List.of_mem_zip hpair).1
      exact ih pair.1 hmem pair.2 (huntied pair.1 hmem)
    | _ => trivial
  | obj members ih =>
    intro b huntied
    cases b with
    | obj others =>
      rw [Value.Untied, each_obj] at huntied
      rw [tiesKept_obj]
      refine ⟨fun x y hxy _ hsub => ?_, fun entry hentry other _ => ?_⟩
      · exact absurd hxy (huntied.1 x (hsub.subset (by simp)) y (hsub.subset (by simp)))
      · exact ih entry hentry other (huntied.2 entry hentry)
    | _ => trivial
  | _ => exact fun _ _ => by trivial

end Written

/-! ## Objects of sorted entries -/

/-- Names by a comparison, with indices first and ascending. -/
def indexFirst (le : String → String → Bool) (a b : String) : Bool :=
  match arrayIndex? a, arrayIndex? b with
  | some i, some j => i ≤ j
  | some _, none => true
  | none, some _ => false
  | none, none => le a b

section IndexFirst

variable {le : String → String → Bool}

theorem NamesOrdered.indexFirst (hle : NamesOrdered le) : NamesOrdered (indexFirst le) where
  total := by
    intro a b
    unfold EcmaValues.indexFirst
    cases ha : arrayIndex? a with
    | none =>
      cases hb : arrayIndex? b with
      | none => exact hle.total a b
      | some j => exact Or.inr rfl
    | some i =>
      cases hb : arrayIndex? b with
      | none => exact Or.inl rfl
      | some j => simpa using Nat.le_total i j
  trans := by
    intro a b c hab hbc
    unfold EcmaValues.indexFirst at hab hbc ⊢
    cases ha : arrayIndex? a with
    | none =>
      cases hb : arrayIndex? b with
      | some j => simp [ha, hb] at hab
      | none =>
        cases hc : arrayIndex? c with
        | some k => simp [hb, hc] at hbc
        | none =>
          simp only [ha, hb, hc] at hab hbc
          exact hle.trans a b c hab hbc
    | some i =>
      cases hc : arrayIndex? c with
      | none => rfl
      | some k =>
        cases hb : arrayIndex? b with
        | none => simp [hb, hc] at hbc
        | some j =>
          simp only [ha, hb, hc, decide_eq_true_eq] at hab hbc ⊢
          omega

/-- Indices never tie, so the same names tie. -/
theorem tied_indexFirst {a b : String} : Tied (indexFirst le) a b ↔ Tied le a b := by
  unfold Tied
  refine and_congr Iff.rfl (and_congr_right (fun ha => and_congr_right (fun hb => ?_)))
  simp only [indexFirst, ha, hb]

/-- Members that are no indices keep their order. -/
theorem sublist_ownOrder {members : List (String × Value)} {a b : String × Value}
    (ha : arrayIndex? a.1 = none) (hb : arrayIndex? b.1 = none) :
    [a, b].Sublist (ownOrder members) ↔ [a, b].Sublist members := by
  have hindices : ((members.filter (fun entry => (arrayIndex? entry.1).isSome)).insertionSort
      (fun a b => (arrayIndex? a.1).getD 0 ≤ (arrayIndex? b.1).getD 0)).filter
      (fun entry => (arrayIndex? entry.1).isNone) = [] := by
    refine List.filter_eq_nil_iff.mpr (fun entry hentry => ?_)
    have hmem := (List.perm_insertionSort _ _).mem_iff.mp hentry
    have hsome := (List.mem_filter.mp hmem).2
    simp only [Option.isNone_iff_eq_none, Option.isSome_iff_ne_none.mp hsome, not_false_eq_true]
  have hpair : [a, b].filter (fun entry => (arrayIndex? entry.1).isNone) = [a, b] := by
    simp [ha, hb]
  constructor
  · intro h
    have hfilter := h.filter (fun entry => (arrayIndex? entry.1).isNone)
    rw [ownOrder, List.filter_append, hindices, List.nil_append, List.filter_filter, hpair] at hfilter
    exact hfilter.trans List.filter_sublist
  · intro h
    have hfilter := h.filter (fun entry => (arrayIndex? entry.1).isNone)
    rw [hpair] at hfilter
    exact hfilter.trans (List.sublist_append_right _ _)

/-- Defining sorted entries sorts them with the indices first. -/
theorem ownOrder_insertionSort (hle : NamesOrdered le) {members : List (String × Value)}
    (hnodup : (members.map Prod.fst).Nodup) :
    ownOrder (members.insertionSort (NameLe le)) =
      members.insertionSort (NameLe (indexFirst le)) := by
  have hfirst := hle.indexFirst
  have : Std.Total (NameLe (α := Value) (indexFirst le)) := ⟨fun x y => hfirst.total x.1 y.1⟩
  have : IsTrans (String × Value) (NameLe (indexFirst le)) :=
    ⟨fun x y z => hfirst.trans x.1 y.1 z.1⟩
  have : Std.Total (NameLe (α := Value) le) := ⟨fun x y => hle.total x.1 y.1⟩
  have : IsTrans (String × Value) (NameLe le) := ⟨fun x y z => hle.trans x.1 y.1 z.1⟩
  have hperm := List.perm_insertionSort (NameLe le) members
  have hsorted := List.pairwise_insertionSort (NameLe le) members
  have hnames : ((members.insertionSort (NameLe le)).map Prod.fst).Nodup :=
    (hperm.map Prod.fst).nodup_iff.mpr hnodup
  refine eq_insertionSort ((ownOrder_perm _).trans hperm) hnodup.of_map ?_ ?_
  · have hown := List.pairwise_map.mp (ownOrder_pairwise hnames)
    refine List.pairwise_iff_forall_sublist.mpr (fun {a b} hsub => ?_)
    have hbefore := List.pairwise_iff_forall_sublist.mp hown hsub
    unfold NameLe EcmaValues.indexFirst
    unfold OwnBefore at hbefore
    cases ha : arrayIndex? a.1 with
    | none =>
      cases hb : arrayIndex? b.1 with
      | none =>
        have hkept := (sublist_ownOrder ha hb).mp hsub
        exact List.pairwise_iff_forall_sublist.mp hsorted hkept
      | some j => simp [ha, hb] at hbefore
    | some i =>
      cases hb : arrayIndex? b.1 with
      | none => rfl
      | some j =>
        simp only [ha, hb] at hbefore
        simp only [decide_eq_true_eq]
        omega
  · intro a b hab hba hsub
    unfold NameLe EcmaValues.indexFirst at hab hba
    cases ha : arrayIndex? a.1 with
    | none =>
      cases hb : arrayIndex? b.1 with
      | none =>
        simp only [ha, hb] at hab
        exact (sublist_ownOrder ha hb).mpr (List.pair_sublist_insertionSort hab hsub)
      | some j => simp [ha, hb] at hab
    | some i =>
      cases hb : arrayIndex? b.1 with
      | none => simp [ha, hb] at hba
      | some j =>
        simp only [ha, hb, decide_eq_true_eq] at hab hba
        obtain rfl : i = j := by omega
        have hswap := hsub.map Prod.fst
        rw [List.map_cons, List.map_cons, List.map_nil, arrayIndex?_injective ha hb] at hswap
        exact absurd hswap (not_sublist_swap hnodup hswap)

end IndexFirst

/-! ## Values in the reverse order -/

mutual

/-- The value with the members of its objects that are no indices in reverse. -/
def Value.reversed : Value → Value
  | .arr items => .arr (reversedItems items)
  | .obj members => .obj (ownOrder (reversedMembers members).reverse)
  | value => value

/-- The items of an array with the members of their objects in reverse. -/
def reversedItems : List Value → List Value
  | [] => []
  | item :: items => item.reversed :: reversedItems items

/-- The members of an object, with the members of their objects in reverse. -/
def reversedMembers : List (String × Value) → List (String × Value)
  | [] => []
  | (name, value) :: members => (name, value.reversed) :: reversedMembers members

end

@[simp] theorem reversedItems_eq_map (items : List Value) :
    reversedItems items = items.map Value.reversed := by
  induction items with
  | nil => rw [reversedItems, List.map_nil]
  | cons item items ih => rw [reversedItems, ih, List.map_cons]

@[simp] theorem reversedMembers_eq_map (members : List (String × Value)) :
    reversedMembers members = members.map (fun entry => (entry.1, entry.2.reversed)) := by
  induction members with
  | nil => rw [reversedMembers, List.map_nil]
  | cons entry members ih => rw [reversedMembers, ih, List.map_cons]

/-- The members of a reversed object. -/
theorem mem_reversed {members : List (String × Value)} {entry : String × Value} :
    entry ∈ ownOrder (reversedMembers members).reverse ↔
      ∃ other ∈ members, (other.1, other.2.reversed) = entry := by
  rw [(ownOrder_perm _).mem_iff, List.mem_reverse, reversedMembers_eq_map, List.mem_map]

/-- The names of a reversed object. -/
theorem reversed_names_perm (members : List (String × Value)) :
    ((ownOrder (reversedMembers members).reverse).map Prod.fst).Perm (members.map Prod.fst) := by
  have hnames : (reversedMembers members).map Prod.fst = members.map Prod.fst := by
    rw [reversedMembers_eq_map, List.map_map]
    rfl
  have hperm := ((ownOrder_perm _).trans (List.reverse_perm (reversedMembers members))).map Prod.fst
  rwa [hnames] at hperm

theorem Value.IsJson.reversed (value : Value) (h : value.IsJson) : value.reversed.IsJson := by
  induction value using Value.induct with
  | arr items ih =>
    rw [Value.IsJson, each_arr] at h
    rw [Value.reversed, reversedItems_eq_map, Value.IsJson, each_arr]
    intro item hitem
    obtain ⟨other, hother, rfl⟩ := List.mem_map.mp hitem
    exact ih other hother (h other hother)
  | obj members ih =>
    rw [Value.IsJson, each_obj] at h
    have hnodup := (reversed_names_perm members).nodup_iff.mpr h.1.1
    rw [Value.reversed, Value.IsJson, each_obj]
    refine ⟨⟨hnodup, ownOrder_pairwise ?_⟩, ?_⟩
    · exact (((ownOrder_perm _).map Prod.fst).nodup_iff).mp hnodup
    · intro entry hentry
      obtain ⟨other, hother, rfl⟩ := mem_reversed.mp hentry
      exact ih other hother (h.2 other hother)
  | _ => exact h

/-- Reversing members changes their order only. -/
theorem same_reversed {text : String → String} (value : Value) (h : value.IsJson) :
    value.SameUpTo text value.reversed := by
  induction value using Value.induct with
  | null => trivial
  | bool value => exact rfl
  | num n => exact rfl
  | str value => exact rfl
  | arr items ih =>
    rw [Value.IsJson, each_arr] at h
    rw [Value.reversed, reversedItems_eq_map, same_arr, List.forall₂_map_right_iff,
      List.forall₂_same]
    exact fun item hitem => ih item hitem (h item hitem)
  | obj members ih =>
    rw [Value.IsJson, each_obj] at h
    rw [Value.reversed, same_obj]
    refine ⟨?_, fun entry hentry => ⟨entry.2.reversed, ?_, ih entry hentry (h.2 entry hentry)⟩⟩
    · simpa using (reversed_names_perm members).length_eq.symm
    · have hnodup := (reversed_names_perm members).nodup_iff.mpr h.1.1
      exact (lookup_eq_some_iff_mem hnodup).mpr (mem_reversed.mpr ⟨entry, hentry, rfl⟩)

/-- Members that are no indices stand in a reversed object the other way round. -/
theorem sublist_reversed {members : List (String × Value)} {a b : String × Value}
    (h : [a, b].Sublist members) (ha : arrayIndex? a.1 = none) (hb : arrayIndex? b.1 = none) :
    [(b.1, b.2.reversed), (a.1, a.2.reversed)].Sublist
      (ownOrder (reversedMembers members).reverse) := by
  have hmap := h.map (fun entry : String × Value => (entry.1, entry.2.reversed))
  rw [← reversedMembers_eq_map] at hmap
  have hreverse := (List.Sublist.reverse hmap).filter (fun entry => (arrayIndex? entry.1).isNone)
  rw [ownOrder]
  refine List.Sublist.trans ?_ (List.sublist_append_right _ _)
  simpa [ha, hb] using hreverse

/-- A value whose ties are kept in reverse has none. -/
theorem untied_of_reversed {le : String → String → Bool} (value : Value) (hjson : value.IsJson)
    (h : value.TiesKept le value.reversed) : value.Untied le := by
  induction value using Value.induct with
  | arr items ih =>
    rw [Value.IsJson, each_arr] at hjson
    rw [Value.reversed, reversedItems_eq_map, tiesKept_arr] at h
    rw [Value.Untied, each_arr]
    intro item hitem
    refine ih item hitem (hjson item hitem) (h (item, item.reversed) ?_)
    rw [List.zip_map_right, List.zip_eq_zipWith, List.zipWith_self, List.map_map]
    exact List.mem_map.mpr ⟨item, hitem, rfl⟩
  | obj members ih =>
    rw [Value.IsJson, each_obj] at hjson
    rw [Value.reversed, tiesKept_obj] at h
    have hnodup : ((ownOrder (reversedMembers members).reverse).map Prod.fst).Nodup :=
      (reversed_names_perm members).nodup_iff.mpr hjson.1.1
    have hone : ∀ x y : String × Value, [x, y].Sublist members → ¬Tied le x.1 y.1 := by
      intro x y hsub htied
      obtain ⟨hne, hx, hy, hxy, hyx⟩ := htied
      -- both orders would stand in the reversed object
      have hkept := h.1 x.1 y.1 ⟨hne, hx, hy, hxy, hyx⟩ ⟨hne.symm, hy, hx, hyx, hxy⟩
        (hsub.map Prod.fst)
      exact not_sublist_swap hnodup hkept ((sublist_reversed hsub hx hy).map Prod.fst)
    rw [Value.Untied, each_obj]
    refine ⟨?_, fun entry hentry => ih entry hentry (hjson.2 entry hentry) ?_⟩
    · intro x hx y hy htied
      obtain ⟨a, ha, rfl⟩ := List.mem_map.mp hx
      obtain ⟨b, hb, rfl⟩ := List.mem_map.mp hy
      obtain ⟨hne, hnone, hnone', hab, hba⟩ := htied
      rcases sublist_or_swap ha hb (fun hequal => hne (congrArg Prod.fst hequal)) with hsub | hsub
      · exact hone a b hsub ⟨hne, hnone, hnone', hab, hba⟩
      · exact hone b a hsub ⟨hne.symm, hnone', hnone, hba, hab⟩
    · exact h.2 entry hentry entry.2.reversed
        ((lookup_eq_some_iff_mem hnodup).mpr (mem_reversed.mpr ⟨entry, hentry, rfl⟩))
  | _ => exact trivial

end LegacyVault.EcmaValues
