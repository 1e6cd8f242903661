import LegacyVault.Library.EcmaValues

/-!
# Values that are parsed from JSON

`JSON.parse` makes a value of a text: the last of several members of one name
counts, members that look like indices come first, and a number is the double
its literal denotes, which is a parameter. Parsed objects have distinct names,
so two of them with one canonical text have the same members, and a canonical
text is parsed to the sorted value.
-/

namespace LegacyVault.EcmaValues

open JsonText

/-- The index a name stands for. -/
def arrayIndex? (name : String) : Option Nat :=
  let value := Nat.ofDigitChars 10 name.toList 0
  if Nat.toDigits 10 value = name.toList ∧ value < 4294967295 then some value else none

/-- The order in which an object lists its members. -/
def ownOrder (members : List (String × Value)) : List (String × Value) :=
  (members.filter (fun entry => (arrayIndex? entry.1).isSome)).insertionSort
      (fun a b => (arrayIndex? a.1).getD 0 ≤ (arrayIndex? b.1).getD 0) ++
    members.filter (fun entry => (arrayIndex? entry.1).isNone)

/-- Define a member of an object. A member that is there keeps its place. -/
def defineMember (members : List (String × Value)) (entry : String × Value) :
    List (String × Value) :=
  if entry.1 ∈ members.map Prod.fst then
    members.map (fun other => if other.1 = entry.1 then entry else other)
  else members ++ [entry]

/-- The members of an object after its entries have been defined in turn. -/
def ofEntries (entries : List (String × Value)) : List (String × Value) :=
  ownOrder (entries.foldl defineMember [])

theorem ownOrder_perm (members : List (String × Value)) : (ownOrder members).Perm members := by
  have hsorted := List.perm_insertionSort
    (fun a b : String × Value => (arrayIndex? a.1).getD 0 ≤ (arrayIndex? b.1).getD 0)
    (members.filter (fun entry => (arrayIndex? entry.1).isSome))
  have hnot : (fun entry : String × Value => (arrayIndex? entry.1).isNone) =
      fun entry => !(arrayIndex? entry.1).isSome := by
    funext entry
    cases arrayIndex? entry.1 <;> rfl
  refine (hsorted.append_right _).trans ?_
  rw [hnot]
  exact List.filter_append_perm _ members

/-- Defining a member keeps the names distinct. -/
theorem defineMember_nodup {members : List (String × Value)} (h : (members.map Prod.fst).Nodup)
    (entry : String × Value) : ((defineMember members entry).map Prod.fst).Nodup := by
  unfold defineMember
  by_cases hmem : entry.1 ∈ members.map Prod.fst
  · have hnames : (members.map (fun other => if other.1 = entry.1 then entry else other)).map
        Prod.fst = members.map Prod.fst := by
      rw [List.map_map]
      refine List.map_congr_left (fun other _ => ?_)
      by_cases hname : other.1 = entry.1
      · simp [hname]
      · simp [hname]
    rw [if_pos hmem, hnames]
    exact h
  · rw [if_neg hmem, List.map_append, List.nodup_append]
    refine ⟨h, List.nodup_singleton _, fun name hname other hother hequal => ?_⟩
    rw [List.map_singleton, List.mem_singleton] at hother
    rw [hequal, hother] at hname
    exact hmem hname

/-- Parsed objects have distinct names. -/
theorem ofEntries_nodup (entries : List (String × Value)) :
    ((ofEntries entries).map Prod.fst).Nodup := by
  have hfold : ∀ (entries members : List (String × Value)), (members.map Prod.fst).Nodup →
      ((entries.foldl defineMember members).map Prod.fst).Nodup := by
    intro entries
    induction entries with
    | nil => exact fun members h => h
    | cons entry entries ih => exact fun members h => ih _ (defineMember_nodup h entry)
  rw [ofEntries, ((ownOrder_perm _).map Prod.fst).nodup_iff]
  exact hfold entries [] List.nodup_nil

/-- Members of a parsed object are among its entries. -/
theorem mem_of_mem_ofEntries {entries : List (String × Value)} {entry : String × Value}
    (h : entry ∈ ofEntries entries) : entry ∈ entries := by
  have hfold : ∀ (entries members : List (String × Value)),
      entry ∈ entries.foldl defineMember members → entry ∈ members ∨ entry ∈ entries := by
    intro entries
    induction entries with
    | nil => exact fun members hmem => Or.inl hmem
    | cons first entries ih =>
      intro members hmem
      rcases ih _ hmem with hdefined | hrest
      · unfold defineMember at hdefined
        split at hdefined
        · obtain ⟨other, hother, hequal⟩ := List.mem_map.mp hdefined
          by_cases hname : other.1 = first.1
          · rw [if_pos hname] at hequal
            exact Or.inr (by rw [hequal]; exact List.mem_cons_self)
          · rw [if_neg hname] at hequal
            exact Or.inl (by rw [← hequal]; exact hother)
        · rcases List.mem_append.mp hdefined with hold | hnew
          · exact Or.inl hold
          · exact Or.inr (by rw [List.mem_singleton.mp hnew]; exact List.mem_cons_self)
      · exact Or.inr (List.mem_cons_of_mem _ hrest)
  have hmem := (ownOrder_perm _).mem_iff.mp h
  exact (hfold entries [] hmem).resolve_left List.not_mem_nil

/-- Entries with distinct names are all defined. -/
theorem foldl_defineMember {entries : List (String × Value)} :
    ∀ members : List (String × Value), ((members ++ entries).map Prod.fst).Nodup →
      entries.foldl defineMember members = members ++ entries := by
  induction entries with
  | nil => exact fun members _ => by rw [List.foldl_nil, List.append_nil]
  | cons entry entries ih =>
    intro members h
    have hfresh : entry.1 ∉ members.map Prod.fst := by
      intro hmem
      rw [List.map_append, List.nodup_append] at h
      exact h.2.2 entry.1 hmem entry.1 (by simp) rfl
    rw [List.foldl_cons, defineMember, if_neg hfresh, ih]
    · rw [List.append_assoc, List.singleton_append]
    · rw [List.append_assoc, List.singleton_append]
      exact h

/-- Entries with distinct names are the members. -/
theorem ofEntries_of_nodup {entries : List (String × Value)}
    (hdistinct : (entries.map Prod.fst).Nodup) : ofEntries entries = ownOrder entries := by
  rw [ofEntries, foldl_defineMember [] hdistinct, List.nil_append]

/-- Entries with distinct names that are no indices are the members, in their order. -/
theorem ofEntries_eq {entries : List (String × Value)} (hdistinct : (entries.map Prod.fst).Nodup)
    (hnames : ∀ entry ∈ entries, arrayIndex? entry.1 = none) : ofEntries entries = entries := by
  have hindices : entries.filter (fun entry => (arrayIndex? entry.1).isSome) = [] := by
    refine List.filter_eq_nil_iff.mpr (fun entry hentry => ?_)
    simp [hnames entry hentry]
  have hothers : entries.filter (fun entry => (arrayIndex? entry.1).isNone) = entries := by
    refine List.filter_eq_self.mpr (fun entry hentry => ?_)
    simp [hnames entry hentry]
  rw [ofEntries_of_nodup hdistinct, ownOrder, hindices, hothers]
  rfl

section Evaluate

variable (double : NumberLiteral → Number)

mutual

/-- The value a JSON text denotes. -/
def evaluate : Json → Value
  | .null => .null
  | .bool value => .bool value
  | .num literal => .num (double literal)
  | .str value => .str value
  | .arr items => .arr (evaluateItems items)
  | .obj members => .obj (ofEntries (evaluateMembers members))

/-- The items of an array. -/
def evaluateItems : List Json → List Value
  | [] => []
  | item :: items => evaluate item :: evaluateItems items

/-- The members of an object, as they are written. -/
def evaluateMembers : List (String × Json) → List (String × Value)
  | [] => []
  | (name, value) :: members => (name, evaluate value) :: evaluateMembers members

end

/-- `JSON.parse`. -/
def parseJson (text : String) : Option Value := (parse text).map (evaluate double)

variable {double}

@[simp] theorem evaluateItems_eq_map (items : List Json) :
    evaluateItems double items = items.map (evaluate double) := by
  induction items with
  | nil => simp [evaluateItems]
  | cons item items ih => rw [evaluateItems, ih, List.map_cons]

@[simp] theorem evaluateMembers_eq_map (members : List (String × Json)) :
    evaluateMembers double members =
      members.map (fun entry => (entry.1, evaluate double entry.2)) := by
  induction members with
  | nil => simp [evaluateMembers]
  | cons entry members ih => rw [evaluateMembers, ih, List.map_cons]

/-- A parsed object has distinct names and parsed values. -/
theorem evaluate_obj {json : Json} {members : List (String × Value)}
    (h : evaluate double json = .obj members) : (members.map Prod.fst).Nodup ∧
      ∀ name value, (name, value) ∈ members → ∃ json, value = evaluate double json := by
  cases json with
  | obj entries =>
    rw [evaluate, Value.obj.injEq] at h
    rw [← h]
    refine ⟨ofEntries_nodup _, fun name value hmem => ?_⟩
    have hentry := mem_of_mem_ofEntries hmem
    rw [evaluateMembers_eq_map] at hentry
    obtain ⟨entry, -, hequal⟩ := List.mem_map.mp hentry
    exact ⟨entry.2, (Prod.mk.inj hequal).2.symm⟩
  | _ => simp [evaluate] at h

end Evaluate

/-! ## Canonical texts that are parsed -/

section Sorted

variable (double : NumberLiteral → Number) (le : String → String → Bool)

mutual

/-- A value that its text denotes: numbers are doubles in their own writing, and objects have
distinct names that are no indices. -/
def Value.Plain : Value → Prop
  | .num n => ∃ literal, n = .finite literal ∧ double literal = .finite literal
  | .arr items => PlainItems items
  | .obj members => (members.map Prod.fst).Nodup ∧ PlainMembers members
  | _ => True

/-- The items of an array are plain. -/
def PlainItems : List Value → Prop
  | [] => True
  | item :: items => item.Plain ∧ PlainItems items

/-- The members of an object are plain. -/
def PlainMembers : List (String × Value) → Prop
  | [] => True
  | (name, value) :: members => arrayIndex? name = none ∧ value.Plain ∧ PlainMembers members

end

mutual

/-- A value with the members of its objects sorted by name. -/
def sortValue : Value → Value
  | .arr items => .arr (sortValueItems items)
  | .obj members =>
    .obj ((sortValueMembers members).insertionSort (fun a b => le a.1 b.1 = true))
  | value => value

/-- The items of an array with their members sorted. -/
def sortValueItems : List Value → List Value
  | [] => []
  | item :: items => sortValue item :: sortValueItems items

/-- The members of an object, the members of each value sorted. -/
def sortValueMembers : List (String × Value) → List (String × Value)
  | [] => []
  | (name, value) :: members => (name, sortValue value) :: sortValueMembers members

end

variable {double le}

@[simp] theorem sortValueItems_eq_map (items : List Value) :
    sortValueItems le items = items.map (sortValue le) := by
  induction items with
  | nil => simp [sortValueItems]
  | cons item items ih => rw [sortValueItems, ih, List.map_cons]

@[simp] theorem sortValueMembers_eq_map (members : List (String × Value)) :
    sortValueMembers le members = members.map (fun entry => (entry.1, sortValue le entry.2)) := by
  induction members with
  | nil => simp [sortValueMembers]
  | cons entry members ih => rw [sortValueMembers, ih, List.map_cons]

@[simp] theorem sortValue_str (text : String) : sortValue le (.str text) = .str text := by
  rw [sortValue]
  all_goals simp

@[simp] theorem sortValue_num (value : Number) : sortValue le (.num value) = .num value := by
  rw [sortValue]
  all_goals simp

theorem plainItems_of_forall {items : List Value} (h : ∀ item ∈ items, item.Plain double) :
    PlainItems double items := by
  induction items with
  | nil => exact trivial
  | cons item items ih =>
    obtain ⟨hitem, hitems⟩ := List.forall_mem_cons.mp h
    exact ⟨hitem, ih hitems⟩

theorem plainMembers_names {members : List (String × Value)} (h : PlainMembers double members) :
    ∀ entry ∈ members, arrayIndex? entry.1 = none := by
  induction members with
  | nil => exact fun entry hmem => absurd hmem List.not_mem_nil
  | cons first members ih =>
    intro entry hmem
    rcases List.mem_cons.mp hmem with rfl | hmem
    · exact h.1
    · exact ih h.2.2 entry hmem

/-- Sorting by name commutes with a change of the values. -/
theorem insertionSort_map_value {α β : Type} (f : α → β) (members : List (String × α)) :
    (members.map (fun entry => (entry.1, f entry.2))).insertionSort
        (fun a b => le a.1 b.1 = true) =
      (members.insertionSort (fun a b => le a.1 b.1 = true)).map
        (fun entry => (entry.1, f entry.2)) :=
  (List.map_insertionSort (fun a b : String × α => le a.1 b.1 = true)
    (fun a b : String × β => le a.1 b.1 = true) (fun entry => (entry.1, f entry.2)) members
    (fun _ _ _ _ => Iff.rfl)).symm

mutual

/-- The canonical text of a plain value denotes the value with its members sorted. -/
theorem evaluate_sortMembers : (value : Value) → value.Plain double →
    evaluate double (sortMembers le value.toJson) = sortValue le value
  | .null, _ => by simp [Value.toJson, sortMembers, evaluate, sortValue]
  | .bool _, _ => by simp [Value.toJson, sortMembers, evaluate, sortValue]
  | .str _, _ => by simp [Value.toJson, sortMembers, evaluate, sortValue]
  | .num n, h => by
    obtain ⟨literal, hn, hdouble⟩ := h
    rw [hn]
    simp [Value.toJson, Number.toJson, sortMembers, evaluate, sortValue, hdouble]
  | .arr items, h => by
    rw [Value.toJson, sortMembers, evaluate, sortValue, evaluateItems_sortItems items h]
  | .obj members, h => by
    obtain ⟨hdistinct, hplain⟩ := h
    have hvalues := evaluateMembers_sortMemberValues members hplain
    have hnames : ∀ {α β : Type} (f : α → β) (entries : List (String × α)),
        (entries.map (fun entry => (entry.1, f entry.2))).map Prod.fst = entries.map Prod.fst := by
      intro α β f entries
      rw [List.map_map]
      rfl
    have hsorted : evaluateMembers double ((sortMemberValues le (membersToJson members)).insertionSort
        (fun a b => le a.1 b.1 = true)) = (sortValueMembers le members).insertionSort
          (fun a b => le a.1 b.1 = true) := by
      rw [← hvalues, evaluateMembers_eq_map, evaluateMembers_eq_map, insertionSort_map_value]
    have hperm := List.perm_insertionSort (fun a b : String × Value => le a.1 b.1 = true)
      (sortValueMembers le members)
    rw [Value.toJson, sortMembers, evaluate, sortValue, hsorted, ofEntries_eq]
    · rw [(hperm.map Prod.fst).nodup_iff, sortValueMembers_eq_map, hnames]
      exact hdistinct
    · intro entry hentry
      have hmem := hperm.mem_iff.mp hentry
      rw [sortValueMembers_eq_map] at hmem
      obtain ⟨other, hother, rfl⟩ := List.mem_map.mp hmem
      exact plainMembers_names hplain other hother

theorem evaluateItems_sortItems : (items : List Value) → PlainItems double items →
    evaluateItems double (sortItems le (itemsToJson items)) = sortValueItems le items
  | [], _ => by simp
  | item :: items, h => by
    rw [itemsToJson, sortItems, evaluateItems, sortValueItems, evaluate_sortMembers item h.1,
      evaluateItems_sortItems items h.2]

theorem evaluateMembers_sortMemberValues : (members : List (String × Value)) →
    PlainMembers double members →
    evaluateMembers double (sortMemberValues le (membersToJson members)) =
      sortValueMembers le members
  | [], _ => by simp
  | (name, value) :: members, h => by
    rw [membersToJson, sortMemberValues, evaluateMembers, sortValueMembers,
      evaluate_sortMembers value h.2.1, evaluateMembers_sortMemberValues members h.2.2]

end

mutual

/-- What is written for a sorted value. -/
theorem toJson_sortValue : (value : Value) →
    (sortValue le value).toJson = sortMembers le value.toJson
  | .null => by simp [Value.toJson, sortMembers, sortValue]
  | .bool _ => by simp [Value.toJson, sortMembers, sortValue]
  | .str _ => by simp [Value.toJson, sortMembers, sortValue]
  | .num n => by cases n <;> simp [Value.toJson, Number.toJson, sortMembers, sortValue]
  | .arr items => by rw [Value.toJson, sortMembers, sortValue, Value.toJson, itemsToJson_sortItems]
  | .obj members => by
    rw [Value.toJson, sortMembers, sortValue, Value.toJson, ← membersToJson_sortMembers,
      membersToJson_eq_map, membersToJson_eq_map, insertionSort_map_value]

theorem itemsToJson_sortItems : (items : List Value) →
    itemsToJson (sortValueItems le items) = sortItems le (itemsToJson items)
  | [] => by simp
  | item :: items => by
    rw [itemsToJson, sortItems, sortValueItems, itemsToJson, toJson_sortValue item,
      itemsToJson_sortItems items]

theorem membersToJson_sortMembers : (members : List (String × Value)) →
    membersToJson (sortValueMembers le members) = sortMemberValues le (membersToJson members)
  | [] => by simp
  | (name, value) :: members => by
    rw [membersToJson, sortMemberValues, sortValueMembers, membersToJson, toJson_sortValue value,
      membersToJson_sortMembers members]

end

/-- Names are compared consistently. -/
structure NamesOrdered (le : String → String → Bool) : Prop where
  total : ∀ a b, le a b = true ∨ le b a = true
  trans : ∀ a b c, le a b = true → le b c = true → le a c = true

/-- Sorting by name twice is sorting once. -/
theorem insertionSort_names_idem (hle : NamesOrdered le) {α : Type} (members : List (String × α)) :
    (members.insertionSort (fun a b => le a.1 b.1 = true)).insertionSort
        (fun a b => le a.1 b.1 = true) =
      members.insertionSort (fun a b => le a.1 b.1 = true) := by
  have : Std.Total (fun a b : String × α => le a.1 b.1 = true) := ⟨fun a b => hle.total a.1 b.1⟩
  have : IsTrans (String × α) (fun a b => le a.1 b.1 = true) :=
    ⟨fun a b c => hle.trans a.1 b.1 c.1⟩
  exact (List.pairwise_insertionSort _ members).insertionSort_eq

mutual

/-- Sorted members are sorted. -/
theorem sortMembers_idem (hle : NamesOrdered le) : (json : Json) →
    sortMembers le (sortMembers le json) = sortMembers le json
  | .null => by simp [sortMembers]
  | .bool _ => by simp [sortMembers]
  | .str _ => by simp [sortMembers]
  | .num _ => by simp [sortMembers]
  | .arr items => by rw [sortMembers, sortMembers, sortItems_idem hle items]
  | .obj members => by
    rw [sortMembers, sortMembers, sortMemberValues_eq_map le (List.insertionSort _ _),
      ← insertionSort_map_value, ← sortMemberValues_eq_map, sortMemberValues_idem hle members,
      insertionSort_names_idem hle]

theorem sortItems_idem (hle : NamesOrdered le) : (items : List Json) →
    sortItems le (sortItems le items) = sortItems le items
  | [] => by simp [sortItems]
  | item :: items => by
    rw [sortItems, sortItems, sortMembers_idem hle item, sortItems_idem hle items]

theorem sortMemberValues_idem (hle : NamesOrdered le) : (members : List (String × Json)) →
    sortMemberValues le (sortMemberValues le members) = sortMemberValues le members
  | [] => by simp [sortMemberValues]
  | (name, value) :: members => by
    rw [sortMemberValues, sortMemberValues, sortMembers_idem hle value,
      sortMemberValues_idem hle members]

end

/-- A sorted value has the canonical text of the value. -/
theorem canonicalText_sortValue (hle : NamesOrdered le) (value : Value) :
    canonicalText le (sortValue le value) = canonicalText le value := by
  rw [canonicalText, canonicalText, toJson_sortValue, sortMembers_idem hle]

/-- A canonical text is parsed to the sorted value. -/
theorem parseJson_canonicalText {value : Value} (h : value.Plain double) :
    parseJson double (canonicalText le value) = some (sortValue le value) := by
  rw [parseJson, canonicalText, parse_stringify, Option.map_some, evaluate_sortMembers value h]

end Sorted

/-! ## Members -/

/-- The own member of a value. -/
def Value.get (name : String) : Value → Option Value
  | .obj members => members.lookup name
  | _ => none

section Members

variable {double : NumberLiteral → Number} {le : String → String → Bool}

/-- Sorting a value sorts what its members stand for. -/
theorem get_sortValue {members : List (String × Value)} (h : (members.map Prod.fst).Nodup)
    (name : String) : (sortValue le (.obj members)).get name =
      (members.lookup name).map (sortValue le) := by
  have hnames : ((sortValueMembers le members).map Prod.fst).Nodup := by
    rw [sortValueMembers_eq_map, List.map_map]
    exact h
  rw [sortValue, Value.get, ← lookup_perm (List.perm_insertionSort _ _).symm hnames,
    sortValueMembers_eq_map, lookup_map_value]

/-- A member of a plain value, after sorting. -/
theorem get_sortValue_of_plain {value found : Value} {name : String} (hplain : value.Plain double)
    (h : value.get name = some found) :
    (sortValue le value).get name = some (sortValue le found) := by
  cases value with
  | obj members =>
    rw [get_sortValue hplain.1]
    exact congrArg (Option.map (sortValue le)) h
  | _ => cases h

/-- A parsed member is parsed. -/
theorem evaluate_get {json : Json} {name : String} {value : Value}
    (h : (evaluate double json).get name = some value) : ∃ json, value = evaluate double json := by
  cases hvalue : evaluate double json with
  | obj members =>
    obtain ⟨hdistinct, hparsed⟩ := evaluate_obj hvalue
    rw [hvalue, Value.get, lookup_eq_some_iff_mem hdistinct] at h
    exact hparsed name value h
  | _ => simp [hvalue, Value.get] at h

/-- A parsed value with the canonical text of an object has the members of that object, as far as
they are written. -/
theorem evaluate_eq_obj {json : Json} {members : List (String × Value)}
    (hdistinct : (members.map Prod.fst).Nodup)
    (h : canonicalText le (evaluate double json) = canonicalText le (.obj members)) :
    ∀ name, ((evaluate double json).get name).map (fun value => sortMembers le value.toJson) =
      canonicalMember le name members := by
  intro name
  have hsorted := canonicalText_inj.mp h
  cases hvalue : evaluate double json with
  | obj found =>
    rw [hvalue] at hsorted
    rw [← canonicalMember_eq (evaluate_obj hvalue).1 hdistinct hsorted name]
    rfl
  | num n => cases n <;> simp [hvalue, Value.toJson, Number.toJson, sortMembers] at hsorted
  | _ => simp [hvalue, Value.toJson, sortMembers] at hsorted

/-- A value that is written as a string is that string. -/
theorem eq_str_of_written {value : Value} {text : String}
    (h : sortMembers le value.toJson = .str text) : value = .str text := by
  cases value with
  | str other =>
    simp only [Value.toJson, sortMembers, Json.str.injEq] at h
    rw [h]
  | num n => cases n <;> simp [Value.toJson, Number.toJson, sortMembers] at h
  | _ => simp [Value.toJson, sortMembers] at h

/-- A value that is written as a number is that number. -/
theorem eq_num_of_written {value : Value} {literal : NumberLiteral}
    (h : sortMembers le value.toJson = .num literal) : value = .num (.finite literal) := by
  cases value with
  | num n =>
    cases n <;> simp [Value.toJson, Number.toJson, sortMembers] at h
    rw [h]
  | _ => simp [Value.toJson, sortMembers] at h

/-- A string that is written in an object's canonical text is parsed of it. -/
theorem get_str_of_canonicalText {json : Json} {members : List (String × Value)}
    {name text : String} (h : canonicalText le (evaluate double json) = canonicalText le (.obj members))
    (hdistinct : (members.map Prod.fst).Nodup) (hmember : members.lookup name = some (.str text)) :
    (evaluate double json).get name = some (.str text) := by
  have hwritten := evaluate_eq_obj hdistinct h name
  rw [canonicalMember, hmember] at hwritten
  obtain ⟨value, hvalue, hequal⟩ := Option.map_eq_some_iff.mp hwritten
  have hstr : sortMembers le value.toJson = .str text := by
    simp [hequal, Value.toJson, sortMembers]
  rw [hvalue, eq_str_of_written hstr]

/-- A number that is written in an object's canonical text is parsed of it. -/
theorem get_num_of_canonicalText {json : Json} {members : List (String × Value)} {name : String}
    {literal : NumberLiteral} (h : canonicalText le (evaluate double json) = canonicalText le (.obj members))
    (hdistinct : (members.map Prod.fst).Nodup) (hmember : members.lookup name = some (.num (.finite literal))) :
    (evaluate double json).get name = some (.num (.finite literal)) := by
  have hwritten := evaluate_eq_obj hdistinct h name
  rw [canonicalMember, hmember] at hwritten
  obtain ⟨value, hvalue, hequal⟩ := Option.map_eq_some_iff.mp hwritten
  have hnum : sortMembers le value.toJson = .num literal := by
    simp [hequal, Value.toJson, Number.toJson, sortMembers]
  rw [hvalue, eq_num_of_written hnum]

end Members

end LegacyVault.EcmaValues
