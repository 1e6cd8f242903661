import LegacyVault.AuditChain
import LegacyVault.ExportRoundTrip
import LegacyVault.Library.KeyOrder

/-!
# Canonical texts of values

The canonical texts of reports, of audit events and of the AI gateway: all
three sort the members of objects by `localeCompare`, and the third also
normalizes strings. Each tells values apart up to the order of members.

`localeCompare` may find different names equal, and the sort is stable. So a
value has one canonical text for every order of its members just when no
object of it has two such names. Names that are indices are always listed in
ascending order and do no harm.
-/

namespace LegacyVault.CanonicalValues

open EcmaValues ExportCodec JsonText

section Gateway

variable (localeCompare : String → String → Int) (normalize : String → String)

mutual

/-- `canonicalize` of the AI gateway. Members are sorted by their names, which canonicalizing
their values leaves as they are. -/
def canonicalize : Value → Value
  | .arr items => .arr (canonicalizeItems items)
  | .obj members => .obj (ofEntries ((canonicalizeEntries members).insertionSort
      (fun left right => decide (localeCompare left.1 right.1 ≤ 0) = true)))
  | .str value => .str (normalize value)
  | value => value

/-- The canonical items of an array. -/
def canonicalizeItems : List Value → List Value
  | [] => []
  | item :: items => canonicalize item :: canonicalizeItems items

/-- The entries of an object with canonical values. -/
def canonicalizeEntries : List (String × Value) → List (String × Value)
  | [] => []
  | (key, entry) :: entries => (key, canonicalize entry) :: canonicalizeEntries entries

end

/-- `stableStringify`. -/
def stableStringify (value : Value) : String :=
  stringify (canonicalize localeCompare normalize value).toJson

variable {localeCompare normalize}

@[simp] theorem canonicalizeItems_eq_map (items : List Value) :
    canonicalizeItems localeCompare normalize items =
      items.map (canonicalize localeCompare normalize) := by
  induction items with
  | nil => rw [canonicalizeItems, List.map_nil]
  | cons item items ih => rw [canonicalizeItems, ih, List.map_cons]

@[simp] theorem canonicalizeEntries_eq_map (members : List (String × Value)) :
    canonicalizeEntries localeCompare normalize members =
      members.map (fun entry => (entry.1, canonicalize localeCompare normalize entry.2)) := by
  induction members with
  | nil => rw [canonicalizeEntries, List.map_nil]
  | cons entry members ih => rw [canonicalizeEntries, ih, List.map_cons]

end Gateway

/-! ## What is written -/

section Written

variable {platform : Platform} {normalize : String → String}

/-- Sorting members by name writes a value in the order of names. -/
theorem sortMembers_toJson (le : String → String → Bool) (value : Value) :
    sortMembers le value.toJson = value.written le id := by
  induction value using Value.induct with
  | null => simp [Value.toJson, sortMembers, Value.written]
  | bool value => simp [Value.toJson, sortMembers, Value.written]
  | num n => cases n <;> simp [Value.toJson, Number.toJson, sortMembers, Value.written]
  | str value => simp [Value.toJson, sortMembers, Value.written]
  | arr items ih =>
    rw [Value.toJson, sortMembers, written_arr, itemsToJson_eq_map, sortItems_eq_map, List.map_map]
    exact congrArg _ (List.map_congr_left ih)
  | obj members ih =>
    rw [Value.toJson, sortMembers, written_obj, membersToJson_eq_map, sortMemberValues_eq_map,
      List.map_map]
    have hvalues : members.map ((fun entry => (entry.1, sortMembers le entry.2)) ∘
        fun entry => (entry.1, entry.2.toJson)) =
        members.map (fun entry => (entry.1, entry.2.written le id)) :=
      List.map_congr_left (fun entry hentry => by rw [Function.comp_apply, ih entry hentry])
    rw [hvalues]

/-- What the AI gateway writes of a value of JSON: indices first, then names in their order. -/
theorem canonicalize_toJson (hnames : NamesOrdered platform.nameOrder) (value : Value)
    (h : value.IsJson) :
    (canonicalize platform.localeCompare normalize value).toJson =
      value.written (indexFirst platform.nameOrder) normalize := by
  induction value using Value.induct with
  | null => rfl
  | bool value => rfl
  | num n => rfl
  | str value => rfl
  | arr items ih =>
    rw [Value.IsJson, each_arr] at h
    rw [canonicalize, Value.toJson, written_arr, itemsToJson_eq_map, canonicalizeItems_eq_map,
      List.map_map]
    exact congrArg _ (List.map_congr_left (fun item hitem => ih item hitem (h item hitem)))
  | obj members ih =>
    rw [Value.IsJson, each_obj] at h
    have hentries : ((canonicalizeEntries platform.localeCompare normalize members).map
        Prod.fst).Nodup := by
      rw [canonicalizeEntries_eq_map, List.map_map]
      exact h.1.1
    have hsorted : (((canonicalizeEntries platform.localeCompare normalize members).insertionSort
        (NameLe platform.nameOrder)).map Prod.fst).Nodup :=
      ((List.perm_insertionSort _ _).map Prod.fst).nodup_iff.mpr hentries
    have hobject : canonicalize platform.localeCompare normalize (.obj members) =
        .obj ((canonicalizeEntries platform.localeCompare normalize members).insertionSort
          (NameLe (indexFirst platform.nameOrder))) := by
      rw [← ownOrder_insertionSort hnames hentries, ← ofEntries_of_nodup hsorted]
      rfl
    rw [hobject, Value.toJson, written_obj, membersToJson_eq_map, canonicalizeEntries_eq_map]
    have hvalues : members.map (fun entry => (entry.1,
          entry.2.written (indexFirst platform.nameOrder) normalize)) =
        (members.map (fun entry => (entry.1,
          canonicalize platform.localeCompare normalize entry.2))).map
          (fun entry => (entry.1, entry.2.toJson)) := by
      rw [List.map_map]
      exact List.map_congr_left (fun entry hentry => by
        rw [Function.comp_apply, ih entry hentry (h.2 entry hentry)])
    rw [hvalues]
    exact congrArg _ (insertionSort_map_value Value.toJson _).symm

/-- Reports tell values apart by what is written in the order of names. -/
theorem canonicalReportValue_inj {v w : Value} :
    canonicalReportValue platform v = canonicalReportValue platform w ↔
      v.written platform.nameOrder id = w.written platform.nameOrder id := by
  rw [canonicalReportValue, canonicalReportValue, canonicalText_inj, sortMembers_toJson,
    sortMembers_toJson]

/-- Audit events and reports have one canonical text. -/
theorem audit_canonicalize (value : Value) :
    Audit.canonicalize platform.localeCompare value = canonicalReportValue platform value := rfl

/-- The AI gateway tells values of JSON apart by what is written in the order of names, indices
first. -/
theorem stableStringify_inj (hnames : NamesOrdered platform.nameOrder) {v w : Value}
    (hv : v.IsJson) (hw : w.IsJson) :
    stableStringify platform.localeCompare normalize v =
        stableStringify platform.localeCompare normalize w ↔
      v.written (indexFirst platform.nameOrder) normalize =
        w.written (indexFirst platform.nameOrder) normalize := by
  rw [stableStringify, stableStringify, stringify_inj, canonicalize_toJson hnames v hv,
    canonicalize_toJson hnames w hw]

/-- The same names tie with the indices first. -/
theorem untied_indexFirst {le : String → String → Bool} {value : Value} (h : value.Untied le) :
    value.Untied (indexFirst le) := by
  simpa only [Value.Untied, tied_indexFirst] using h

/-- The canonical texts of two values tell them apart up to the order of members. -/
structure Canonical (platform : Platform) (normalize : String → String) (v w : Value) : Prop where
  /-- `canonicalReportValue`. -/
  report : canonicalReportValue platform v = canonicalReportValue platform w ↔ v.SameUpTo id w
  /-- `canonicalize` of audit events. -/
  audit : Audit.canonicalize platform.localeCompare v =
    Audit.canonicalize platform.localeCompare w ↔ v.SameUpTo id w
  /-- `stableStringify`, up to the normal form of strings. -/
  gateway : stableStringify platform.localeCompare normalize v =
    stableStringify platform.localeCompare normalize w ↔ v.SameUpTo normalize w

/-- A value without names that tie is told apart from any other. -/
theorem canonical_of_untied (hnames : NamesOrdered platform.nameOrder) {v w : Value}
    (hv : v.IsJson) (hw : w.IsJson) (huntied : v.Untied platform.nameOrder) :
    Canonical platform normalize v w := by
  have hreport : canonicalReportValue platform v = canonicalReportValue platform w ↔
      v.SameUpTo id w := by
    rw [canonicalReportValue_inj]
    exact ⟨same_of_written v w hv hw, written_of_same hnames v w hv hw (huntied.tiesKept v w)⟩
  refine ⟨hreport, ?_, ?_⟩
  · rw [audit_canonicalize, audit_canonicalize]
    exact hreport
  · rw [stableStringify_inj hnames hv hw]
    have hkept := (untied_indexFirst huntied).tiesKept v w
    exact ⟨same_of_written v w hv hw, written_of_same hnames.indexFirst v w hv hw hkept⟩

end Written

/-- The canonical texts of a value are canonical just when no object of it has two different
names, neither an index, that `localeCompare` finds equal. -/
theorem canonical_iff_untied (platform : Platform) (normalize : String → String)
    (hnames : NamesOrdered platform.nameOrder) (v : Value) (hv : v.IsJson) :
    (∀ w : Value, w.IsJson → Canonical platform normalize v w) ↔
      v.Untied platform.nameOrder := by
  constructor
  · intro hcanonical
    have hreversed := (hcanonical v.reversed (hv.reversed v)).report.mpr (same_reversed v hv)
    have hwritten := canonicalReportValue_inj.mp hreversed
    exact untied_of_reversed v hv (tiesKept_of_written hnames v _ hv (hv.reversed v) hwritten)
  · exact fun huntied w hw => canonical_of_untied hnames hv hw huntied

/-- Compares `é` alike in its two spellings, as the locale's collation does. -/
def composed (text : String) : String := if text = "e\u0301" then "\u00e9" else text

/-- A platform whose comparison finds the two spellings of `é` equal. -/
def collating : Platform :=
  { examplePlatform with
    localeCompare := fun left right => examplePlatform.localeCompare (composed left)
      (composed right) }

theorem collating_names : NamesOrdered collating.nameOrder where
  total := fun a b => exampleNames_ordered.total (composed a) (composed b)
  trans := fun a b c => exampleNames_ordered.trans (composed a) (composed b) (composed c)

/-- An object with both spellings of a name. -/
def spellings : Value := .obj [("\u00e9", .num (.ofNat 1)), ("e\u0301", .num (.ofNat 2))]

theorem spellings_isJson : spellings.IsJson := by
  rw [spellings, Value.IsJson, each_obj]
  refine ⟨⟨by decide, ?_⟩, ?_⟩
  · simp [OwnBefore, show arrayIndex? "\u00e9" = none by decide,
      show arrayIndex? "e\u0301" = none by decide]
  · intro entry hentry
    rcases List.mem_pair.mp hentry with rfl | rfl
    · rfl
    · rfl

/-- The canonical texts of one object in two orders of its members are different. -/
theorem spellings_not_canonical :
    ¬ ∀ w : Value, w.IsJson → Canonical collating composed spellings w := by
  intro hcanonical
  have hreversed := (hcanonical spellings.reversed (spellings_isJson.reversed _)).report.mpr
    (same_reversed spellings spellings_isJson)
  have hwritten := canonicalReportValue_inj.mp hreversed
  have hkept := tiesKept_of_written collating_names spellings _ spellings_isJson
    (spellings_isJson.reversed _) hwritten
  have huntied := untied_of_reversed spellings spellings_isJson hkept
  rw [spellings, Value.Untied, each_obj] at huntied
  exact huntied.1 "\u00e9" (by decide) "e\u0301" (by decide)
    ⟨by decide, by decide, by decide, by decide, by decide⟩

/-- A part with a name and a size. -/
def part : Value := .obj [("size", .num (.ofNat 12)), ("name", .str "will.pdf")]

theorem canonical_iff_untied_example :
    (∀ w : Value, w.IsJson → Canonical collating composed part w) ↔
      part.Untied collating.nameOrder := by
  refine canonical_iff_untied collating composed collating_names part ?_
  rw [part, Value.IsJson, each_obj]
  refine ⟨⟨by decide, ?_⟩, ?_⟩
  · simp [OwnBefore, show arrayIndex? "size" = none by decide,
      show arrayIndex? "name" = none by decide]
  · intro entry hentry
    rcases List.mem_pair.mp hentry with rfl | rfl
    · rfl
    · trivial

end LegacyVault.CanonicalValues
