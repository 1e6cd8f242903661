import Mathlib.Data.List.Perm.Basic
import LegacyVault.CanonicalValues
import LegacyVault.ReportConfidentiality

/-!
# The findings of an annual review

The review lists the categories without a confirmed fact, the confirmed facts
that are due for review, the documents that are about to expire, and the
fields whose confirmed facts contradict each other.

Values contradict each other when their canonical texts differ. One value may
have several: names that `localeCompare` finds equal keep the order in which
the object lists them. The findings are exact unless confirmed facts of one
field have the same value with such names in different orders.
-/

namespace LegacyVault

open EcmaValues JsonText

/-! ## What the findings should be -/

/-- The value of a fact. -/
def OpenedFact.value (fact : OpenedFact) : Value := Value.ofJson fact.typedValue

/-- The confirmed facts of a field. -/
def factsOfField (facts : List OpenedFact) (fieldKey : String) : List OpenedFact :=
  (confirmedFacts facts).filter (fun fact => fact.fieldKey == fieldKey)

/-- The values of all confirmed facts of a field are equal, up to the order of members. -/
def FieldAgrees (facts : List OpenedFact) (fieldKey : String) : Prop :=
  ∀ fact ∈ factsOfField facts fieldKey, ∀ other ∈ factsOfField facts fieldKey,
    fact.value.SameUpTo id other.value

/-- At least two confirmed facts share the field, and their values are not all equal. -/
def Contradicted (facts : List OpenedFact) (fieldKey : String) : Prop :=
  2 ≤ (factsOfField facts fieldKey).length ∧ ¬FieldAgrees facts fieldKey

/-- A confirmed fact was last reviewed, or else confirmed, a year ago, or has no such time. -/
def ReviewDue (generatedAt : Instant) (fact : OpenedFact) : Prop :=
  fact.status = .confirmed ∧
    ∀ reviewedAt, fact.lastReviewedAt.or fact.confirmedAt = some reviewedAt →
      reviewedAt ≤ generatedAt - 365 * dayMs

/-- A document expires within ninety days. -/
def ExpiresSoon (generatedAt : Instant) (document : ReportDocument) : Prop :=
  ∃ expiresAt, document.expiresAt = some expiresAt ∧ expiresAt ≤ generatedAt + 90 * dayMs

/-- Two reviews find the same, up to order. -/
structure SameFindings (findings others : AnnualReviewFindings) : Prop where
  stale : findings.staleFactIds.Perm others.staleFactIds
  expiring : findings.expiringDocumentIds.Perm others.expiringDocumentIds
  contradictions : ∃ listed, listed.Perm findings.contradictions ∧
    List.Forall₂ (fun a b => a.fieldKey = b.fieldKey ∧ a.factIds.Perm b.factIds) listed
      others.contradictions

/-- The findings of a review are exact. -/
structure FindingsExact (generatedAt : Instant) (facts : List OpenedFact)
    (documents : List ReportDocument) (missingCategories : List RecordCategory)
    (findings : AnnualReviewFindings) : Prop where
  contradicted : ∀ fieldKey, fieldKey ∈ findings.contradictions.map Contradiction.fieldKey ↔
    Contradicted facts fieldKey
  contradictedOnce : (findings.contradictions.map Contradiction.fieldKey).Nodup
  factIds : ∀ contradiction ∈ findings.contradictions, ∀ factId,
    factId ∈ contradiction.factIds ↔
      ∃ fact ∈ facts, fact.id = factId ∧ fact.status = .confirmed ∧
        fact.fieldKey = contradiction.fieldKey
  factIdsOnce : (facts.map (fun fact => fact.id)).Nodup →
    ∀ contradiction ∈ findings.contradictions, contradiction.factIds.Nodup
  missing : ∀ category, category ∈ missingCategories ↔
    ¬∃ fact ∈ facts, fact.status = .confirmed ∧
      recordCategoryFromFieldKey fact.fieldKey = some category
  missingOnce : missingCategories.Nodup
  stale : ∀ factId, factId ∈ findings.staleFactIds ↔
    ∃ fact ∈ facts, fact.id = factId ∧ ReviewDue generatedAt fact
  staleOnce : (facts.map (fun fact => fact.id)).Nodup → findings.staleFactIds.Nodup
  expiring : ∀ documentId, documentId ∈ findings.expiringDocumentIds ↔
    ∃ document ∈ documents, document.id = documentId ∧ ExpiresSoon generatedAt document
  expiringOnce : (documents.map ReportDocument.id).Nodup → findings.expiringDocumentIds.Nodup

/-- Two reviews list the same, up to order. -/
structure SameLists (report other : Report) : Prop where
  missing : ∃ missing others, report.missingCategories = some missing ∧
    other.missingCategories = some others ∧ missing.Perm others
  findings : ∃ findings others, report.reviewFindings = some findings ∧
    other.reviewFindings = some others ∧ SameFindings findings others

/-- The lists of a report are exact, and the same for the inputs in any order. -/
structure ReviewExact (localeCompare : String → String → Int) (context : TenantContext)
    (reportId : Identifier) (documents : List ReportDocument) (generatedAt : Instant)
    (facts : List OpenedFact) (report : Report) : Prop where
  exact : ∃ missing findings, report.missingCategories = some missing ∧
    report.reviewFindings = some findings ∧
    FindingsExact generatedAt facts documents missing findings
  permuted : ∀ others otherDocuments, others.Perm facts → otherDocuments.Perm documents →
    ∃ other, buildReport localeCompare context reportId .annualReview otherDocuments generatedAt
      others = .ok other ∧ SameLists other report

/-- Equal values of a field list names that tie in the same order. -/
def FieldOrdered (localeCompare : String → String → Int) (facts : List OpenedFact)
    (fieldKey : String) : Prop :=
  ∀ fact ∈ factsOfField facts fieldKey, ∀ other ∈ factsOfField facts fieldKey,
    fact.value.TiesKept (localeOrder localeCompare) other.value

/-! ## Facts by field -/

section Groups

variable {facts : List OpenedFact} {groups : List (String × List OpenedFact)}

theorem factsOfField_append (facts : List OpenedFact) (fact : OpenedFact) (fieldKey : String) :
    (facts ++ [fact]).filter (fun fact => fact.fieldKey == fieldKey) =
      if fieldKey = fact.fieldKey then
        facts.filter (fun fact => fact.fieldKey == fieldKey) ++ [fact]
      else facts.filter (fun fact => fact.fieldKey == fieldKey) := by
  rw [List.filter_append]
  by_cases hkey : fieldKey = fact.fieldKey
  · rw [if_pos hkey, List.filter_cons_of_pos (by simp [hkey]), List.filter_nil]
  · rw [if_neg hkey, List.filter_cons_of_neg (by simp [Ne.symm hkey]), List.filter_nil,
      List.append_nil]

/-- A fact joins the group of its field, and no other. -/
theorem lookup_addToGroup (fact : OpenedFact) (fieldKey : String) :
    (addToGroup fact groups).lookup fieldKey =
      if fieldKey = fact.fieldKey then some ((groups.lookup fieldKey).getD [] ++ [fact])
      else groups.lookup fieldKey := by
  have hlookup : ∀ (key : String) (group : List OpenedFact) groups,
      List.lookup fieldKey ((key, group) :: groups) =
        if fieldKey = key then some group else List.lookup fieldKey groups := by
    intro key group groups
    rw [List.lookup_cons]
    by_cases hkey : fieldKey = key
    · simp [hkey]
    · simp [hkey, beq_eq_false_iff_ne.mpr hkey]
  induction groups with
  | nil => rw [addToGroup, hlookup, List.lookup_nil, Option.getD_none, List.nil_append]
  | cons entry groups ih =>
    obtain ⟨key, group⟩ := entry
    rw [addToGroup]
    by_cases hadded : key = fact.fieldKey
    · rw [if_pos hadded, hlookup, hlookup, hadded]
      by_cases hkey : fieldKey = fact.fieldKey
      · simp only [if_pos hkey, Option.getD_some]
      · simp only [if_neg hkey]
    · rw [if_neg hadded, hlookup, hlookup, ih]
      by_cases hkey : fieldKey = key
      · have hother : fieldKey ≠ fact.fieldKey := fun hfield => hadded (hkey.symm.trans hfield)
        simp only [if_pos hkey, if_neg hother]
      · simp only [if_neg hkey]

/-- A fact adds its field, once. -/
theorem keys_addToGroup (fact : OpenedFact) :
    (addToGroup fact groups).map Prod.fst =
      if fact.fieldKey ∈ groups.map Prod.fst then groups.map Prod.fst
      else groups.map Prod.fst ++ [fact.fieldKey] := by
  induction groups with
  | nil => rfl
  | cons entry groups ih =>
    obtain ⟨key, group⟩ := entry
    rw [addToGroup]
    by_cases hadded : key = fact.fieldKey
    · simp [hadded]
    · rw [if_neg hadded, List.map_cons, ih, List.map_cons]
      by_cases hmem : fact.fieldKey ∈ groups.map Prod.fst
      · rw [if_pos hmem, if_pos (List.mem_cons_of_mem _ hmem)]
      · have hne : fact.fieldKey ∉ key :: groups.map Prod.fst := by
          rw [List.mem_cons, not_or]
          exact ⟨Ne.symm hadded, hmem⟩
        rw [if_neg hmem, if_neg hne, List.cons_append]

/-- The groups are those of the facts: one for every field, of all facts of it in their order. -/
structure GroupsOf (facts : List OpenedFact) (groups : List (String × List OpenedFact)) :
    Prop where
  keys : (groups.map Prod.fst).Nodup
  fields : ∀ fieldKey, fieldKey ∈ groups.map Prod.fst ↔ ∃ fact ∈ facts, fact.fieldKey = fieldKey
  lookup : ∀ fieldKey, (groups.lookup fieldKey).getD [] =
    facts.filter (fun fact => fact.fieldKey == fieldKey)

theorem GroupsOf.addToGroup (h : GroupsOf facts groups) (fact : OpenedFact) :
    GroupsOf (facts ++ [fact]) (addToGroup fact groups) where
  keys := by
    rw [keys_addToGroup]
    split
    · exact h.keys
    · rename_i hnew
      exact List.nodup_append.mpr ⟨h.keys, List.nodup_singleton _, by
        intro a ha b hb hab
        rw [List.mem_singleton.mp hb] at hab
        exact hnew (hab ▸ ha)⟩
  fields := by
    intro fieldKey
    have hfacts : (∃ other ∈ facts ++ [fact], other.fieldKey = fieldKey) ↔
        (∃ other ∈ facts, other.fieldKey = fieldKey) ∨ fact.fieldKey = fieldKey := by
      simp [or_and_right, exists_or]
    rw [hfacts, ← h.fields, keys_addToGroup]
    split
    · rename_i hold
      constructor
      · exact Or.inl
      · intro hmem
        rcases hmem with hmem | rfl
        · exact hmem
        · exact hold
    · rw [List.mem_append, List.mem_singleton, eq_comm (a := fieldKey)]
  lookup := by
    intro fieldKey
    rw [lookup_addToGroup, factsOfField_append]
    split
    · rw [Option.getD_some, h.lookup]
    · exact h.lookup fieldKey

theorem groupsOf_foldl {before : List OpenedFact} (h : GroupsOf before groups) :
    GroupsOf (before ++ facts)
      (facts.foldl (fun groups fact => addToGroup fact groups) groups) := by
  induction facts generalizing before groups with
  | nil => rwa [List.append_nil]
  | cons fact facts ih =>
    have hnext := ih (h.addToGroup fact)
    rwa [List.append_assoc] at hnext

/-- Confirmed facts are grouped by their fields. -/
theorem groupsOf_confirmed (facts : List OpenedFact) :
    GroupsOf (confirmedFacts facts) (confirmedByField facts) := by
  have hempty : GroupsOf [] [] := ⟨List.nodup_nil, by simp, by simp⟩
  exact groupsOf_foldl hempty

/-- A group has the confirmed facts of its field. -/
theorem group_eq {entry : String × List OpenedFact} (h : entry ∈ confirmedByField facts) :
    entry.2 = factsOfField facts entry.1 := by
  have hgroups := groupsOf_confirmed facts
  have hlookup : (confirmedByField facts).lookup entry.1 = some entry.2 :=
    (lookup_eq_some_iff_mem hgroups.keys).mpr h
  have hgroup := hgroups.lookup entry.1
  rwa [hlookup] at hgroup

end Groups

/-! ## Contradictions -/

section Contradictions

variable {localeCompare : String → String → Int} {facts others : List OpenedFact}

/-- A list has more than one text just when it has two that differ. -/
theorem one_lt_eraseDups {texts : List String} :
    1 < texts.eraseDups.length ↔ ∃ a ∈ texts, ∃ b ∈ texts, a ≠ b := by
  cases texts with
  | nil => simp
  | cons text texts =>
    rw [List.eraseDups_cons, List.length_cons, Nat.lt_add_left_iff_pos,
      List.length_pos_iff_exists_mem]
    simp only [List.mem_eraseDups, List.mem_filter]
    constructor
    · rintro ⟨other, hother, hne⟩
      refine ⟨other, List.mem_cons_of_mem _ hother, text, List.mem_cons_self, ?_⟩
      simpa using hne
    · rintro ⟨a, ha, b, hb, hne⟩
      -- one of the two is not the first text
      by_cases hfirst : a = text
      · have hother : b ≠ text := fun hequal => hne (hfirst.trans hequal.symm)
        exact ⟨b, (List.mem_cons.mp hb).resolve_left hother, by simpa using hother⟩
      · exact ⟨a, (List.mem_cons.mp ha).resolve_left hfirst, by simpa using hfirst⟩

/-- The confirmed facts of a field have more than one canonical text. -/
def TextsDiffer (localeCompare : String → String → Int) (facts : List OpenedFact)
    (fieldKey : String) : Prop :=
  1 < ((factsOfField facts fieldKey).map (OpenedFact.canonicalValue localeCompare)).eraseDups.length

instance (fieldKey : String) : Decidable (TextsDiffer localeCompare facts fieldKey) :=
  inferInstanceAs (Decidable (1 < _))

theorem textsDiffer_iff {fieldKey : String} : TextsDiffer localeCompare facts fieldKey ↔
    ∃ fact ∈ factsOfField facts fieldKey, ∃ other ∈ factsOfField facts fieldKey,
      fact.canonicalValue localeCompare ≠ other.canonicalValue localeCompare := by
  rw [TextsDiffer, one_lt_eraseDups]
  simp only [List.mem_map, exists_exists_and_eq_and]

/-- The fields whose confirmed facts have more than one canonical text. -/
def differingFields (localeCompare : String → String → Int) (facts : List OpenedFact) :
    List String :=
  ((confirmedByField facts).map Prod.fst).filter
    (fun fieldKey => decide (TextsDiffer localeCompare facts fieldKey))

/-- The contradiction of a field names all its confirmed facts. -/
def contradictionOf (facts : List OpenedFact) (fieldKey : String) : Contradiction :=
  ⟨fieldKey, (factsOfField facts fieldKey).map (fun fact => fact.id)⟩

theorem contradictionsOf_eq (localeCompare : String → String → Int) (facts : List OpenedFact) :
    contradictionsOf localeCompare facts =
      (differingFields localeCompare facts).map (contradictionOf facts) := by
  have hgroups : contradictionsOf localeCompare facts = (confirmedByField facts).filterMap
      (fun entry => if TextsDiffer localeCompare facts entry.1 then
        some (contradictionOf facts entry.1) else none) := by
    refine List.filterMap_congr (fun entry hentry => ?_)
    simp only [TextsDiffer, contradictionOf, ← group_eq hentry]
  rw [hgroups, differingFields, List.filter_map, List.map_map]
  induction confirmedByField facts with
  | nil => rfl
  | cons entry groups ih =>
    rw [List.filterMap_cons, ih]
    by_cases hdiffer : TextsDiffer localeCompare facts entry.1
    · rw [if_pos hdiffer, List.filter_cons_of_pos (by simpa using hdiffer)]
      rfl
    · rw [if_neg hdiffer, List.filter_cons_of_neg (by simpa using hdiffer)]

theorem differingFields_nodup : (differingFields localeCompare facts).Nodup :=
  (groupsOf_confirmed facts).keys.filter _

theorem mem_factsOfField {fact : OpenedFact} {fieldKey : String} :
    fact ∈ factsOfField facts fieldKey ↔
      fact ∈ facts ∧ fact.status = .confirmed ∧ fact.fieldKey = fieldKey := by
  rw [factsOfField, List.mem_filter, confirmedFacts, List.mem_filter]
  simp only [beq_iff_eq, and_assoc]

/-- A field is listed when its confirmed facts have more than one canonical text. -/
theorem mem_differingFields {fieldKey : String} :
    fieldKey ∈ differingFields localeCompare facts ↔ TextsDiffer localeCompare facts fieldKey := by
  rw [differingFields, List.mem_filter, decide_eq_true_eq, (groupsOf_confirmed facts).fields]
  refine and_iff_right_of_imp (fun hdiffer => ?_)
  obtain ⟨fact, hfact, -⟩ := textsDiffer_iff.mp hdiffer
  obtain ⟨hconfirmed, hkey⟩ := List.mem_filter.mp hfact
  exact ⟨fact, hconfirmed, by simpa using hkey⟩

/-- Canonical texts tell values apart up to the order of members and of names that tie. -/
theorem canonicalValue_inj (hnames : NamesOrdered (localeOrder localeCompare))
    {fact other : OpenedFact} (hfact : fact.value.IsJson) (hother : other.value.IsJson) :
    fact.canonicalValue localeCompare = other.canonicalValue localeCompare ↔
      fact.value.SameUpTo id other.value ∧
        fact.value.TiesKept (localeOrder localeCompare) other.value := by
  have hwritten : ∀ fact : OpenedFact,
      sortMembers (localeOrder localeCompare) fact.typedValue =
        fact.value.written (localeOrder localeCompare) id := by
    intro fact
    rw [← CanonicalValues.sortMembers_toJson, OpenedFact.value, toJson_ofJson]
  rw [OpenedFact.canonicalValue, OpenedFact.canonicalValue, stringify_inj, hwritten, hwritten,
    written_eq_iff hnames hfact hother]

/-- The canonical texts of a field are one when its values are equal and keep their ties. -/
theorem not_textsDiffer_iff (hnames : NamesOrdered (localeOrder localeCompare))
    (hjson : ∀ fact ∈ facts, fact.value.IsJson) {fieldKey : String} :
    ¬TextsDiffer localeCompare facts fieldKey ↔
      FieldAgrees facts fieldKey ∧ FieldOrdered localeCompare facts fieldKey := by
  have hinj : ∀ fact ∈ factsOfField facts fieldKey, ∀ other ∈ factsOfField facts fieldKey,
      (fact.canonicalValue localeCompare = other.canonicalValue localeCompare ↔
        fact.value.SameUpTo id other.value ∧
          fact.value.TiesKept (localeOrder localeCompare) other.value) := by
    intro fact hfact other hother
    exact canonicalValue_inj hnames (hjson fact (mem_factsOfField.mp hfact).1)
      (hjson other (mem_factsOfField.mp hother).1)
  rw [textsDiffer_iff]
  push Not
  constructor
  · intro hequal
    refine ⟨fun fact hfact other hother => ?_, fun fact hfact other hother => ?_⟩
    · exact ((hinj fact hfact other hother).mp (hequal fact hfact other hother)).1
    · exact ((hinj fact hfact other hother).mp (hequal fact hfact other hother)).2
  · intro h fact hfact other hother
    exact (hinj fact hfact other hother).mpr
      ⟨h.1 fact hfact other hother, h.2 fact hfact other hother⟩

/-- Two confirmed facts are needed for two texts. -/
theorem two_le_of_textsDiffer {fieldKey : String} (h : TextsDiffer localeCompare facts fieldKey) :
    2 ≤ (factsOfField facts fieldKey).length := by
  obtain ⟨fact, hfact, other, hother, hne⟩ := textsDiffer_iff.mp h
  by_contra hfew
  have hone : (factsOfField facts fieldKey).length ≤ 1 := by omega
  obtain ⟨only, honly⟩ := List.length_eq_one_iff.mp
    (Nat.le_antisymm hone (List.length_pos_of_mem hfact))
  rw [honly, List.mem_singleton] at hfact hother
  exact hne (by rw [hfact, hother])

/-- The fields with more than one text are those contradicted when equal values keep their ties. -/
theorem textsDiffer_iff_contradicted (hnames : NamesOrdered (localeOrder localeCompare))
    (hjson : ∀ fact ∈ facts, fact.value.IsJson) (fieldKey : String) :
    (TextsDiffer localeCompare facts fieldKey ↔ Contradicted facts fieldKey) ↔
      (FieldAgrees facts fieldKey → FieldOrdered localeCompare facts fieldKey) := by
  have hdiffer : ¬TextsDiffer localeCompare facts fieldKey ↔
      FieldAgrees facts fieldKey ∧ FieldOrdered localeCompare facts fieldKey :=
    not_textsDiffer_iff hnames hjson
  constructor
  · intro hiff hagrees
    have hnone : ¬TextsDiffer localeCompare facts fieldKey :=
      fun h => (hiff.mp h).2 hagrees
    exact (hdiffer.mp hnone).2
  · intro hordered
    constructor
    · intro h
      refine ⟨two_le_of_textsDiffer h, fun hagrees => ?_⟩
      exact hdiffer.mpr ⟨hagrees, hordered hagrees⟩ h
    · intro h
      by_contra hnone
      exact h.2 (hdiffer.mp hnone).1

theorem confirmedFacts_perm (h : facts.Perm others) :
    (confirmedFacts facts).Perm (confirmedFacts others) := h.filter _

theorem factsOfField_perm (h : facts.Perm others) (fieldKey : String) :
    (factsOfField facts fieldKey).Perm (factsOfField others fieldKey) :=
  (confirmedFacts_perm h).filter _

theorem textsDiffer_perm (h : facts.Perm others) (fieldKey : String) :
    TextsDiffer localeCompare facts fieldKey ↔ TextsDiffer localeCompare others fieldKey := by
  simp only [textsDiffer_iff, (factsOfField_perm h fieldKey).mem_iff]

theorem differingFields_perm (h : facts.Perm others) :
    (differingFields localeCompare facts).Perm (differingFields localeCompare others) := by
  refine (List.perm_ext_iff_of_nodup differingFields_nodup differingFields_nodup).mpr ?_
  intro fieldKey
  rw [mem_differingFields, mem_differingFields, textsDiffer_perm h]

end Contradictions

/-! ## The report -/

section Lists

variable {localeCompare : String → String → Int} {context : TenantContext}
variable {reportId : Identifier} {documents otherDocuments : List ReportDocument}
variable {generatedAt : Instant} {facts others : List OpenedFact} {report : Report}

/-- The categories of confirmed facts are found when each field has one. -/
theorem confirmedCategories_eq_ok {categories : List RecordCategory} :
    confirmedCategories facts = .ok categories ↔
      (confirmedFacts facts).map (fun fact => recordCategoryFromFieldKey fact.fieldKey) =
        categories.map some := by
  rw [confirmedCategories]
  induction confirmedFacts facts generalizing categories with
  | nil =>
    rw [List.mapM_nil, List.map_nil, eq_comm (a := []), List.map_eq_nil_iff]
    exact ⟨fun h => (Except.ok.inj h).symm, fun h => by rw [h]; rfl⟩
  | cons fact facts ih =>
    rw [List.mapM_cons, List.map_cons, requireCategory]
    cases hcategory : recordCategoryFromFieldKey fact.fieldKey with
    | none => cases categories <;> simp [Bind.bind, Except.bind]
    | some category =>
      cases hrest : facts.mapM (fun fact => requireCategory fact.fieldKey) with
      | error message =>
        have hnone : ∀ rest : List RecordCategory,
            facts.map (fun fact => recordCategoryFromFieldKey fact.fieldKey) ≠ rest.map some := by
          intro rest hequal
          exact absurd (hrest.symm.trans (ih.mpr hequal)) (by simp)
        cases categories with
        | nil => simp [Bind.bind, Except.bind]
        | cons first rest => simp [Bind.bind, Except.bind, hnone rest]
      | ok found =>
        have hfound := ih.mp hrest
        have hinjective := (List.map_injective_iff.mpr (Option.some_injective RecordCategory))
        cases categories with
        | nil => simp [Bind.bind, Except.bind, pure, Except.pure]
        | cons first rest =>
          simp [Bind.bind, Except.bind, pure, Except.pure, hfound, hinjective.eq_iff]

/-- A category is found when a confirmed fact has it. -/
theorem mem_confirmedCategories {categories : List RecordCategory}
    (h : confirmedCategories facts = .ok categories) (category : RecordCategory) :
    category ∈ categories ↔ ∃ fact ∈ facts, fact.status = .confirmed ∧
      recordCategoryFromFieldKey fact.fieldKey = some category := by
  have hmap := confirmedCategories_eq_ok.mp h
  have hmem : category ∈ categories ↔ some category ∈ categories.map some := by simp
  rw [hmem, ← hmap, List.mem_map]
  simp [confirmedFacts, and_assoc]

theorem confirmedCategories_perm (hperm : facts.Perm others) {categories : List RecordCategory}
    (h : confirmedCategories facts = .ok categories) :
    ∃ found, confirmedCategories others = .ok found ∧ categories.Perm found := by
  have hmap := confirmedCategories_eq_ok.mp h
  have hothers := (confirmedFacts_perm hperm).map
    (fun fact => recordCategoryFromFieldKey fact.fieldKey)
  rw [hmap] at hothers
  have hsome := (congrFun (congrFun (List.eq_map_comp_perm some) _) _).mpr hothers.symm
  obtain ⟨found, hfound, hsame⟩ := hsome
  exact ⟨found, confirmedCategories_eq_ok.mpr hfound, hsame.symm⟩

/-- What a report lists, and when it is generated. -/
theorem buildReport_eq_ok_iff :
    (∃ report, buildReport localeCompare context reportId .annualReview documents generatedAt
        facts = .ok report) ↔
      (∃ categories, confirmedCategories facts = .ok categories) ∧
        ∀ fact ∈ facts, fact.status = .confirmed → fact.evidenceIds ≠ [] := by
  unfold buildReport
  cases hcategories : confirmedCategories facts with
  | error message => simp [Bind.bind, Except.bind]
  | ok categories =>
    simp only [Bind.bind, Except.bind, generateReport_isOk_iff, List.mem_map,
      forall_exists_index, and_imp, forall_apply_eq_imp_iff₂, Except.ok.injEq, exists_eq',
      true_and]

theorem buildReport_lists
    (h : buildReport localeCompare context reportId .annualReview documents generatedAt facts =
      .ok report) :
    ∃ categories, confirmedCategories facts = .ok categories ∧
      report.missingCategories =
        some (allRecordCategories.filter (fun category => category ∉ categories)) ∧
      report.reviewFindings =
        some (reviewFindingsOf localeCompare generatedAt facts documents) := by
  unfold buildReport at h
  cases hcategories : confirmedCategories facts with
  | error message => simp [hcategories, Bind.bind, Except.bind] at h
  | ok categories =>
    simp only [hcategories, Bind.bind, Except.bind] at h
    have hlists := generateReport_lists h
    exact ⟨categories, rfl, hlists⟩

theorem mem_allRecordCategories (category : RecordCategory) :
    category ∈ allRecordCategories := by
  cases category <;> decide

theorem isStale_iff {fact : OpenedFact} :
    fact ∈ (confirmedFacts facts).filter (OpenedFact.isStale generatedAt) ↔
      fact ∈ facts ∧ ReviewDue generatedAt fact := by
  rw [List.mem_filter, confirmedFacts, List.mem_filter, beq_iff_eq, and_assoc, ReviewDue]
  refine and_congr_right (fun _ => and_congr_right (fun _ => ?_))
  rw [OpenedFact.isStale]
  cases fact.lastReviewedAt.or fact.confirmedAt with
  | none => simp
  | some reviewedAt => simp

theorem isExpiring_iff {document : ReportDocument} :
    document.isExpiring generatedAt = true ↔ ExpiresSoon generatedAt document := by
  rw [ReportDocument.isExpiring, ExpiresSoon]
  cases document.expiresAt with
  | none => simp
  | some expiresAt => simp

theorem contradictions_fieldKey :
    (reviewFindingsOf localeCompare generatedAt facts documents).contradictions.map
      Contradiction.fieldKey = differingFields localeCompare facts := by
  rw [reviewFindingsOf, contradictionsOf_eq, List.map_map]
  exact List.map_id _

/-- The findings are exact when the fields with more than one text are those contradicted. -/
theorem findings_exact {categories : List RecordCategory}
    (hcategories : confirmedCategories facts = .ok categories)
    (hcontradicted : ∀ fieldKey, TextsDiffer localeCompare facts fieldKey ↔
      Contradicted facts fieldKey) :
    FindingsExact generatedAt facts documents
      (allRecordCategories.filter (fun category => category ∉ categories))
      (reviewFindingsOf localeCompare generatedAt facts documents) where
  contradicted := by
    intro fieldKey
    rw [contradictions_fieldKey, mem_differingFields]
    exact hcontradicted fieldKey
  contradictedOnce := by
    rw [contradictions_fieldKey]
    exact differingFields_nodup
  factIds := by
    intro contradiction hmem factId
    rw [reviewFindingsOf, contradictionsOf_eq] at hmem
    obtain ⟨fieldKey, -, rfl⟩ := List.mem_map.mp hmem
    simp only [contradictionOf, List.mem_map, mem_factsOfField]
    constructor
    · rintro ⟨fact, ⟨hfact, hconfirmed, hkey⟩, hid⟩
      exact ⟨fact, hfact, hid, hconfirmed, hkey⟩
    · rintro ⟨fact, hfact, hid, hconfirmed, hkey⟩
      exact ⟨fact, ⟨hfact, hconfirmed, hkey⟩, hid⟩
  factIdsOnce := by
    intro hids contradiction hmem
    rw [reviewFindingsOf, contradictionsOf_eq] at hmem
    obtain ⟨fieldKey, -, rfl⟩ := List.mem_map.mp hmem
    have hsublist : (factsOfField facts fieldKey).Sublist facts :=
      List.filter_sublist.trans List.filter_sublist
    exact hids.sublist (hsublist.map _)
  missing := by
    intro category
    rw [List.mem_filter, decide_eq_true_eq, mem_confirmedCategories hcategories]
    exact and_iff_right (mem_allRecordCategories category)
  missingOnce := List.Nodup.filter _ (by decide)
  stale := by
    intro factId
    simp only [reviewFindingsOf, List.mem_map, isStale_iff]
    constructor
    · rintro ⟨fact, ⟨hfact, hdue⟩, hid⟩
      exact ⟨fact, hfact, hid, hdue⟩
    · rintro ⟨fact, hfact, hid, hdue⟩
      exact ⟨fact, ⟨hfact, hdue⟩, hid⟩
  staleOnce := by
    intro hids
    have hsublist :
        ((confirmedFacts facts).filter (OpenedFact.isStale generatedAt)).Sublist facts :=
      List.filter_sublist.trans List.filter_sublist
    exact hids.sublist (hsublist.map _)
  expiring := by
    intro documentId
    simp only [reviewFindingsOf, List.mem_map, List.mem_filter, isExpiring_iff]
    constructor
    · rintro ⟨document, ⟨hdocument, hsoon⟩, hid⟩
      exact ⟨document, hdocument, hid, hsoon⟩
    · rintro ⟨document, hdocument, hid, hsoon⟩
      exact ⟨document, ⟨hdocument, hsoon⟩, hid⟩
  expiringOnce := fun hids => hids.sublist (List.filter_sublist.map _)

/-- Inputs in another order give the same findings. -/
theorem sameFindings_of_perm (hfacts : others.Perm facts)
    (hdocuments : otherDocuments.Perm documents) :
    SameFindings (reviewFindingsOf localeCompare generatedAt others otherDocuments)
      (reviewFindingsOf localeCompare generatedAt facts documents) where
  stale := ((confirmedFacts_perm hfacts).filter _).map _
  expiring := (hdocuments.filter _).map _
  contradictions := by
    refine ⟨(differingFields localeCompare facts).map (contradictionOf others), ?_, ?_⟩
    · rw [reviewFindingsOf, contradictionsOf_eq]
      exact (differingFields_perm hfacts.symm).map _
    · rw [reviewFindingsOf, contradictionsOf_eq, List.forall₂_map_left_iff,
        List.forall₂_map_right_iff, List.forall₂_same]
      exact fun fieldKey _ => ⟨rfl, (factsOfField_perm hfacts fieldKey).map _⟩

/-- Inputs in another order give a report with the same lists. -/
theorem review_permuted
    (h : buildReport localeCompare context reportId .annualReview documents generatedAt facts =
      .ok report) (hfacts : others.Perm facts) (hdocuments : otherDocuments.Perm documents) :
    ∃ other, buildReport localeCompare context reportId .annualReview otherDocuments generatedAt
      others = .ok other ∧ SameLists other report := by
  obtain ⟨categories, hcategories, hmissing, hfindings⟩ := buildReport_lists h
  obtain ⟨-, hevidence⟩ := buildReport_eq_ok_iff.mp ⟨report, h⟩
  obtain ⟨found, hfound, hsame⟩ := confirmedCategories_perm hfacts.symm hcategories
  have hother : ∃ other, buildReport localeCompare context reportId .annualReview otherDocuments
      generatedAt others = .ok other :=
    buildReport_eq_ok_iff.mpr ⟨⟨found, hfound⟩, fun fact hfact =>
      hevidence fact (hfacts.mem_iff.mp hfact)⟩
  obtain ⟨other, hother⟩ := hother
  obtain ⟨found', hfound', hmissing', hfindings'⟩ := buildReport_lists hother
  obtain rfl := Except.ok.inj (hfound.symm.trans hfound')
  refine ⟨other, hother, ⟨_, _, hmissing', hmissing, ?_⟩, _, _, hfindings', hfindings, ?_⟩
  · have hcategory : (fun category => decide (category ∉ found)) =
        (fun category => decide (category ∉ categories)) := by
      funext category
      rw [decide_eq_decide, hsame.mem_iff]
    rw [hcategory]
  · exact sameFindings_of_perm hfacts hdocuments

/-- The findings of an annual review are exact just when equal values of a field list names that
`localeCompare` finds equal in the same order. -/
theorem annualReview_exact_iff (hnames : NamesOrdered (localeOrder localeCompare))
    (hjson : ∀ fact ∈ facts, fact.value.IsJson)
    (h : buildReport localeCompare context reportId .annualReview documents generatedAt facts =
      .ok report) :
    ReviewExact localeCompare context reportId documents generatedAt facts report ↔
      ∀ fieldKey, FieldAgrees facts fieldKey → FieldOrdered localeCompare facts fieldKey := by
  obtain ⟨categories, hcategories, hmissing, hfindings⟩ := buildReport_lists h
  constructor
  · intro hexact fieldKey
    obtain ⟨missing, findings, -, hlisted, hfound⟩ := hexact.exact
    obtain rfl := Option.some.inj (hfindings.symm.trans hlisted)
    have hcontradicted := hfound.contradicted fieldKey
    rw [contradictions_fieldKey, mem_differingFields] at hcontradicted
    exact (textsDiffer_iff_contradicted hnames hjson fieldKey).mp hcontradicted
  · intro hordered
    refine ⟨⟨_, _, hmissing, hfindings, findings_exact hcategories (fun fieldKey => ?_)⟩, ?_⟩
    · exact (textsDiffer_iff_contradicted hnames hjson fieldKey).mpr (hordered fieldKey)
    · exact fun others otherDocuments hfacts hdocuments => review_permuted h hfacts hdocuments

end Lists

/-- A confirmed fact of one field. -/
def reviewedFact (id : Identifier) (value : Json) : OpenedFact :=
  { exampleOpened value with
    id := id
    status := .confirmed
    evidenceIds := ["e1"]
    confirmedAt := some 0 }

/-- Two confirmed facts with one value, which lists both spellings of a name in either order. -/
def spelledFacts : List OpenedFact :=
  [reviewedFact "f1" (.obj [("\u00e9", .nat 1), ("e\u0301", .nat 2)]),
    reviewedFact "f2" (.obj [("e\u0301", .nat 2), ("\u00e9", .nat 1)])]

/-- The two facts are listed as a contradiction, though their values are equal. -/
theorem spelledFacts_contradiction :
    ∃ report, buildReport CanonicalValues.collating.localeCompare exampleMember "r1" .annualReview
        [] 0 spelledFacts = .ok report ∧
      ¬ReviewExact CanonicalValues.collating.localeCompare exampleMember "r1" [] 0 spelledFacts
        report := by
  obtain ⟨report, hreport⟩ : ∃ report, buildReport CanonicalValues.collating.localeCompare
      exampleMember "r1" .annualReview [] 0 spelledFacts = .ok report := ⟨_, rfl⟩
  refine ⟨report, hreport, fun hexact => ?_⟩
  obtain ⟨missing, findings, -, hlisted, hfound⟩ := hexact.exact
  obtain ⟨-, -, -, hfindings⟩ := buildReport_lists hreport
  obtain rfl := Option.some.inj (hfindings.symm.trans hlisted)
  have hcontradicted := hfound.contradicted "insurance.carrier"
  rw [contradictions_fieldKey, mem_differingFields] at hcontradicted
  have hdiffer : TextsDiffer CanonicalValues.collating.localeCompare spelledFacts
      "insurance.carrier" := by decide
  refine (hcontradicted.mp hdiffer).2 (fun fact hfact other hother => ?_)
  have hvalue : ∀ fact ∈ spelledFacts,
      fact.value = .obj [("\u00e9", .num (.ofNat 1)), ("e\u0301", .num (.ofNat 2))] ∨
        fact.value = .obj [("e\u0301", .num (.ofNat 2)), ("\u00e9", .num (.ofNat 1))] := by
    intro fact hfact
    rcases List.mem_pair.mp hfact with rfl | rfl
    · exact Or.inl rfl
    · exact Or.inr rfl
  rcases hvalue fact (mem_factsOfField.mp hfact).1 with hfirst | hfirst <;>
    rcases hvalue other (mem_factsOfField.mp hother).1 with hsecond | hsecond <;>
    rw [hfirst, hsecond, same_obj] <;>
    refine ⟨rfl, fun entry hentry => ?_⟩ <;>
    rcases List.mem_pair.mp hentry with rfl | rfl <;>
    exact ⟨_, rfl, rfl⟩

theorem annualReview_exact_iff_example :
    ∃ report, buildReport CanonicalValues.collating.localeCompare exampleMember "r1" .annualReview
        [] 0 [reviewedFact "f1" (.str "carrier")] = .ok report ∧
      (ReviewExact CanonicalValues.collating.localeCompare exampleMember "r1" [] 0
          [reviewedFact "f1" (.str "carrier")] report ↔
        ∀ fieldKey, FieldAgrees [reviewedFact "f1" (.str "carrier")] fieldKey →
          FieldOrdered CanonicalValues.collating.localeCompare
            [reviewedFact "f1" (.str "carrier")] fieldKey) := by
  refine ⟨_, rfl, annualReview_exact_iff CanonicalValues.collating_names ?_ rfl⟩
  intro fact hfact
  rw [List.mem_singleton.mp hfact]
  trivial

end LegacyVault
