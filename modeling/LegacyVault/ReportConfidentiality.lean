import LegacyVault.Library.EcmaValues
import LegacyVault.ReportableFacts

/-!
# What a report reveals

The report handler computes missing categories, notices and review findings
from the facts it has opened, and generates a report of all of them. Values
are read of confirmed facts only, so the report is a function of the facts
with every other value blanked out.

Times are those of the rows; the handler reads them back from their texts.
Values of one field are compared by their canonical texts, which depend on
the locale.
-/

namespace LegacyVault

open JsonText RowTransaction RowTransaction.Protocol Store

/-- A fact as the report handler has opened it. -/
structure OpenedFact extends CandidateFact where
  lastReviewedAt : Option Instant

/-- A document that a report is built with. -/
structure ReportDocument where
  id : Identifier
  expiresAt : Option Instant

/-! ## The handler -/

/-- The confirmed facts, in their order. -/
def confirmedFacts (facts : List OpenedFact) : List OpenedFact :=
  facts.filter (fun fact => fact.status == .confirmed)

/-- `recordCategoryFromFieldKey`, which throws for other prefixes. -/
def requireCategory (fieldKey : String) : Except String RecordCategory :=
  match recordCategoryFromFieldKey fieldKey with
  | some category => .ok category
  | none => .error "fact field key has no canonical category"

/-- The categories of confirmed facts. -/
def confirmedCategories (facts : List OpenedFact) : Except String (List RecordCategory) :=
  (confirmedFacts facts).mapM (fun fact => requireCategory fact.fieldKey)

/-- The notices of a report. -/
def reportNotices (facts : List OpenedFact) (missingCategories : List RecordCategory) :
    List String :=
  (if facts.any (fun fact => fact.status != .confirmed) then ["unconfirmed-information-present"]
    else []) ++
  (if 0 < missingCategories.length then ["missing-information-present"] else [])

/-- Add a fact to the group of its field, which is the last one when it is new. -/
def addToGroup (fact : OpenedFact) :
    List (String × List OpenedFact) → List (String × List OpenedFact)
  | [] => [(fact.fieldKey, [fact])]
  | (fieldKey, group) :: groups =>
    if fieldKey = fact.fieldKey then (fieldKey, group ++ [fact]) :: groups
    else (fieldKey, group) :: addToGroup fact groups

/-- Confirmed facts by field, fields in the order of their first fact. -/
def confirmedByField (facts : List OpenedFact) : List (String × List OpenedFact) :=
  (confirmedFacts facts).foldl (fun groups fact => addToGroup fact groups) []

/-- Names in the order of `localeCompare`. -/
def localeOrder (localeCompare : String → String → Int) (left right : String) : Bool :=
  localeCompare left right ≤ 0

/-- `canonicalReportValue` of a fact's value. -/
def OpenedFact.canonicalValue (localeCompare : String → String → Int) (fact : OpenedFact) :
    String :=
  stringify (EcmaValues.sortMembers (localeOrder localeCompare) fact.typedValue)

/-- Fields whose confirmed facts have different values. -/
def contradictionsOf (localeCompare : String → String → Int) (facts : List OpenedFact) :
    List Contradiction :=
  (confirmedByField facts).filterMap (fun (fieldKey, group) =>
    if 1 < ((group.map (OpenedFact.canonicalValue localeCompare)).eraseDups).length then
      some ⟨fieldKey, group.map (fun fact => fact.id)⟩
    else none)

/-- Milliseconds of a day. -/
def dayMs : Int := 86400000

/-- A fact was last reviewed a year ago, or never. -/
def OpenedFact.isStale (generatedAt : Instant) (fact : OpenedFact) : Bool :=
  match fact.lastReviewedAt.or fact.confirmedAt with
  | some reviewedAt => decide (reviewedAt ≤ generatedAt - 365 * dayMs)
  | none => true

/-- A document expires within ninety days. -/
def ReportDocument.isExpiring (generatedAt : Instant) (document : ReportDocument) : Bool :=
  document.expiresAt.any (fun expiresAt => decide (expiresAt ≤ generatedAt + 90 * dayMs))

/-- The findings of an annual review. -/
def reviewFindingsOf (localeCompare : String → String → Int) (generatedAt : Instant)
    (facts : List OpenedFact) (documents : List ReportDocument) : AnnualReviewFindings where
  staleFactIds :=
    ((confirmedFacts facts).filter (OpenedFact.isStale generatedAt)).map (fun fact => fact.id)
  expiringDocumentIds :=
    (documents.filter (ReportDocument.isExpiring generatedAt)).map ReportDocument.id
  contradictions := contradictionsOf localeCompare facts

/-- The report that the handler generates from what it has opened. -/
def buildReport (localeCompare : String → String → Int) (context : TenantContext)
    (reportId : Identifier) (kind : ReportKind) (documents : List ReportDocument)
    (generatedAt : Instant) (facts : List OpenedFact) : Except String Report := do
  let confirmed ← confirmedCategories facts
  let missingCategories := allRecordCategories.filter (fun category => category ∉ confirmed)
  generateReport {
    id := reportId
    organizationId := context.organizationId
    householdId := context.householdId
    kind := kind
    generatedAt := generatedAt
    facts := facts.map OpenedFact.toCandidateFact
    missingCategories := some missingCategories
    notices := some (reportNotices facts missingCategories)
    reviewFindings := if kind = .annualReview then
      some (reviewFindingsOf localeCompare generatedAt facts documents) else none }

/-! ## What the report depends on -/

/-- The fact, without its value unless it is confirmed. -/
def OpenedFact.redacted (fact : OpenedFact) : OpenedFact :=
  if fact.status = .confirmed then fact else { fact with typedValue := .null }

/-- Two facts differ at most in the value of a fact that is not confirmed. -/
structure OpenedFact.SameButUnconfirmed (fact other : OpenedFact) : Prop where
  columns : { fact with typedValue := other.typedValue } = other
  value : fact.status = .confirmed → fact.typedValue = other.typedValue

theorem OpenedFact.redacted_of_confirmed {fact : OpenedFact} (h : fact.status = .confirmed) :
    fact.redacted = fact := if_pos h

@[simp] theorem OpenedFact.redacted_status (fact : OpenedFact) :
    fact.redacted.status = fact.status := by
  unfold redacted
  split <;> rfl

theorem OpenedFact.SameButUnconfirmed.redacted {fact other : OpenedFact}
    (h : fact.SameButUnconfirmed other) : fact.redacted = other.redacted := by
  have hstatus : other.status = fact.status := by rw [← h.columns]
  by_cases hconfirmed : fact.status = .confirmed
  · have hsame : fact = other := by
      rw [← h.columns, ← h.value hconfirmed]
    rw [hsame]
  · have hother : ¬ other.status = .confirmed := hstatus ▸ hconfirmed
    rw [OpenedFact.redacted, OpenedFact.redacted, if_neg hconfirmed, if_neg hother, ← h.columns]

theorem map_redacted_eq {facts others : List OpenedFact}
    (h : List.Forall₂ OpenedFact.SameButUnconfirmed facts others) :
    facts.map OpenedFact.redacted = others.map OpenedFact.redacted := by
  induction h with
  | nil => rfl
  | cons hsame _ ih => rw [List.map_cons, List.map_cons, hsame.redacted, ih]

section Redaction

variable (facts : List OpenedFact)

/-- Confirmed facts keep their values. -/
theorem confirmedFacts_redacted :
    confirmedFacts (facts.map OpenedFact.redacted) = confirmedFacts facts := by
  induction facts with
  | nil => rfl
  | cons fact facts ih =>
    have htail : (facts.map OpenedFact.redacted).filter (fun fact => fact.status == .confirmed) =
        facts.filter (fun fact => fact.status == .confirmed) := ih
    by_cases hconfirmed : fact.status = .confirmed
    · simp [confirmedFacts, OpenedFact.redacted_of_confirmed hconfirmed, hconfirmed, htail]
    · simp [confirmedFacts, hconfirmed, htail]

theorem reportNotices_redacted (missingCategories : List RecordCategory) :
    reportNotices (facts.map OpenedFact.redacted) missingCategories =
      reportNotices facts missingCategories := by
  simp [reportNotices, Function.comp_def]

/-- A claim renders the value of a confirmed fact only. -/
theorem createReportClaims_redacted :
    createReportClaims ((facts.map OpenedFact.redacted).map OpenedFact.toCandidateFact) =
      createReportClaims (facts.map OpenedFact.toCandidateFact) := by
  simp only [createReportClaims, List.map_map]
  refine List.map_congr_left (fun fact _ => ?_)
  by_cases hconfirmed : fact.status = .confirmed
  · simp only [Function.comp_apply, OpenedFact.redacted_of_confirmed hconfirmed]
  · simp only [Function.comp_apply, OpenedFact.redacted, if_neg hconfirmed]

theorem sourceFactVersions_redacted :
    ((facts.map OpenedFact.redacted).map OpenedFact.toCandidateFact).map
        (fun fact => (fact.id, fact.version)) =
      (facts.map OpenedFact.toCandidateFact).map (fun fact => (fact.id, fact.version)) := by
  simp only [List.map_map]
  refine List.map_congr_left (fun fact _ => ?_)
  by_cases hconfirmed : fact.status = .confirmed
  · simp only [Function.comp_apply, OpenedFact.redacted_of_confirmed hconfirmed]
  · simp only [Function.comp_apply, OpenedFact.redacted, if_neg hconfirmed]

/-- A report of redacted facts is the report of the facts. -/
theorem buildReport_redacted (localeCompare : String → String → Int) (context : TenantContext)
    (reportId : Identifier) (kind : ReportKind) (documents : List ReportDocument)
    (generatedAt : Instant) :
    buildReport localeCompare context reportId kind documents generatedAt
        (facts.map OpenedFact.redacted) =
      buildReport localeCompare context reportId kind documents generatedAt facts := by
  simp only [buildReport, confirmedCategories, reviewFindingsOf, contradictionsOf,
    confirmedByField, confirmedFacts_redacted, reportNotices_redacted, generateReport,
    createReportClaims_redacted, sourceFactVersions_redacted]

end Redaction

/-! ## What the report says -/

/-- The claim is about the fact, and the report names the fact's version. -/
structure ClaimsFact (report : Report) (claim : ReportClaim) (fact : OpenedFact) : Prop where
  factId : claim.factId = fact.id
  confirmed : claim.status = .confirmed ↔ fact.status = .confirmed
  evidenceIds : claim.evidenceIds = fact.evidenceIds
  version : report.sourceFactVersions.lookup fact.id = some fact.version

theorem buildReport_ok {localeCompare : String → String → Int} {context : TenantContext}
    {reportId : Identifier} {kind : ReportKind} {documents : List ReportDocument}
    {generatedAt : Instant} {facts : List OpenedFact} {report : Report}
    (h : buildReport localeCompare context reportId kind documents generatedAt facts = .ok report) :
    report.claims = createReportClaims (facts.map OpenedFact.toCandidateFact) ∧
      report.sourceFactVersions = facts.map (fun fact => (fact.id, fact.version)) := by
  unfold buildReport at h
  cases hcategories : confirmedCategories facts with
  | error message => simp [hcategories, Bind.bind, Except.bind] at h
  | ok confirmed =>
    simp only [hcategories, Bind.bind, Except.bind] at h
    obtain ⟨-, -, -, -, hclaims, hversions, -⟩ := generateReport_ok h
    refine ⟨hclaims, hversions.trans ?_⟩
    rw [List.map_map]
    rfl

/-- A report makes one claim of every fact, in order. -/
theorem buildReport_claims {localeCompare : String → String → Int} {context : TenantContext}
    {reportId : Identifier} {kind : ReportKind} {documents : List ReportDocument}
    {generatedAt : Instant} {facts : List OpenedFact} {report : Report}
    (hdistinct : (facts.map (fun fact => fact.id)).Nodup)
    (h : buildReport localeCompare context reportId kind documents generatedAt facts = .ok report) :
    List.Forall₂ (ClaimsFact report) report.claims facts := by
  obtain ⟨hclaims, hversions⟩ := buildReport_ok h
  have hnames : (report.sourceFactVersions.map Prod.fst).Nodup := by
    rw [hversions, List.map_map]
    exact hdistinct
  rw [hclaims, createReportClaims, List.map_map, List.forall₂_map_left_iff,
    List.forall₂_same]
  intro fact hfact
  have hversion : (fact.id, fact.version) ∈ report.sourceFactVersions := by
    rw [hversions]
    exact List.mem_map_of_mem hfact
  exact ⟨rfl, FactStatus.claimStatus_eq_confirmed, rfl,
    (lookup_eq_some_iff_mem hnames).mpr hversion⟩

/-- Facts of a report are rows of their own. -/
theorem reportFacts_distinct (sha256 : Sha256) {init : Vault} (hinit : NoFacts init)
    {s : (factProtocol sha256).System} (h : Reachable init s) (context : TenantContext) :
    ((reportFacts context s.committed).map FactRow.id).Nodup := by
  have hids := ((factHistory_invariant sha256 hinit).reachable h).ids
  have hperm := List.perm_insertionSort
    (fun a b : FactRow => a.fieldKey < b.fieldKey ∨ a.fieldKey = b.fieldKey ∧ a.id ≤ b.id)
    ((s.committed.rowsOf .facts).filter (fun fact : FactRow =>
      context.sees fact && fact.status != .rejected))
  have hsublist := (List.filter_sublist (p := fun fact : FactRow =>
    context.sees fact && fact.status != .rejected) (l := s.committed.rowsOf .facts)).map FactRow.id
  have hrows : ((s.committed.rowsOf .facts).map FactRow.id).Nodup :=
    nodup_keys_rowsOf (S := vaultSchema) (t := .facts) hids
  exact (hperm.map FactRow.id).nodup_iff.mpr (hrows.sublist hsublist)

/-- A candidate with the given value. -/
def exampleOpened (value : Json) : OpenedFact where
  id := "f1"
  organizationId := "o1"
  householdId := "h1"
  fieldKey := "insurance.carrier"
  typedValue := value
  status := .candidate
  sourceType := .manual
  sourceId := "s1"
  evidenceIds := []
  confidence := none
  sensitivity := .standard
  confirmedBy := none
  confirmedAt := none
  version := 1
  lastReviewedAt := none

/-- Names in the order of their code points. -/
def codePointCompare (left right : String) : Int :=
  if left < right then -1 else if right < left then 1 else 0

end LegacyVault
