import LegacyVault.FactLifecycle
import LegacyVault.Reports

/-!
# Reports of a household's facts

The confirmation of a manual fact asks for no evidence, but a report asks
for evidence of every confirmed fact. So a report can be generated, and its
stored payload opened, exactly when every confirmed manual fact of the
household lists some.
-/

namespace LegacyVault

open JsonText RowTransaction RowTransaction.Program RowTransaction.Protocol Store

section Reports

variable (context : TenantContext) (σ : Vault)

/-- The facts of a report, as `getReportBuildInput` selects them. -/
def reportFacts : List FactRow :=
  ((σ.rowsOf .facts).filter (fun fact : FactRow =>
    context.sees fact && fact.status != .rejected)).insertionSort (fun a b =>
      a.fieldKey < b.fieldKey ∨ a.fieldKey = b.fieldKey ∧ a.id ≤ b.id)

variable {context σ} in
theorem mem_reportFacts {fact : FactRow} : fact ∈ reportFacts context σ ↔
    (∃ k, σ.get .facts k = some fact) ∧ context.sees fact = true ∧ fact.status ≠ .rejected := by
  simp only [reportFacts, List.mem_insertionSort, List.mem_filter,
    mem_rowsOf (S := vaultSchema) (t := VaultTable.facts), Bool.and_eq_true, bne_iff_ne]

/-- What the handler passes to `generateReport`: the values it has opened, and what it has computed
from them. -/
structure ReportValues where
  value : FactRow → Json
  generatedAt : Instant
  missingCategories : Option (List RecordCategory)
  notices : Option (List String)
  reviewFindings : Option AnnualReviewFindings

/-- The input of `generateReport` for a record. -/
def reportInput (record : ReportRow) (values : ReportValues) : ReportInput where
  id := record.id
  organizationId := context.organizationId
  householdId := context.householdId
  kind := record.kind
  generatedAt := values.generatedAt
  facts := (reportFacts context σ).map (fun fact => fact.candidateFact (values.value fact))
  missingCategories := values.missingCategories
  notices := values.notices
  reviewFindings := values.reviewFindings

/-- The report of a record is generated, and opens once it is stored. Versions of household keys
are positive. -/
def ReportGenerates (record : ReportRow) : Prop :=
  ∀ values : ReportValues, ∃ report,
    generateReport (reportInput context σ record values) = .ok report ∧
    ∀ householdKey keyVersion iv workflowId stored, keyVersion ≠ 0 →
      completedReport context workflowId values.generatedAt
        (report.payload context householdKey keyVersion iv) keyVersion record = some stored →
      ∃ body, openReport context householdKey stored = .ok body

/-- Every confirmed manual fact of the household lists evidence. -/
def ManualFactsBacked : Prop :=
  ∀ k (fact : FactRow), σ.get .facts k = some fact → context.sees fact = true →
    fact.status = .confirmed → fact.sourceType = .manual → fact.evidenceIds ≠ []

end Reports

/-- In every reachable state a report of the household is generated and opens, whatever its kind, if
and only if every confirmed manual fact lists evidence. -/
theorem report_generates_iff (sha256 : Sha256) {init : Vault} (hinit : NoFacts init)
    {s : (factProtocol sha256).System} (h : Reachable init s) (context : TenantContext)
    (record : ReportRow) :
    ReportGenerates context s.committed record ↔ ManualFactsBacked context s.committed := by
  have hhistory := (factHistory_invariant sha256 hinit).reachable h
  constructor
  · intro hgenerates k fact hfact hsees hconfirmed _
    obtain ⟨report, hreport, -⟩ := hgenerates ⟨fun _ => .null, 0, none, none, none⟩
    have hlisted : fact ∈ reportFacts context s.committed :=
      mem_reportFacts.mpr ⟨⟨k, hfact⟩, hsees, by rw [hconfirmed]; exact FactStatus.noConfusion⟩
    exact generateReport_isOk_iff.mp ⟨report, hreport⟩ _ (List.mem_map_of_mem hlisted) hconfirmed
  · intro hbacked values
    have hevidence : ∀ fact ∈ (reportInput context s.committed record values).facts,
        fact.status = .confirmed → fact.evidenceIds ≠ [] := by
      intro candidate hmem hconfirmed
      obtain ⟨fact, hlisted, rfl⟩ := List.mem_map.mp hmem
      obtain ⟨⟨k, hfact⟩, hsees, -⟩ := mem_reportFacts.mp hlisted
      rcases (hhistory.consistent k fact hfact).backed hconfirmed with hmanual | hlists
      · exact hbacked k fact hfact hsees hconfirmed hmanual
      · exact hlists
    obtain ⟨report, hreport⟩ := generateReport_isOk_iff.mpr hevidence
    refine ⟨report, hreport, fun householdKey keyVersion iv workflowId stored hversion hstored => ?_⟩
    obtain ⟨hid, horganization, hhousehold, hkind, -, -, hprovenance⟩ := generateReport_ok hreport
    rw [openReport_payload hid horganization hhousehold hkind hversion hstored, hprovenance]
    exact ⟨_, rfl⟩

/-- A manual fact with evidence. -/
def exampleBacked : CandidateFactWrite := { exampleManual with evidenceIds := ["e1"] }

/-- A pending report. -/
def examplePendingReport : ReportRow :=
  startedReport exampleMember .lifeInventory ⟨"r1", "w1", 0⟩

theorem report_generates_iff_example :
    ∃ s : (factProtocol Sha256.transparent).System, Reachable Store.empty s ∧
      (reportFacts exampleMember s.committed).map FactRow.status = [.confirmed] ∧
      ReportGenerates exampleMember s.committed examplePendingReport := by
  have hpermitted : (factProtocol Sha256.transparent).Sequential [] Store.empty
      [.create exampleMember exampleBacked, .confirm exampleMember "f1" 1 10] :=
    ⟨trivial, trivial, trivial⟩
  obtain ⟨s, hs, -, hcommitted⟩ := reachable_sequential hpermitted
  have hrows : s.committed.rowsOf .facts = [{ exampleBacked.row exampleMember with
      status := .confirmed
      confirmedBy := some "p1"
      confirmedAt := some 10
      version := 2 }] := by
    rw [hcommitted]
    rfl
  have hbacked : ManualFactsBacked exampleMember s.committed := by
    intro k fact hfact _ _ _
    have hmem : fact ∈ s.committed.rowsOf .facts := mem_rowsOf.mpr ⟨k, hfact⟩
    rw [hrows] at hmem
    obtain rfl := List.mem_singleton.mp hmem
    simp [exampleBacked, CandidateFactWrite.row]
  refine ⟨s, hs, ?_, (report_generates_iff Sha256.transparent noFacts_empty hs exampleMember
    examplePendingReport).mpr hbacked⟩
  rw [reportFacts, hrows]
  rfl

/-- A confirmed manual fact without evidence, as the vault form creates it: no report of its
household can be generated. -/
theorem report_fails :
    ∃ s : (factProtocol Sha256.transparent).System, Reachable Store.empty s ∧
      (reportFacts exampleMember s.committed).map FactRow.evidenceIds = [[]] ∧
      (∀ values, generateReport (reportInput exampleMember s.committed examplePendingReport values) =
        .error "confirmed report claim requires evidence") ∧
      ¬ ReportGenerates exampleMember s.committed examplePendingReport := by
  have hpermitted : (factProtocol Sha256.transparent).Sequential [] Store.empty
      [.create exampleMember exampleManual, .confirm exampleMember "f1" 1 10] :=
    ⟨trivial, trivial, trivial⟩
  obtain ⟨s, hs, -, hcommitted⟩ := reachable_sequential hpermitted
  have hfacts : reportFacts exampleMember s.committed = [{ exampleManual.row exampleMember with
      status := .confirmed
      confirmedBy := some "p1"
      confirmedAt := some 10
      version := 2 }] := by
    rw [hcommitted]
    rfl
  have hfails : ∀ values, generateReport (reportInput exampleMember s.committed examplePendingReport
      values) = .error "confirmed report claim requires evidence" := by
    intro values
    rw [reportInput, hfacts]
    rfl
  refine ⟨s, hs, by rw [hfacts]; rfl, hfails, fun hgenerates => ?_⟩
  obtain ⟨report, hreport, -⟩ := hgenerates ⟨fun _ => .null, 0, none, none, none⟩
  rw [hfails] at hreport
  exact absurd hreport (by simp)

end LegacyVault
