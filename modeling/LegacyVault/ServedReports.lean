import LegacyVault.DocumentHistory
import LegacyVault.Library.RowInvariants
import LegacyVault.SealedFacts

/-!
# Reports as they are served

A report job reads the facts of a household at one moment, opens them, and
stores the report that it generates of them, sealed. Any number of executions
of a job may run at once, and the first to complete the record wins. Whatever
happens in between, the report that a member is served is one that was
generated of facts as they stood at one moment, with their supplied values.
-/

namespace LegacyVault

open JsonText RowTransaction RowTransaction.Program RowTransaction.Protocol Store

/-! ## Versions of keys -/

section Versions

variable {keyEncryptionKey : SymmetricKey} {hashtextextended : String → Int}

/-- A new key has the first version. -/
def FirstVersions : (t : KeyTable) → t.Key → Option t.Row → Option t.Row → Prop
  | .householdKeys, _, before, after => ∀ row : HouseholdKeyRow, after = some row →
      before = some row ∨ row.keyVersion = 1
  | _, _, _, _ => True

theorem firstVersions_refl (t : KeyTable) (k : t.Key) (row : Option t.Row) :
    FirstVersions t k row row := by
  cases t with
  | householdKeys => exact fun _ h => Or.inl h
  | _ => trivial

theorem firstVersions_trans (t : KeyTable) (k : t.Key) (first second third : Option t.Row)
    (h : FirstVersions t k first second) (h' : FirstVersions t k second third) :
    FirstVersions t k first third := by
  cases t with
  | householdKeys =>
    intro row hrow
    rcases h' row hrow with hsecond | hversion
    · exact h row hsecond
    · exact Or.inr hversion
  | _ => trivial

theorem insertKey_firstVersions {row : HouseholdKeyRow} (h : row.keyVersion = 1) :
    (insertKey row).Writes (S := keySchema) FirstVersions := by
  have hrow : FirstVersions .householdKeys row.id none (some row) := by
    intro new hnew
    exact Or.inr (Option.some.inj hnew ▸ h)
  exact writes_bind (writes_insertRow hrow) (fun _ =>
    writes_bind (writes_insertRow trivial) (fun _ =>
      writes_bind (writes_insertRow trivial) (fun _ => writes_commit _)))

theorem openKey_firstVersions (context : TenantContext) (row : HouseholdKeyRow) :
    (openKey keyEncryptionKey context row).Writes (S := keySchema) FirstVersions := by
  unfold openKey
  split
  · exact writes_commit _
  · exact writes_rollback _

theorem keyProgram_firstVersions (step : KeyStep) :
    ((keyProtocol keyEncryptionKey hashtextextended).program step).Writes FirstVersions := by
  cases step with
  | createHousehold call =>
    exact writes_bind (insertKey_firstVersions rfl) (fun _ => writes_commit _)
  | getOrCreate call =>
    refine writes_bind ?_ (fun _ => writes_commit _)
    refine writes_bind (writes_select _) (fun existing => ?_)
    cases existing with
    | some row => exact openKey_firstVersions _ _
    | none =>
      refine writes_bind (writes_putRow (fun _ _ _ => trivial)) (fun _ => ?_)
      refine writes_bind (writes_select _) (fun afterLock => ?_)
      cases afterLock with
      | some row => exact openKey_firstVersions _ _
      | none => exact writes_bind (insertKey_firstVersions rfl) (fun _ => writes_commit _)

/-- Every key that is returned has the first version. -/
theorem returned_version {init : KeyRows} (hnoKeys : NoKeys init)
    {store : (keyProtocol keyEncryptionKey hashtextextended).System}
    (hstore : Reachable init store) {organizationId householdId : Identifier}
    {key : ActiveHouseholdKey} (hkey : ReturnedTo store.log organizationId householdId key) :
    key.keyVersion = 1 := by
  obtain ⟨call, hmem, -, -⟩ := hkey
  obtain ⟨k, row, hrow⟩ := ((keyState_invariant hnoKeys).reachable hstore).returned call key hmem
  have hrows := Reachable.rowsBecome firstVersions_refl firstVersions_trans
    keyProgram_firstVersions hstore .householdKeys k row hrow.stored
  rcases hrows with hinit | hversion
  · exact absurd ((hnoKeys k).symm.trans hinit) (by simp)
  · exact hrow.version.symm.trans hversion

end Versions

/-! ## Where reports come from -/

section Reports

variable {keyEncryptionKey : SymmetricKey} {hashtextextended : String → Int}
  {keys : KeyLog keyEncryptionKey hashtextextended} {sha256 : Sha256}
  {localeCompare : String → String → Int} {init : Vault}

/-- What never changes of a report. A completed report does not change at all. -/
structure ReportRow.SameReport (before after : ReportRow) : Prop where
  id : after.id = before.id
  organization : after.organizationId = before.organizationId
  household : after.householdId = before.householdId
  kind : after.kind = before.kind
  completed : before.status = .completed → after = before

theorem ReportRow.SameReport.refl (record : ReportRow) : record.SameReport record :=
  ⟨rfl, rfl, rfl, rfl, fun _ => rfl⟩

theorem ReportRow.SameReport.trans {first second third : ReportRow} (h : first.SameReport second)
    (h' : second.SameReport third) : first.SameReport third where
  id := h'.id.trans h.id
  organization := h'.organization.trans h.organization
  household := h'.household.trans h.household
  kind := h'.kind.trans h.kind
  completed := by
    intro hcompleted
    have hsecond := h.completed hcompleted
    exact (h'.completed (hsecond ▸ hcompleted)).trans hsecond

theorem completedReport_same {context : TenantContext} {workflowId : Identifier}
    {generatedAt : Instant} {payload : Sealed} {keyVersion : Nat} {before after : ReportRow}
    (h : completedReport context workflowId generatedAt payload keyVersion before = some after) :
    before.SameReport after := by
  rw [completedReport] at h
  split at h
  · rename_i hpending
    obtain rfl := Option.some.inj h
    refine ⟨rfl, rfl, rfl, rfl, fun hcompleted => ?_⟩
    exact absurd (hpending.2.2.symm.trans hcompleted) (by decide)
  · exact absurd h (by simp)

theorem completedReport_completes {context : TenantContext} {workflowId : Identifier}
    {generatedAt : Instant} {payload : Sealed} {keyVersion : Nat} {before after : ReportRow}
    (h : completedReport context workflowId generatedAt payload keyVersion before = some after) :
    after.generatedAt = generatedAt ∧ context.sees after = true := by
  rw [completedReport] at h
  split at h
  · rename_i hpending
    obtain rfl := Option.some.inj h
    exact ⟨rfl, hpending.1⟩
  · exact absurd h (by simp)

/-- The execution of a job that completed a report. -/
structure GeneratedBy (localeCompare : String → String → Int) (log : List RecordsEntry)
    (record : ReportRow) (execution : ReportExecution) (input : ReportCompletion)
    (before : ReportRow) : Prop where
  stored : ∃ answer, ⟨.completeReport execution, .committed answer⟩ ∈ log
  completion : execution.completion localeCompare = .ok input
  reportId : input.reportId = record.id
  completes : completedReport execution.context input.workflowId input.generatedAt
    input.payloadEncrypted input.encryptionKeyVersion before = some record

/-- Reports are stored under their ids, and completed ones come from executions of their jobs. -/
structure ReportsGenerated (localeCompare : String → String → Int) (log : List RecordsEntry)
    (σ : Vault) : Prop where
  ids : ∀ k (record : ReportRow), σ.get .reports k = some record → record.id = k
  completed : ∀ k (record : ReportRow), σ.get .reports k = some record →
    record.status = .completed → ∃ execution input before,
      GeneratedBy localeCompare log record execution input before

/-- What a call does to reports: nothing, an insert, or a completion. -/
inductive ReportChange (localeCompare : String → String → Int) (σ σ' : Vault) :
    RecordsCall → Prop
  | same {call : RecordsCall} (hrows : SameRows (S := vaultSchema) .reports σ σ') :
      ReportChange localeCompare σ σ' call
  | started {context : TenantContext} {key : String} {kind : ReportKind}
      {generated : ReportGenerated} (hnew : σ.get .reports generated.reportId = none)
      (hreports : Replaces (S := vaultSchema) .reports generated.reportId
        (some (startedReport context kind generated)) σ σ') :
      ReportChange localeCompare σ σ' (.startReport context key kind generated)
  | completed {execution : ReportExecution} {input : ReportCompletion}
      (hcompletion : execution.completion localeCompare = .ok input)
      (hreports : Updates .reports input.reportId (completedReport execution.context
        input.workflowId input.generatedAt input.payloadEncrypted input.encryptionKeyVersion) σ σ') :
      ReportChange localeCompare σ σ' (.completeReport execution)

section Steps

variable {σ σ' : Vault} {call : RecordsCall} {seen : Vault → Prop} {ws : List (Write vaultSchema)}

/-- A completion that succeeds has updated the report, or has found it completed. -/
theorem executes_completeReport {context : TenantContext} {input : ReportCompletion} {a : Unit}
    (h : (completeReport context input).Executes seen σ [] (.ok a) ws) :
    SameRows (S := vaultSchema) .reports σ (σ.overlay ws) ∨
      Updates .reports input.reportId (completedReport context input.workflowId input.generatedAt
        input.payloadEncrypted input.encryptionKeyVersion) σ (σ.overlay ws) := by
  have hfinish : (finishReportWorkflow context input.workflowId).Leaves VaultTable.reports :=
    writes_bind (writes_updateRow (fun _ _ _ => by decide)) (fun _ => writes_commit _)
  obtain ⟨updated, ws₁, hupdate, hrest⟩ := executes_bind_ok.mp h
  cases updated with
  | some record =>
    have hreports := Updates.of_executes (SameRows.refl (S := vaultSchema) _ _) hupdate
    exact Or.inr (hreports.then_same (hfinish.sameRows hrest))
  | none =>
    rcases executes_updateRow.mp hupdate with ⟨before, after, -, -, hsome, -⟩ |
      ⟨σ₀, -, -, -, hnone⟩
    · exact absurd hsome (by simp)
    · rw [hnone] at hrest
      obtain ⟨existing, ws₂, hexisting, hend⟩ := executes_bind_ok.mp hrest
      have hread : SameRows (S := vaultSchema) .reports σ (σ.overlay ws₂) :=
        Leaves.sameRows (t := VaultTable.reports) (writes_select _) hexisting
      cases existing with
      | some _ => exact Or.inl (hread.trans (hfinish.sameRows hend))
      | none => exact absurd hend.1 (by simp)

theorem factProgram_leaves_reports (factCall : FactCall) :
    (onFacts sha256 factCall).Leaves VaultTable.reports := by
  refine writes_bind ?_ (fun _ => writes_commit _)
  cases factCall with
  | create context input =>
    exact writes_bind (createCandidateFact_leaves (by decide) _ _) (fun _ => writes_commit _)
  | extract call =>
    exact writes_bind (withTenantRecord_leaves (by decide) (manualExtractionMutation_leaves
      (by decide) (by decide) (by decide) _ _ _)) (fun _ => writes_commit _)
  | confirm context factId expectedVersion confirmedAt =>
    refine writes_bind ?_ (fun _ => writes_bind (confirmFact_leaves (by decide) _ _ _ _)
      (fun _ => writes_commit _))
    unfold bindUuid
    split
    · exact writes_rollback _
    · exact writes_commit _
  | reject context factId expectedVersion =>
    exact writes_bind (rejectFact_leaves (by decide) _ _ _) (fun _ => writes_commit _)
  | dispute context factId expectedVersion =>
    exact writes_bind (disputeFact_leaves (by decide) _ _ _) (fun _ => writes_commit _)

/-- Every committed call makes its change. -/
theorem recordsProgram_reports {answer : RecordsResult}
    (h : (recordsProgram sha256 localeCompare call).Executes seen σ [] (.ok answer) ws) :
    ReportChange localeCompare σ (σ.overlay ws) call := by
  have hleaves : ∀ {p : Transaction RecordsResult}, p.Leaves VaultTable.reports →
      p.Executes seen σ [] (.ok answer) ws → ReportChange localeCompare σ (σ.overlay ws) call :=
    fun hp hexec => .same (hp.sameRows hexec)
  cases call with
  | createFact | extract | confirm | reject | dispute =>
    exact hleaves (factProgram_leaves_reports _) h
  | startReport context key kind generated =>
    obtain ⟨⟨report, workflow⟩, ws₁, hstart, -, rfl⟩ := executes_bind_ok.mp h
    obtain ⟨inserted, ws₂, hinsert, hrest⟩ := executes_bind_ok.mp hstart
    obtain ⟨hnew, -, rfl⟩ := executes_insertRow_ok hinsert
    refine .started hnew ((replaces_write σ).then_same (Leaves.sameRows ?_ hrest))
    exact writes_bind (writes_requireUnique _ _) (fun _ =>
      writes_bind (writes_insertRow (by decide)) (fun _ => writes_commit _))
  | readBuild context workflowId =>
    exact hleaves (writes_bind (getReportBuildInput_leaves _ _ _) (fun _ => writes_commit _)) h
  | completeReport execution =>
    rw [recordsProgram] at h
    cases hcompletion : execution.completion localeCompare with
    | error message =>
      rw [hcompletion] at h
      exact absurd h.1 (by simp)
    | ok input =>
      rw [hcompletion] at h
      obtain ⟨_, ws₁, hcomplete, -, rfl⟩ := executes_bind_ok.mp h
      rcases executes_completeReport hcomplete with hsame | hupdates
      · exact .same hsame
      · exact .completed hcompletion hupdates
  | other outside => exact hleaves (writes_bind outside.reports (fun _ => writes_commit _)) h

theorem ReportChange.keeps (h : ReportChange localeCompare σ σ' call) :
    Keeps (S := vaultSchema) .reports ReportRow.SameReport σ σ' := by
  cases h with
  | same hrows => exact hrows.keeps .refl
  | started hnew hreports =>
    refine hreports.keeps .refl (fun before hbefore => ?_)
    exact absurd (hnew.symm.trans hbefore) (by simp)
  | completed hcompletion hreports =>
    exact Updates.keeps .refl (fun _ _ => completedReport_same) hreports

theorem ReportsGenerated.later {log log' : List RecordsEntry}
    (h : ReportsGenerated localeCompare log σ) (hlog : ∀ entry ∈ log, entry ∈ log') :
    ReportsGenerated localeCompare log' σ := by
  refine ⟨h.ids, fun k record hrecord hcompleted => ?_⟩
  obtain ⟨execution, input, before, hgenerated⟩ := h.completed k record hrecord hcompleted
  obtain ⟨answer, hmem⟩ := hgenerated.stored
  exact ⟨execution, input, before, { hgenerated with stored := ⟨answer, hlog _ hmem⟩ }⟩

theorem ReportsGenerated.step {log : List RecordsEntry} (h : ReportsGenerated localeCompare log σ)
    {answer : RecordsResult} (hchange : ReportChange localeCompare σ σ' call) :
    ReportsGenerated localeCompare (⟨call, .committed answer⟩ :: log) σ' := by
  have hlater : ReportsGenerated localeCompare (⟨call, .committed answer⟩ :: log) σ :=
    h.later (fun _ => List.mem_cons_of_mem _)
  cases hchange with
  | same hrows =>
    exact ⟨fun k record hrecord => h.ids k record ((hrows k).symm.trans hrecord),
      fun k record hrecord => hlater.completed k record ((hrows k).symm.trans hrecord)⟩
  | started hnew hreports =>
    constructor
    · intro k record hrecord
      rcases hreports.get_cases k with ⟨rfl, hafter⟩ | ⟨-, hsame⟩
      · obtain rfl := Option.some.inj (hafter.symm.trans hrecord)
        rfl
      · exact h.ids k record (hsame.symm.trans hrecord)
    · intro k record hrecord hcompleted
      rcases hreports.get_cases k with ⟨rfl, hafter⟩ | ⟨-, hsame⟩
      · obtain rfl := Option.some.inj (hafter.symm.trans hrecord)
        exact absurd hcompleted ReportStatus.noConfusion
      · exact hlater.completed k record (hsame.symm.trans hrecord) hcompleted
  | completed hcompletion hreports =>
    obtain ⟨before, after, hbefore, hcompletes, hreplaces⟩ := hreports
    have hid := (completedReport_same hcompletes).id.trans (h.ids _ before hbefore)
    constructor
    · intro k record hrecord
      rcases hreplaces.get_cases k with ⟨rfl, hafter⟩ | ⟨-, hsame⟩
      · obtain rfl := Option.some.inj (hafter.symm.trans hrecord)
        exact hid
      · exact h.ids k record (hsame.symm.trans hrecord)
    · intro k record hrecord hcompleted
      rcases hreplaces.get_cases k with ⟨rfl, hafter⟩ | ⟨-, hsame⟩
      · obtain rfl := Option.some.inj (hafter.symm.trans hrecord)
        exact ⟨_, _, before, ⟨answer, List.mem_cons_self⟩, hcompletion, hid.symm, hcompletes⟩
      · exact hlater.completed k record (hsame.symm.trans hrecord) hcompleted

end Steps

/-- There are no reports. -/
def NoReports (init : Vault) : Prop := ∀ k, init.get .reports k = none

/-- Completed reports come from executions of their jobs, in every interleaving. -/
theorem reportsGenerated_invariant (hinit : NoReports init) :
    (recordsProtocol keys sha256 localeCompare).Invariant init (ReportsGenerated localeCompare)
      (Keeps (S := vaultSchema) .reports ReportRow.SameReport) where
  refl := fun σ => (SameRows.refl (S := vaultSchema) _ σ).keeps .refl
  trans := Keeps.trans (fun _ _ _ => .trans)
  start := ⟨fun k _ h => absurd ((hinit k).symm.trans h) (by simp),
    fun k _ h => absurd ((hinit k).symm.trans h) (by simp)⟩
  commit := by
    intro log begun seen σ call answer ws h _ _ _ _ hexec
    have hchange := recordsProgram_reports hexec
    exact ⟨h.step hchange, hchange.keeps⟩
  rollback := by
    intro log begun seen σ call error ws h _ _ _ _ _
    exact h.later (fun _ => List.mem_cons_of_mem _)
  abort := by
    intro log begun σ call h _ _
    exact h.later (fun _ => List.mem_cons_of_mem _)

/-! ## What an execution has read -/

/-- What the handler completes a report with. -/
theorem ReportExecution.completion_ok {execution : ReportExecution} {input : ReportCompletion}
    (h : execution.completion localeCompare = .ok input) :
    ∃ facts report,
      openFacts execution.context execution.householdKey.plaintextKey execution.build.facts =
        .ok facts ∧
      buildReport localeCompare execution.context execution.build.reportId execution.build.kind
        execution.build.documents execution.generatedAt facts = .ok report ∧
      input = ⟨execution.build.reportId, execution.build.workflowId, execution.generatedAt,
        report.payload execution.context execution.householdKey.plaintextKey
          execution.householdKey.keyVersion execution.iv, execution.householdKey.keyVersion⟩ := by
  rw [completion] at h
  cases hfacts : openFacts execution.context execution.householdKey.plaintextKey
    execution.build.facts with
  | error message =>
    rw [hfacts] at h
    exact absurd h (by simp [Bind.bind, Except.bind])
  | ok facts =>
    cases hreport : buildReport localeCompare execution.context execution.build.reportId
      execution.build.kind execution.build.documents execution.generatedAt facts with
    | error message =>
      simp only [hfacts, hreport, Bind.bind, Except.bind] at h
      exact absurd h (by simp)
    | ok report =>
      simp only [hfacts, hreport, Bind.bind, Except.bind] at h
      exact ⟨facts, report, rfl, hreport, (Except.ok.inj h).symm⟩

/-- A report names what it was built for, and has its provenance. -/
theorem buildReport_binds {context : TenantContext} {reportId : Identifier} {kind : ReportKind}
    {documents : List ReportDocument} {generatedAt : Instant} {facts : List OpenedFact}
    {report : Report}
    (h : buildReport localeCompare context reportId kind documents generatedAt facts = .ok report) :
    report.id = reportId ∧ report.organizationId = context.organizationId ∧
      report.householdId = context.householdId ∧ report.kind = kind ∧
      assertReportProvenance report.claims (report.sourceFactVersions.map Prod.fst) = .ok () := by
  unfold buildReport at h
  cases hcategories : confirmedCategories facts with
  | error message =>
    simp only [hcategories, Bind.bind, Except.bind] at h
    exact absurd h (by simp)
  | ok confirmed =>
    simp only [hcategories, Bind.bind, Except.bind] at h
    obtain ⟨hid, horganization, hhousehold, hkind, -, -, hprovenance⟩ := generateReport_ok h
    exact ⟨hid, horganization, hhousehold, hkind, hprovenance⟩

theorem reportOfWorkflow_some {context : TenantContext} {workflowId : Identifier} {σ : Vault}
    {report : ReportRow} (h : reportOfWorkflow context workflowId σ = some report) :
    ∃ reportId, σ.get .reports reportId = some report := by
  obtain ⟨workflow, -, hreport⟩ := Option.bind_eq_some_iff.mp h
  obtain ⟨reportId, -, hfound⟩ := Option.bind_eq_some_iff.mp hreport
  exact ⟨reportId, (Option.filter_eq_some_iff.mp hfound).1⟩

/-- What a job reads are the report, the facts and the documents of stores it has seen. -/
theorem executes_getReportBuildInput {seen : Vault → Prop} {σ : Vault} {context : TenantContext}
    {workflowId : Identifier} {build : ReportBuildInput} {ws : List (Write vaultSchema)}
    (h : (getReportBuildInput context workflowId).Executes seen σ [] (.ok build) ws) :
    ∃ σ₀ σ₁ σ₂ report reportId, seen σ₀ ∧ seen σ₁ ∧ seen σ₂ ∧
      σ₀.get .reports reportId = some report ∧ report.id = build.reportId ∧
      report.kind = build.kind ∧ build.facts = reportFacts context σ₁ ∧
      build.documents = reportDocuments context σ₂ := by
  obtain ⟨found, ws₁, ⟨σ₀, hseen₀, hfound, rfl⟩, hrest⟩ := executes_bind_ok.mp h
  rw [Store.overlay_nil] at hfound
  obtain rfl := Except.ok.inj hfound
  cases hreport : reportOfWorkflow context workflowId σ₀ with
  | none =>
    rw [hreport] at hrest
    exact absurd hrest.1 (by simp)
  | some report =>
    rw [hreport] at hrest
    obtain ⟨facts, ws₂, ⟨σ₁, hseen₁, hfacts, rfl⟩, hrest⟩ := executes_bind_ok.mp hrest
    obtain ⟨documents, ws₃, ⟨σ₂, hseen₂, hdocuments, rfl⟩, hend⟩ := executes_bind_ok.mp hrest
    rw [Store.overlay_nil] at hfacts hdocuments
    obtain rfl := Except.ok.inj hfacts
    obtain rfl := Except.ok.inj hdocuments
    obtain rfl := Except.ok.inj hend.1
    obtain ⟨reportId, hstored⟩ := reportOfWorkflow_some hreport
    exact ⟨σ₀, σ₁, σ₂, report, reportId, hseen₀, hseen₁, hseen₂, hstored, rfl, rfl, rfl, rfl⟩

/-! ## Reports as they are read back -/

section Served

variable {storeInit : KeyRows} {store : (keyProtocol keyEncryptionKey hashtextextended).System}
  {s : (recordsProtocol store.log sha256 localeCompare).System} {context : TenantContext}
  {key : ActiveHouseholdKey}

/-- The text is a report of the record, of facts and documents as they were committed at some
moments before, with the values that were supplied for the facts. -/
def ReportOfCommitted (init : Vault) (s : (recordsProtocol store.log sha256 localeCompare).System)
    (context : TenantContext) (record : ReportRow) (answer : Json) : Prop :=
  ∃ (σ₁ σ₂ : Vault) (value : FactRow → Json) (report : Report),
    CommittedBefore init s σ₁ ∧ CommittedBefore init s σ₂ ∧
    (∀ fact ∈ reportFacts context σ₁, FactGiven s.log fact (value fact)) ∧
    buildReport localeCompare context record.id record.kind (reportDocuments context σ₂)
      record.generatedAt ((reportFacts context σ₁).map (fun fact =>
        fact.opened context (value fact))) = .ok report ∧
    answer = canonicalize id report.toJson

/-- Facts of a committed store open to what was supplied. -/
theorem openFacts_committed (hnoKeys : NoKeys storeInit) (hstore : Reachable storeInit store)
    (hinit : NoFacts init) (h : Reachable init s)
    (hkey : ReturnedTo store.log context.organizationId context.householdId key) {σ₀ : Vault}
    (hbefore : CommittedBefore init s σ₀) :
    openFacts context key.plaintextKey (reportFacts context σ₀) =
        .ok ((reportFacts context σ₀).map (fun fact =>
          fact.opened context (openedValue context key fact))) ∧
      ∀ fact ∈ reportFacts context σ₀, FactGiven s.log fact (openedValue context key fact) := by
  have hopens : ∀ fact ∈ reportFacts context σ₀,
      openFactValue context key.plaintextKey fact = .ok (openedValue context key fact) ∧
        FactGiven s.log fact (openedValue context key fact) := by
    intro fact hmem
    obtain ⟨⟨k, hfact⟩, hsees, -⟩ := mem_reportFacts.mp hmem
    exact openedValue_given hnoKeys hstore hinit h hkey hbefore hfact hsees
  refine ⟨mapM_ok (fun fact hmem => ?_), fun fact hmem => (hopens fact hmem).2⟩
  rw [(hopens fact hmem).1]
  rfl

/-- A report that a job has completed opens to the report that the job generated. -/
theorem generated_opens (hnoKeys : NoKeys storeInit) (hstore : Reachable storeInit store)
    (hnoFacts : NoFacts init) (hnoReports : NoReports init) (h : Reachable init s)
    {execution : ReportExecution} {input : ReportCompletion} {before record : ReportRow}
    (hgenerated : GeneratedBy localeCompare s.log record execution input before)
    (hrecord : s.committed.get .reports record.id = some record) :
    ∃ answer, openReport execution.context execution.householdKey.plaintextKey record =
      .ok answer ∧ ReportOfCommitted init s execution.context record answer := by
  obtain ⟨answer, hmem⟩ := hgenerated.stored
  obtain ⟨begun, ⟨hkey, -, hbuild⟩, hbegun⟩ := h.entry_permitted hmem
  obtain ⟨seen, σ, ws, hseen, hread⟩ := h.entry_executes (hbegun.subset hbuild)
  obtain ⟨build, ws', hinput, hend⟩ := executes_bind_ok.mp hread
  obtain rfl := RecordsResult.build.inj (Except.ok.inj hend.1)
  obtain ⟨σ₀, σ₁, σ₂, report₀, reportId, hseen₀, hseen₁, hseen₂, hreport₀, hid, hkind, hfacts,
    hdocuments⟩ := executes_getReportBuildInput hinput
  obtain ⟨facts, report, hopened, hreport, rfl⟩ := ReportExecution.completion_ok hgenerated.completion
  have hreportId : execution.build.reportId = record.id := hgenerated.reportId
  -- the record has the kind that the job has read
  have hrecordKind : record.kind = execution.build.kind := by
    obtain ⟨s₀, hs₀, hlater, rfl⟩ := hseen σ₀ hseen₀
    have hstored := ((reportsGenerated_invariant hnoReports).reachable hs₀).ids _ _ hreport₀
    obtain ⟨now, hnow, hsame⟩ :=
      (reportsGenerated_invariant hnoReports).later hs₀ hlater _ _ hreport₀
    rw [← hstored, hid, hreportId] at hnow
    obtain rfl := Option.some.inj (hnow.symm.trans hrecord)
    exact hsame.kind.trans hkind
  rw [hfacts] at hopened
  obtain ⟨hvalues, hgiven⟩ :=
    openFacts_committed hnoKeys hstore hnoFacts h hkey (hseen σ₁ hseen₁)
  obtain rfl := Except.ok.inj (hvalues.symm.trans hopened)
  obtain ⟨hreportOf, horganization, hhousehold, hreportKind, hprovenance⟩ := buildReport_binds hreport
  have hsame := completedReport_same hgenerated.completes
  have hversion : execution.householdKey.keyVersion ≠ 0 := by
    rw [returned_version hnoKeys hstore hkey]
    exact Nat.one_ne_zero
  refine ⟨canonicalize id report.toJson, ?_, σ₁, σ₂, openedValue execution.context
    execution.householdKey, report, hseen σ₁ hseen₁, hseen σ₂ hseen₂, hgiven, ?_, rfl⟩
  · rw [openReport_payload (hreportOf.trans (hreportId.trans hsame.id)) horganization hhousehold
      (hreportKind.trans (hrecordKind.symm.trans hsame.kind)) hversion hgenerated.completes,
      hprovenance]
    rfl
  · rw [← hreportId, hrecordKind, ← hdocuments, (completedReport_completes hgenerated.completes).1]
    exact hreport

/-- A report is of its household, whoever reads it. -/
theorem ReportOfCommitted.tenant {other : TenantContext} {record : ReportRow} {answer : Json}
    (h : ReportOfCommitted init s other record answer)
    (horganization : other.organizationId = context.organizationId)
    (hhousehold : other.householdId = context.householdId) :
    ReportOfCommitted init s context record answer := by
  cases context
  cases other
  simp only at horganization hhousehold
  subst horganization hhousehold
  exact h

theorem openReport_tenant {other : TenantContext} {householdKey : SymmetricKey} (record : ReportRow)
    (horganization : other.organizationId = context.organizationId)
    (hhousehold : other.householdId = context.householdId) :
    openReport other householdKey record = openReport context householdKey record := by
  cases context
  cases other
  simp only at horganization hhousehold
  subst horganization hhousehold
  rfl

end Served

end Reports

/-! ## A run -/

/-- An execution of a report job. -/
def exampleExecution : ReportExecution where
  context := ⟨"o1", "h1", "report-worker"⟩
  workflowId := "w1"
  build :=
    { reportId := "r1"
      workflowId := "w1"
      kind := .lifeInventory
      status := .pending
      facts := [(exampleSupplied.write exampleMember exampleSealing).row exampleMember]
      documents := [] }
  householdKey := ⟨1, "household-key"⟩
  generatedAt := 20
  iv := 1

/-- The fact as the job opens it. -/
def suppliedOpened : OpenedFact :=
  ((exampleSupplied.write exampleMember exampleSealing).row exampleMember).opened
    exampleExecution.context (.str "First Bank")

/-- The job opens the fact and generates a report. -/
theorem exampleExecution_completes :
    ∃ payload, exampleExecution.completion codePointCompare =
      .ok ⟨"r1", "w1", 20, payload, 1⟩ := by
  have hopened : openFactValue exampleExecution.context "household-key"
      ((exampleSupplied.write exampleMember exampleSealing).row exampleMember) =
      .ok (.str "First Bank") := openFactValue_sealed rfl
  have hfacts : openFacts exampleExecution.context exampleExecution.householdKey.plaintextKey
      exampleExecution.build.facts = .ok [suppliedOpened] := by
    change [(exampleSupplied.write exampleMember exampleSealing).row exampleMember].mapM
      (fun fact => (openFactValue exampleExecution.context "household-key" fact).map
        (fact.opened exampleExecution.context)) = _
    rw [List.mapM_cons, hopened]
    rfl
  have hreport : ∃ report, buildReport codePointCompare exampleExecution.context "r1"
      .lifeInventory [] 20 [suppliedOpened] = .ok report := ⟨_, rfl⟩
  obtain ⟨report, hreport⟩ := hreport
  refine ⟨report.payload exampleExecution.context "household-key" 1 1, ?_⟩
  simp only [ReportExecution.completion, hfacts, Bind.bind, Except.bind]
  rw [show buildReport codePointCompare exampleExecution.context exampleExecution.build.reportId
    exampleExecution.build.kind exampleExecution.build.documents exampleExecution.generatedAt
    [suppliedOpened] = .ok report from hreport]
  rfl

/-- A completion that runs alone stores the report. -/
theorem completeReport_alone {σ : Vault} {context : TenantContext} {input : ReportCompletion}
    {before after : ReportRow} (hbefore : σ.get .reports input.reportId = some before)
    (hchange : completedReport context input.workflowId input.generatedAt input.payloadEncrypted
      input.encryptionKeyVersion before = some after) :
    ((do completeReport context input; pure RecordsResult.done :
      Transaction RecordsResult).transact σ).2.get .reports input.reportId = some after := by
  have hfinish : ∀ σ' : Vault, ∃ σ'', (finishReportWorkflow context input.workflowId).run σ' =
      (.ok (), σ'') ∧ σ''.get .reports input.reportId = σ'.get .reports input.reportId := by
    intro σ'
    rw [finishReportWorkflow, run_bind, run_updateRow]
    refine ⟨_, rfl, ?_⟩
    cases (σ'.get .workflowRuns input.workflowId).bind (reportedWorkflow context) with
    | none => rfl
    | some workflow => exact get_set_of_table_ne σ' _ _ _ (by decide)
  obtain ⟨σ'', hrun, hreports⟩ := hfinish (σ.set .reports input.reportId (some after))
  have hcomplete : (completeReport context input).run σ = (.ok (), σ'') := by
    rw [completeReport, run_bind, run_updateRow, hbefore, Option.bind_some, hchange]
    exact hrun
  rw [transact, run_bind, hcomplete]
  exact hreports.trans (get_set_self σ _ _ _)

end LegacyVault
