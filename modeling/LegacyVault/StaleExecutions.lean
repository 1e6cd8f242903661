import LegacyVault.DocumentPipeline

/-!
# Stale executions

The document handlers beside the handler of persisted workflows, any number
of executions of each. A completion tests the version its execution has read;
the record of a failure does not. So an execution whose workflow has moved on
disturbs it when it fails, unless the document is no longer quarantined and
the workflow is completed.

What a step of a persisted workflow does besides its record is not modelled.
-/

namespace LegacyVault

open JsonText RowTransaction RowTransaction.Program RowTransaction.Protocol Store

/-! ## Persisted workflows -/

/-- An execution of the handler of a persisted workflow. -/
structure PersistedRun where
  context : TenantContext
  workflowId : Identifier
  /-- The names of its steps, in order. -/
  steps : List String

/-- The first of the steps that is not completed, and the one that follows it. -/
def pendingStep (completedSteps : List String) : List String → Option (String × Option String)
  | [] => none
  | step :: rest =>
    if step ∈ completedSteps then pendingStep completedSteps rest else some (step, rest.head?)

/-- One transaction of a handler. -/
inductive HandlerStep where
  | document (step : DocumentStep)
  | getWorkflow (run : PersistedRun)
  /-- Completes a step of the workflow, as the execution knows it. -/
  | completeStep (run : PersistedRun) (workflow : WorkflowRow) (step : String)
      (nextStep : Option String)
  | recordFailure (run : PersistedRun) (workflow : WorkflowRow) (errorClass : String)

/-- Result of one transaction. -/
inductive HandlerAnswer where
  | document (answer : DocumentAnswer)
  | workflow (workflow : WorkflowRow)
  | done

/-- The log entry of one transaction. -/
abbrev HandlerEntry := Entry HandlerStep RepositoryError HandlerAnswer

/-- The entries of the document protocol in a log. -/
def documentLog (log : List HandlerEntry) : List DocumentEntry :=
  log.filterMap (fun entry =>
    match entry with
    | ⟨.document step, .committed (.document answer)⟩ => some ⟨step, .committed answer⟩
    | ⟨.document step, .rolledBack error⟩ => some ⟨step, .rolledBack error⟩
    | ⟨.document step, .aborted⟩ => some ⟨step, .aborted⟩
    | _ => none)

/-- The execution has read or advanced the workflow, and knows it as it was then. -/
def KnowsWorkflow (log : List HandlerEntry) (run : PersistedRun) (workflow : WorkflowRow) : Prop :=
  (⟨.getWorkflow run, .committed (.workflow workflow)⟩ : HandlerEntry) ∈ log ∨
    ∃ before step nextStep, (⟨.completeStep run before step nextStep,
      .committed (.workflow workflow)⟩ : HandlerEntry) ∈ log

/-- The transaction of a step. -/
def handlerProgram (sha256 : Sha256) : HandlerStep → Transaction HandlerAnswer
  | .document step => do
    let answer ← documentProgram sha256 step
    pure (.document answer)
  | .getWorkflow run => do
    let workflow ← getWorkflow run.context run.workflowId
    pure (.workflow workflow)
  | .completeStep run workflow step nextStep => do
    let updated ← completeWorkflowStep run.context run.workflowId workflow.version step nextStep
    pure (.workflow updated)
  | .recordFailure run _ errorClass => do
    recordWorkflowFailure run.context run.workflowId errorClass
    pure .done

/-- What may happen next. An execution may fail from its first read on. -/
def handlerPermitted (sha256 : Sha256) (log : List HandlerEntry) : HandlerStep → Prop
  | .document step => documentPermitted sha256 (documentLog log) step
  | .getWorkflow _ => True
  | .completeStep run workflow step nextStep =>
    KnowsWorkflow log run workflow ∧ workflow.status ≠ .completed ∧
      pendingStep workflow.completedSteps run.steps = some (step, nextStep) ∧
      (workflow.nextStep = none ∨ workflow.nextStep = some step)
  | .recordFailure run workflow _ => KnowsWorkflow log run workflow ∧ workflow.status ≠ .completed

/-- The handlers as a protocol. -/
abbrev handlerProtocol (sha256 : Sha256) : Protocol vaultSchema where
  Request := HandlerStep
  Error := RepositoryError
  Result := HandlerAnswer
  program := handlerProgram sha256
  permitted := handlerPermitted sha256

/-! ## Failures -/

/-- What an execution that fails has read. -/
structure FailedExecution where
  context : TenantContext
  /-- The document and its version, where the handler reads one. -/
  document : Option (Identifier × Nat)
  workflowId : Identifier
  workflowVersion : Nat

/-- The failure that a step records. -/
def HandlerStep.failure : HandlerStep → Option FailedExecution
  | .document (.recordFailure delivery input _) =>
    some ⟨delivery.context, some (input.id, input.version), input.workflowId,
      input.workflowVersion⟩
  | .recordFailure run workflow _ => some ⟨run.context, none, run.workflowId, workflow.version⟩
  | _ => none

/-- A read of a workflow at a version. -/
def ReadsWorkflow (workflowId : Identifier) (version : Nat) : HandlerEntry → Prop
  | ⟨.document (.read _), .committed (.document (.input document))⟩ =>
    document.workflowId = workflowId ∧ document.workflowVersion = version
  | ⟨.getWorkflow run, .committed (.workflow workflow)⟩
  | ⟨.completeStep run _ _ _, .committed (.workflow workflow)⟩ =>
    run.workflowId = workflowId ∧ workflow.version = version
  | _ => False

/-- A completion that advances a workflow from the version it has read. -/
def AdvancesWorkflow (workflowId : Identifier) : HandlerEntry → Prop
  | ⟨.document (.completeScan _ document _), .committed _⟩
  | ⟨.document (.completeOcr _ document _), .committed _⟩ => document.workflowId = workflowId
  | ⟨.completeStep run _ _ _, .committed _⟩ => run.workflowId = workflowId
  | _ => False

/-- A workflow has been advanced since it was read at a version. -/
def AdvancedSince (log : List HandlerEntry) (workflowId : Identifier) (version : Nat) : Prop :=
  ∃ later entry earlier, log = later ++ entry :: earlier ∧
    ReadsWorkflow workflowId version entry ∧ ∃ advance ∈ later,
      AdvancesWorkflow workflowId advance

section Disturbance

variable (log : List HandlerEntry) (σ σ' : Vault) (failed : FailedExecution)

/-- A failure changes the rows only at the versions its execution has read. A workflow that was
advanced since is neither failed nor at another version. -/
structure Undisturbed : Prop where
  document : ∀ k version row, failed.document = some (k, version) →
    σ.get .documents k = some row → row.version ≠ version → σ'.get .documents k = some row
  workflow : ∀ workflow, σ.get .workflowRuns failed.workflowId = some workflow →
    workflow.version ≠ failed.workflowVersion →
    σ'.get .workflowRuns failed.workflowId = some workflow
  advanced : AdvancedSince log failed.workflowId failed.workflowVersion →
    σ'.get .workflowRuns failed.workflowId = σ.get .workflowRuns failed.workflowId
  otherDocuments : ∀ k, (∀ version, failed.document ≠ some (k, version)) →
    σ'.get .documents k = σ.get .documents k
  otherWorkflows : ∀ w, w ≠ failed.workflowId → σ'.get .workflowRuns w = σ.get .workflowRuns w

/-- The rows that a failure would mark are at the versions that were read. -/
structure FailsCurrent : Prop where
  document : ∀ k version row, failed.document = some (k, version) →
    σ.get .documents k = some row → failed.context.sees row = true →
    row.status = .quarantined → row.version = version
  workflow : ∀ workflow, σ.get .workflowRuns failed.workflowId = some workflow →
    failed.context.sees workflow = true → workflow.status ≠ .completed →
    workflow.version = failed.workflowVersion

end Disturbance

/-! ## What a step does -/

theorem steppedWorkflow_kept {context : TenantContext} {expectedVersion : Nat} {step : String}
    {nextStep : Option String} {before after : WorkflowRow}
    (h : steppedWorkflow context expectedVersion step nextStep before = some after) :
    before.Kept after := by
  unfold steppedWorkflow at h
  split at h
  · obtain rfl := Option.some.inj h
    exact ⟨rfl, fun _ => mem_withStep, Nat.le_succ _⟩
  · exact absurd h (by simp)

section Steps

variable {sha256 : Sha256} {seen : Vault → Prop} {σ : Vault} {ws : List (Write vaultSchema)}
  {answer : HandlerAnswer}

/-- A committed step of the document protocol. -/
theorem executes_documentStep {step : DocumentStep}
    (h : (handlerProgram sha256 (.document step)).Executes seen σ [] (.ok answer) ws) :
    ∃ result, answer = .document result ∧
      (documentProgram sha256 step).Executes seen σ [] (.ok result) ws := by
  obtain ⟨result, ws₁, hstep, hanswer, hws⟩ := executes_bind_ok.mp h
  rw [hws]
  exact ⟨result, Except.ok.inj hanswer, hstep⟩

/-- A committed read has found the workflow in a store that was seen. -/
theorem executes_getWorkflow {run : PersistedRun}
    (h : (handlerProgram sha256 (.getWorkflow run)).Executes seen σ [] (.ok answer) ws) :
    ∃ σ₀ workflow, seen σ₀ ∧ answer = .workflow workflow ∧
      σ₀.get .workflowRuns run.workflowId = some workflow ∧ ws = [] := by
  obtain ⟨workflow, ws₁, hread, hanswer, hws⟩ := executes_bind_ok.mp h
  obtain ⟨found, ws₂, hselect, hfound⟩ := executes_bind_ok.mp hread
  obtain ⟨σ₀, hseen, hselected, hws₂⟩ := executes_select.mp hselect
  cases found with
  | none => exact absurd hfound.1 (by simp)
  | some row =>
    obtain rfl := Except.ok.inj hfound.1
    obtain ⟨hrow, -⟩ := Option.filter_eq_some_iff.mp (Except.ok.inj hselected).symm
    exact ⟨σ₀, workflow, hseen, Except.ok.inj hanswer, hrow,
      hws.trans (hfound.2.trans hws₂)⟩

/-- A committed completion of a step has updated the workflow. -/
theorem executes_completeStep {run : PersistedRun} {workflow : WorkflowRow} {step : String}
    {nextStep : Option String}
    (h : (handlerProgram sha256 (.completeStep run workflow step nextStep)).Executes seen σ []
      (.ok answer) ws) :
    ∃ before after, answer = .workflow after ∧
      σ.get .workflowRuns run.workflowId = some before ∧
      steppedWorkflow run.context workflow.version step nextStep before = some after ∧
      ws = [⟨VaultTable.workflowRuns, run.workflowId, some after⟩] := by
  obtain ⟨updated, ws₁, hstep, hanswer, hws⟩ := executes_bind_ok.mp h
  obtain ⟨row, ws₂, hupdate, hrow⟩ := executes_bind_ok.mp hstep
  cases row with
  | none => exact absurd hrow.1 (by simp)
  | some after =>
    obtain rfl := Except.ok.inj hrow.1
    obtain ⟨before, hbefore, hchange, hws₂⟩ := executes_updateRow_some hupdate
    exact ⟨before, updated, Except.ok.inj hanswer, hbefore, hchange,
      hws.trans (hrow.2.trans hws₂)⟩

/-- A committed record of a failure has updated the workflow, or found that it does not apply. -/
theorem executes_recordFailure {run : PersistedRun} {workflow : WorkflowRow} {errorClass : String}
    (h : (handlerProgram sha256 (.recordFailure run workflow errorClass)).Executes seen σ []
      (.ok answer) ws) :
    UpdatesOrNot .workflowRuns run.workflowId (failedWorkflow run.context errorClass) seen σ
        (σ.overlay ws) ∧ SameRows (S := vaultSchema) .documents σ (σ.overlay ws) := by
  obtain ⟨u, ws₁, hfailure, -, hws⟩ := executes_bind_ok.mp h
  obtain ⟨updated, ws₂, hupdate, -, hws₁⟩ := executes_bind_ok.mp hfailure
  rw [hws, hws₁]
  exact ⟨UpdatesOrNot.of_executes (fun base => SameRows.refl (S := vaultSchema) _ base) hupdate,
    Leaves.sameRows (writes_updateRow (fun _ _ _ => by decide)) hupdate⟩

/-- Every committed step keeps documents and workflows, and their keys. -/
theorem handlerProgram_kept {step : HandlerStep} (hkeys : DocumentKeys σ)
    (h : (handlerProgram sha256 step).Executes seen σ [] (.ok answer) ws) :
    DocumentKeys (σ.overlay ws) ∧
      Keeps (S := vaultSchema) .workflowRuns WorkflowRow.Kept σ (σ.overlay ws) := by
  have hdocuments : SameRows (S := vaultSchema) .documents σ (σ.overlay ws) →
      ∀ k document, (σ.overlay ws).get .documents k = some document → document.id = k :=
    fun hsame k document hrow => hkeys.documents k document ((hsame k).symm.trans hrow)
  have hupdated : ∀ {w : Identifier} {change : WorkflowRow → Option WorkflowRow},
      (∀ before after, change before = some after → before.Kept after) →
      UpdatesOrNot .workflowRuns w change seen σ (σ.overlay ws) →
      (∀ w workflow, (σ.overlay ws).get .workflowRuns w = some workflow → workflow.id = w) ∧
        Keeps (S := vaultSchema) .workflowRuns WorkflowRow.Kept σ (σ.overlay ws) := by
    intro w change hchange hupdates
    refine ⟨fun w' workflow hrow => ?_, UpdatesOrNot.keeps WorkflowRow.Kept.refl hchange hupdates⟩
    rcases hupdates with ⟨before, after, hbefore, hafter, hreplaces⟩ | ⟨hsame, -⟩
    · rcases hreplaces.get_cases w' with ⟨rfl, hnew⟩ | ⟨-, hold⟩
      · obtain rfl := Option.some.inj (hnew.symm.trans hrow)
        exact (hchange _ _ hafter).id.trans (hkeys.workflows _ _ hbefore)
      · exact hkeys.workflows _ _ (hold.symm.trans hrow)
    · exact hkeys.workflows _ _ ((hsame w').symm.trans hrow)
  cases step with
  | document step =>
    obtain ⟨result, -, hstep⟩ := executes_documentStep h
    have heffect := documentProgram_effect hstep
    exact ⟨heffect.keys hkeys, heffect.kept.workflows⟩
  | getWorkflow run =>
    obtain ⟨-, -, -, -, -, rfl⟩ := executes_getWorkflow h
    exact ⟨hkeys, (SameRows.refl (S := vaultSchema) _ σ).keeps WorkflowRow.Kept.refl⟩
  | completeStep run workflow step nextStep =>
    obtain ⟨before, after, -, hbefore, hchange, rfl⟩ := executes_completeStep h
    have hreplaces : Replaces (S := vaultSchema) .workflowRuns run.workflowId (some after) σ
        (σ.overlay [⟨VaultTable.workflowRuns, run.workflowId, some after⟩]) :=
      replaces_write (S := vaultSchema) σ
    obtain ⟨hworkflows, hkeeps⟩ := hupdated (fun _ _ => steppedWorkflow_kept)
      (Or.inl ⟨before, after, hbefore, hchange, hreplaces⟩)
    exact ⟨⟨hdocuments (sameRows_write (S := vaultSchema) σ (by decide)), hworkflows⟩, hkeeps⟩
  | recordFailure run workflow errorClass =>
    obtain ⟨hworkflow, hsame⟩ := executes_recordFailure h
    obtain ⟨hworkflows, hkeeps⟩ := hupdated (fun _ _ => failedWorkflow_kept) hworkflow
    exact ⟨⟨hdocuments hsame, hworkflows⟩, hkeeps⟩

/-- A read finds the workflow at its version, or a later one. -/
theorem reads_version {step : HandlerStep} {w : Identifier} {version : Nat}
    (hseen : ∀ σ₀, seen σ₀ → DocumentKeys σ₀ ∧
      Keeps (S := vaultSchema) .workflowRuns WorkflowRow.Kept σ₀ σ)
    (hkeeps : Keeps (S := vaultSchema) .workflowRuns WorkflowRow.Kept σ (σ.overlay ws))
    (h : (handlerProgram sha256 step).Executes seen σ [] (.ok answer) ws)
    (hreads : ReadsWorkflow w version ⟨step, .committed answer⟩) :
    ∃ workflow, (σ.overlay ws).get .workflowRuns w = some workflow ∧
      version ≤ workflow.version := by
  have hlater : ∀ {σ₀ : Vault} {row : WorkflowRow}, seen σ₀ →
      σ₀.get .workflowRuns w = some row → version ≤ row.version →
      ∃ workflow, (σ.overlay ws).get .workflowRuns w = some workflow ∧
        version ≤ workflow.version := by
    intro σ₀ row h₀ hrow hversion
    obtain ⟨workflow, hworkflow, hkept⟩ :=
      ((hseen σ₀ h₀).2.trans WorkflowRow.Kept.trans hkeeps) w row hrow
    exact ⟨workflow, hworkflow, hversion.trans hkept.version⟩
  cases step with
  | document step =>
    obtain ⟨result, rfl, hstep⟩ := executes_documentStep h
    cases step with
    | read delivery =>
      obtain ⟨σ₀, input, h₀, rfl, hinput⟩ := executes_read sha256 hstep
      obtain ⟨rfl, rfl⟩ := hreads
      obtain ⟨row, workflow, hread, -, -⟩ := processingInputOf_eq_some (hseen σ₀ h₀).1 hinput
      obtain ⟨row₀, workflow₀, wrappedDataKey, -, hdocument, -, hkept⟩ := hread.read
      have hversion : input.workflowVersion = workflow₀.version := by rw [hdocument]; rfl
      refine hlater h₀ hread.foundWorkflow ?_
      rw [hversion]
      exact hkept.version
    | _ => exact absurd hreads id
  | getWorkflow run =>
    obtain ⟨σ₀, workflow, h₀, rfl, hworkflow, -⟩ := executes_getWorkflow h
    obtain ⟨rfl, rfl⟩ := hreads
    exact hlater h₀ hworkflow le_rfl
  | completeStep run workflow step nextStep =>
    obtain ⟨before, after, rfl, -, -, rfl⟩ := executes_completeStep h
    obtain ⟨rfl, rfl⟩ := hreads
    exact ⟨after, get_set_self _ _ _ _, le_rfl⟩
  | recordFailure run workflow errorClass => exact absurd hreads id

/-- A completion leaves the workflow at a later version. -/
theorem advances_version {step : HandlerStep} {w : Identifier}
    (h : (handlerProgram sha256 step).Executes seen σ [] (.ok answer) ws)
    (hadvances : AdvancesWorkflow w ⟨step, .committed answer⟩) :
    ∃ before after, σ.get .workflowRuns w = some before ∧
      (σ.overlay ws).get .workflowRuns w = some after ∧ before.version < after.version := by
  have hupdates : ∀ {change : WorkflowRow → Option WorkflowRow},
      (∀ before after, change before = some after → after.version = before.version + 1) →
      Updates .workflowRuns w change σ (σ.overlay ws) →
      ∃ before after, σ.get .workflowRuns w = some before ∧
        (σ.overlay ws).get .workflowRuns w = some after ∧ before.version < after.version := by
    rintro change hchange ⟨before, after, hbefore, hafter, hreplaces⟩
    refine ⟨before, after, hbefore, hreplaces.row, ?_⟩
    rw [hchange before after hafter]
    exact Nat.lt_succ_self _
  cases step with
  | document step =>
    obtain ⟨result, rfl, hstep⟩ := executes_documentStep h
    have hchange := documentProgram_change hstep
    cases step with
    | completeScan delivery document outcome =>
      obtain rfl : document.workflowId = w := hadvances
      cases hchange with
      | scanned _ hworkflow =>
        refine hupdates (fun before after hafter => ?_) hworkflow
        unfold scannedWorkflow at hafter
        split at hafter
        · obtain rfl := Option.some.inj hafter
          rfl
        · exact absurd hafter (by simp)
      | other _ _ _ _ _ _ _ hkind =>
        rcases hkind with hreplays | htables
        · exact absurd hreplays (by simp [DocumentStep.replays])
        · exact absurd (htables .workflowRuns (by decide)) (by simp [DocumentStep.tables])
    | completeOcr delivery document derivative =>
      obtain rfl : document.workflowId = w := hadvances
      cases hchange with
      | recognized _ _ _ hworkflow =>
        refine hupdates (fun before after hafter => ?_) hworkflow
        unfold recognizedWorkflow at hafter
        split at hafter
        · obtain rfl := Option.some.inj hafter
          rfl
        · exact absurd hafter (by simp)
      | other _ _ _ _ _ _ _ hkind =>
        rcases hkind with hreplays | htables
        · exact absurd hreplays (by simp [DocumentStep.replays])
        · exact absurd (htables .workflowRuns (by decide)) (by simp [DocumentStep.tables])
    | _ => exact absurd hadvances id
  | getWorkflow run => exact absurd hadvances id
  | completeStep run workflow step nextStep =>
    obtain ⟨before, after, -, hbefore, hafter, rfl⟩ := executes_completeStep h
    obtain rfl : run.workflowId = w := hadvances
    refine ⟨before, after, hbefore, get_set_self _ _ _ _, ?_⟩
    unfold steppedWorkflow at hafter
    split at hafter
    · obtain rfl := Option.some.inj hafter
      exact Nat.lt_succ_self _
    · exact absurd hafter (by simp)
  | recordFailure run workflow errorClass => exact absurd hadvances id

end Steps

/-! ## What executions know -/

/-- Workflows are at the versions that were read, or later; at later ones where they were
advanced since. -/
structure VersionsKnown (log : List HandlerEntry) (σ : Vault) : Prop where
  keys : DocumentKeys σ
  known : ∀ later entry earlier w version, log = later ++ entry :: earlier →
    ReadsWorkflow w version entry → ∃ workflow, σ.get .workflowRuns w = some workflow ∧
      version ≤ workflow.version ∧
      ((∃ advance ∈ later, AdvancesWorkflow w advance) → version < workflow.version)

theorem versionsKnown_invariant (sha256 : Sha256) {init : Vault} (hkeys : DocumentKeys init) :
    (handlerProtocol sha256).Invariant init VersionsKnown
      (Keeps (S := vaultSchema) .workflowRuns WorkflowRow.Kept) := by
  have hends : ∀ {log : List HandlerEntry} {σ : Vault} {step : HandlerStep}
      (outcome : Outcome RepositoryError HandlerAnswer), (∀ a, outcome ≠ .committed a) →
      VersionsKnown log σ → VersionsKnown (⟨step, outcome⟩ :: log) σ := by
    intro log σ step outcome houtcome h
    have hreads : ∀ w version, ¬ ReadsWorkflow w version ⟨step, outcome⟩ := by
      intro w version hreads
      unfold ReadsWorkflow at hreads
      split at hreads
      · rename_i heq
        exact houtcome _ (Entry.mk.inj heq).2
      · rename_i heq
        exact houtcome _ (Entry.mk.inj heq).2
      · rename_i heq
        exact houtcome _ (Entry.mk.inj heq).2
      · exact hreads
    have hadvances : ∀ w, ¬ AdvancesWorkflow w ⟨step, outcome⟩ := by
      intro w hadvances
      unfold AdvancesWorkflow at hadvances
      split at hadvances
      · rename_i heq
        exact houtcome _ (Entry.mk.inj heq).2
      · rename_i heq
        exact houtcome _ (Entry.mk.inj heq).2
      · rename_i heq
        exact houtcome _ (Entry.mk.inj heq).2
      · exact hadvances
    refine ⟨h.keys, fun later entry earlier w version hlog hentry => ?_⟩
    cases later with
    | nil =>
      obtain ⟨rfl, rfl⟩ := List.cons.inj hlog
      exact absurd hentry (hreads w version)
    | cons first later =>
      obtain ⟨rfl, rfl⟩ := List.cons.inj hlog
      obtain ⟨workflow, hworkflow, hversion, hlater⟩ := h.known later entry earlier w version rfl
        hentry
      refine ⟨workflow, hworkflow, hversion, fun hadvance => hlater ?_⟩
      obtain ⟨advance, hmem, hadvance⟩ := hadvance
      rcases List.mem_cons.mp hmem with rfl | hmem
      · exact absurd hadvance (hadvances w)
      · exact ⟨advance, hmem, hadvance⟩
  exact {
    refl := fun σ => (SameRows.refl (S := vaultSchema) _ σ).keeps WorkflowRow.Kept.refl
    trans := fun h h' => h.trans WorkflowRow.Kept.trans h'
    start := ⟨hkeys, fun later entry earlier w version hlog => absurd hlog (by simp)⟩
    commit := by
      intro log begun seen σ step answer ws h hpermitted hbegun hnow hearlier hexec
      obtain ⟨hkeys', hkeeps⟩ := handlerProgram_kept h.keys hexec
      refine ⟨⟨hkeys', fun later entry earlier w version hlog hentry => ?_⟩, hkeeps⟩
      cases later with
      | nil =>
        obtain ⟨rfl, rfl⟩ := List.cons.inj hlog
        obtain ⟨workflow, hworkflow, hversion⟩ := reads_version (fun σ₀ h₀ => by
          obtain ⟨hgrows, log₀, -, -, hheld⟩ := hearlier σ₀ h₀
          exact ⟨hheld.keys, hgrows⟩) hkeeps hexec hentry
        exact ⟨workflow, hworkflow, hversion, fun ⟨advance, hmem, _⟩ => absurd hmem (by simp)⟩
      | cons first later =>
        obtain ⟨rfl, rfl⟩ := List.cons.inj hlog
        obtain ⟨workflow, hworkflow, hversion, hlater⟩ :=
          h.known later entry earlier w version rfl hentry
        obtain ⟨workflow', hworkflow', hkept⟩ := hkeeps w workflow hworkflow
        refine ⟨workflow', hworkflow', hversion.trans hkept.version, ?_⟩
        rintro ⟨advance, hmem, hadvance⟩
        rcases List.mem_cons.mp hmem with rfl | hmem
        · obtain ⟨before, after, hbefore, hafter, hlt⟩ := advances_version hexec hadvance
          obtain rfl := Option.some.inj (hbefore.symm.trans hworkflow)
          obtain rfl := Option.some.inj (hafter.symm.trans hworkflow')
          exact lt_of_le_of_lt hversion hlt
        · exact lt_of_lt_of_le (hlater ⟨advance, hmem, hadvance⟩) hkept.version
    rollback := fun h _ _ _ _ _ => hends _ (by simp) h
    abort := fun h _ _ => hends _ (by simp) h }

/-- A failure updates the rows it finds, or has found that it does not apply to them. -/
theorem executes_failure {sha256 : Sha256} {seen : Vault → Prop} {σ : Vault}
    {ws : List (Write vaultSchema)} {answer : HandlerAnswer} {step : HandlerStep}
    {failed : FailedExecution} (hfailure : step.failure = some failed)
    (h : (handlerProgram sha256 step).Executes seen σ [] (.ok answer) ws) :
    ∃ errorClass,
      (SameRows (S := vaultSchema) .documents σ (σ.overlay ws) ∨ ∃ k version,
        failed.document = some (k, version) ∧
        Updates .documents k (failedDocument failed.context errorClass) σ (σ.overlay ws)) ∧
      (SameRows (S := vaultSchema) .workflowRuns σ (σ.overlay ws) ∨
        Updates .workflowRuns failed.workflowId (failedWorkflow failed.context errorClass) σ
          (σ.overlay ws)) := by
  cases step with
  | document step =>
    cases step with
    | recordFailure delivery document errorClass =>
      obtain rfl := Option.some.inj hfailure
      obtain ⟨result, -, hstep⟩ := executes_documentStep h
      refine ⟨errorClass, ?_⟩
      cases documentProgram_change hstep with
      | failed hdocument hworkflow =>
        constructor
        · rcases hdocument with hupdates | ⟨hsame, -⟩
          · exact Or.inr ⟨document.id, document.version, rfl, hupdates⟩
          · exact Or.inl hsame
        · rcases hworkflow with hupdates | ⟨hsame, -⟩
          · exact Or.inr hupdates
          · exact Or.inl hsame
      | other hdocuments _ hworkflows _ _ _ _ _ => exact ⟨Or.inl hdocuments, Or.inl hworkflows⟩
    | _ => exact absurd hfailure (by simp [HandlerStep.failure])
  | recordFailure run workflow errorClass =>
    obtain rfl := Option.some.inj hfailure
    obtain ⟨hworkflow, hsame⟩ := executes_recordFailure h
    refine ⟨errorClass, Or.inl hsame, ?_⟩
    rcases hworkflow with hupdates | ⟨hrows, -⟩
    · exact Or.inr hupdates
    · exact Or.inl hrows
  | getWorkflow run => exact absurd hfailure (by simp [HandlerStep.failure])
  | completeStep run workflow step nextStep =>
    exact absurd hfailure (by simp [HandlerStep.failure])

/-- A failure whose rows are at the versions that were read disturbs nothing. -/
theorem FailsCurrent.undisturbed {sha256 : Sha256} {seen : Vault → Prop} {σ : Vault}
    {log : List HandlerEntry} {ws : List (Write vaultSchema)} {answer : HandlerAnswer}
    {step : HandlerStep} {failed : FailedExecution} (hcurrent : FailsCurrent σ failed)
    (hknown : VersionsKnown log σ) (hfailure : step.failure = some failed)
    (h : (handlerProgram sha256 step).Executes seen σ [] (.ok answer) ws) :
    Undisturbed log σ (σ.overlay ws) failed := by
  obtain ⟨errorClass, hdocument, hworkflow⟩ := executes_failure hfailure h
  have hstale : ∀ workflow, σ.get .workflowRuns failed.workflowId = some workflow →
      workflow.version ≠ failed.workflowVersion →
      (σ.overlay ws).get .workflowRuns failed.workflowId = some workflow := by
    intro workflow hrow hversion
    rcases hworkflow with hsame | ⟨before, after, hbefore, hchange, -⟩
    · exact (hsame _).trans hrow
    · obtain rfl := Option.some.inj (hbefore.symm.trans hrow)
      unfold failedWorkflow at hchange
      split at hchange
      · rename_i hguard
        exact absurd (hcurrent.workflow before hrow hguard.1 hguard.2) hversion
      · exact absurd hchange (by simp)
  constructor
  · intro k version row hk hrow hversion
    rcases hdocument with hsame | ⟨k', version', hk', before, after, hbefore, hchange, -⟩
    · exact (hsame k).trans hrow
    · obtain ⟨rfl, rfl⟩ := Prod.mk.inj (Option.some.inj (hk.symm.trans hk'))
      obtain rfl := Option.some.inj (hbefore.symm.trans hrow)
      unfold failedDocument at hchange
      split at hchange
      · rename_i hguard
        exact absurd (hcurrent.document k version before hk hrow hguard.1 hguard.2) hversion
      · exact absurd hchange (by simp)
  · exact hstale
  · rintro ⟨later, entry, earlier, hlog, hreads, hadvanced⟩
    obtain ⟨workflow, hrow, -, hlater⟩ :=
      hknown.known later entry earlier _ _ hlog hreads
    rw [hstale workflow hrow (Nat.ne_of_gt (hlater hadvanced)), hrow]
  · intro k hk
    rcases hdocument with hsame | ⟨k', version, hk', before, after, -, -, hreplaces⟩
    · exact hsame k
    · refine hreplaces.others k (fun heq => ?_)
      rw [heq] at hk
      exact hk version hk'
  · intro w hw
    rcases hworkflow with hsame | ⟨before, after, -, -, hreplaces⟩
    · exact hsame w
    · exact hreplaces.others w hw

/-- A workflow that a step leaves failed was failed before, or the step has recorded its failure. -/
theorem failed_of_step {sha256 : Sha256} {seen : Vault → Prop} {σ : Vault}
    {ws : List (Write vaultSchema)} {answer : HandlerAnswer} {step : HandlerStep}
    (h : (handlerProgram sha256 step).Executes seen σ [] (.ok answer) ws) {w : Identifier}
    {workflow : WorkflowRow} (hrow : (σ.overlay ws).get .workflowRuns w = some workflow)
    (hfailed : workflow.status = .failed) :
    σ.get .workflowRuns w = some workflow ∨ ∃ failed before, step.failure = some failed ∧
      failed.workflowId = w ∧ σ.get .workflowRuns w = some before ∧
      failed.context.sees before = true ∧ before.status ≠ .completed ∧
      workflow.version = before.version + 1 := by
  have hsame : SameRows (S := vaultSchema) .workflowRuns σ (σ.overlay ws) →
      σ.get .workflowRuns w = some workflow := fun hrows => (hrows w).symm.trans hrow
  have hother : ∀ {w' : Identifier} {change : WorkflowRow → Option WorkflowRow},
      (∀ before after, change before = some after → after.status ≠ .failed) →
      Updates .workflowRuns w' change σ (σ.overlay ws) →
      σ.get .workflowRuns w = some workflow := by
    rintro w' change hchange ⟨before, after, -, hafter, hreplaces⟩
    rcases hreplaces.get_cases w with ⟨rfl, hnew⟩ | ⟨-, hold⟩
    · obtain rfl := Option.some.inj (hnew.symm.trans hrow)
      exact absurd hfailed (hchange before after hafter)
    · exact hold.symm.trans hrow
  cases hfailure : step.failure with
  | some failed =>
    obtain ⟨errorClass, -, hworkflow⟩ := executes_failure hfailure h
    rcases hworkflow with hrows | ⟨before, after, hbefore, hchange, hreplaces⟩
    · exact Or.inl (hsame hrows)
    · rcases hreplaces.get_cases w with ⟨rfl, hnew⟩ | ⟨-, hold⟩
      · obtain rfl := Option.some.inj (hnew.symm.trans hrow)
        unfold failedWorkflow at hchange
        split at hchange
        · rename_i hguard
          obtain rfl := Option.some.inj hchange
          exact Or.inr ⟨failed, before, rfl, rfl, hbefore, hguard.1, hguard.2, rfl⟩
        · exact absurd hchange (by simp)
      · exact Or.inl (hold.symm.trans hrow)
  | none =>
    refine Or.inl ?_
    cases step with
    | document step =>
      obtain ⟨result, -, hstep⟩ := executes_documentStep h
      have heffect := documentProgram_effect hstep
      cases heffect.change with
      | started _ _ _ _ => exact hsame (heffect.same _ (by simp [DocumentStep.tables]))
      | uploaded _ _ hreplaces =>
        rcases hreplaces.get_cases w with ⟨rfl, hnew⟩ | ⟨-, hold⟩
        · obtain rfl := Option.some.inj (hnew.symm.trans hrow)
          exact absurd hfailed (by simp [documentWorkflow])
        · exact hold.symm.trans hrow
      | extracted _ _ _ hworkflow _ _ =>
        refine hother (fun before after hafter => ?_) hworkflow
        unfold extractedWorkflowRow at hafter
        split at hafter
        · obtain rfl := Option.some.inj hafter
          exact WorkflowStatus.noConfusion
        · exact absurd hafter (by simp)
      | @scanned _ _ outcome _ _ hworkflow =>
        refine hother (fun before after hafter => ?_) hworkflow
        unfold scannedWorkflow at hafter
        split at hafter
        · obtain rfl := Option.some.inj hafter
          cases outcome <;> simp
        · exact absurd hafter (by simp)
      | recognized _ _ _ hworkflow =>
        refine hother (fun before after hafter => ?_) hworkflow
        unfold recognizedWorkflow at hafter
        split at hafter
        · obtain rfl := Option.some.inj hafter
          exact WorkflowStatus.noConfusion
        · exact absurd hafter (by simp)
      | originalDeleted _ hworkflow =>
        rcases hworkflow with hupdates | ⟨hrows, -⟩
        · refine hother (fun before after hafter => ?_) hupdates
          unfold originalDeletedWorkflow at hafter
          split at hafter
          · obtain rfl := Option.some.inj hafter
            exact WorkflowStatus.noConfusion
          · exact absurd hafter (by simp)
        · exact hsame hrows
      | failed _ _ => exact absurd hfailure (by simp [HandlerStep.failure])
      | other _ _ hworkflows _ _ _ _ _ => exact hsame hworkflows
    | getWorkflow run =>
      obtain ⟨-, -, -, -, -, rfl⟩ := executes_getWorkflow h
      exact hrow
    | completeStep run known step nextStep =>
      obtain ⟨before, after, -, hbefore, hafter, rfl⟩ := executes_completeStep h
      have hreplaces : Replaces (S := vaultSchema) .workflowRuns run.workflowId (some after) σ
          (σ.overlay [⟨VaultTable.workflowRuns, run.workflowId, some after⟩]) :=
        replaces_write (S := vaultSchema) σ
      refine hother (fun before after hafter => ?_) ⟨before, after, hbefore, hafter, hreplaces⟩
      unfold steppedWorkflow at hafter
      split at hafter
      · obtain rfl := Option.some.inj hafter
        cases nextStep <;> simp
      · exact absurd hafter (by simp)
    | recordFailure run known errorClass =>
      exact absurd hfailure (by simp [HandlerStep.failure])

/-- Every failed workflow was failed before, or by an execution that had read it at the version
before. -/
def FailuresCurrent (init : Vault) (log : List HandlerEntry) (σ : Vault) : Prop :=
  ∀ w workflow, σ.get .workflowRuns w = some workflow → workflow.status = .failed →
    init.get .workflowRuns w = some workflow ∨ ∃ r a failed,
      (⟨r, .committed a⟩ : HandlerEntry) ∈ log ∧ r.failure = some failed ∧
      failed.workflowId = w ∧ workflow.version = failed.workflowVersion + 1

/-- A second delivery of the scan. -/
def exampleRedelivery : Delivery := { exampleDelivery .scan with iv := 3 }

/-- Two deliveries read a quarantined document. The first completes its scan, and an OCR run
begins; the second loses the race. -/
def exampleRace : List HandlerStep :=
  [.document (.startUpload exampleUpload), .document (.pendingForUrl exampleUrl),
    .document (.upload exampleUrl examplePending exampleCiphertext 0),
    .document (.pendingForCompletion exampleCompletion),
    .document (.assertStored exampleCompletion examplePending),
    .document (.completeUpload exampleCompletion),
    .document (.read exampleRedelivery), .document (.read (exampleDelivery .scan)),
    .document (.fetch (exampleDelivery .scan) exampleQuarantined),
    .document (.markClean (exampleDelivery .scan) exampleQuarantined exampleBytes),
    .document (.completeScan (exampleDelivery .scan) exampleQuarantined .clean),
    .document (.read (exampleDelivery .ocr)),
    .document (.fetch exampleRedelivery exampleQuarantined),
    .document (.markClean exampleRedelivery exampleQuarantined exampleBytes),
    .document (.completeScan exampleRedelivery exampleQuarantined .clean)]

/-- The record of the second delivery's failure. -/
def exampleLoss : HandlerStep :=
  .document (.recordFailure exampleRedelivery exampleQuarantined "Error")

set_option maxRecDepth 100000 in
theorem exampleRace_permitted : (handlerProtocol Sha256.transparent).Sequential [] Store.empty
    exampleRace := by
  have hfirst : ∀ {entry : DocumentEntry} {log : List DocumentEntry}, entry ∈ entry :: log :=
    List.mem_cons_self
  have hlater : ∀ {entry other : DocumentEntry} {log : List DocumentEntry}, entry ∈ log →
      entry ∈ other :: log := List.mem_cons_of_mem _
  exact ⟨trivial, trivial, ⟨hfirst, rfl, rfl, by decide⟩, trivial, ⟨hfirst, rfl⟩,
    ⟨examplePending, hfirst⟩, trivial, trivial, ⟨hfirst, rfl⟩,
    ⟨rfl, ⟨exampleCiphertext, hfirst, rfl⟩, rfl, rfl⟩, ⟨exampleBytes, hfirst⟩, trivial,
    ⟨hlater (hlater (hlater (hlater (hlater hfirst)))), rfl⟩,
    ⟨rfl, ⟨exampleCiphertext, hfirst, rfl⟩, rfl, rfl⟩, ⟨exampleBytes, hfirst⟩, trivial⟩

/-- A delivery of the scan that fails before any other has begun. -/
def exampleFailure : List HandlerStep :=
  [.document (.startUpload exampleUpload), .document (.pendingForUrl exampleUrl),
    .document (.upload exampleUrl examplePending exampleCiphertext 0),
    .document (.pendingForCompletion exampleCompletion),
    .document (.assertStored exampleCompletion examplePending),
    .document (.completeUpload exampleCompletion), .document (.read (exampleDelivery .scan)),
    .document (.recordFailure (exampleDelivery .scan) exampleQuarantined "Error")]

set_option maxRecDepth 100000 in
theorem exampleFailure_permitted : (handlerProtocol Sha256.transparent).Sequential [] Store.empty
    exampleFailure := by
  have hfirst : ∀ {entry : DocumentEntry} {log : List DocumentEntry}, entry ∈ entry :: log :=
    List.mem_cons_self
  exact ⟨trivial, trivial, ⟨hfirst, rfl, rfl, by decide⟩, trivial, ⟨hfirst, rfl⟩,
    ⟨examplePending, hfirst⟩, trivial, ⟨hfirst, rfl⟩, trivial⟩

set_option maxRecDepth 100000 in
theorem exampleFailure_current : (handlerProtocol Sha256.transparent).MeetsEach
    (fun _ σ r => ∀ failed, r.failure = some failed → FailsCurrent σ failed) [] Store.empty
    exampleFailure := by
  have hnone : ∀ {σ : Vault} {r : HandlerStep}, r.failure = none →
      ∀ failed, r.failure = some failed → FailsCurrent σ failed :=
    fun hr failed hfailed => absurd (hr.symm.trans hfailed) (by simp)
  refine ⟨hnone rfl, hnone rfl, hnone rfl, hnone rfl, hnone rfl, hnone rfl, hnone rfl,
    fun failed hfailed => ?_, trivial⟩
  obtain rfl := Option.some.inj hfailed
  constructor
  · intro k version row hdocument hrow _ _
    obtain ⟨rfl, rfl⟩ := Prod.mk.inj (Option.some.inj hdocument)
    obtain rfl := Option.some.inj hrow
    rfl
  · intro workflow hrow _ _
    obtain rfl := Option.some.inj hrow
    rfl

end LegacyVault
