import LegacyVault.DocumentProcessing
import LegacyVault.Library.RowStatements

/-!
# Steps of a workflow, in the domain and in the repository

A step is completed in two places: by the pure function of the domain and by
one statement of the repository. The domain returns a workflow that records the
step already; the statement writes it once more under a new version. The
statement leaves a completed workflow alone; the domain does not look at the
status. An empty next step ends the workflow in the domain only.
-/

namespace LegacyVault

open RowTransaction RowTransaction.Program

/-! ## The step of the domain -/

/-- The domain's `WorkflowRun`. The kind is any text, as in the rows. -/
structure WorkflowRun where
  id : Identifier
  organizationId : Identifier
  householdId : Identifier
  kind : String
  idempotencyKey : String
  status : WorkflowStatus
  completedSteps : List String
  nextStep : Option String
  lastErrorClass : Option String
  version : Nat
  deriving DecidableEq

/-- The domain's `completeWorkflowStep`. -/
def Domain.completeWorkflowStep (workflow : WorkflowRun) (step : String)
    (nextStep : Option String) : WorkflowRun :=
  if step ∈ workflow.completedSteps then workflow
  -- The empty text is no next step either.
  else if nextStep ≠ none ∧ nextStep ≠ some "" then
    { workflow with
      completedSteps := workflow.completedSteps ++ [step]
      status := .running
      nextStep := nextStep
      version := workflow.version + 1 }
  else
    { workflow with
      nextStep := none
      completedSteps := workflow.completedSteps ++ [step]
      status := .completed
      version := workflow.version + 1 }

/-- The domain's workflow of a row. -/
def WorkflowRow.workflowRun (row : WorkflowRow) : WorkflowRun where
  id := row.id
  organizationId := row.organizationId
  householdId := row.householdId
  kind := row.kind
  idempotencyKey := row.idempotencyKey
  status := row.status
  completedSteps := row.completedSteps
  nextStep := row.nextStep
  lastErrorClass := row.lastErrorClass
  version := row.version

/-- A recorded step is not completed again. -/
theorem Domain.completeWorkflowStep_recorded (workflow : WorkflowRun) {step : String}
    (h : step ∈ workflow.completedSteps) (nextStep : Option String) :
    Domain.completeWorkflowStep workflow step nextStep = workflow := by
  unfold Domain.completeWorkflowStep
  rw [if_pos h]

/-- A new step is added, and the next step decides whether the workflow goes on. -/
theorem Domain.completeWorkflowStep_new (workflow : WorkflowRun) {step : String}
    (h : step ∉ workflow.completedSteps) (nextStep : Option String) :
    (Domain.completeWorkflowStep workflow step nextStep).completedSteps =
        workflow.completedSteps ++ [step] ∧
      (Domain.completeWorkflowStep workflow step nextStep).version = workflow.version + 1 ∧
      (Domain.completeWorkflowStep workflow step nextStep).status =
        (if nextStep ≠ none ∧ nextStep ≠ some "" then .running else .completed) ∧
      (Domain.completeWorkflowStep workflow step nextStep).nextStep =
        (if nextStep ≠ none ∧ nextStep ≠ some "" then nextStep else none) := by
  unfold Domain.completeWorkflowStep
  rw [if_neg h]
  by_cases hnext : nextStep ≠ none ∧ nextStep ≠ some ""
  · rw [if_pos hnext, if_pos hnext, if_pos hnext]
    exact ⟨rfl, rfl, rfl, rfl⟩
  · rw [if_neg hnext, if_neg hnext, if_neg hnext]
    exact ⟨rfl, rfl, rfl, rfl⟩

/-- The domain reopens a completed workflow for a new step that names a next one. -/
theorem Domain.completeWorkflowStep_completed (workflow : WorkflowRun)
    (hcompleted : workflow.status = .completed) (step : String) (nextStep : Option String) :
    (Domain.completeWorkflowStep workflow step nextStep).status = .completed ↔
      step ∈ workflow.completedSteps ∨ nextStep = none ∨ nextStep = some "" := by
  by_cases h : step ∈ workflow.completedSteps
  · rw [Domain.completeWorkflowStep_recorded workflow h]
    exact iff_of_true hcompleted (Or.inl h)
  · obtain ⟨-, -, hstatus, -⟩ := Domain.completeWorkflowStep_new workflow h nextStep
    rw [hstatus]
    by_cases hnext : nextStep ≠ none ∧ nextStep ≠ some ""
    · rw [if_pos hnext]
      refine iff_of_false WorkflowStatus.noConfusion fun hends => ?_
      rcases hends with hrecorded | hnone | hempty
      · exact h hrecorded
      · exact hnext.1 hnone
      · exact hnext.2 hempty
    · rw [if_neg hnext]
      refine iff_of_true rfl (Or.inr ?_)
      by_cases hnone : nextStep = none
      · exact Or.inl hnone
      · exact Or.inr (not_not.mp fun hempty => hnext ⟨hnone, hempty⟩)

/-! ## The step of the repository -/

/-- The repository completes the step at the row's version, among any other transactions. -/
def StepSucceeds (σ : Vault) (context : TenantContext) (workflowId : Identifier)
    (row : WorkflowRow) (step : String) (nextStep : Option String) (after : WorkflowRow) : Prop :=
  ∃ seen ws, (completeWorkflowStep context workflowId row.version step nextStep).Executes seen σ
    [] (.ok after) ws

/-- The statement has changed the row it found. -/
theorem stepSucceeds_iff {σ : Vault} {context : TenantContext} {workflowId : Identifier}
    {row : WorkflowRow} (hrow : σ.get .workflowRuns workflowId = some row) {step : String}
    {nextStep : Option String} {after : WorkflowRow} :
    StepSucceeds σ context workflowId row step nextStep after ↔
      steppedWorkflow context row.version step nextStep row = some after := by
  constructor
  · rintro ⟨seen, ws, hexec⟩
    rw [completeWorkflowStep, executes_bind_ok] at hexec
    obtain ⟨updated, ws₁, hupdate, hrest⟩ := hexec
    cases updated with
    | none => exact absurd hrest.1 (by simp)
    | some found =>
      obtain ⟨old, hold, hchange, -⟩ := executes_updateRow_some hupdate
      rw [Store.overlay_nil, hrow] at hold
      obtain rfl := Option.some.inj hold
      obtain rfl := Except.ok.inj hrest.1
      exact hchange
  · intro hchange
    refine ⟨(· = σ), [⟨.workflowRuns, workflowId, some after⟩], ?_⟩
    rw [completeWorkflowStep, executes_bind_ok]
    refine ⟨some after, _, executes_updateRow.mpr (Or.inl ⟨row, after, ?_, hchange, rfl, rfl⟩),
      rfl, rfl⟩
    rw [Store.overlay_nil, hrow]

/-- The row with a step completed. -/
def WorkflowRow.stepped (step : String) (nextStep : Option String) (row : WorkflowRow) :
    WorkflowRow where
  id := row.id
  organizationId := row.organizationId
  householdId := row.householdId
  kind := row.kind
  idempotencyKey := row.idempotencyKey
  status := if nextStep = none then .completed else .running
  completedSteps := withStep step row.completedSteps
  nextStep := nextStep
  lastErrorClass := none
  subjectType := row.subjectType
  subjectId := row.subjectId
  version := row.version + 1

/-- The repository steps an open row that the caller sees, whatever it records. -/
theorem steppedWorkflow_eq_some {context : TenantContext} {row after : WorkflowRow}
    {step : String} {nextStep : Option String} :
    steppedWorkflow context row.version step nextStep row = some after ↔
      context.sees row ∧ row.status ≠ .completed ∧ after = row.stepped step nextStep := by
  unfold steppedWorkflow
  constructor
  · intro h
    split at h
    case isTrue hguard => exact ⟨hguard.1, hguard.2.2, (Option.some.inj h).symm⟩
    case isFalse => exact absurd h (by simp)
  · intro h
    obtain ⟨hsees, hopen, rfl⟩ := h
    rw [if_pos ⟨hsees, rfl, hopen⟩]
    rfl

/-! ## Agreement -/

/-- Status, completed steps, next step and version of a row are those of a workflow. -/
structure WorkflowRow.Agrees (row : WorkflowRow) (workflow : WorkflowRun) : Prop where
  status : row.status = workflow.status
  completedSteps : row.completedSteps = workflow.completedSteps
  nextStep : row.nextStep = workflow.nextStep
  version : row.version = workflow.version

/-- The two completions of a step agree on the workflow stored under an id. -/
structure StepsAgree (σ : Vault) (context : TenantContext) (workflowId : Identifier)
    (step : String) (nextStep : Option String) : Prop where
  /-- The repository's result is the domain's. -/
  result : ∀ row, σ.get .workflowRuns workflowId = some row → ∀ after,
    StepSucceeds σ context workflowId row step nextStep after →
      after.Agrees (Domain.completeWorkflowStep row.workflowRun step nextStep)
  /-- A recorded step changes nothing. -/
  repeated : ∀ row, σ.get .workflowRuns workflowId = some row → step ∈ row.completedSteps →
    Domain.completeWorkflowStep row.workflowRun step nextStep = row.workflowRun ∧
      ∀ after, StepSucceeds σ context workflowId row step nextStep after →
        after.Agrees row.workflowRun
  /-- A completed workflow stays completed. -/
  terminal : ∀ row, σ.get .workflowRuns workflowId = some row → row.status = .completed →
    (Domain.completeWorkflowStep row.workflowRun step nextStep).status = .completed ∧
      ∀ after, StepSucceeds σ context workflowId row step nextStep after →
        after.status = .completed

/-- A completed workflow is not taken on to another step; an open one the caller sees does not
record the step yet and is not given an empty next step. -/
def WorkflowRow.SteppedAlike (context : TenantContext) (step : String) (nextStep : Option String)
    (row : WorkflowRow) : Prop :=
  if row.status = .completed then
    step ∈ row.completedSteps ∨ nextStep = none ∨ nextStep = some ""
  else context.sees row → step ∉ row.completedSteps ∧ nextStep ≠ some ""

/-- A new step with no empty next step comes to the same in both. -/
theorem WorkflowRow.stepped_agrees {row : WorkflowRow} {step : String}
    {nextStep : Option String} (hnew : step ∉ row.completedSteps) (hnext : nextStep ≠ some "") :
    (row.stepped step nextStep).Agrees
      (Domain.completeWorkflowStep row.workflowRun step nextStep) := by
  obtain ⟨hsteps, hversion, hstatus, hgiven⟩ :=
    Domain.completeWorkflowStep_new row.workflowRun hnew nextStep
  have hgoes : (nextStep ≠ none ∧ nextStep ≠ some "") ↔ ¬ nextStep = none := and_iff_left hnext
  simp only [hgoes, ite_not] at hstatus hgiven
  constructor
  · exact hstatus.symm
  · rw [hsteps]
    exact if_neg hnew
  · rw [hgiven]
    by_cases hnone : nextStep = none
    · exact hnone.trans (if_pos hnone).symm
    · exact (if_neg hnone).symm
  · exact hversion.symm

/-- What the repository makes of a row is the domain's workflow only when the step is new and the
next step is not empty. -/
theorem WorkflowRow.new_of_stepped_agrees {row : WorkflowRow} {step : String}
    {nextStep : Option String}
    (h : (row.stepped step nextStep).Agrees
      (Domain.completeWorkflowStep row.workflowRun step nextStep)) :
    step ∉ row.completedSteps ∧ nextStep ≠ some "" := by
  have hnew : step ∉ row.completedSteps := by
    intro hrecorded
    have hversion := h.version
    rw [Domain.completeWorkflowStep_recorded row.workflowRun hrecorded] at hversion
    exact absurd hversion (Nat.succ_ne_self row.version)
  constructor
  · exact hnew
  · intro hempty
    obtain ⟨-, -, hstatus, -⟩ :=
      Domain.completeWorkflowStep_new row.workflowRun hnew nextStep
    have hsame := h.status.trans hstatus
    rw [hempty] at hsame
    exact absurd hsame nofun

/-- The two completions of a step agree exactly on the workflows of the condition. -/
theorem steps_agree_iff (σ : Vault) (context : TenantContext) (workflowId : Identifier)
    (step : String) (nextStep : Option String) :
    StepsAgree σ context workflowId step nextStep ↔
      ∀ row, σ.get .workflowRuns workflowId = some row →
        row.SteppedAlike context step nextStep := by
  constructor
  · intro h row hrow
    unfold WorkflowRow.SteppedAlike
    by_cases hstatus : row.status = .completed
    · rw [if_pos hstatus]
      exact (Domain.completeWorkflowStep_completed row.workflowRun hstatus step
        nextStep).mp (h.terminal row hrow hstatus).1
    · rw [if_neg hstatus]
      intro hsees
      have hsucceeds : StepSucceeds σ context workflowId row step nextStep
          (row.stepped step nextStep) :=
        (stepSucceeds_iff hrow).mpr (steppedWorkflow_eq_some.mpr ⟨hsees, hstatus, rfl⟩)
      exact WorkflowRow.new_of_stepped_agrees (h.result row hrow _ hsucceeds)
  · intro h
    have hopen : ∀ row, σ.get .workflowRuns workflowId = some row → ∀ after,
        StepSucceeds σ context workflowId row step nextStep after →
          row.status ≠ .completed ∧ step ∉ row.completedSteps ∧ nextStep ≠ some "" ∧
            after = row.stepped step nextStep := by
      intro row hrow after hsucceeds
      obtain ⟨hsees, hstatus, hafter⟩ :=
        steppedWorkflow_eq_some.mp ((stepSucceeds_iff hrow).mp hsucceeds)
      have halike := h row hrow
      rw [WorkflowRow.SteppedAlike, if_neg hstatus] at halike
      obtain ⟨hnew, hnext⟩ := halike hsees
      exact ⟨hstatus, hnew, hnext, hafter⟩
    constructor
    · intro row hrow after hsucceeds
      obtain ⟨-, hnew, hnext, rfl⟩ := hopen row hrow after hsucceeds
      exact WorkflowRow.stepped_agrees hnew hnext
    · intro row hrow hrecorded
      refine ⟨Domain.completeWorkflowStep_recorded row.workflowRun hrecorded nextStep,
        fun after hsucceeds => ?_⟩
      exact absurd hrecorded (hopen row hrow after hsucceeds).2.1
    · intro row hrow hstatus
      have halike := h row hrow
      rw [WorkflowRow.SteppedAlike, if_pos hstatus] at halike
      refine ⟨(Domain.completeWorkflowStep_completed row.workflowRun hstatus step
        nextStep).mpr halike, fun after hsucceeds => ?_⟩
      exact absurd hstatus (hopen row hrow after hsucceeds).1

/-- A deletion whose first step is recorded, in a given status. -/
def exampleSteppedRow (status : WorkflowStatus) : WorkflowRow :=
  ⟨"workflow", "organization", "household", "deletion", "key", status, ["active-database"],
    some "objects", none, none, none, 2⟩

/-- The vault with that workflow. -/
def exampleSteppedVault (status : WorkflowStatus) : Vault :=
  Store.set Store.empty .workflowRuns "workflow" (some (exampleSteppedRow status))

/-- The repository gives a repeated step a new version; the domain takes a completed workflow on
to another step. -/
theorem repeated_step_disagrees :
    ¬ StepsAgree (exampleSteppedVault .running) ⟨"organization", "household", "person"⟩
        "workflow" "active-database" (some "objects") ∧
      ¬ StepsAgree (exampleSteppedVault .completed) ⟨"organization", "household", "person"⟩
        "workflow" "objects" (some "backups") := by
  constructor
  · intro h
    have hrow : (exampleSteppedVault .running).get .workflowRuns "workflow" =
        some (exampleSteppedRow .running) := by
      rw [exampleSteppedVault, Store.get_set_self]
    have hsees : TenantContext.sees ⟨"organization", "household", "person"⟩
        (exampleSteppedRow .running) = true := by decide
    have hsucceeds : StepSucceeds (exampleSteppedVault .running)
        ⟨"organization", "household", "person"⟩ "workflow" (exampleSteppedRow .running)
        "active-database" (some "objects")
        ((exampleSteppedRow .running).stepped "active-database" (some "objects")) :=
      (stepSucceeds_iff hrow).mpr
        (steppedWorkflow_eq_some.mpr ⟨hsees, WorkflowStatus.noConfusion, rfl⟩)
    have hnew := (WorkflowRow.new_of_stepped_agrees (h.result _ hrow _ hsucceeds)).1
    exact hnew (by decide)
  · intro h
    have hrow : (exampleSteppedVault .completed).get .workflowRuns "workflow" =
        some (exampleSteppedRow .completed) := by
      rw [exampleSteppedVault, Store.get_set_self]
    exact absurd (h.terminal _ hrow rfl).1 (by decide)

end LegacyVault
