import LegacyVault.DocumentHistory
import LegacyVault.Library.Workers

/-!
# Runs of persisted workflows

`createPersistedWorkflowHandler`, any number of executions at a time. An
execution reads its workflow, runs the steps that are not completed in their
order, and records each with the version it knows. It may fail or stop at any
point, and a job may be delivered again. Each call of the repository is a
transaction of one statement on one row, so it acts at one moment.

What the steps do is left open.
-/

namespace LegacyVault

open RowTransaction RowTransaction.Program Store Workers

/-! ## The handler -/

/-- `WorkflowJobData`. -/
structure WorkflowJob where
  context : TenantContext
  workflowId : Identifier

/-- Where an execution of the handler stands. -/
inductive RunnerControl where
  /-- Before `getWorkflow`. -/
  | fetching
  /-- In `step.execute`, with the workflow as it knows it and the steps after this one. -/
  | running (workflow : WorkflowRow) (step : String) (rest : List String)
  /-- Before `completeStep`. -/
  | completing (workflow : WorkflowRow) (step : String) (rest : List String)
  /-- Before `recordFailure`. -/
  | failing (errorClass : String)
  | ended

/-- The loop over the steps, up to the next one that is executed. -/
def resume (workflow : WorkflowRow) : List String → RunnerControl
  | [] => .ended
  | step :: rest =>
    if step ∈ workflow.completedSteps then resume workflow rest
    else if workflow.nextStep ≠ none ∧ workflow.nextStep ≠ some step then .failing "Error"
    else .running workflow step rest

/-- The handler once it has read its workflow. -/
def fetched (steps : List String) (workflow : WorkflowRow) : RunnerControl :=
  if workflow.status = .completed then .ended else resume workflow steps

/-- A workflow that `beginWorkflow` inserts. -/
def begunWorkflow (context : TenantContext) (id : Identifier)
    (kind idempotencyKey firstStep : String) : WorkflowRow where
  id := id
  organizationId := context.organizationId
  householdId := context.householdId
  kind := kind
  idempotencyKey := idempotencyKey
  status := .pending
  completedSteps := []
  nextStep := some firstStep
  lastErrorClass := none
  subjectType := none
  subjectId := none
  version := 1

/-- Touch the workflow that has the key already. -/
def touchWorkflow (workflowId : Identifier) (idempotencyKey : String) :
    Transaction WorkflowRow := do
  let touched : Option WorkflowRow ← updateRow (S := vaultSchema) .workflowRuns workflowId
    (fun workflow : WorkflowRow => some { workflow with idempotencyKey := idempotencyKey })
  match touched with
  | some workflow => pure workflow
  | none => failWith "workflow insert returned no row"

/-- `beginWorkflow`, with the new identifier. -/
def beginWorkflow (context : TenantContext) (id : Identifier)
    (kind idempotencyKey firstStep : String) : Transaction WorkflowRow := do
  let existing : Option (Identifier × WorkflowRow) ← select (fun σ : Vault =>
    (σ.scan .workflowRuns).find? (fun entry : Identifier × WorkflowRow =>
      context.sees entry.2 && entry.2.idempotencyKey == idempotencyKey))
  match existing with
  | some entry => touchWorkflow entry.1 idempotencyKey
  | none =>
    insertRow (S := vaultSchema) .workflowRuns id
      (begunWorkflow context id kind idempotencyKey firstStep)
      (.uniqueViolation "workflow_runs_pkey")

/-! ## Executions -/

/-- What is observed of the executions. -/
inductive RunnerEvent where
  /-- A step is called. -/
  | began (execution : Nat) (workflowId : Identifier) (step : String)
  /-- A step has returned. -/
  | returned (execution : Nat) (workflowId : Identifier) (step : String)
  /-- A step is recorded. -/
  | recorded (execution : Nat) (workflowId : Identifier) (step : String)

/-- The committed rows and the executions of the handler. -/
abbrev Runner := Workers Vault WorkflowJob RunnerControl RunnerEvent

/-- The event of an execution that comes to its next step. -/
def RunnerControl.events (execution : Nat) (workflowId : Identifier) :
    RunnerControl → List RunnerEvent
  | running _ step _ => [.began execution workflowId step]
  | _ => []

/-- An execution goes on to its next step, if there is one. -/
def Runner.proceed (s : Runner) (execution : Nat) (job : WorkflowJob) (control : RunnerControl) :
    Runner :=
  (s.observe (control.events execution job.workflowId)).enter execution job control

/-- One transaction, or one event of an execution. -/
inductive RunnerStep (steps : List String) : Runner → Runner → Prop
  /-- A workflow begins with the first of the steps. -/
  | begin {s : Runner} {firstStep : String} (context : TenantContext) (id : Identifier)
      (kind idempotencyKey : String) (hfirst : steps.head? = some firstStep) :
      RunnerStep steps s (s.withRows
        ((beginWorkflow context id kind idempotencyKey firstStep).transact s.rows).2)
  /-- A job is delivered. -/
  | start {s : Runner} (execution : Nat) (job : WorkflowJob)
      (hfree : s.executions execution = none) :
      RunnerStep steps s (s.enter execution job .fetching)
  /-- An execution reads its workflow. -/
  | fetch {s : Runner} {job : WorkflowJob} (execution : Nat) (workflow : WorkflowRow)
      (hcontrol : s.executions execution = some (job, .fetching))
      (hread : ((getWorkflow job.context job.workflowId).transact s.rows).1 = .ok workflow) :
      RunnerStep steps s (Runner.proceed s execution job (fetched steps workflow))
  /-- A step returns. -/
  | return {s : Runner} {job : WorkflowJob} {workflow : WorkflowRow} {step : String}
      {rest : List String} (execution : Nat)
      (hcontrol : s.executions execution = some (job, .running workflow step rest)) :
      RunnerStep steps s ((s.observe [.returned execution job.workflowId step]).enter execution
        job (.completing workflow step rest))
  /-- A step is recorded. The execution goes on, unless it does not learn of it. -/
  | complete {s : Runner} {job : WorkflowJob} {workflow updated : WorkflowRow} {step : String}
      {rest : List String} {rows : Vault} {control : RunnerControl} (execution : Nat)
      (hcontrol : s.executions execution = some (job, .completing workflow step rest))
      (hcomplete : (completeWorkflowStep job.context job.workflowId workflow.version step
        rest.head?).transact s.rows = (.ok updated, rows))
      (hnext : control = resume updated rest ∨ ∃ errorClass, control = .failing errorClass) :
      RunnerStep steps s (Runner.proceed ((s.withRows rows).observe
        [.recorded execution job.workflowId step]) execution job control)
  /-- A read, a step or the record of a step throws. -/
  | fail {s : Runner} {execution : Nat} {job : WorkflowJob} {control : RunnerControl}
      (errorClass : String) (hcontrol : s.executions execution = some (job, control))
      (hended : control ≠ .ended) (hfailing : ∀ errorClass, control ≠ .failing errorClass) :
      RunnerStep steps s (s.enter execution job (.failing errorClass))
  /-- A failure is recorded. -/
  | recordFailure {s : Runner} {execution : Nat} {job : WorkflowJob} {errorClass : String}
      (hcontrol : s.executions execution = some (job, .failing errorClass)) :
      RunnerStep steps s ((s.withRows ((recordWorkflowFailure job.context job.workflowId
        errorClass).transact s.rows).2).enter execution job .ended)
  /-- An execution stops, at any point. -/
  | stop {s : Runner} {execution : Nat} {job : WorkflowJob} {control : RunnerControl}
      (hcontrol : s.executions execution = some (job, control)) :
      RunnerStep steps s (s.enter execution job .ended)

/-- The runner some steps later. -/
def RunnerLater (steps : List String) : Runner → Runner → Prop :=
  Relation.ReflTransGen (RunnerStep steps)

/-! ## What the transactions do -/

theorem getWorkflow_transact {context : TenantContext} {workflowId : Identifier} {σ : Vault}
    {workflow : WorkflowRow}
    (h : ((getWorkflow context workflowId).transact σ).1 = .ok workflow) :
    σ.get .workflowRuns workflowId = some workflow := by
  have hrun : (getWorkflow context workflowId).run σ =
      match (σ.get .workflowRuns workflowId).filter
        (fun workflow : WorkflowRow => context.sees workflow) with
      | some workflow => (.ok workflow, σ)
      | none => (.error (.error "workflow unavailable"), σ) := by
    rw [getWorkflow, run_bind, run_select]
    cases (σ.get .workflowRuns workflowId).filter
      (fun workflow : WorkflowRow => context.sees workflow) <;> rfl
  rw [transact, hrun] at h
  cases hfound : (σ.get .workflowRuns workflowId).filter
      (fun workflow : WorkflowRow => context.sees workflow) with
  | none =>
    rw [hfound] at h
    exact absurd h (by simp)
  | some found =>
    rw [hfound] at h
    obtain rfl : found = workflow := by simpa using h
    exact (Option.filter_eq_some_iff.mp hfound).1

/-- A row that is updated is replaced by the change of it. -/
theorem updateWorkflow_cases (change : WorkflowRow → Option WorkflowRow)
    (workflowId : Identifier) (σ : Vault) :
    (updateRow (S := vaultSchema) (ε := RepositoryError) .workflowRuns workflowId change).run σ =
        (.ok none, σ) ∨
      ∃ before after σ', σ.get .workflowRuns workflowId = some before ∧
        change before = some after ∧
        (updateRow (S := vaultSchema) (ε := RepositoryError) .workflowRuns workflowId
          change).run σ = (.ok (some after), σ') ∧
        Replaces (S := vaultSchema) .workflowRuns workflowId (some after) σ σ' := by
  have hrun := run_updateRow (S := vaultSchema) (ε := RepositoryError) (σ := σ) .workflowRuns
    workflowId change
  cases hafter : (σ.get .workflowRuns workflowId).bind change with
  | none =>
    rw [hafter] at hrun
    exact Or.inl hrun
  | some after =>
    rw [hafter] at hrun
    obtain ⟨before, hbefore, hchange⟩ := Option.bind_eq_some_iff.mp hafter
    exact Or.inr ⟨before, after, _, hbefore, hchange, hrun, replaces_write σ⟩

theorem completeWorkflowStep_transact {context : TenantContext} {workflowId : Identifier}
    {version : Nat} {step : String} {nextStep : Option String} {σ σ' : Vault}
    {updated : WorkflowRow}
    (h : (completeWorkflowStep context workflowId version step nextStep).transact σ =
      (.ok updated, σ')) :
    ∃ before, σ.get .workflowRuns workflowId = some before ∧
      steppedWorkflow context version step nextStep before = some updated ∧
      Replaces (S := vaultSchema) .workflowRuns workflowId (some updated) σ σ' := by
  rcases updateWorkflow_cases (steppedWorkflow context version step nextStep) workflowId σ with
    hnone | ⟨before, after, τ, hbefore, hchange, hsome, hreplaces⟩
  · rw [transact, completeWorkflowStep, run_bind, hnone] at h
    exact absurd h (by simp [failWith])
  · rw [transact, completeWorkflowStep, run_bind, hsome] at h
    obtain ⟨rfl, rfl⟩ : after = updated ∧ τ = σ' := by simpa using h
    exact ⟨before, hbefore, hchange, hreplaces⟩

theorem recordWorkflowFailure_transact (context : TenantContext) (workflowId : Identifier)
    (errorClass : String) (σ : Vault) :
    ((recordWorkflowFailure context workflowId errorClass).transact σ).2 = σ ∨
      ∃ before after, σ.get .workflowRuns workflowId = some before ∧
        failedWorkflow context errorClass before = some after ∧
        Replaces (S := vaultSchema) .workflowRuns workflowId (some after) σ
          ((recordWorkflowFailure context workflowId errorClass).transact σ).2 := by
  rcases updateWorkflow_cases (failedWorkflow context errorClass) workflowId σ with
    hnone | ⟨before, after, τ, hbefore, hchange, hsome, hreplaces⟩
  · rw [transact, recordWorkflowFailure, run_bind, hnone]
    exact Or.inl rfl
  · rw [transact, recordWorkflowFailure, run_bind, hsome]
    exact Or.inr ⟨before, after, hbefore, hchange, hreplaces⟩

/-- A workflow begins in a row of its own, or one that exists is touched. -/
theorem beginWorkflow_transact (context : TenantContext) (id : Identifier)
    (kind idempotencyKey firstStep : String) (σ : Vault) :
    ((beginWorkflow context id kind idempotencyKey firstStep).transact σ).2 = σ ∨
      (σ.get .workflowRuns id = none ∧
        Replaces (S := vaultSchema) .workflowRuns id
          (some (begunWorkflow context id kind idempotencyKey firstStep)) σ
          ((beginWorkflow context id kind idempotencyKey firstStep).transact σ).2) ∨
      ∃ workflowId before, σ.get .workflowRuns workflowId = some before ∧
        Replaces (S := vaultSchema) .workflowRuns workflowId
          (some { before with idempotencyKey := idempotencyKey }) σ
          ((beginWorkflow context id kind idempotencyKey firstStep).transact σ).2 := by
  cases hfound : (σ.scan .workflowRuns).find? (fun entry : Identifier × WorkflowRow =>
      context.sees entry.2 && entry.2.idempotencyKey == idempotencyKey) with
  | none =>
    have hrun : (beginWorkflow context id kind idempotencyKey firstStep).run σ =
        (insertRow (S := vaultSchema) .workflowRuns id
          (begunWorkflow context id kind idempotencyKey firstStep)
          (.uniqueViolation "workflow_runs_pkey")).run σ := by
      rw [beginWorkflow, run_bind, run_select, hfound]
    rw [transact, hrun, run_insertRow]
    cases hrow : σ.get .workflowRuns id with
    | some old => exact Or.inl rfl
    | none => exact Or.inr (Or.inl ⟨rfl, replaces_write σ⟩)
  | some entry =>
    have hrun : (beginWorkflow context id kind idempotencyKey firstStep).run σ =
        (touchWorkflow entry.1 idempotencyKey).run σ := by
      rw [beginWorkflow, run_bind, run_select, hfound]
    rw [transact, hrun, touchWorkflow]
    rcases updateWorkflow_cases (fun workflow : WorkflowRow =>
      some { workflow with idempotencyKey := idempotencyKey }) entry.1 σ with
      hnone | ⟨before, after, τ, hbefore, hchange, hsome, hreplaces⟩
    · rw [run_bind, hnone]
      exact Or.inl rfl
    · rw [run_bind, hsome]
      obtain rfl := Option.some.inj hchange
      exact Or.inr (Or.inr ⟨entry.1, before, hbefore, hreplaces⟩)

/-! ## Order of the steps -/

/-- The workflow has completed the steps up to the remaining ones. -/
structure WorkflowRow.Progress (workflow : WorkflowRow) (steps rest : List String) : Prop where
  completedSteps : workflow.completedSteps ++ rest = steps
  nextStep : workflow.nextStep = rest.head?
  completed : workflow.status = .completed ↔ rest = []

/-- The steps have been recorded for the workflow. -/
def AllRecorded (workflowId : Identifier) (events : List RunnerEvent) (names : List String) :
    Prop :=
  ∀ name ∈ names, ∃ execution, RunnerEvent.recorded execution workflowId name ∈ events

/-- The execution has called the step, after all earlier steps had been recorded. -/
def Begun (steps : List String) (workflowId : Identifier) (events : List RunnerEvent)
    (execution : Nat) (step : String) : Prop :=
  ∃ names rest before, names ++ step :: rest = steps ∧
    (.began execution workflowId step :: before) <:+ events ∧
    AllRecorded workflowId before names

/-- The execution has called the step in its turn, and the step has returned. -/
def Returned (steps : List String) (workflowId : Identifier) (events : List RunnerEvent)
    (execution : Nat) (step : String) : Prop :=
  ∃ before, (.returned execution workflowId step :: before) <:+ events ∧
    Begun steps workflowId before execution step

/-- What is recorded had returned in the execution that recorded it. -/
def RecordedInOrder (steps : List String) (workflowId : Identifier)
    (events : List RunnerEvent) : Prop :=
  ∀ execution step before, (.recorded execution workflowId step :: before) <:+ events →
    Returned steps workflowId before execution step

section Order

variable {steps names rest : List String} {workflowId : Identifier}
  {events events' : List RunnerEvent} {execution : Nat} {step : String}

theorem AllRecorded.later (h : AllRecorded workflowId events names)
    (hlater : events <:+ events') : AllRecorded workflowId events' names := by
  intro name hname
  obtain ⟨other, hother⟩ := h name hname
  exact ⟨other, hlater.subset hother⟩

theorem Begun.later (h : Begun steps workflowId events execution step)
    (hlater : events <:+ events') : Begun steps workflowId events' execution step := by
  obtain ⟨names, rest, before, hsplit, hbegan, hrecorded⟩ := h
  exact ⟨names, rest, before, hsplit, hbegan.trans hlater, hrecorded⟩

theorem Returned.later (h : Returned steps workflowId events execution step)
    (hlater : events <:+ events') : Returned steps workflowId events' execution step := by
  obtain ⟨before, hreturned, hbegun⟩ := h
  exact ⟨before, hreturned.trans hlater, hbegun⟩

/-- An event that records nothing keeps the order. -/
theorem RecordedInOrder.cons {event : RunnerEvent} (h : RecordedInOrder steps workflowId events)
    (hevent : ∀ execution step, event = .recorded execution workflowId step →
      Returned steps workflowId events execution step) :
    RecordedInOrder steps workflowId (event :: events) := by
  intro execution step before hbefore
  rcases List.suffix_cons_iff.mp hbefore with heq | hsuffix
  · obtain ⟨hhead, rfl⟩ := List.cons.inj heq
    exact hevent execution step hhead.symm
  · exact h execution step before hsuffix

/-- The completed steps are passed over. -/
theorem resume_completed (known : WorkflowRow) (rest : List String) :
    ∀ names : List String, (∀ name ∈ names, name ∈ known.completedSteps) →
      resume known (names ++ rest) = resume known rest
  | [], _ => rfl
  | name :: names, h => by
    rw [List.cons_append, resume, if_pos (h name List.mem_cons_self)]
    exact resume_completed known rest names
      (fun other hother => h other (List.mem_cons_of_mem _ hother))

/-- The next step is run. -/
theorem resume_next {known : WorkflowRow} (hunique : steps.Nodup)
    (h : known.Progress steps (step :: rest)) :
    resume known (step :: rest) = .running known step rest := by
  have hnew : step ∉ known.completedSteps := by
    intro hmem
    have hdisjoint := List.disjoint_of_nodup_append (h.completedSteps.symm ▸ hunique)
    exact hdisjoint hmem List.mem_cons_self
  have hnext : known.nextStep = some step := h.nextStep
  rw [resume, if_neg hnew, if_neg (by simp [hnext])]

/-- A workflow that is read and not completed goes on with its next step. -/
theorem fetched_eq {known : WorkflowRow} (hunique : steps.Nodup)
    (h : known.Progress steps rest) :
    fetched steps known = .ended ∨ ∃ step later, rest = step :: later ∧
      fetched steps known = .running known step later := by
  by_cases hcompleted : known.status = .completed
  · exact Or.inl (if_pos hcompleted)
  · cases rest with
    | nil => exact absurd (h.completed.mpr rfl) hcompleted
    | cons step later =>
      refine Or.inr ⟨step, later, rfl, ?_⟩
      have hresume : resume known steps = resume known (step :: later) := by
        conv_lhs => rw [← h.completedSteps]
        exact resume_completed known _ _ (fun _ hname => hname)
      rw [fetched, if_neg hcompleted, hresume, resume_next hunique h]

/-- A workflow whose step is recorded goes on with the step after it. -/
theorem resume_recorded {updated : WorkflowRow} (hunique : steps.Nodup)
    (h : updated.Progress steps rest) :
    resume updated rest = .ended ∨ ∃ step later, rest = step :: later ∧
      resume updated rest = .running updated step later := by
  cases rest with
  | nil => exact Or.inl rfl
  | cons step later => exact Or.inr ⟨step, later, rfl, resume_next hunique h⟩

end Order

/-! ## Steps of the rows -/

section Rows

variable {steps rest : List String} {context : TenantContext} {before after : WorkflowRow}

/-- A workflow that begins has all of its steps before it. -/
theorem begunWorkflow_progress {firstStep : String} (hfirst : steps.head? = some firstStep)
    (id : Identifier) (kind idempotencyKey : String) :
    (begunWorkflow context id kind idempotencyKey firstStep).Progress steps steps where
  completedSteps := rfl
  nextStep := hfirst.symm
  completed := by
    refine ⟨fun h => absurd h (by simp [begunWorkflow]), fun h => ?_⟩
    rw [h] at hfirst
    exact absurd hfirst (by simp)

/-- The step that is recorded is the first of those that remain. -/
theorem steppedWorkflow_progress {version : Nat} {step : String} (hunique : steps.Nodup)
    (h : before.Progress steps (step :: rest))
    (hstepped : steppedWorkflow context version step rest.head? before = some after) :
    after.Progress steps rest ∧ after.completedSteps = before.completedSteps ++ [step] := by
  unfold steppedWorkflow at hstepped
  split at hstepped
  · obtain rfl := Option.some.inj hstepped
    have hnew : step ∉ before.completedSteps := fun hmem =>
      List.disjoint_of_nodup_append (h.completedSteps.symm ▸ hunique) hmem List.mem_cons_self
    have hcompleted : withStep step before.completedSteps = before.completedSteps ++ [step] :=
      if_neg hnew
    refine ⟨⟨?_, rfl, ?_⟩, hcompleted⟩
    · rw [← h.completedSteps, hcompleted, List.append_assoc, List.singleton_append]
    · cases rest <;> simp
  · exact absurd hstepped (by simp)

theorem steppedWorkflow_version {version : Nat} {step : String} {nextStep : Option String}
    (h : steppedWorkflow context version step nextStep before = some after) :
    before.version = version ∧ before.status ≠ .completed ∧ after.version = before.version + 1 := by
  unfold steppedWorkflow at h
  split at h
  · rename_i hguard
    obtain rfl := Option.some.inj h
    exact ⟨hguard.2.1, hguard.2.2, rfl⟩
  · exact absurd h (by simp)

/-- A failure leaves the steps as they are. -/
theorem failedWorkflow_progress {errorClass : String} (h : before.Progress steps rest)
    (hfailed : failedWorkflow context errorClass before = some after) :
    after.Progress steps rest ∧ after.completedSteps = before.completedSteps ∧
      before.status ≠ .completed ∧ after.version = before.version + 1 := by
  unfold failedWorkflow at hfailed
  split at hfailed
  · rename_i hguard
    obtain rfl := Option.some.inj hfailed
    refine ⟨⟨h.completedSteps, h.nextStep, ?_⟩, rfl, hguard.2, rfl⟩
    exact ⟨fun hstatus => absurd hstatus (by simp),
      fun hrest => absurd (h.completed.mpr hrest) hguard.2⟩
  · exact absurd hfailed (by simp)

end Rows

/-- A workflow as a later moment has it. -/
structure WorkflowRow.Advances (before after : WorkflowRow) : Prop where
  version : before.version ≤ after.version
  completedSteps : before.version = after.version →
    after.completedSteps = before.completedSteps
  completed : before.status = .completed → after.status = .completed

theorem WorkflowRow.Advances.refl (workflow : WorkflowRow) : workflow.Advances workflow :=
  ⟨le_rfl, fun _ => rfl, fun h => h⟩

theorem WorkflowRow.Advances.trans (a b c : WorkflowRow) (h : a.Advances b) (h' : b.Advances c) :
    a.Advances c where
  version := h.version.trans h'.version
  completedSteps := by
    intro hversion
    have hfirst : a.version = b.version :=
      le_antisymm h.version (h'.version.trans hversion.symm.le)
    have hsecond : b.version = c.version := hfirst.symm.trans hversion
    exact (h'.completedSteps hsecond).trans (h.completedSteps hfirst)
  completed := fun hstatus => h'.completed (h.completed hstatus)

theorem steppedWorkflow_advances {context : TenantContext} {version : Nat} {step : String}
    {nextStep : Option String} {before after : WorkflowRow}
    (h : steppedWorkflow context version step nextStep before = some after) :
    before.Advances after := by
  obtain ⟨-, hopen, hversion⟩ := steppedWorkflow_version h
  refine ⟨hversion ▸ Nat.le_succ _, fun heq => ?_, fun hstatus => absurd hstatus hopen⟩
  rw [hversion] at heq
  exact absurd heq (Nat.ne_of_lt (Nat.lt_succ_self _))

theorem failedWorkflow_advances {context : TenantContext} {errorClass : String}
    {before after : WorkflowRow} (h : failedWorkflow context errorClass before = some after) :
    before.Advances after := by
  unfold failedWorkflow at h
  split at h
  · rename_i hguard
    obtain rfl := Option.some.inj h
    exact ⟨Nat.le_succ _, fun _ => rfl, fun hstatus => absurd hstatus hguard.2⟩
  · exact absurd h (by simp)

/-- The workflows of an earlier moment are there, and have advanced. -/
abbrev WorkflowsAdvance (σ σ' : Vault) : Prop :=
  Keeps (S := vaultSchema) .workflowRuns WorkflowRow.Advances σ σ'

theorem WorkflowsAdvance.refl (σ : Vault) : WorkflowsAdvance σ σ :=
  (SameRows.refl (S := vaultSchema) .workflowRuns σ).keeps WorkflowRow.Advances.refl

/-- A workflow that is replaced by a later one advances. -/
theorem WorkflowsAdvance.replaced {workflowId : Identifier} {before after : WorkflowRow}
    {σ σ' : Vault} (hbefore : σ.get .workflowRuns workflowId = some before)
    (h : before.Advances after)
    (hreplaces : Replaces (S := vaultSchema) .workflowRuns workflowId (some after) σ σ') :
    WorkflowsAdvance σ σ' := by
  refine hreplaces.keeps WorkflowRow.Advances.refl (fun other hother => ?_)
  obtain rfl := Option.some.inj (hbefore.symm.trans hother)
  exact h

/-- Every step of the runner advances the workflows. -/
theorem RunnerStep.workflowsAdvance {steps : List String} {s s' : Runner}
    (h : RunnerStep steps s s') : WorkflowsAdvance s.rows s'.rows := by
  cases h with
  | begin context id kind idempotencyKey _ =>
    rcases beginWorkflow_transact context id kind idempotencyKey _ s.rows with
      hsame | ⟨hfree, hreplaces⟩ | ⟨workflowId, before, hbefore, hreplaces⟩
    · rw [withRows, hsame]
      exact WorkflowsAdvance.refl _
    · refine hreplaces.keeps WorkflowRow.Advances.refl (fun other hother => ?_)
      exact absurd (hfree.symm.trans hother) (by simp)
    · have htouched : before.Advances { before with idempotencyKey := idempotencyKey } :=
        ⟨le_rfl, fun _ => rfl, fun h => h⟩
      exact WorkflowsAdvance.replaced hbefore htouched hreplaces
  | complete _ _ hcomplete _ =>
    obtain ⟨before, hbefore, hstepped, hreplaces⟩ := completeWorkflowStep_transact hcomplete
    exact WorkflowsAdvance.replaced hbefore (steppedWorkflow_advances hstepped) hreplaces
  | @recordFailure _ job errorClass _ =>
    rcases recordWorkflowFailure_transact job.context job.workflowId errorClass s.rows with
      hsame | ⟨before, after, hbefore, hfailed, hreplaces⟩
    · rw [enter, withRows, hsame]
      exact WorkflowsAdvance.refl _
    · exact WorkflowsAdvance.replaced hbefore (failedWorkflow_advances hfailed) hreplaces
  | start | fetch | «return» | fail | stop => exact WorkflowsAdvance.refl _

/-! ## Invariant -/

/-- What an execution knows of its workflow is of an earlier moment. -/
def Knows (rows : Vault) (workflowId : Identifier) (known : WorkflowRow) : Prop :=
  ∃ row, rows.get .workflowRuns workflowId = some row ∧ known.Advances row

/-- Where an execution of the workflow may stand. -/
def ControlInvariant (steps : List String) (workflowId : Identifier) (rows : Vault)
    (events : List RunnerEvent) (execution : Nat) : RunnerControl → Prop
  | .running known step rest =>
    Knows rows workflowId known ∧ known.Progress steps (step :: rest) ∧
      Begun steps workflowId events execution step
  | .completing known step rest =>
    Knows rows workflowId known ∧ known.Progress steps (step :: rest) ∧
      Returned steps workflowId events execution step
  | _ => True

/-- What holds of one workflow after any steps of the runner. -/
structure RunnerInvariant (steps : List String) (workflowId : Identifier) (s : Runner) : Prop where
  row : ∀ row, s.rows.get .workflowRuns workflowId = some row →
    (∃ rest, row.Progress steps rest) ∧ AllRecorded workflowId s.events row.completedSteps
  control : s.Standing (fun rows events execution job control =>
    job.workflowId = workflowId →
      ControlInvariant steps workflowId rows events execution control)
  ordered : RecordedInOrder steps workflowId s.events

section Invariant

variable {steps : List String} {workflowId : Identifier} {s s' : Runner}

theorem Knows.later {rows rows' : Vault} {known : WorkflowRow} (h : Knows rows workflowId known)
    (hlater : WorkflowsAdvance rows rows') : Knows rows' workflowId known := by
  obtain ⟨row, hrow, hadvances⟩ := h
  obtain ⟨after, hafter, hmore⟩ := hlater workflowId row hrow
  exact ⟨after, hafter, WorkflowRow.Advances.trans _ _ _ hadvances hmore⟩

theorem ControlInvariant.later {rows rows' : Vault} {events events' : List RunnerEvent}
    {execution : Nat} {control : RunnerControl}
    (h : ControlInvariant steps workflowId rows events execution control)
    (hrows : WorkflowsAdvance rows rows') (hevents : events <:+ events') :
    ControlInvariant steps workflowId rows' events' execution control := by
  cases control with
  | running known step rest => exact ⟨h.1.later hrows, h.2.1, h.2.2.later hevents⟩
  | completing known step rest => exact ⟨h.1.later hrows, h.2.1, h.2.2.later hevents⟩
  | fetching | failing | ended => trivial

/-- The rows and what is observed go on while the executions stand. -/
theorem RunnerInvariant.advance (h : RunnerInvariant steps workflowId s)
    (hexecutions : s'.executions = s.executions) (hrows : WorkflowsAdvance s.rows s'.rows)
    (hevents : s.events <:+ s'.events)
    (hrow : ∀ row, s'.rows.get .workflowRuns workflowId = some row →
      (∃ rest, row.Progress steps rest) ∧ AllRecorded workflowId s'.events row.completedSteps)
    (hordered : RecordedInOrder steps workflowId s'.events) :
    RunnerInvariant steps workflowId s' where
  row := hrow
  control := h.control.later hexecutions
    (fun _ _ _ hallowed hjob => (hallowed hjob).later hrows hevents)
  ordered := hordered

/-- An execution goes on to where it may stand. -/
theorem RunnerInvariant.enter (h : RunnerInvariant steps workflowId s) {execution : Nat}
    {job : WorkflowJob} {control : RunnerControl}
    (hcontrol : job.workflowId = workflowId →
      ControlInvariant steps workflowId s.rows s.events execution control) :
    RunnerInvariant steps workflowId (s.enter execution job control) :=
  ⟨h.row, h.control.enter hcontrol, h.ordered⟩

/-- An execution goes on to its next step. -/
theorem RunnerInvariant.proceed (h : RunnerInvariant steps workflowId s) {execution : Nat}
    {job : WorkflowJob} {control : RunnerControl}
    (hcontrol : job.workflowId = workflowId → ControlInvariant steps workflowId s.rows
      (control.events execution job.workflowId ++ s.events) execution control) :
    RunnerInvariant steps workflowId (Runner.proceed s execution job control) := by
  have hsuffix : s.events <:+ (s.observe (control.events execution job.workflowId)).events :=
    List.suffix_append _ _
  have hobserved : RunnerInvariant steps workflowId
      (s.observe (control.events execution job.workflowId)) := by
    refine h.advance rfl (WorkflowsAdvance.refl _) hsuffix (fun row hrow => ?_) ?_
    · obtain ⟨hprogress, hrecorded⟩ := h.row row hrow
      exact ⟨hprogress, hrecorded.later hsuffix⟩
    · cases control with
      | running known step rest =>
        exact h.ordered.cons (fun execution step hevent => absurd hevent (by simp))
      | fetching | completing | failing | ended => exact h.ordered
  exact hobserved.enter hcontrol

/-- An execution that knows the row as it is calls the next step in its turn. -/
theorem controlInvariant_next {rows : Vault} {events : List RunnerEvent} {execution : Nat}
    {known : WorkflowRow} {rest : List String} {control : RunnerControl}
    (hknown : rows.get .workflowRuns workflowId = some known)
    (hprogress : known.Progress steps rest)
    (hrecorded : AllRecorded workflowId events known.completedSteps)
    (hcontrol : control = .ended ∨ ∃ step later, rest = step :: later ∧
      control = .running known step later) :
    ControlInvariant steps workflowId rows (control.events execution workflowId ++ events)
      execution control := by
  rcases hcontrol with rfl | ⟨step, later, rfl, rfl⟩
  · trivial
  · refine ⟨⟨known, hknown, WorkflowRow.Advances.refl _⟩, hprogress, ?_⟩
    exact ⟨known.completedSteps, later, events, hprogress.completedSteps,
      List.suffix_rfl, hrecorded⟩

/-- The invariant after a transaction that records nothing. -/
theorem RunnerInvariant.withRows (h : RunnerInvariant steps workflowId s) {rows : Vault}
    (hadvance : WorkflowsAdvance s.rows rows)
    (hrow : ∀ row, rows.get .workflowRuns workflowId = some row →
      (∃ rest, row.Progress steps rest) ∧ AllRecorded workflowId s.events row.completedSteps) :
    RunnerInvariant steps workflowId (s.withRows rows) :=
  h.advance rfl hadvance List.suffix_rfl hrow h.ordered

/-- A workflow begins, or is there already. -/
theorem RunnerInvariant.begin (h : RunnerInvariant steps workflowId s) {firstStep : String}
    (context : TenantContext) (id : Identifier) (kind idempotencyKey : String)
    (hfirst : steps.head? = some firstStep) :
    RunnerInvariant steps workflowId (s.withRows
      ((beginWorkflow context id kind idempotencyKey firstStep).transact s.rows).2) := by
  refine h.withRows (RunnerStep.begin context id kind idempotencyKey hfirst).workflowsAdvance
    (fun row hrow => ?_)
  rcases beginWorkflow_transact context id kind idempotencyKey firstStep s.rows with
    hsame | ⟨-, hreplaces⟩ | ⟨other, before, hbefore, hreplaces⟩
  · rw [hsame] at hrow
    exact h.row row hrow
  · rcases hreplaces.get_cases workflowId with ⟨-, hnew⟩ | ⟨-, hold⟩
    · obtain rfl := Option.some.inj (hnew.symm.trans hrow)
      exact ⟨⟨steps, begunWorkflow_progress hfirst id kind idempotencyKey⟩,
        fun name hname => absurd hname (by simp [begunWorkflow])⟩
    · exact h.row row (hold.symm.trans hrow)
  · rcases hreplaces.get_cases workflowId with ⟨rfl, hnew⟩ | ⟨-, hold⟩
    · obtain rfl := Option.some.inj (hnew.symm.trans hrow)
      obtain ⟨⟨rest, hprogress⟩, hrecorded⟩ := h.row before hbefore
      exact ⟨⟨rest, hprogress.completedSteps, hprogress.nextStep, hprogress.completed⟩, hrecorded⟩
    · exact h.row row (hold.symm.trans hrow)

/-- A failure is recorded, unless the workflow is completed. -/
theorem RunnerInvariant.recordFailure (h : RunnerInvariant steps workflowId s)
    (context : TenantContext) (failedId : Identifier) (errorClass : String) :
    RunnerInvariant steps workflowId (s.withRows
      ((recordWorkflowFailure context failedId errorClass).transact s.rows).2) := by
  rcases recordWorkflowFailure_transact context failedId errorClass s.rows with
    hsame | ⟨before, after, hbefore, hfailed, hreplaces⟩
  · rw [hsame]
    exact h
  · refine h.withRows
      (WorkflowsAdvance.replaced hbefore (failedWorkflow_advances hfailed) hreplaces)
      (fun row hrow => ?_)
    rcases hreplaces.get_cases workflowId with ⟨rfl, hnew⟩ | ⟨-, hold⟩
    · obtain rfl := Option.some.inj (hnew.symm.trans hrow)
      obtain ⟨⟨rest, hprogress⟩, hrecorded⟩ := h.row before hbefore
      obtain ⟨hafter, hcompleted, -, -⟩ := failedWorkflow_progress hprogress hfailed
      exact ⟨⟨rest, hafter⟩, hcompleted ▸ hrecorded⟩
    · exact h.row row (hold.symm.trans hrow)

/-- The row whose step is recorded is the one the execution knows. -/
theorem RunnerInvariant.stepped (h : RunnerInvariant steps workflowId s) (hunique : steps.Nodup)
    {context : TenantContext} {known before updated : WorkflowRow} {step : String}
    {rest : List String} (hknows : Knows s.rows workflowId known)
    (hknown : known.Progress steps (step :: rest))
    (hbefore : s.rows.get .workflowRuns workflowId = some before)
    (hstepped : steppedWorkflow context known.version step rest.head? before = some updated) :
    updated.Progress steps rest ∧ updated.completedSteps = before.completedSteps ++ [step] := by
  obtain ⟨row, hrow, hadvances⟩ := hknows
  obtain rfl := Option.some.inj (hrow.symm.trans hbefore)
  have hsteps : row.completedSteps = known.completedSteps :=
    hadvances.completedSteps (steppedWorkflow_version hstepped).1.symm
  obtain ⟨⟨rest', hprogress⟩, -⟩ := h.row row hrow
  have hrest : rest' = step :: rest := by
    have hsame := hprogress.completedSteps.trans hknown.completedSteps.symm
    rw [hsteps] at hsame
    exact List.append_cancel_left hsame
  exact steppedWorkflow_progress hunique (hrest ▸ hprogress) hstepped

/-- A step is recorded, in its turn. -/
theorem RunnerInvariant.complete (h : RunnerInvariant steps workflowId s) (hunique : steps.Nodup)
    {execution : Nat} {job : WorkflowJob} {known updated : WorkflowRow} {step : String}
    {rest : List String} {rows : Vault}
    (hcontrol : s.executions execution = some (job, .completing known step rest))
    (hcomplete : (completeWorkflowStep job.context job.workflowId known.version step
      rest.head?).transact s.rows = (.ok updated, rows)) :
    RunnerInvariant steps workflowId ((s.withRows rows).observe
        [.recorded execution job.workflowId step]) ∧
      (job.workflowId = workflowId → rows.get .workflowRuns workflowId = some updated ∧
        updated.Progress steps rest ∧ AllRecorded workflowId
          (.recorded execution job.workflowId step :: s.events) updated.completedSteps) := by
  obtain ⟨before, hbefore, hstepped, hreplaces⟩ := completeWorkflowStep_transact hcomplete
  have hadvance := WorkflowsAdvance.replaced hbefore (steppedWorkflow_advances hstepped) hreplaces
  have hsuffix : s.events <:+ RunnerEvent.recorded execution job.workflowId step :: s.events :=
    List.suffix_cons _ _
  by_cases hjob : job.workflowId = workflowId
  · subst hjob
    obtain ⟨hknows, hknown, hreturned⟩ := h.control execution job _ hcontrol rfl
    obtain ⟨hprogress, hcompleted⟩ := h.stepped hunique hknows hknown hbefore hstepped
    have hrecorded : AllRecorded job.workflowId
        (.recorded execution job.workflowId step :: s.events) updated.completedSteps := by
      intro name hname
      rw [hcompleted] at hname
      rcases List.mem_append.mp hname with hold | hnew
      · exact (h.row before hbefore).2.later hsuffix name hold
      · exact ⟨execution, List.mem_singleton.mp hnew ▸ List.mem_cons_self⟩
    refine ⟨h.advance rfl hadvance hsuffix (fun row hrow => ?_) (h.ordered.cons ?_),
      fun _ => ⟨hreplaces.row, hprogress, hrecorded⟩⟩
    · obtain rfl := Option.some.inj (hreplaces.row.symm.trans hrow)
      exact ⟨⟨rest, hprogress⟩, hrecorded⟩
    · intro other name hevent
      obtain ⟨rfl, -, rfl⟩ := RunnerEvent.recorded.inj hevent
      exact hreturned
  · refine ⟨h.advance rfl hadvance hsuffix (fun row hrow => ?_) (h.ordered.cons ?_),
      fun hsame => absurd hsame hjob⟩
    · rw [observe, Workers.withRows, hreplaces.others workflowId (Ne.symm hjob)] at hrow
      obtain ⟨hprogress, hrecorded⟩ := h.row row hrow
      exact ⟨hprogress, hrecorded.later hsuffix⟩
    · intro other name hevent
      exact absurd (RunnerEvent.recorded.inj hevent).2.1 hjob

/-- Every step of the runner keeps the invariant. -/
theorem RunnerInvariant.step (hunique : steps.Nodup) (h : RunnerInvariant steps workflowId s)
    (hstep : RunnerStep steps s s') : RunnerInvariant steps workflowId s' := by
  cases hstep with
  | begin context id kind idempotencyKey hfirst =>
    exact h.begin context id kind idempotencyKey hfirst
  | start _ job _ => exact h.enter (fun _ => trivial)
  | fetch _ _ _ hread =>
    refine h.proceed (fun hjob => ?_)
    subst hjob
    have hrow := getWorkflow_transact hread
    obtain ⟨⟨rest, hprogress⟩, hrecorded⟩ := h.row _ hrow
    exact controlInvariant_next hrow hprogress hrecorded (fetched_eq hunique hprogress)
  | @«return» job known step rest execution hcontrol =>
    have hsuffix : s.events <:+ RunnerEvent.returned execution job.workflowId step :: s.events :=
      List.suffix_cons _ _
    have hobserved : RunnerInvariant steps workflowId
        (s.observe [.returned execution job.workflowId step]) := by
      refine h.advance rfl (WorkflowsAdvance.refl _) hsuffix (fun row hrow => ?_)
        (h.ordered.cons (fun _ _ hevent => absurd hevent (by simp)))
      obtain ⟨hprogress, hrecorded⟩ := h.row row hrow
      exact ⟨hprogress, hrecorded.later hsuffix⟩
    refine hobserved.enter (fun hjob => ?_)
    subst hjob
    obtain ⟨hknows, hknown, hbegun⟩ := h.control execution job _ hcontrol rfl
    exact ⟨hknows, hknown, s.events, List.suffix_rfl, hbegun⟩
  | complete _ hcontrol hcomplete hnext =>
    obtain ⟨hobserved, hupdated⟩ := h.complete hunique hcontrol hcomplete
    refine hobserved.proceed (fun hjob => ?_)
    obtain ⟨hrow, hprogress, hrecorded⟩ := hupdated hjob
    subst hjob
    rcases hnext with rfl | ⟨errorClass, rfl⟩
    · exact controlInvariant_next hrow hprogress hrecorded (resume_recorded hunique hprogress)
    · trivial
  | fail => exact h.enter (fun _ => trivial)
  | recordFailure _ => exact (h.recordFailure _ _ _).enter (fun _ => trivial)
  | stop _ => exact h.enter (fun _ => trivial)

end Invariant

theorem runnerInvariant_idle {steps : List String} {workflowId : Identifier} {init : Vault}
    (hnew : init.get .workflowRuns workflowId = none) :
    RunnerInvariant steps workflowId (Workers.idle init) where
  row := fun _ hrow => absurd (hnew.symm.trans hrow) (by simp)
  control := standing_idle init
  ordered := by
    intro execution step before hbefore
    exact absurd (List.suffix_nil.mp hbefore) (by simp)

theorem RunnerLater.invariant {steps : List String} {workflowId : Identifier} {init : Vault}
    {s : Runner} (hunique : steps.Nodup) (hnew : init.get .workflowRuns workflowId = none)
    (h : RunnerLater steps (Workers.idle init) s) : RunnerInvariant steps workflowId s := by
  induction h with
  | refl => exact runnerInvariant_idle hnew
  | tail _ hstep ih => exact ih.step hunique hstep

/-! ## Completed workflows -/

/-- Steps are called by executions that have started. -/
def BegunStarted (s : Runner) : Prop :=
  ∀ execution workflowId step, RunnerEvent.began execution workflowId step ∈ s.events →
    s.executions execution ≠ none

section Completed

variable {steps : List String} {workflowId : Identifier} {execution : Nat} {s s' : Runner}

theorem BegunStarted.enter (h : BegunStarted s) (execution : Nat) (job : WorkflowJob)
    (control : RunnerControl) : BegunStarted (s.enter execution job control) :=
  fun other workflowId step hbegan => enter_started (h other workflowId step hbegan)

theorem BegunStarted.proceed (h : BegunStarted s) (execution : Nat) (job : WorkflowJob)
    (control : RunnerControl) : BegunStarted (Runner.proceed s execution job control) := by
  intro other workflowId step hbegan
  rcases List.mem_append.mp hbegan with hnew | hold
  · cases control with
    | running known step' rest =>
      obtain ⟨rfl, -, -⟩ := RunnerEvent.began.inj (List.mem_singleton.mp hnew)
      exact enter_started_self
    | fetching | completing | failing | ended => exact absurd hnew List.not_mem_nil
  · exact enter_started (h other workflowId step hold)

theorem BegunStarted.observe (h : BegunStarted s) {event : RunnerEvent}
    (hevent : ∀ execution workflowId step, event ≠ .began execution workflowId step) :
    BegunStarted (s.observe [event]) := by
  intro execution workflowId step hbegan
  rcases List.mem_cons.mp hbegan with heq | hold
  · exact absurd heq.symm (hevent execution workflowId step)
  · exact h execution workflowId step hold

theorem BegunStarted.step (h : BegunStarted s) (hstep : RunnerStep steps s s') :
    BegunStarted s' := by
  cases hstep with
  | begin => exact h
  | «return» =>
    exact (h.observe (fun _ _ _ => RunnerEvent.noConfusion)).enter _ _ _
  | complete =>
    have hrows : BegunStarted (s.withRows _) := h
    exact (hrows.observe (fun _ _ _ => RunnerEvent.noConfusion)).proceed _ _ _
  | recordFailure =>
    have hrows : BegunStarted (s.withRows _) := h
    exact hrows.enter _ _ _
  | fetch => exact h.proceed _ _ _
  | start | fail | stop => exact h.enter _ _ _

theorem RunnerLater.begunStarted {init : Vault} (h : RunnerLater steps (Workers.idle init) s) :
    BegunStarted s := by
  induction h with
  | refl => exact fun _ _ _ hbegan => absurd hbegan List.not_mem_nil
  | tail _ hstep ih => exact ih.step hstep

/-- An execution that stands before the steps or after them. -/
def RunnerControl.Idle : RunnerControl → Prop
  | running _ _ _ => False
  | completing _ _ _ => False
  | _ => True

/-- The workflow is completed, and the execution has not called a step of it. -/
structure Refrains (workflowId : Identifier) (execution : Nat) (s : Runner) : Prop where
  completed : ∃ row, s.rows.get .workflowRuns workflowId = some row ∧ row.status = .completed
  idle : s.Standing (fun _ _ other job control =>
    other = execution → job.workflowId = workflowId → control.Idle)
  never : ∀ step, RunnerEvent.began execution workflowId step ∉ s.events

theorem Refrains.enter (h : Refrains workflowId execution s) {other : Nat} {job : WorkflowJob}
    {control : RunnerControl}
    (hcontrol : other = execution → job.workflowId = workflowId → control.Idle) :
    Refrains workflowId execution (s.enter other job control) :=
  ⟨h.completed, h.idle.enter hcontrol, h.never⟩

theorem Refrains.observe (h : Refrains workflowId execution s) {events : List RunnerEvent}
    (hevents : ∀ step, RunnerEvent.began execution workflowId step ∉ events) :
    Refrains workflowId execution (s.observe events) where
  completed := h.completed
  idle := h.idle
  never := by
    intro step hbegan
    rcases List.mem_append.mp hbegan with hnew | hold
    · exact hevents step hnew
    · exact h.never step hold

theorem Refrains.proceed (h : Refrains workflowId execution s) {other : Nat} {job : WorkflowJob}
    {control : RunnerControl}
    (hcontrol : other = execution → job.workflowId = workflowId → control.Idle) :
    Refrains workflowId execution (Runner.proceed s other job control) := by
  refine (h.observe (fun step hbegan => ?_)).enter hcontrol
  cases control with
  | running known step' rest =>
    obtain ⟨hexecution, hworkflow, -⟩ := RunnerEvent.began.inj (List.mem_singleton.mp hbegan)
    exact hcontrol hexecution.symm hworkflow.symm
  | fetching | completing | failing | ended => exact absurd hbegan List.not_mem_nil

theorem Refrains.withRows (h : Refrains workflowId execution s) {rows : Vault}
    (hadvance : WorkflowsAdvance s.rows rows) :
    Refrains workflowId execution (s.withRows rows) where
  completed := by
    obtain ⟨row, hrow, hstatus⟩ := h.completed
    obtain ⟨after, hafter, hadvances⟩ := hadvance workflowId row hrow
    exact ⟨after, hafter, hadvances.completed hstatus⟩
  idle := h.idle
  never := h.never

theorem Refrains.step (h : Refrains workflowId execution s) (hstep : RunnerStep steps s s') :
    Refrains workflowId execution s' := by
  have hadvance := hstep.workflowsAdvance
  cases hstep with
  | begin => exact h.withRows hadvance
  | start _ job hfree => exact h.enter (fun _ _ => trivial)
  | fetch _ _ hcontrol hread =>
    refine h.proceed (fun _ hjob => ?_)
    -- The row that is read is the completed one.
    subst hjob
    obtain ⟨row, hrow, hstatus⟩ := h.completed
    obtain rfl := Option.some.inj (hrow.symm.trans (getWorkflow_transact hread))
    rw [fetched, if_pos hstatus]
    trivial
  | «return» _ hcontrol =>
    refine (h.observe (fun step hbegan => ?_)).enter
      (fun hsame hjob => absurd (h.idle _ _ _ hcontrol hsame hjob) id)
    exact RunnerEvent.noConfusion (List.mem_singleton.mp hbegan)
  | complete _ hcontrol hcomplete hnext =>
    refine ((h.withRows hadvance).observe (fun step hbegan => ?_)).proceed
      (fun hsame hjob => absurd (h.idle _ _ _ hcontrol hsame hjob) id)
    exact RunnerEvent.noConfusion (List.mem_singleton.mp hbegan)
  | fail => exact h.enter (fun _ _ => trivial)
  | recordFailure => exact (h.withRows hadvance).enter (fun _ _ => trivial)
  | stop => exact h.enter (fun _ _ => trivial)

theorem Refrains.later (h : Refrains workflowId execution s) (hlater : RunnerLater steps s s') :
    Refrains workflowId execution s' := by
  induction hlater with
  | refl => exact h
  | tail _ hstep ih => exact ih.step hstep

end Completed

/-- After any steps of the runner a workflow has completed a prefix of its steps, all of them
recorded by executions, and goes on with the step that follows. It is completed when no step
remains. A step is recorded by an execution in which it was called after all earlier steps were
recorded, and has returned. Once the workflow is completed, an execution that starts later calls
none of its steps. -/
theorem persistedWorkflow_runs {steps : List String} (hunique : steps.Nodup)
    {init : Vault} {workflowId : Identifier} (hnew : init.get .workflowRuns workflowId = none)
    {s : Runner} (hrun : RunnerLater steps (Workers.idle init) s) :
    (∀ row, s.rows.get .workflowRuns workflowId = some row →
      (∃ rest, row.Progress steps rest) ∧
        AllRecorded workflowId s.events row.completedSteps) ∧
      RecordedInOrder steps workflowId s.events ∧
      ∀ row, s.rows.get .workflowRuns workflowId = some row → row.status = .completed →
        ∀ execution, s.executions execution = none → ∀ s', RunnerLater steps s s' →
          ∀ step, RunnerEvent.began execution workflowId step ∉ s'.events := by
  have hinvariant := hrun.invariant hunique hnew
  refine ⟨hinvariant.row, hinvariant.ordered, ?_⟩
  intro row hrow hcompleted execution hfree s' hlater
  have hrefrains : Refrains workflowId execution s := by
    refine ⟨⟨row, hrow, hcompleted⟩, fun other job control hcontrol hsame => ?_,
      fun step hbegan => ?_⟩
    · exact absurd ((hsame ▸ hfree).symm.trans hcontrol) (by simp)
    · exact hrun.begunStarted execution workflowId step hbegan hfree
  exact (hrefrains.later hlater).never

/-- The job of a workflow. -/
def exampleJob : WorkflowJob := ⟨⟨"organization-1", "household-1", "person-1"⟩, "workflow-1"⟩

/-- The workflow of the job, as it begins. -/
def exampleWorkflow : WorkflowRow :=
  begunWorkflow exampleJob.context exampleJob.workflowId "export" "request-1" "render"

/-- In a run that completes its two steps, both are recorded in order, and no later execution
calls one. -/
theorem persistedWorkflow_runs_example : ∃ s,
    RunnerLater ["render", "publish"] (Workers.idle Store.empty) s ∧
      (∃ row, s.rows.get .workflowRuns exampleJob.workflowId = some row ∧
        row.completedSteps = ["render", "publish"] ∧
        AllRecorded exampleJob.workflowId s.events ["render", "publish"]) ∧
      RecordedInOrder ["render", "publish"] exampleJob.workflowId s.events ∧
      ∀ s', RunnerLater ["render", "publish"] s s' →
        ∀ step, RunnerEvent.began 1 exampleJob.workflowId step ∉ s'.events := by
  have hbegin : RunnerStep ["render", "publish"] (Workers.idle Store.empty) _ :=
    .begin exampleJob.context exampleJob.workflowId "export" "request-1" rfl
  have hstart := (Relation.ReflTransGen.single hbegin).tail (.start 0 exampleJob rfl)
  have hfetch := hstart.tail (.fetch 0 exampleWorkflow rfl rfl)
  have hrendered := hfetch.tail (.return 0 rfl)
  have hrender := hrendered.tail (.complete 0 rfl rfl (Or.inl rfl))
  have hpublished := hrender.tail (.return 0 rfl)
  have hpublish := hpublished.tail (.complete 0 rfl rfl (Or.inl rfl))
  obtain ⟨hrow, hordered, hcompleted⟩ :=
    @persistedWorkflow_runs _ (by decide) _ exampleJob.workflowId rfl _ hpublish
  exact ⟨_, hpublish, ⟨_, rfl, rfl, (hrow _ rfl).2⟩, hordered, hcompleted _ rfl rfl 1 rfl⟩

end LegacyVault
