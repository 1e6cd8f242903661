import LegacyVault.IdempotencyRecords
import LegacyVault.Library.IsoTime
import Mathlib.Data.List.Dedup
import Mathlib.Data.List.Sort

/-!
# Privacy requests and deletion

Privacy requests, the confirmation and cancellation of deletions, and the
worker that carries a deletion out: its input select, its checks, and the
transaction on the active system. A deletion deactivates the person's
memberships, revokes their grants, ends their sessions and deletes the
person, unless a legal hold is active.

Generated identifiers and clock readings are inputs. Enqueueing and removing
the delayed job, and purging the AI cache, are not modelled: the job may be
delivered at any time and any number of times.
-/

namespace LegacyVault

open JsonText RowTransaction RowTransaction.Program IsoTime

/-- Milliseconds of a day. -/
def dayMillis : Instant := 86400000

/-- `id`, `status` and `version` of a workflow. -/
def WorkflowRow.receiptJson (workflow : WorkflowRow) : Json :=
  .obj [("id", .str workflow.id), ("status", .str workflow.status.text),
    ("version", .nat workflow.version)]

/-- `id`, `status` and `version` of an execution. -/
def DeletionExecutionRow.receiptJson (execution : DeletionExecutionRow) : Json :=
  .obj [("id", .str execution.id), ("status", .str execution.status.text),
    ("version", .nat execution.version)]

/-! ## Starting a request -/

/-- What the caller of `startPrivacyRequest` supplies. -/
@[ext] structure StartPrivacyInput where
  personId : Identifier
  kind : PrivacyRequestKind
  deriving DecidableEq

/-- What is generated for a privacy request. -/
structure StartPrivacyGenerated where
  privacyId : Identifier
  workflowId : Identifier
  requestedAt : Instant
  deriving DecidableEq

/-- The request shape `startPrivacyRequest` hashes. -/
def StartPrivacyInput.shape (input : StartPrivacyInput) : Json :=
  .obj [("personId", .str input.personId), ("kind", .str input.kind.text)]

/-- The privacy request that `startPrivacyRequest` inserts. -/
def startedRequest (context : TenantContext) (input : StartPrivacyInput)
    (generated : StartPrivacyGenerated) : PrivacyRequestRow where
  id := generated.privacyId
  organizationId := context.organizationId
  householdId := context.householdId
  personId := input.personId
  kind := input.kind
  status := .identityVerification
  requestedAt := generated.requestedAt
  verifiedAt := none
  recoveryUntil := none
  completedAt := none
  version := 1

/-- The workflow that `startPrivacyRequest` inserts. -/
def startedWorkflow (context : TenantContext) (input : StartPrivacyInput)
    (generated : StartPrivacyGenerated) : WorkflowRow where
  id := generated.workflowId
  organizationId := context.organizationId
  householdId := context.householdId
  kind := input.kind.text
  idempotencyKey := "privacy:" ++ generated.privacyId
  status := .pending
  completedSteps := []
  nextStep := some "identity-verification"
  lastErrorClass := none
  subjectType := some "PrivacyRequest"
  subjectId := some generated.privacyId
  version := 1

/-- The mutation of `startPrivacyRequest`. -/
def startPrivacyMutation (context : TenantContext) (input : StartPrivacyInput)
    (generated : StartPrivacyGenerated) : Transaction Json := do
  let request := startedRequest context input generated
  let _ ← insertRow (S := vaultSchema) .privacyRequests generated.privacyId request
    (.uniqueViolation "privacy_requests_pkey")
  let workflow := startedWorkflow context input generated
  let _ ← insertRow (S := vaultSchema) .workflowRuns generated.workflowId workflow
    (.uniqueViolation "workflow_runs_pkey")
  pure (.obj [("privacyRequest", .obj [("id", .str request.id), ("kind", .str request.kind.text),
      ("status", .str request.status.text), ("version", .nat request.version)]),
    ("workflow", workflow.receiptJson)])

/-- Starting a request writes requests and workflows only. -/
theorem startPrivacyMutation_leaves {t : VaultTable} (hrequests : t ≠ .privacyRequests)
    (hworkflows : t ≠ .workflowRuns) (context : TenantContext) (input : StartPrivacyInput)
    (generated : StartPrivacyGenerated) :
    (startPrivacyMutation context input generated).Leaves t :=
  writes_bind (writes_insertRow hrequests) (fun _ =>
    writes_bind (writes_insertRow hworkflows) (fun _ => writes_commit _))

/-- What starting a request fails with. -/
def startPrivacyFailures : List RepositoryError :=
  [.uniqueViolation "privacy_requests_pkey", .uniqueViolation "workflow_runs_pkey"]

theorem startPrivacyMutation_raises (context : TenantContext) (input : StartPrivacyInput)
    (generated : StartPrivacyGenerated) :
    (startPrivacyMutation context input generated).Raises (· ∈ startPrivacyFailures) :=
  raises_bind (raises_insertRow (by decide)) (fun _ =>
    raises_bind (raises_insertRow (by decide)) (fun _ => raises_commit _))

/-- Errors of a privacy request on an existing record. -/
def startPrivacyErrors : RecordErrors :=
  ⟨"idempotency key reused with different request", "privacy request is still processing"⟩

/-- `startPrivacyRequest`. -/
def startPrivacyRequest (sha256 : Sha256) (context : TenantContext) (key : String)
    (input : StartPrivacyInput) (generated : StartPrivacyGenerated) (now : Instant) :
    Transaction (Answer Json) :=
  if input.personId = context.actorId then
    withTenantRecord context key (sha256.ofJson input.shape) now 202 startPrivacyErrors
      (startPrivacyMutation context input generated)
  else failWith "privacy request subject must match the authenticated person"

/-! ## Confirming a deletion -/

/-- What the caller of `confirmPrivacyDeletion` supplies. -/
@[ext] structure ConfirmDeletionInput where
  requestId : Identifier
  expectedVersion : Nat
  deriving DecidableEq

/-- What the runtime adds to a confirmation. -/
structure ConfirmDeletionGenerated where
  executionId : Identifier
  confirmedAt : Instant
  /-- `DELETION_RECOVERY_DAYS`. -/
  recoveryDays : Nat
  deriving DecidableEq

/-- The request shape `confirmPrivacyDeletion` hashes. -/
def confirmDeletionShape (input : ConfirmDeletionInput) (recoveryDays : Nat) : Json :=
  .obj [("requestId", .str input.requestId), ("expectedVersion", .nat input.expectedVersion),
    ("recoveryDays", .nat recoveryDays)]

/-- End of the recovery period. -/
def ConfirmDeletionGenerated.recoveryUntil (generated : ConfirmDeletionGenerated) : Instant :=
  generated.confirmedAt + generated.recoveryDays * dayMillis

/-- The request can be confirmed by the acting person. -/
def PrivacyRequestRow.confirmable (request : PrivacyRequestRow) (context : TenantContext) : Bool :=
  request.personId == context.actorId && request.kind == .deletion &&
    request.status == .identityVerification

/-- The change `confirmPrivacyDeletion` makes to the request. -/
def confirmRequestRow (context : TenantContext) (input : ConfirmDeletionInput)
    (generated : ConfirmDeletionGenerated) (request : PrivacyRequestRow) :
    Option PrivacyRequestRow :=
  if context.sees request ∧ request.version = input.expectedVersion then
    some { request with
      status := .recoveryPeriod
      verifiedAt := some generated.confirmedAt
      recoveryUntil := some generated.recoveryUntil
      version := request.version + 1 }
  else none

/-- The workflow belongs to the deletion request. -/
def WorkflowRow.ofDeletion (workflow : WorkflowRow) (context : TenantContext)
    (requestId : Identifier) : Bool :=
  context.sees workflow && workflow.subjectType == some "PrivacyRequest" &&
    workflow.subjectId == some requestId && workflow.kind == "deletion"

/-- The change `confirmPrivacyDeletion` makes to the workflow. -/
def confirmWorkflowRow (context : TenantContext) (requestId : Identifier)
    (workflow : WorkflowRow) : Option WorkflowRow :=
  if workflow.ofDeletion context requestId ∧
      workflow.nextStep = some "identity-verification" then
    some { workflow with
      status := .pending
      completedSteps := ["identity-verification"]
      nextStep := some "active-system"
      version := workflow.version + 1 }
  else none

/-- The execution that `confirmPrivacyDeletion` inserts. -/
def confirmedExecution (context : TenantContext) (input : ConfirmDeletionInput)
    (generated : ConfirmDeletionGenerated) (workflowId : Identifier) : DeletionExecutionRow where
  id := generated.executionId
  organizationId := context.organizationId
  householdId := context.householdId
  privacyRequestId := input.requestId
  workflowId := workflowId
  personId := context.actorId
  status := .recoveryPeriod
  recoveryUntil := generated.recoveryUntil
  activeSystemCompletedAt := none
  backupExpiresAt := none
  completedAt := none
  retainedCategories := []
  sharedDataReviewRequired := true
  version := 1

/-- The mutation of `confirmPrivacyDeletion`. -/
def confirmDeletionMutation (context : TenantContext) (input : ConfirmDeletionInput)
    (generated : ConfirmDeletionGenerated) : Transaction Json := do
  let existing ← lockRow (S := vaultSchema) .privacyRequests input.requestId
    (fun request : PrivacyRequestRow => context.sees request)
  match existing.filter (fun request : PrivacyRequestRow => request.confirmable context) with
  | none => failWith "privacy deletion request is unavailable"
  | some _ => do
    let updated ← updateRow (S := vaultSchema) .privacyRequests input.requestId
      (confirmRequestRow context input generated)
    match updated with
    | none => failWith "privacy deletion confirmation version conflict"
    | some request =>
      if generated.recoveryUntil ≤ generated.confirmedAt then
        .rollback (.checkViolation "privacy_requests_deletion_timing_valid")
      else do
        let workflows ← updateWhere (S := vaultSchema) .workflowRuns
          (confirmWorkflowRow context input.requestId)
        match workflows.head? with
        | none => failWith "privacy deletion workflow is unavailable"
        | some (workflow : WorkflowRow) => do
          let execution := confirmedExecution context input generated workflow.id
          requireUnique "deletion_executions_privacy_request_id_key" (fun σ =>
            (σ.rowsOf .deletionExecutions).any (fun other : DeletionExecutionRow =>
              other.privacyRequestId == execution.privacyRequestId))
          requireUnique "deletion_executions_workflow_id_key" (fun σ =>
            (σ.rowsOf .deletionExecutions).any (fun other : DeletionExecutionRow =>
              other.workflowId == execution.workflowId))
          let _ ← insertRow (S := vaultSchema) .deletionExecutions generated.executionId execution
            (.uniqueViolation "deletion_executions_pkey")
          pure (.obj [("privacyRequest", .obj [("id", .str request.id),
              ("status", .str request.status.text), ("version", .nat request.version),
              ("recoveryUntil", .str (toISOString generated.recoveryUntil))]),
            ("execution", execution.receiptJson), ("workflow", workflow.receiptJson)])

/-- A confirmation writes requests, workflows and executions only. -/
theorem confirmDeletionMutation_leaves {t : VaultTable} (hrequests : t ≠ .privacyRequests)
    (hworkflows : t ≠ .workflowRuns) (hexecutions : t ≠ .deletionExecutions)
    (context : TenantContext) (input : ConfirmDeletionInput)
    (generated : ConfirmDeletionGenerated) :
    (confirmDeletionMutation context input generated).Leaves t := by
  refine writes_bind (writes_lockRow (fun _ => hrequests)) (fun existing => ?_)
  split
  · exact writes_rollback _
  refine writes_bind (writes_updateRow (fun _ _ _ => hrequests)) (fun updated => ?_)
  split
  · exact writes_rollback _
  split
  · exact writes_rollback _
  refine writes_bind (writes_updateWhere (fun _ _ _ _ => hworkflows)) (fun workflows => ?_)
  split
  · exact writes_rollback _
  refine writes_bind (writes_requireUnique _ _) (fun _ => ?_)
  refine writes_bind (writes_requireUnique _ _) (fun _ => ?_)
  exact writes_bind (writes_insertRow hexecutions) (fun _ => writes_commit _)

/-- What a confirmation fails with. -/
def confirmDeletionFailures : List RepositoryError :=
  [.error "privacy deletion request is unavailable",
    .error "privacy deletion confirmation version conflict",
    .checkViolation "privacy_requests_deletion_timing_valid",
    .error "privacy deletion workflow is unavailable",
    .uniqueViolation "deletion_executions_privacy_request_id_key",
    .uniqueViolation "deletion_executions_workflow_id_key",
    .uniqueViolation "deletion_executions_pkey"]

theorem confirmDeletionMutation_raises (context : TenantContext) (input : ConfirmDeletionInput)
    (generated : ConfirmDeletionGenerated) :
    (confirmDeletionMutation context input generated).Raises (· ∈ confirmDeletionFailures) := by
  have hrequest : RepositoryError.error "privacy deletion request is unavailable" ∈
      confirmDeletionFailures := by decide
  have hversion : RepositoryError.error "privacy deletion confirmation version conflict" ∈
      confirmDeletionFailures := by decide
  have htiming : RepositoryError.checkViolation "privacy_requests_deletion_timing_valid" ∈
      confirmDeletionFailures := by decide
  have hworkflow : RepositoryError.error "privacy deletion workflow is unavailable" ∈
      confirmDeletionFailures := by decide
  refine raises_bind (raises_lockRow _ _ _) (fun existing => ?_)
  split
  · exact hrequest
  refine raises_bind (raises_updateRow _ _ _) (fun updated => ?_)
  split
  · exact hversion
  split
  · exact htiming
  refine raises_bind (raises_updateWhere _ _) (fun workflows => ?_)
  split
  · exact hworkflow
  refine raises_bind (raises_requireUnique (by decide) _) (fun _ => ?_)
  refine raises_bind (raises_requireUnique (by decide) _) (fun _ => ?_)
  exact raises_bind (raises_insertRow (by decide)) (fun _ => raises_commit _)

/-- Errors of a confirmation on an existing record. -/
def confirmDeletionErrors : RecordErrors :=
  ⟨"idempotency key reused with different request",
    "privacy deletion confirmation is still processing"⟩

/-- `confirmPrivacyDeletion`. -/
def confirmPrivacyDeletion (sha256 : Sha256) (context : TenantContext) (key : String)
    (input : ConfirmDeletionInput) (generated : ConfirmDeletionGenerated) (now : Instant) :
    Transaction (Answer Json) :=
  withTenantRecord context key (sha256.ofJson (confirmDeletionShape input generated.recoveryDays))
    now 202 confirmDeletionErrors (confirmDeletionMutation context input generated)

/-! ## Cancelling a deletion -/

/-- What the caller of `cancelPrivacyDeletion` supplies. -/
@[ext] structure CancelDeletionInput where
  requestId : Identifier
  expectedVersion : Nat
  deriving DecidableEq

/-- The request shape `cancelPrivacyDeletion` hashes. -/
def CancelDeletionInput.shape (input : CancelDeletionInput) : Json :=
  .obj [("requestId", .str input.requestId), ("expectedVersion", .nat input.expectedVersion)]

/-- The change `cancelPrivacyDeletion` makes to the request. -/
def cancelRequestRow (context : TenantContext) (input : CancelDeletionInput) (now : Instant)
    (request : PrivacyRequestRow) : Option PrivacyRequestRow :=
  if context.sees request ∧ request.personId = context.actorId ∧ request.kind = .deletion ∧
      request.status = .recoveryPeriod ∧ request.version = input.expectedVersion then
    some { request with
      status := .cancelled, completedAt := some now, version := request.version + 1 }
  else none

/-- The change `cancelPrivacyDeletion` makes to the execution. -/
def cancelExecutionRow (context : TenantContext) (requestId : Identifier) (now : Instant)
    (execution : DeletionExecutionRow) : Option DeletionExecutionRow :=
  if context.sees execution ∧ execution.privacyRequestId = requestId ∧
      execution.status = .recoveryPeriod then
    some { execution with
      status := .cancelled, completedAt := some now, version := execution.version + 1 }
  else none

/-- Append a completed step once. -/
def withCompletedStep (steps : List String) (step : String) : List String :=
  if step ∈ steps then steps else steps ++ [step]

/-- The change `cancelPrivacyDeletion` makes to the workflow. -/
def cancelWorkflowRow (context : TenantContext) (requestId : Identifier)
    (workflow : WorkflowRow) : Option WorkflowRow :=
  if workflow.ofDeletion context requestId ∧ workflow.status ≠ .completed then
    some { workflow with
      status := .completed
      completedSteps := withCompletedStep workflow.completedSteps "cancelled"
      nextStep := none
      lastErrorClass := none
      version := workflow.version + 1 }
  else none

/-- The mutation of `cancelPrivacyDeletion` at the database time `now`. -/
def cancelDeletionMutation (context : TenantContext) (input : CancelDeletionInput)
    (now : Instant) : Transaction Json := do
  let updated ← updateRow (S := vaultSchema) .privacyRequests input.requestId
    (cancelRequestRow context input now)
  match updated with
  | none => failWith "privacy deletion cancellation conflict"
  | some request => do
    let executions ← updateWhere (S := vaultSchema) .deletionExecutions
      (cancelExecutionRow context input.requestId now)
    match executions.head? with
    | none => failWith "privacy deletion execution cancellation conflict"
    | some (execution : DeletionExecutionRow) => do
      let workflows ← updateWhere (S := vaultSchema) .workflowRuns
        (cancelWorkflowRow context input.requestId)
      match workflows.head? with
      | none => failWith "privacy deletion workflow cancellation conflict"
      | some (workflow : WorkflowRow) =>
        pure (.obj [("privacyRequest", .obj [("id", .str request.id),
            ("status", .str request.status.text), ("version", .nat request.version)]),
          ("execution", execution.receiptJson), ("workflow", workflow.receiptJson)])

/-- A cancellation writes requests, executions and workflows only. -/
theorem cancelDeletionMutation_leaves {t : VaultTable} (hrequests : t ≠ .privacyRequests)
    (hworkflows : t ≠ .workflowRuns) (hexecutions : t ≠ .deletionExecutions)
    (context : TenantContext) (input : CancelDeletionInput) (now : Instant) :
    (cancelDeletionMutation context input now).Leaves t := by
  refine writes_bind (writes_updateRow (fun _ _ _ => hrequests)) (fun updated => ?_)
  split
  · exact writes_rollback _
  refine writes_bind (writes_updateWhere (fun _ _ _ _ => hexecutions)) (fun executions => ?_)
  split
  · exact writes_rollback _
  refine writes_bind (writes_updateWhere (fun _ _ _ _ => hworkflows)) (fun workflows => ?_)
  split
  · exact writes_rollback _
  · exact writes_commit _

/-- What a cancellation fails with. -/
def cancelDeletionFailures : List RepositoryError :=
  [.error "privacy deletion cancellation conflict",
    .error "privacy deletion execution cancellation conflict",
    .error "privacy deletion workflow cancellation conflict"]

theorem cancelDeletionMutation_raises (context : TenantContext) (input : CancelDeletionInput)
    (now : Instant) :
    (cancelDeletionMutation context input now).Raises (· ∈ cancelDeletionFailures) := by
  have hexecution : RepositoryError.error "privacy deletion execution cancellation conflict" ∈
      cancelDeletionFailures := by decide
  have hworkflow : RepositoryError.error "privacy deletion workflow cancellation conflict" ∈
      cancelDeletionFailures := by decide
  refine raises_bind (raises_updateRow _ _ _) (fun updated => ?_)
  split
  · exact List.mem_cons_self
  refine raises_bind (raises_updateWhere _ _) (fun executions => ?_)
  split
  · exact hexecution
  refine raises_bind (raises_updateWhere _ _) (fun workflows => ?_)
  split
  · exact hworkflow
  · exact raises_commit _

/-- Errors of a cancellation on an existing record. -/
def cancelDeletionErrors : RecordErrors :=
  ⟨"idempotency key reused with different request",
    "privacy deletion cancellation is still processing"⟩

/-- `cancelPrivacyDeletion`. -/
def cancelPrivacyDeletion (sha256 : Sha256) (context : TenantContext) (key : String)
    (input : CancelDeletionInput) (now : Instant) : Transaction (Answer Json) :=
  withTenantRecord context key (sha256.ofJson input.shape) now 200 cancelDeletionErrors
    (cancelDeletionMutation context input now)

/-! ## Carrying a deletion out -/

/-- The hold is active at an instant on the household or the person. -/
def LegalHoldRow.activeOn (hold : LegalHoldRow) (context : TenantContext) (personId : Identifier)
    (at' : Instant) : Bool :=
  context.sees hold && hold.releasedAt.isNone && decide (hold.startsAt ≤ at') &&
    hold.expiresAt.all (fun expiresAt => decide (at' < expiresAt)) &&
    ((hold.subjectType == .household && hold.subjectId == context.householdId) ||
      (hold.subjectType == .person && hold.subjectId == personId))

/-- `select distinct category … order by category`. -/
def activeHoldCategories (context : TenantContext) (personId : Identifier) (at' : Instant)
    (σ : Vault) : List String :=
  let holds := (σ.rowsOf .legalHolds).filter
    (fun hold : LegalHoldRow => hold.activeOn context personId at')
  ((holds.map LegalHoldRow.category).dedup).insertionSort (· ≤ ·)

/-- There is no category exactly when no hold is active. -/
theorem activeHoldCategories_eq_nil {context : TenantContext} {personId : Identifier}
    {at' : Instant} {σ : Vault} :
    activeHoldCategories context personId at' σ = [] ↔
      ∀ id hold, σ.get .legalHolds id = some hold →
        hold.activeOn context personId at' = false := by
  have hlength : activeHoldCategories context personId at' σ = [] ↔
      (σ.rowsOf .legalHolds).filter (fun hold : LegalHoldRow =>
        hold.activeOn context personId at') = [] := by
    unfold activeHoldCategories
    rw [← List.length_eq_zero_iff, List.length_insertionSort, List.length_eq_zero_iff,
      List.dedup_eq_nil, List.map_eq_nil_iff]
  rw [hlength, List.filter_eq_nil_iff]
  constructor
  · intro h id hold hget
    simpa using h hold (Store.mem_rowsOf.mpr ⟨id, hget⟩)
  · intro h hold hmem
    obtain ⟨id, hget⟩ := Store.mem_rowsOf.mp hmem
    simpa using h id hold hget

/-- Result of `getPrivacyDeletionInput`. -/
structure PrivacyDeletionInput where
  executionId : Identifier
  privacyRequestId : Identifier
  workflowId : Identifier
  personId : Identifier
  status : PrivacyStatus
  recoveryUntil : Instant
  version : Nat
  legalHoldCategories : List String
  deriving DecidableEq

/-- The execution of a deletion workflow, joined with its request and workflow. -/
def deletionOfWorkflow (context : TenantContext) (workflowId : Identifier) (σ : Vault) :
    Option DeletionExecutionRow :=
  (σ.rowsOf .deletionExecutions).find? (fun execution : DeletionExecutionRow =>
    context.sees execution && execution.workflowId == workflowId &&
      ((σ.get .privacyRequests execution.privacyRequestId).any
        (fun request : PrivacyRequestRow => context.sees request && request.kind == .deletion)) &&
      ((σ.get .workflowRuns workflowId).any (fun workflow : WorkflowRow =>
        workflow.ofDeletion context execution.privacyRequestId)))

/-- `getPrivacyDeletionInput` at the database time `now`. -/
def getPrivacyDeletionInput (context : TenantContext) (workflowId : Identifier) (now : Instant) :
    Transaction PrivacyDeletionInput := do
  let execution ← select (deletionOfWorkflow context workflowId)
  match execution with
  | none => failWith "privacy deletion execution is unavailable"
  | some execution => do
    let holds ← select (activeHoldCategories context execution.personId now)
    pure ⟨execution.id, execution.privacyRequestId, execution.workflowId, execution.personId,
      execution.status, execution.recoveryUntil, execution.version, holds⟩

/-- Input of `completePrivacyDeletionActiveSystem`, with the identifiers it generates. -/
structure CompleteDeletionInput where
  executionId : Identifier
  expectedVersion : Nat
  completedAt : Instant
  backupRetentionDays : Nat
  /-- `randomUUID()` for the request to a processor. -/
  processorRequestId : String → Identifier

/-- Statuses on which the worker has nothing to do. -/
def settledDeletionStatuses : List PrivacyStatus :=
  [.awaitingReview, .awaitingProcessors, .awaitingBackupExpiry, .completed, .cancelled,
    .blockedLegalHold]

/-- The worker's decision after `getPrivacyDeletionInput`: return, fail, or complete. -/
def privacyDeletionStep (deletion : PrivacyDeletionInput) (now : Instant)
    (backupRetentionDays : Nat) (processorRequestId : String → Identifier) :
    Except String (Option CompleteDeletionInput) :=
  if deletion.status ∈ settledDeletionStatuses then .ok none
  else if now < deletion.recoveryUntil then
    .error "privacy deletion recovery period has not elapsed"
  else .ok (some ⟨deletion.executionId, deletion.version, now, backupRetentionDays,
    processorRequestId⟩)

/-- Result of `completePrivacyDeletionActiveSystem`. -/
structure PrivacyDeletionProgress where
  executionId : Identifier
  status : PrivacyStatus
  backupExpiresAt : Option Instant
  legalHoldCategories : List String
  deriving DecidableEq

/-- The request with another status. -/
def PrivacyRequestRow.moved (request : PrivacyRequestRow) (status : PrivacyStatus) :
    PrivacyRequestRow :=
  { request with status := status, version := request.version + 1 }

/-- Move the execution, its request and its workflow on, each under its own identifier. -/
def moveDeletion (context : TenantContext) (executionId : Identifier)
    (execution : DeletionExecutionRow) (moved : DeletionExecutionRow → DeletionExecutionRow)
    (status : PrivacyStatus) (workflowMoved : WorkflowRow → WorkflowRow) : Transaction Unit := do
  let _ ← updateRow (S := vaultSchema) .deletionExecutions executionId
    (fun row : DeletionExecutionRow => if context.sees row then some (moved row) else none)
  let _ ← updateRow (S := vaultSchema) .privacyRequests execution.privacyRequestId
    (fun request : PrivacyRequestRow =>
      if context.sees request then some (request.moved status) else none)
  let _ ← updateRow (S := vaultSchema) .workflowRuns execution.workflowId
    (fun workflow : WorkflowRow =>
      if context.sees workflow then some (workflowMoved workflow) else none)
  pure ()

/-- Moving a deletion on writes executions, requests and workflows only. -/
theorem moveDeletion_leaves {t : VaultTable} (hexecutions : t ≠ .deletionExecutions)
    (hrequests : t ≠ .privacyRequests) (hworkflows : t ≠ .workflowRuns)
    (context : TenantContext) (executionId : Identifier) (execution : DeletionExecutionRow)
    (moved : DeletionExecutionRow → DeletionExecutionRow) (status : PrivacyStatus)
    (workflowMoved : WorkflowRow → WorkflowRow) :
    (moveDeletion context executionId execution moved status workflowMoved).Leaves t :=
  writes_bind (writes_updateRow (fun _ _ _ => hexecutions)) (fun _ =>
    writes_bind (writes_updateRow (fun _ _ _ => hrequests)) (fun _ =>
      writes_bind (writes_updateRow (fun _ _ _ => hworkflows)) (fun _ => writes_commit _)))

/-- The execution blocked by legal holds. -/
def blockedExecution (categories : List String) (execution : DeletionExecutionRow) :
    DeletionExecutionRow :=
  { execution with
    status := .blockedLegalHold
    retainedCategories := categories
    version := execution.version + 1 }

/-- Record that legal holds block the deletion. -/
def blockDeletion (context : TenantContext) (input : CompleteDeletionInput)
    (execution : DeletionExecutionRow) (categories : List String) :
    Transaction PrivacyDeletionProgress := do
  moveDeletion context input.executionId execution (blockedExecution categories) .blockedLegalHold
    (fun workflow => { workflow with
      status := .running
      nextStep := some "legal-hold-review"
      lastErrorClass := none
      version := workflow.version + 1 })
  pure ⟨input.executionId, .blockedLegalHold, none, categories⟩

/-- The change that deactivates a listed membership. -/
def deactivatedRow (context : TenantContext) (membershipIds : List Identifier)
    (membership : MembershipRow) : Option MembershipRow :=
  if context.sees membership ∧ membership.id ∈ membershipIds ∧ membership.active = true then
    some { membership with active := false, version := membership.version + 1 }
  else none

/-- Revoke what the memberships grant and deactivate them, if there are any. -/
def deactivateMemberships (context : TenantContext) (completedAt : Instant)
    (membershipIds : List Identifier) : Transaction Unit :=
  if membershipIds = [] then pure ()
  else do
    let _ ← updateWhere (S := vaultSchema) .permissionGrants (fun grant : PermissionGrantRow =>
      if context.sees grant ∧ grant.membershipId ∈ membershipIds ∧ grant.revokedAt = none then
        some { grant with revokedAt := some completedAt, version := grant.version + 1 }
      else none)
    let _ ← updateWhere (S := vaultSchema) .supportAccessApprovals
      (fun approval : SupportAccessApprovalRow =>
        if context.sees approval ∧ approval.supportMembershipId ∈ membershipIds ∧
            approval.revokedAt = none then
          some { approval with revokedAt := some completedAt, version := approval.version + 1 }
        else none)
    let _ ← updateWhere (S := vaultSchema) .memberships (deactivatedRow context membershipIds)
    pure ()

/-- End the sessions of the accounts, if there are any. -/
def endSessions (authUserIds : List Identifier) : Transaction Unit :=
  if authUserIds = [] then pure ()
  else do
    let _ ← deleteWhere (S := vaultSchema) .sessions (fun session : SessionRow =>
      session.userId ∈ authUserIds)
    pure ()

/-- The external processors that are asked to delete. -/
def deletionProcessors : List String := ["deepseek", "resend", "sentry", "stripe"]

/-- Ask every processor once. -/
def requestProcessors (context : TenantContext) (input : CompleteDeletionInput)
    (workflowId : Identifier) : Transaction Unit := do
  let _ ← forEach deletionProcessors (fun processor =>
    insertOrIgnore (S := vaultSchema) .deletionProcessorRequests (workflowId, processor)
      (⟨input.processorRequestId processor, context.organizationId, context.householdId, workflowId,
        processor, .verificationRequired, input.completedAt⟩ : DeletionProcessorRow))
  pure ()

/-- What a deletion retains. -/
def retainedCategories : List String :=
  ["audit-events", "billing-records", "consent-acceptance", "privacy-request-evidence"]

/-- When the backups of a deletion expire. -/
def CompleteDeletionInput.backupExpiresAt (input : CompleteDeletionInput) : Instant :=
  input.completedAt + input.backupRetentionDays * dayMillis

/-- The execution after the active system is done. -/
def reviewedExecution (input : CompleteDeletionInput) (execution : DeletionExecutionRow) :
    DeletionExecutionRow :=
  { execution with
    status := .awaitingReview
    activeSystemCompletedAt := some input.completedAt
    backupExpiresAt := some input.backupExpiresAt
    retainedCategories := retainedCategories
    sharedDataReviewRequired := true
    version := execution.version + 1 }

/-- An active membership of the person, to be locked as it is. -/
def lockedRow (context : TenantContext) (personId : Identifier) (membership : MembershipRow) :
    Option MembershipRow :=
  if context.sees membership ∧ membership.personId = personId ∧ membership.active = true then
    some membership
  else none

/-- Lock the active memberships of the person. -/
def lockMemberships (context : TenantContext) (personId : Identifier) :
    Transaction (List MembershipRow) :=
  updateWhere (S := vaultSchema) .memberships (lockedRow context personId)

/-- Locking the memberships writes memberships only. -/
theorem lockMemberships_leaves {t : VaultTable} (h : t ≠ .memberships) (context : TenantContext)
    (personId : Identifier) : (lockMemberships context personId).Leaves t :=
  writes_updateWhere (fun _ _ _ _ => h)

/-- Deactivation writes grants, approvals and memberships only. -/
theorem deactivateMemberships_leaves {t : VaultTable} (hgrants : t ≠ .permissionGrants)
    (happrovals : t ≠ .supportAccessApprovals) (hmemberships : t ≠ .memberships)
    (context : TenantContext) (completedAt : Instant) (membershipIds : List Identifier) :
    (deactivateMemberships context completedAt membershipIds).Leaves t := by
  unfold deactivateMemberships
  split
  · exact writes_commit _
  refine writes_bind (writes_updateWhere (fun _ _ _ _ => hgrants)) (fun _ => ?_)
  refine writes_bind (writes_updateWhere (fun _ _ _ _ => happrovals)) (fun _ => ?_)
  exact writes_bind (writes_updateWhere (fun _ _ _ _ => hmemberships)) (fun _ => writes_commit _)

/-- Ending sessions writes sessions only. -/
theorem endSessions_leaves {t : VaultTable} (h : t ≠ .sessions) (authUserIds : List Identifier) :
    (endSessions authUserIds).Leaves t := by
  unfold endSessions
  split
  · exact writes_commit _
  · exact writes_bind (writes_deleteWhere (fun _ _ _ => h)) (fun _ => writes_commit _)

/-- Asking the processors writes processor requests only. -/
theorem requestProcessors_leaves {t : VaultTable} (h : t ≠ .deletionProcessorRequests)
    (context : TenantContext) (input : CompleteDeletionInput) (workflowId : Identifier) :
    (requestProcessors context input workflowId).Leaves t :=
  writes_bind (writes_forEach (fun _ => writes_insertOrIgnore h)) (fun _ => writes_commit _)

/-- Delete the person and move the deletion on to its review. -/
def deleteActiveSystem (context : TenantContext) (input : CompleteDeletionInput)
    (execution : DeletionExecutionRow) : Transaction PrivacyDeletionProgress := do
  let memberships ← lockMemberships context execution.personId
  deactivateMemberships context input.completedAt (memberships.map MembershipRow.id)
  endSessions (memberships.filterMap MembershipRow.authUserId)
  let _ ← deleteRow (S := vaultSchema) .people execution.personId
    (fun person : PersonRow => context.sees person)
  requestProcessors context input execution.workflowId
  moveDeletion context input.executionId execution (reviewedExecution input) .awaitingReview
    (fun workflow => { workflow with
      status := .running
      completedSteps := withCompletedStep workflow.completedSteps "active-system"
      nextStep := some "shared-data-review"
      lastErrorClass := none
      version := workflow.version + 1 })
  pure ⟨input.executionId, .awaitingReview, some input.backupExpiresAt, []⟩

/-- `completePrivacyDeletionActiveSystem`. -/
def completePrivacyDeletionActiveSystem (context : TenantContext) (input : CompleteDeletionInput) :
    Transaction PrivacyDeletionProgress := do
  let locked ← lockRow (S := vaultSchema) .deletionExecutions input.executionId
    (fun execution : DeletionExecutionRow => context.sees execution)
  match locked.filter (fun execution : DeletionExecutionRow =>
      execution.version == input.expectedVersion && execution.status == .recoveryPeriod) with
  | none => failWith "privacy deletion execution conflict"
  | some (execution : DeletionExecutionRow) =>
    if input.completedAt < execution.recoveryUntil then
      failWith "privacy deletion recovery period has not elapsed"
    else do
      let categories ← select (activeHoldCategories context execution.personId input.completedAt)
      if categories ≠ [] then blockDeletion context input execution categories
      else deleteActiveSystem context input execution

end LegacyVault
