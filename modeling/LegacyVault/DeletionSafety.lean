import LegacyVault.DeletionEffects

/-!
# Safety of privacy deletion

The privacy workflow as a protocol: people start requests, confirm and cancel
deletions, and a worker reads the input of a deletion and completes it, any
number of times and at any clock. Every other transaction may interleave, as
long as it writes neither requests nor executions and neither deletes people
nor deactivates memberships; nothing else in the repository does.

The invariant relates every execution to its request and to the log. From it
follow the conditions of a deletion, the agreement of both statuses, and that
cancellation, review and hold are final.
-/

namespace LegacyVault

open JsonText RowTransaction RowTransaction.Program Store

/-- What transactions outside the privacy workflow may do to a row: they keep requests
and executions, delete no person, and neither delete, rebind nor deactivate a membership. -/
def OutsidePrivacy : (t : VaultTable) → t.Key → Option t.Row → Option t.Row → Prop
  | .privacyRequests, _, before, after => after = before
  | .deletionExecutions, _, before, after => after = before
  | .people, _, before, after => after = none → before = none
  | .memberships, id, before, after => (after = none → before = none) ∧
      ∀ new : MembershipRow, after = some new → (before = none → new.id = id) ∧
        ∀ old : MembershipRow, before = some old →
          new.id = old.id ∧ new.personId = old.personId ∧ (old.active = true → new.active = true)
  | _, _, _, _ => True

/-- Requests to the privacy workflow, and everything else. -/
inductive PrivacyCall where
  /-- `startPrivacyRequest`. -/
  | start (context : TenantContext) (key : String) (input : StartPrivacyInput)
      (generated : StartPrivacyGenerated) (now : Instant)
  /-- `confirmPrivacyDeletion`. -/
  | confirm (context : TenantContext) (key : String) (input : ConfirmDeletionInput)
      (generated : ConfirmDeletionGenerated) (now : Instant)
  /-- `cancelPrivacyDeletion`. -/
  | cancel (context : TenantContext) (key : String) (input : CancelDeletionInput) (now : Instant)
  /-- The worker's `getPrivacyDeletionInput`. -/
  | readInput (context : TenantContext) (workflowId : Identifier) (now : Instant)
  /-- The worker's `completePrivacyDeletionActiveSystem`. -/
  | complete (context : TenantContext) (input : CompleteDeletionInput)
  /-- Any other transaction. -/
  | other (transaction : Transaction Unit) (outside : transaction.Writes OutsidePrivacy)

/-- Results of the privacy workflow. -/
inductive PrivacyResult where
  /-- Response of a start, a confirmation or a cancellation. -/
  | answer (answer : Answer Json)
  /-- Input of a deletion. -/
  | deletion (deletion : PrivacyDeletionInput)
  /-- Result of a completion. -/
  | progress (progress : PrivacyDeletionProgress)
  /-- Any other result. -/
  | done

/-- The transaction of a call. -/
def privacyProgram (sha256 : Sha256) : PrivacyCall → Transaction PrivacyResult
  | .start context key input generated now =>
    startPrivacyRequest sha256 context key input generated now >>= fun a => .commit (.answer a)
  | .confirm context key input generated now =>
    confirmPrivacyDeletion sha256 context key input generated now >>= fun a => .commit (.answer a)
  | .cancel context key input now =>
    cancelPrivacyDeletion sha256 context key input now >>= fun a => .commit (.answer a)
  | .readInput context workflowId now =>
    getPrivacyDeletionInput context workflowId now >>= fun d => .commit (.deletion d)
  | .complete context input =>
    completePrivacyDeletionActiveSystem context input >>= fun p => .commit (.progress p)
  | .other transaction _ => transaction >>= fun _ => .commit .done

/-- The privacy workflow. The worker completes only what it has read, at its own clock. -/
abbrev privacyProtocol (sha256 : Sha256) : Protocol vaultSchema where
  Request := PrivacyCall
  Error := RepositoryError
  Result := PrivacyResult
  program := privacyProgram sha256
  permitted := fun log call =>
    match call with
    | .complete context input =>
      ∃ workflowId readAt deletion clock backupRetentionDays processorRequestId,
        ⟨.readInput context workflowId readAt, .committed (.deletion deletion)⟩ ∈ log ∧
        privacyDeletionStep deletion clock backupRetentionDays processorRequestId =
          .ok (some input)
    | _ => True

/-- How a call to the privacy workflow ended. -/
abbrev PrivacyEntry := Entry PrivacyCall RepositoryError PrivacyResult

/-- The entry started the request of a person. -/
def Starts (requestId personId : Identifier) (kind : PrivacyRequestKind) (entry : PrivacyEntry) :
    Prop :=
  ∃ context key input generated now body,
    entry = ⟨.start context key input generated now, .committed (.answer (.applied body))⟩ ∧
    generated.privacyId = requestId ∧ context.actorId = personId ∧ input.personId = personId ∧
    input.kind = kind

/-- The entry confirmed the deletion of a person and made its execution. -/
def Confirms (executionId requestId personId : Identifier) (recoveryUntil : Instant)
    (entry : PrivacyEntry) : Prop :=
  ∃ context key input generated now body,
    entry = ⟨.confirm context key input generated now, .committed (.answer (.applied body))⟩ ∧
    generated.executionId = executionId ∧ input.requestId = requestId ∧
    context.actorId = personId ∧ generated.recoveryUntil = recoveryUntil

/-- The entry cancelled the deletion of a request. -/
def Cancels (requestId : Identifier) (entry : PrivacyEntry) : Prop :=
  ∃ context key input now body,
    entry = ⟨.cancel context key input now, .committed (.answer (.applied body))⟩ ∧
    input.requestId = requestId

/-- The entry completed an execution, ending in the status. -/
def Completes (executionId : Identifier) (status : PrivacyStatus) (entry : PrivacyEntry) : Prop :=
  ∃ context input progress,
    entry = ⟨.complete context input, .committed (.progress progress)⟩ ∧
    input.executionId = executionId ∧ progress.status = status

/-- The entry read the input of an execution. -/
def Reads (executionId : Identifier) (entry : PrivacyEntry) : Prop :=
  ∃ context workflowId now deletion,
    entry = ⟨.readInput context workflowId now, .committed (.deletion deletion)⟩ ∧
    deletion.executionId = executionId

/-- Statuses of an execution that are never left. -/
def finalDeletionStatuses : List PrivacyStatus := [.cancelled, .awaitingReview, .blockedLegalHold]

/-- An execution belongs to a confirmed deletion request of its person, with the
same status. -/
structure Consistent (log : List PrivacyEntry) (σ : Vault) (id : Identifier)
    (execution : DeletionExecutionRow) (request : PrivacyRequestRow) : Prop where
  keyed : execution.id = id
  confirmed : ∃ entry ∈ log, Confirms id execution.privacyRequestId execution.personId
    execution.recoveryUntil entry
  status_mem : execution.status = .recoveryPeriod ∨ execution.status ∈ finalDeletionStatuses
  found : σ.get .privacyRequests execution.privacyRequestId = some request
  status : request.status = execution.status
  person : request.personId = execution.personId
  kind : request.kind = .deletion
  tenant : request.organizationId = execution.organizationId ∧
    request.householdId = execution.householdId

/-- What holds of the log and the rows between transactions. -/
structure DeletionInvariant (log : List PrivacyEntry) (σ : Vault) : Prop where
  /-- Every request was started by its person. -/
  requests : ∀ id (request : PrivacyRequestRow), σ.get .privacyRequests id = some request →
    ∃ entry ∈ log, Starts id request.personId request.kind entry
  /-- Every execution agrees with its request. -/
  executions : ∀ id (execution : DeletionExecutionRow),
    σ.get .deletionExecutions id = some execution →
    ∃ request, Consistent log σ id execution request
  /-- A request has one execution. -/
  unique : ∀ id id' (execution execution' : DeletionExecutionRow),
    σ.get .deletionExecutions id = some execution →
    σ.get .deletionExecutions id' = some execution' →
    execution.privacyRequestId = execution'.privacyRequestId → id = id'
  /-- A cancelled request is cancelled. -/
  cancelled : ∀ requestId, ∀ entry ∈ log, Cancels requestId entry →
    ∃ request : PrivacyRequestRow, σ.get .privacyRequests requestId = some request ∧
      request.status = .cancelled
  /-- A completed execution has the status of its completion. -/
  completed : ∀ id status, ∀ entry ∈ log, Completes id status entry →
    (status = .awaitingReview ∨ status = .blockedLegalHold) ∧
    ∃ execution : DeletionExecutionRow, σ.get .deletionExecutions id = some execution ∧
      execution.status = status
  /-- No execution is completed twice. -/
  completedOnce : ∀ id, log.Pairwise (fun a b =>
    ¬ ((∃ status, Completes id status a) ∧ ∃ status, Completes id status b))
  /-- An execution that was read is there. -/
  read : ∀ id, ∀ entry ∈ log, Reads id entry →
    ∃ execution : DeletionExecutionRow, σ.get .deletionExecutions id = some execution
  /-- Memberships are keyed by their identifiers. -/
  memberships : ∀ id (membership : MembershipRow),
    σ.get .memberships id = some membership → membership.id = id

/-- Executions and requests stay, and final statuses are never left. -/
structure DeletionGrows (σ₀ σ : Vault) : Prop where
  executions : ∀ id (execution : DeletionExecutionRow),
    σ₀.get .deletionExecutions id = some execution →
    ∃ later : DeletionExecutionRow, σ.get .deletionExecutions id = some later ∧
      later.privacyRequestId = execution.privacyRequestId ∧
      later.organizationId = execution.organizationId ∧
      later.householdId = execution.householdId ∧
      (execution.status ∈ finalDeletionStatuses → later.status = execution.status)
  requests : ∀ id (request : PrivacyRequestRow), σ₀.get .privacyRequests id = some request →
    ∃ later : PrivacyRequestRow, σ.get .privacyRequests id = some later ∧
      (request.status ∈ finalDeletionStatuses → later.status = request.status)

theorem DeletionGrows.refl (σ : Vault) : DeletionGrows σ σ where
  executions := fun _ execution h => ⟨execution, h, rfl, rfl, rfl, fun _ => rfl⟩
  requests := fun _ request h => ⟨request, h, fun _ => rfl⟩

theorem DeletionGrows.trans {σ₁ σ₂ σ₃ : Vault} (h : DeletionGrows σ₁ σ₂)
    (h' : DeletionGrows σ₂ σ₃) : DeletionGrows σ₁ σ₃ where
  executions := by
    intro id execution hrow
    obtain ⟨second, hsecond, hr, ho, hh, hfinal⟩ := h.executions id execution hrow
    obtain ⟨third, hthird, hr', ho', hh', hfinal'⟩ := h'.executions id second hsecond
    refine ⟨third, hthird, hr'.trans hr, ho'.trans ho, hh'.trans hh, fun hmem => ?_⟩
    have hstatus := hfinal hmem
    exact (hfinal' (hstatus ▸ hmem)).trans hstatus
  requests := by
    intro id request hrow
    obtain ⟨second, hsecond, hfinal⟩ := h.requests id request hrow
    obtain ⟨third, hthird, hfinal'⟩ := h'.requests id second hsecond
    refine ⟨third, hthird, fun hmem => ?_⟩
    have hstatus := hfinal hmem
    exact (hfinal' (hstatus ▸ hmem)).trans hstatus

theorem DeletionGrows.of_same {σ σ' : Vault}
    (hrequests : SameRows (S := vaultSchema) .privacyRequests σ σ')
    (hexecutions : SameRows (S := vaultSchema) .deletionExecutions σ σ') : DeletionGrows σ σ' where
  executions := fun id execution h =>
    ⟨execution, by rw [hexecutions id]; exact h, rfl, rfl, rfl, fun _ => rfl⟩
  requests := fun id request h => ⟨request, by rw [hrequests id]; exact h, fun _ => rfl⟩

/-- A longer log keeps an execution consistent, as long as its request stays. -/
theorem Consistent.later {log : List PrivacyEntry} {entry : PrivacyEntry} {σ σ' : Vault}
    {id : Identifier} {execution : DeletionExecutionRow} {request : PrivacyRequestRow}
    (h : Consistent log σ id execution request)
    (hrow : σ'.get .privacyRequests execution.privacyRequestId =
      σ.get .privacyRequests execution.privacyRequestId) :
    Consistent (entry :: log) σ' id execution request :=
  { h with
    confirmed := by
      obtain ⟨confirmation, hmem, hconfirms⟩ := h.confirmed
      exact ⟨confirmation, List.mem_cons_of_mem _ hmem, hconfirms⟩
    found := hrow.trans h.found }

/-- The invariant after one more entry, from what the entry itself adds. What earlier
entries promise is carried by the growth of the rows. -/
theorem DeletionInvariant.extend {log : List PrivacyEntry} {σ σ' : Vault} {entry : PrivacyEntry}
    (h : DeletionInvariant log σ) (hgrows : DeletionGrows σ σ')
    (hrequests : ∀ id (request : PrivacyRequestRow),
      σ'.get .privacyRequests id = some request →
      ∃ e ∈ entry :: log, Starts id request.personId request.kind e)
    (hexecutions : ∀ id (execution : DeletionExecutionRow),
      σ'.get .deletionExecutions id = some execution →
      ∃ request, Consistent (entry :: log) σ' id execution request)
    (hunique : ∀ id id' (execution execution' : DeletionExecutionRow),
      σ'.get .deletionExecutions id = some execution →
      σ'.get .deletionExecutions id' = some execution' →
      execution.privacyRequestId = execution'.privacyRequestId → id = id')
    (hmemberships : ∀ id (membership : MembershipRow),
      σ'.get .memberships id = some membership → membership.id = id)
    (hcancels : ∀ requestId, Cancels requestId entry →
      ∃ request : PrivacyRequestRow, σ'.get .privacyRequests requestId = some request ∧
        request.status = .cancelled)
    (hcompletes : ∀ id status, Completes id status entry →
      (status = .awaitingReview ∨ status = .blockedLegalHold) ∧
      (∃ execution : DeletionExecutionRow, σ.get .deletionExecutions id = some execution ∧
        execution.status = .recoveryPeriod) ∧
      ∃ execution : DeletionExecutionRow, σ'.get .deletionExecutions id = some execution ∧
        execution.status = status)
    (hreads : ∀ id, Reads id entry →
      ∃ execution : DeletionExecutionRow, σ'.get .deletionExecutions id = some execution) :
    DeletionInvariant (entry :: log) σ' where
  requests := hrequests
  executions := hexecutions
  unique := hunique
  memberships := hmemberships
  cancelled := by
    intro requestId e hmem hcancel
    rcases List.mem_cons.mp hmem with rfl | hmem
    · exact hcancels requestId hcancel
    · obtain ⟨request, hrow, hstatus⟩ := h.cancelled requestId e hmem hcancel
      obtain ⟨later, hlater, hfinal⟩ := hgrows.requests requestId request hrow
      exact ⟨later, hlater, (hfinal (by rw [hstatus]; decide)).trans hstatus⟩
  completed := by
    intro id status e hmem hcomplete
    rcases List.mem_cons.mp hmem with rfl | hmem
    · obtain ⟨hcases, -, hafter⟩ := hcompletes id status hcomplete
      exact ⟨hcases, hafter⟩
    · obtain ⟨hcases, execution, hrow, hstatus⟩ := h.completed id status e hmem hcomplete
      obtain ⟨later, hlater, -, -, -, hfinal⟩ := hgrows.executions id execution hrow
      have hmember : execution.status ∈ finalDeletionStatuses := by
        rw [hstatus]
        rcases hcases with rfl | rfl <;> decide
      exact ⟨hcases, later, hlater, (hfinal hmember).trans hstatus⟩
  completedOnce := by
    intro id
    refine List.Pairwise.cons ?_ (h.completedOnce id)
    rintro e hmem ⟨⟨status, hnew⟩, status', hold⟩
    obtain ⟨-, ⟨execution, hrow, hrecovery⟩, -⟩ := hcompletes id status hnew
    obtain ⟨hcases, execution', hrow', hstatus⟩ := h.completed id status' e hmem hold
    obtain rfl := Option.some.inj (hrow.symm.trans hrow')
    rw [hrecovery] at hstatus
    subst hstatus
    rcases hcases with hbad | hbad <;> exact absurd hbad (by decide)
  read := by
    intro id e hmem hread
    rcases List.mem_cons.mp hmem with rfl | hmem
    · exact hreads id hread
    · obtain ⟨execution, hrow⟩ := h.read id e hmem hread
      obtain ⟨later, hlater, -⟩ := hgrows.executions id execution hrow
      exact ⟨later, hlater⟩

/-- An entry that changes no request and no execution, and claims nothing new. -/
theorem DeletionInvariant.frame {log : List PrivacyEntry} {σ σ' : Vault} {entry : PrivacyEntry}
    (h : DeletionInvariant log σ)
    (hrequests : SameRows (S := vaultSchema) .privacyRequests σ σ')
    (hexecutions : SameRows (S := vaultSchema) .deletionExecutions σ σ')
    (hmemberships : ∀ id (membership : MembershipRow),
      σ'.get .memberships id = some membership → membership.id = id)
    (hcancels : ∀ requestId, ¬ Cancels requestId entry)
    (hcompletes : ∀ id status, ¬ Completes id status entry)
    (hreads : ∀ id, Reads id entry →
      ∃ execution : DeletionExecutionRow, σ.get .deletionExecutions id = some execution) :
    DeletionInvariant (entry :: log) σ' := by
  refine h.extend (.of_same hrequests hexecutions) ?_ ?_ ?_ hmemberships
    (fun requestId hcancel => absurd hcancel (hcancels requestId))
    (fun id status hcomplete => absurd hcomplete (hcompletes id status)) ?_
  · intro id request hrow
    rw [hrequests id] at hrow
    obtain ⟨e, hmem, hstarts⟩ := h.requests id request hrow
    exact ⟨e, List.mem_cons_of_mem _ hmem, hstarts⟩
  · intro id execution hrow
    rw [hexecutions id] at hrow
    obtain ⟨request, hconsistent⟩ := h.executions id execution hrow
    exact ⟨request, hconsistent.later (hrequests _)⟩
  · intro id id' execution execution' hrow hrow' heq
    rw [hexecutions id] at hrow
    rw [hexecutions id'] at hrow'
    exact h.unique id id' execution execution' hrow hrow' heq
  · intro id hread
    rw [hexecutions id]
    exact hreads id hread

/-- A started request. -/
theorem DeletionInvariant.started {log : List PrivacyEntry} {σ σ' : Vault}
    {context : TenantContext} {key : String} {input : StartPrivacyInput}
    {generated : StartPrivacyGenerated} {now : Instant} {body : Json}
    (h : DeletionInvariant log σ) (hactor : input.personId = context.actorId)
    (hfree : σ.get .privacyRequests generated.privacyId = none)
    (hrequests : Replaces (S := vaultSchema) .privacyRequests generated.privacyId
      (some (startedRequest context input generated)) σ σ')
    (hexecutions : SameRows (S := vaultSchema) .deletionExecutions σ σ')
    (hmemberships : SameRows (S := vaultSchema) .memberships σ σ') :
    DeletionInvariant (⟨.start context key input generated now,
      .committed (.answer (.applied body))⟩ :: log) σ' ∧ DeletionGrows σ σ' := by
  have hold : ∀ id (request : PrivacyRequestRow), σ.get .privacyRequests id = some request →
      σ'.get .privacyRequests id = σ.get .privacyRequests id := by
    intro id request hrow
    refine hrequests.others id ?_
    rintro rfl
    exact absurd (hrow.symm.trans hfree) (by simp)
  have hgrows : DeletionGrows σ σ' :=
    { executions := fun id execution hrow =>
        ⟨execution, by rw [hexecutions id]; exact hrow, rfl, rfl, rfl, fun _ => rfl⟩
      requests := fun id request hrow =>
        ⟨request, by rw [hold id request hrow]; exact hrow, fun _ => rfl⟩ }
  refine ⟨h.extend hgrows ?_ ?_ ?_ ?_ ?_ ?_ ?_, hgrows⟩
  · intro id request hrow
    by_cases hid : id = generated.privacyId
    · subst hid
      obtain rfl := Option.some.inj (hrequests.row.symm.trans hrow)
      exact ⟨_, List.mem_cons_self, context, key, input, generated, now, body, rfl, rfl,
        hactor.symm, rfl, rfl⟩
    · rw [hrequests.others id hid] at hrow
      obtain ⟨e, hmem, hstarts⟩ := h.requests id request hrow
      exact ⟨e, List.mem_cons_of_mem _ hmem, hstarts⟩
  · intro id execution hrow
    rw [hexecutions id] at hrow
    obtain ⟨request, hconsistent⟩ := h.executions id execution hrow
    exact ⟨request, hconsistent.later (hold _ request hconsistent.found)⟩
  · intro id id' execution execution' hrow hrow' heq
    rw [hexecutions id] at hrow
    rw [hexecutions id'] at hrow'
    exact h.unique id id' execution execution' hrow hrow' heq
  · intro id membership hrow
    rw [hmemberships id] at hrow
    exact h.memberships id membership hrow
  · rintro requestId ⟨_, _, _, _, _, hbad, _⟩
    simp at hbad
  · rintro id status ⟨_, _, _, hbad, _⟩
    simp at hbad
  · rintro id ⟨_, _, _, _, hbad, _⟩
    simp at hbad

/-- A confirmed deletion. Its request had no execution, since every execution has the
status of its request. -/
theorem DeletionInvariant.confirmed {log : List PrivacyEntry} {σ σ' : Vault}
    {context : TenantContext} {key : String} {input : ConfirmDeletionInput}
    {generated : ConfirmDeletionGenerated} {now : Instant} {body : Json}
    {request updated : PrivacyRequestRow} {workflowId : Identifier}
    (h : DeletionInvariant log σ)
    (hrow : σ.get .privacyRequests input.requestId = some request)
    (hconfirmable : request.confirmable context = true)
    (hchange : confirmRequestRow context input generated request = some updated)
    (hfree : σ.get .deletionExecutions generated.executionId = none)
    (hrequests : Replaces (S := vaultSchema) .privacyRequests input.requestId (some updated) σ σ')
    (hexecutions : Replaces (S := vaultSchema) .deletionExecutions generated.executionId
      (some (confirmedExecution context input generated workflowId)) σ σ')
    (hmemberships : SameRows (S := vaultSchema) .memberships σ σ') :
    DeletionInvariant (⟨.confirm context key input generated now,
      .committed (.answer (.applied body))⟩ :: log) σ' ∧ DeletionGrows σ σ' := by
  simp only [PrivacyRequestRow.confirmable, Bool.and_eq_true, beq_iff_eq] at hconfirmable
  obtain ⟨⟨hperson, hkind⟩, hstatus⟩ := hconfirmable
  have hupdated : context.sees request = true ∧ updated.status = .recoveryPeriod ∧
      updated.personId = request.personId ∧ updated.kind = request.kind ∧
      updated.organizationId = request.organizationId ∧
      updated.householdId = request.householdId := by
    unfold confirmRequestRow at hchange
    split at hchange
    · rename_i hcondition
      obtain rfl := Option.some.inj hchange
      exact ⟨hcondition.1, rfl, rfl, rfl, rfl, rfl⟩
    · exact absurd hchange (by simp)
  obtain ⟨hsees, hrecovery, hperson', hkind', horganization, hhousehold⟩ := hupdated
  have htenant := TenantContext.sees_iff.mp hsees
  have hnone : ∀ id (execution : DeletionExecutionRow),
      σ.get .deletionExecutions id = some execution →
      execution.privacyRequestId ≠ input.requestId := by
    intro id execution hexecution heq
    obtain ⟨request', hconsistent⟩ := h.executions id execution hexecution
    have hfound := hconsistent.found
    rw [heq, hrow] at hfound
    obtain rfl := Option.some.inj hfound
    have hsame := hconsistent.status
    rw [hstatus] at hsame
    rcases hconsistent.status_mem with hcase | hcase
    · rw [← hsame] at hcase
      exact absurd hcase (by decide)
    · rw [← hsame] at hcase
      exact absurd hcase (by decide)
  have holdExecution : ∀ id (execution : DeletionExecutionRow),
      σ.get .deletionExecutions id = some execution →
      σ'.get .deletionExecutions id = some execution := by
    intro id execution hexecution
    rw [hexecutions.others id ?_]
    · exact hexecution
    · rintro rfl
      exact absurd (hexecution.symm.trans hfree) (by simp)
  have hgrows : DeletionGrows σ σ' :=
    { executions := fun id execution hexecution =>
        ⟨execution, holdExecution id execution hexecution, rfl, rfl, rfl, fun _ => rfl⟩
      requests := by
        intro id old hold
        by_cases hid : id = input.requestId
        · subst hid
          obtain rfl := Option.some.inj (hrow.symm.trans hold)
          refine ⟨updated, hrequests.row, fun hmem => ?_⟩
          rw [hstatus] at hmem
          exact absurd hmem (by decide)
        · exact ⟨old, by rw [hrequests.others id hid]; exact hold, fun _ => rfl⟩ }
  refine ⟨h.extend hgrows ?_ ?_ ?_ ?_ ?_ ?_ ?_, hgrows⟩
  · intro id row hnew
    by_cases hid : id = input.requestId
    · subst hid
      obtain rfl := Option.some.inj (hrequests.row.symm.trans hnew)
      obtain ⟨e, hmem, hstarts⟩ := h.requests input.requestId request hrow
      rw [hperson', hkind']
      exact ⟨e, List.mem_cons_of_mem _ hmem, hstarts⟩
    · rw [hrequests.others id hid] at hnew
      obtain ⟨e, hmem, hstarts⟩ := h.requests id row hnew
      exact ⟨e, List.mem_cons_of_mem _ hmem, hstarts⟩
  · intro id execution hexecution
    by_cases hid : id = generated.executionId
    · subst hid
      obtain rfl := Option.some.inj (hexecutions.row.symm.trans hexecution)
      exact ⟨updated,
        { keyed := rfl
          confirmed := ⟨_, List.mem_cons_self, context, key, input, generated, now, body, rfl,
            rfl, rfl, rfl, rfl⟩
          status_mem := Or.inl rfl
          found := hrequests.row
          status := hrecovery
          person := hperson'.trans hperson
          kind := hkind'.trans hkind
          tenant := ⟨horganization.trans htenant.1, hhousehold.trans htenant.2⟩ }⟩
    · rw [hexecutions.others id hid] at hexecution
      obtain ⟨request', hconsistent⟩ := h.executions id execution hexecution
      exact ⟨request', hconsistent.later (hrequests.others _ (hnone id execution hexecution))⟩
  · intro id id' execution execution' hexecution hexecution' heq
    by_cases hid : id = generated.executionId <;> by_cases hid' : id' = generated.executionId
    · rw [hid, hid']
    · subst hid
      obtain rfl := Option.some.inj (hexecutions.row.symm.trans hexecution)
      rw [hexecutions.others id' hid'] at hexecution'
      exact absurd heq.symm (hnone id' execution' hexecution')
    · subst hid'
      obtain rfl := Option.some.inj (hexecutions.row.symm.trans hexecution')
      rw [hexecutions.others id hid] at hexecution
      exact absurd heq (hnone id execution hexecution)
    · rw [hexecutions.others id hid] at hexecution
      rw [hexecutions.others id' hid'] at hexecution'
      exact h.unique id id' execution execution' hexecution hexecution' heq
  · intro id membership hmembership
    rw [hmemberships id] at hmembership
    exact h.memberships id membership hmembership
  · rintro requestId ⟨_, _, _, _, _, hbad, _⟩
    simp at hbad
  · rintro id status ⟨_, _, _, hbad, _⟩
    simp at hbad
  · rintro id ⟨_, _, _, _, hbad, _⟩
    simp at hbad

/-- What a cancellation keeps of an execution: all of it, or all but its progress. -/
def CancelKeeps (requestId : Identifier) (old new : DeletionExecutionRow) : Prop :=
  new = old ∨ (old.status = .recoveryPeriod ∧ old.privacyRequestId = requestId ∧
    new.status = .cancelled ∧ new.id = old.id ∧ new.privacyRequestId = old.privacyRequestId ∧
    new.personId = old.personId ∧ new.recoveryUntil = old.recoveryUntil ∧
    new.organizationId = old.organizationId ∧ new.householdId = old.householdId)

theorem cancelExecutionRow_keeps {context : TenantContext} {requestId : Identifier}
    {now : Instant} {old new : DeletionExecutionRow}
    (h : cancelExecutionRow context requestId now old = some new) :
    old.status = .recoveryPeriod ∧ old.privacyRequestId = requestId ∧ new.status = .cancelled ∧
      new.id = old.id ∧ new.privacyRequestId = old.privacyRequestId ∧
      new.personId = old.personId ∧ new.recoveryUntil = old.recoveryUntil ∧
      new.organizationId = old.organizationId ∧ new.householdId = old.householdId := by
  unfold cancelExecutionRow at h
  split at h
  · rename_i hcondition
    obtain rfl := Option.some.inj h
    exact ⟨hcondition.2.2, hcondition.2.1, rfl, rfl, rfl, rfl, rfl, rfl, rfl⟩
  · exact absurd h (by simp)

/-- A cancelled execution is kept as it is. -/
theorem CancelKeeps.trans {requestId : Identifier} {a b c : DeletionExecutionRow}
    (h : CancelKeeps requestId a b) (h' : CancelKeeps requestId b c) :
    CancelKeeps requestId a c := by
  rcases h with rfl | h
  · exact h'
  · rcases h' with rfl | h'
    · exact Or.inr h
    · have hcancelled := h.2.2.1
      rw [h'.1] at hcancelled
      exact absurd hcancelled (by decide)

/-- A cancelled deletion. Its request has one execution, and that one is cancelled. -/
theorem DeletionInvariant.cancel {log : List PrivacyEntry} {σ σ' : Vault}
    {context : TenantContext} {key : String} {input : CancelDeletionInput} {now : Instant}
    {body : Json} {request updated : PrivacyRequestRow} {changed : Identifier}
    {old new : DeletionExecutionRow} (h : DeletionInvariant log σ)
    (hrow : σ.get .privacyRequests input.requestId = some request)
    (hchange : cancelRequestRow context input now request = some updated)
    (hrequests : Replaces (S := vaultSchema) .privacyRequests input.requestId (some updated) σ σ')
    (hrewrites : ∀ k, Rewrites (S := vaultSchema) (t := .deletionExecutions)
      (cancelExecutionRow context input.requestId now)
      (σ.get .deletionExecutions k) (σ'.get .deletionExecutions k))
    (hold : σ.get .deletionExecutions changed = some old)
    (hnew : cancelExecutionRow context input.requestId now old = some new)
    (hafter : σ'.get .deletionExecutions changed = some new)
    (hmemberships : SameRows (S := vaultSchema) .memberships σ σ') :
    DeletionInvariant (⟨.cancel context key input now,
      .committed (.answer (.applied body))⟩ :: log) σ' ∧ DeletionGrows σ σ' := by
  have hupdated : request.status = .recoveryPeriod ∧ updated.status = .cancelled ∧
      updated.personId = request.personId ∧ updated.kind = request.kind ∧
      updated.organizationId = request.organizationId ∧
      updated.householdId = request.householdId := by
    unfold cancelRequestRow at hchange
    split at hchange
    · rename_i hcondition
      obtain rfl := Option.some.inj hchange
      exact ⟨hcondition.2.2.2.1, rfl, rfl, rfl, rfl, rfl⟩
    · exact absurd hchange (by simp)
  obtain ⟨hrecovery, hcancelled, hperson, hkind, horganization, hhousehold⟩ := hupdated
  have hkept : ∀ id, (σ.get .deletionExecutions id = none ∧
      σ'.get .deletionExecutions id = none) ∨ ∃ before after : DeletionExecutionRow,
      σ.get .deletionExecutions id = some before ∧ σ'.get .deletionExecutions id = some after ∧
      CancelKeeps input.requestId before after := fun id =>
    (hrewrites id).keeps (CancelKeeps input.requestId) (fun _ => Or.inl rfl)
      (fun _ _ _ => CancelKeeps.trans) (fun _ _ hc => Or.inr (cancelExecutionRow_keeps hc))
  have hbefore : ∀ id (after : DeletionExecutionRow), σ'.get .deletionExecutions id = some after →
      ∃ before : DeletionExecutionRow, σ.get .deletionExecutions id = some before ∧
        CancelKeeps input.requestId before after := by
    intro id after hget
    rcases hkept id with ⟨-, hnone⟩ | ⟨before, after', hb, ha, hk⟩
    · exact absurd (hget.symm.trans hnone) (by simp)
    · obtain rfl := Option.some.inj (hget.symm.trans ha)
      exact ⟨before, hb, hk⟩
  have hsameRequest : ∀ {before after : DeletionExecutionRow},
      CancelKeeps input.requestId before after →
      after.privacyRequestId = before.privacyRequestId := by
    rintro before after (rfl | hk)
    · rfl
    · exact hk.2.2.2.2.1
  -- an execution that is kept as it is belongs to another request
  have helse : ∀ id (execution : DeletionExecutionRow),
      σ.get .deletionExecutions id = some execution →
      σ'.get .deletionExecutions id = some execution →
      execution.privacyRequestId ≠ input.requestId := by
    intro id execution hb ha heq
    have hof := cancelExecutionRow_keeps hnew
    have hid := h.unique id changed execution old hb hold (heq.trans hof.2.1.symm)
    subst hid
    obtain rfl := Option.some.inj (hb.symm.trans hold)
    obtain rfl := Option.some.inj (ha.symm.trans hafter)
    rw [hof.1] at hof
    exact absurd hof.2.2.1 (by decide)
  have hgrows : DeletionGrows σ σ' :=
    { executions := by
        intro id execution hget
        rcases hkept id with ⟨hnone, -⟩ | ⟨before, after, hb, ha, hk⟩
        · exact absurd (hget.symm.trans hnone) (by simp)
        · obtain rfl := Option.some.inj (hget.symm.trans hb)
          rcases hk with rfl | ⟨hstatus, -, -, -, hr, -, -, ho, hh⟩
          · exact ⟨after, ha, rfl, rfl, rfl, fun _ => rfl⟩
          · refine ⟨after, ha, hr, ho, hh, fun hmem => ?_⟩
            rw [hstatus] at hmem
            exact absurd hmem (by decide)
      requests := by
        intro id row hget
        by_cases hid : id = input.requestId
        · subst hid
          obtain rfl := Option.some.inj (hrow.symm.trans hget)
          refine ⟨updated, hrequests.row, fun hmem => ?_⟩
          rw [hrecovery] at hmem
          exact absurd hmem (by decide)
        · exact ⟨row, by rw [hrequests.others id hid]; exact hget, fun _ => rfl⟩ }
  refine ⟨h.extend hgrows ?_ ?_ ?_ ?_ ?_ ?_ ?_, hgrows⟩
  · intro id row hget
    by_cases hid : id = input.requestId
    · subst hid
      obtain rfl := Option.some.inj (hrequests.row.symm.trans hget)
      obtain ⟨e, hmem, hstarts⟩ := h.requests input.requestId request hrow
      rw [hperson, hkind]
      exact ⟨e, List.mem_cons_of_mem _ hmem, hstarts⟩
    · rw [hrequests.others id hid] at hget
      obtain ⟨e, hmem, hstarts⟩ := h.requests id row hget
      exact ⟨e, List.mem_cons_of_mem _ hmem, hstarts⟩
  · intro id execution hget
    obtain ⟨before, hb, hk⟩ := hbefore id execution hget
    obtain ⟨request', hconsistent⟩ := h.executions id before hb
    rcases hk with rfl | ⟨-, hof, hstatus, hid, hr, hp, hu, ho, hh⟩
    · exact ⟨request', hconsistent.later (hrequests.others _ (helse id _ hb hget))⟩
    · have hfound := hconsistent.found
      rw [hof, hrow] at hfound
      obtain rfl := Option.some.inj hfound
      obtain ⟨confirmation, hmem, hconfirms⟩ := hconsistent.confirmed
      exact ⟨updated,
        { keyed := hid.trans hconsistent.keyed
          confirmed := ⟨confirmation, List.mem_cons_of_mem _ hmem, by
            rw [hr, hp, hu]; exact hconfirms⟩
          status_mem := Or.inr (by rw [hstatus]; decide)
          found := by rw [hr, hof]; exact hrequests.row
          status := hcancelled.trans hstatus.symm
          person := (hperson.trans hconsistent.person).trans hp.symm
          kind := hkind.trans hconsistent.kind
          tenant := ⟨(horganization.trans hconsistent.tenant.1).trans ho.symm,
            (hhousehold.trans hconsistent.tenant.2).trans hh.symm⟩ }⟩
  · intro id id' execution execution' hget hget' heq
    obtain ⟨before, hb, hk⟩ := hbefore id execution hget
    obtain ⟨before', hb', hk'⟩ := hbefore id' execution' hget'
    rw [hsameRequest hk, hsameRequest hk'] at heq
    exact h.unique id id' before before' hb hb' heq
  · intro id membership hmembership
    rw [hmemberships id] at hmembership
    exact h.memberships id membership hmembership
  · rintro requestId ⟨context', key', input', now', body', hentry, hid⟩
    simp only [Entry.mk.injEq, PrivacyCall.cancel.injEq] at hentry
    obtain ⟨⟨-, -, rfl, -⟩, -⟩ := hentry
    subst hid
    exact ⟨updated, hrequests.row, hcancelled⟩
  · rintro id status ⟨_, _, _, hbad, _⟩
    simp at hbad
  · rintro id ⟨_, _, _, _, hbad, _⟩
    simp at hbad

/-- A completed deletion. -/
theorem DeletionInvariant.complete {log : List PrivacyEntry} {σ σ' : Vault}
    {seen : Vault → Prop} {context : TenantContext} {input : CompleteDeletionInput}
    {progress : PrivacyDeletionProgress} {execution moved : DeletionExecutionRow}
    {request : PrivacyRequestRow} (h : DeletionInvariant log σ)
    (hdone : Completion seen context input σ σ' progress.status execution moved request)
    (hmemberships : ∀ id (membership : MembershipRow),
      σ'.get .memberships id = some membership → membership.id = id) :
    DeletionInvariant (⟨.complete context input, .committed (.progress progress)⟩ :: log) σ' ∧
      DeletionGrows σ σ' := by
  obtain ⟨hid, hp, hr, ho, hh, hu⟩ := hdone.same
  have hfinal : progress.status = .awaitingReview ∨ progress.status = .blockedLegalHold := by
    rcases hdone.branch with ⟨hs, -⟩ | ⟨hs, -⟩
    · exact Or.inr hs
    · exact Or.inl hs
  have hmember : progress.status ∈ finalDeletionStatuses := by
    rcases hfinal with hs | hs <;> rw [hs] <;> decide
  obtain ⟨request', hconsistent⟩ := h.executions _ _ hdone.found
  obtain rfl : request' = request :=
    Option.some.inj (hconsistent.found.symm.trans hdone.request_found)
  have hrecovery : request'.status = .recoveryPeriod := hconsistent.status.trans hdone.due.1
  have helse : ∀ id (other : DeletionExecutionRow), id ≠ input.executionId →
      σ.get .deletionExecutions id = some other →
      other.privacyRequestId ≠ execution.privacyRequestId := by
    intro id other hne hget heq
    exact hne (h.unique id input.executionId other execution hget hdone.found heq)
  have hgrows : DeletionGrows σ σ' :=
    { executions := by
        intro id other hget
        by_cases hne : id = input.executionId
        · subst hne
          obtain rfl := Option.some.inj (hget.symm.trans hdone.found)
          refine ⟨moved, hdone.executions.row, hr, ho, hh, fun hmem => ?_⟩
          rw [hdone.due.1] at hmem
          exact absurd hmem (by decide)
        · exact ⟨other, by rw [hdone.executions.others id hne]; exact hget, rfl, rfl, rfl,
            fun _ => rfl⟩
      requests := by
        intro id row hget
        by_cases hne : id = execution.privacyRequestId
        · subst hne
          obtain rfl := Option.some.inj (hget.symm.trans hdone.request_found)
          refine ⟨_, hdone.requests.row, fun hmem => ?_⟩
          rw [hrecovery] at hmem
          exact absurd hmem (by decide)
        · exact ⟨row, by rw [hdone.requests.others id hne]; exact hget, fun _ => rfl⟩ }
  refine ⟨h.extend hgrows ?_ ?_ ?_ hmemberships ?_ ?_ ?_, hgrows⟩
  · intro id row hget
    by_cases hne : id = execution.privacyRequestId
    · subst hne
      obtain rfl := Option.some.inj (hdone.requests.row.symm.trans hget)
      obtain ⟨e, hmem, hstarts⟩ := h.requests _ request' hdone.request_found
      exact ⟨e, List.mem_cons_of_mem _ hmem, hstarts⟩
    · rw [hdone.requests.others id hne] at hget
      obtain ⟨e, hmem, hstarts⟩ := h.requests id row hget
      exact ⟨e, List.mem_cons_of_mem _ hmem, hstarts⟩
  · intro id row hget
    by_cases hne : id = input.executionId
    · subst hne
      obtain rfl := Option.some.inj (hdone.executions.row.symm.trans hget)
      obtain ⟨confirmation, hmem, hconfirms⟩ := hconsistent.confirmed
      exact ⟨request'.moved progress.status,
        { keyed := hid.trans hconsistent.keyed
          confirmed := ⟨confirmation, List.mem_cons_of_mem _ hmem, by
            rw [hr, hp, hu]; exact hconfirms⟩
          status_mem := Or.inr (by rw [hdone.moved_status]; exact hmember)
          found := by rw [hr]; exact hdone.requests.row
          status := hdone.moved_status.symm
          person := hconsistent.person.trans hp.symm
          kind := hconsistent.kind
          tenant := ⟨hconsistent.tenant.1.trans ho.symm, hconsistent.tenant.2.trans hh.symm⟩ }⟩
    · rw [hdone.executions.others id hne] at hget
      obtain ⟨other, hother⟩ := h.executions id row hget
      exact ⟨other, hother.later (hdone.requests.others _ (helse id row hne hget))⟩
  · intro id id' row row' hget hget' heq
    have hback : ∀ id (row : DeletionExecutionRow), σ'.get .deletionExecutions id = some row →
        ∃ before : DeletionExecutionRow, σ.get .deletionExecutions id = some before ∧
          row.privacyRequestId = before.privacyRequestId := by
      intro id row hget
      by_cases hne : id = input.executionId
      · subst hne
        obtain rfl := Option.some.inj (hdone.executions.row.symm.trans hget)
        exact ⟨execution, hdone.found, hr⟩
      · rw [hdone.executions.others id hne] at hget
        exact ⟨row, hget, rfl⟩
    obtain ⟨before, hb, hsame⟩ := hback id row hget
    obtain ⟨before', hb', hsame'⟩ := hback id' row' hget'
    rw [hsame, hsame'] at heq
    exact h.unique id id' before before' hb hb' heq
  · rintro requestId ⟨_, _, _, _, _, hbad, _⟩
    simp at hbad
  · rintro id status ⟨context', input', progress', hentry, hid', hstatus⟩
    simp only [Entry.mk.injEq, PrivacyCall.complete.injEq, Outcome.committed.injEq,
      PrivacyResult.progress.injEq] at hentry
    obtain ⟨⟨-, rfl⟩, rfl⟩ := hentry
    subst hid' hstatus
    exact ⟨hfinal, ⟨execution, hdone.found, hdone.due.1⟩, moved, hdone.executions.row,
      hdone.moved_status⟩
  · rintro id ⟨_, _, _, _, hbad, _⟩
    simp at hbad

theorem OutsidePrivacy.refl (t : VaultTable) (k : t.Key) (v : Option t.Row) :
    OutsidePrivacy t k v v := by
  cases t <;> try exact trivial
  case privacyRequests => exact rfl
  case deletionExecutions => exact rfl
  case people => exact id
  case memberships =>
    refine ⟨id, fun new hnew => ⟨fun hnone => ?_, fun old hold => ?_⟩⟩
    · exact absurd (hnew.symm.trans hnone) (by simp)
    · obtain rfl := Option.some.inj (hnew.symm.trans hold)
      exact ⟨rfl, rfl, id⟩

theorem OutsidePrivacy.trans (t : VaultTable) (k : t.Key) (u v w : Option t.Row)
    (h : OutsidePrivacy t k u v) (h' : OutsidePrivacy t k v w) : OutsidePrivacy t k u w := by
  cases t <;> try exact trivial
  case privacyRequests => exact Eq.trans h' h
  case deletionExecutions => exact Eq.trans h' h
  case people => exact fun hnone => h (h' hnone)
  case memberships =>
    obtain ⟨hdeleted, hkept⟩ := h
    obtain ⟨hdeleted', hkept'⟩ := h'
    refine ⟨fun hnone => hdeleted (hdeleted' hnone), fun new hnew => ⟨fun hnone => ?_, ?_⟩⟩
    · cases hv : v with
      | none => exact (hkept' new hnew).1 hv
      | some middle =>
        obtain ⟨hid, -⟩ := (hkept' new hnew).2 middle hv
        exact hid.trans ((hkept middle hv).1 hnone)
    · intro old hold
      cases hv : v with
      | none => exact absurd (hold.symm.trans (hdeleted hv)) (by simp)
      | some middle =>
        obtain ⟨hid, hperson, hactive⟩ := (hkept middle hv).2 old hold
        obtain ⟨hid', hperson', hactive'⟩ := (hkept' new hnew).2 middle hv
        exact ⟨hid'.trans hid, hperson'.trans hperson, fun ha => hactive' (hactive ha)⟩

/-- A transaction outside the privacy workflow relates every row before and after. -/
theorem outside_executes {transaction : Transaction Unit}
    (houtside : transaction.Writes OutsidePrivacy) {seen : Vault → Prop} {σ : Vault}
    {ws : List (Write vaultSchema)} {u : Unit}
    (h : transaction.Executes seen σ [] (.ok u) ws) (t : VaultTable) (k : t.Key) :
    OutsidePrivacy t k (σ.get t k) ((σ.overlay ws).get t k) :=
  Writes.executes OutsidePrivacy.refl OutsidePrivacy.trans houtside h t k

/-- Under its record, a mutation sees and leaves every other table as without it. -/
theorem sameRows_record {t : VaultTable} (h : t ≠ .idempotencyRecords) (σ : Vault)
    (k : Identifier × Identifier × String) (row : Option IdempotencyRow)
    (ws : List (Write vaultSchema)) :
    SameRows (S := vaultSchema) t (σ.overlay ws)
      (σ.overlay (⟨VaultTable.idempotencyRecords, k, row⟩ :: ws)) :=
  sameRows_overlay_cons σ k row ws h

/-- An entry without a committed result claims nothing. -/
theorem DeletionInvariant.failed {log : List PrivacyEntry} {σ : Vault} {entry : PrivacyEntry}
    (h : DeletionInvariant log σ) (hfailed : ∀ a, entry.outcome ≠ .committed a) :
    DeletionInvariant (entry :: log) σ := by
  refine h.frame (fun _ => rfl) (fun _ => rfl) h.memberships ?_ ?_ ?_
  · rintro requestId ⟨_, _, _, _, _, rfl, _⟩
    exact hfailed _ rfl
  · rintro id status ⟨_, _, _, rfl, _⟩
    exact hfailed _ rfl
  · rintro id ⟨_, _, _, _, rfl, _⟩
    exact absurd rfl (hfailed _)

/-- A replay writes nothing and claims nothing. -/
theorem DeletionInvariant.replayed {log : List PrivacyEntry} {σ : Vault} {call : PrivacyCall}
    {body : Json} (h : DeletionInvariant log σ) :
    DeletionInvariant (⟨call, .committed (.answer (.replayed body))⟩ :: log) σ := by
  refine h.frame (fun _ => rfl) (fun _ => rfl) h.memberships ?_ ?_ ?_
  · rintro requestId ⟨_, _, _, _, _, hbad, _⟩
    simp at hbad
  · rintro id status ⟨_, _, _, hbad, _⟩
    simp at hbad
  · rintro id ⟨_, _, _, _, hbad, _⟩
    simp at hbad

/-- The worker completes only an execution whose request every store it has seen holds. -/
theorem request_seen {sha256 : Sha256} {log begun : List PrivacyEntry} {seen : Vault → Prop}
    {σ : Vault} {context : TenantContext} {input : CompleteDeletionInput}
    (hpermitted : (privacyProtocol sha256).permitted begun (.complete context input))
    (hearlier : ∀ σ₀, seen σ₀ →
      Protocol.Earlier (P := privacyProtocol sha256) DeletionInvariant DeletionGrows begun log σ σ₀)
    {execution : DeletionExecutionRow}
    (hrow : σ.get .deletionExecutions input.executionId = some execution)
    (hsees : context.sees execution = true) {σ₀ : Vault} (hs : seen σ₀) :
    ∃ request : PrivacyRequestRow,
      σ₀.get .privacyRequests execution.privacyRequestId = some request ∧
        context.sees request = true := by
  obtain ⟨workflowId, readAt, deletion, clock, days, processorId, hmem, hstep⟩ := hpermitted
  have hexecutionId : deletion.executionId = input.executionId := by
    unfold privacyDeletionStep at hstep
    split at hstep
    · simp at hstep
    · split at hstep
      · simp at hstep
      · obtain rfl := Option.some.inj (Except.ok.inj hstep)
        rfl
  obtain ⟨hgrows, log₀, hbegun, -, hinv⟩ := hearlier σ₀ hs
  obtain ⟨earlier, hearlierRow⟩ := hinv.read input.executionId _ (hbegun.subset hmem)
    ⟨context, workflowId, readAt, deletion, rfl, hexecutionId⟩
  obtain ⟨request, hconsistent⟩ := hinv.executions _ earlier hearlierRow
  obtain ⟨later, hlater, hrequest, horganization, hhousehold, -⟩ :=
    hgrows.executions _ earlier hearlierRow
  obtain rfl : later = execution := Option.some.inj (hlater.symm.trans hrow)
  obtain ⟨hor, hho⟩ := TenantContext.sees_iff.mp hsees
  refine ⟨request, by rw [hrequest]; exact hconsistent.found, TenantContext.sees_iff.mpr ⟨?_, ?_⟩⟩
  · exact hconsistent.tenant.1.trans (horganization.symm.trans hor)
  · exact hconsistent.tenant.2.trans (hhousehold.symm.trans hho)

/-- After a completion memberships are still keyed by their identifiers. -/
theorem Completion.keyed {seen : Vault → Prop} {context : TenantContext}
    {input : CompleteDeletionInput} {σ σ' : Vault} {status : PrivacyStatus}
    {execution moved : DeletionExecutionRow} {request : PrivacyRequestRow}
    (h : Completion seen context input σ σ' status execution moved request)
    (hkeyed : ∀ id (membership : MembershipRow),
      σ.get .memberships id = some membership → membership.id = id) :
    ∀ id (membership : MembershipRow),
      σ'.get .memberships id = some membership → membership.id = id := by
  intro id membership hget
  rcases h.branch with ⟨-, -, hsame⟩ | ⟨-, -, -, hdeactivates⟩
  · rw [hsame id] at hget
    exact hkeyed id membership hget
  · rcases hdeactivates id with ⟨-, hnone⟩ | ⟨old, new, hold, hnew, hid, -⟩
    · exact absurd (hget.symm.trans hnone) (by simp)
    · obtain rfl := Option.some.inj (hget.symm.trans hnew)
      exact hid.trans (hkeyed id old hold)

/-- The rows a run of the privacy workflow begins with: no request, no execution, and
memberships keyed by their identifiers. -/
structure BeforePrivacy (init : Vault) : Prop where
  requests : ∀ id, init.get .privacyRequests id = none
  executions : ∀ id, init.get .deletionExecutions id = none
  memberships : ∀ id (membership : MembershipRow),
    init.get .memberships id = some membership → membership.id = id

/-- The invariant of the privacy workflow. -/
theorem deletion_invariant (sha256 : Sha256) {init : Vault} (hinit : BeforePrivacy init) :
    (privacyProtocol sha256).Invariant init DeletionInvariant DeletionGrows where
  refl := DeletionGrows.refl
  trans := DeletionGrows.trans
  start :=
    { requests := fun id request h => absurd (h.symm.trans (hinit.requests id)) (by simp)
      executions := fun id execution h => absurd (h.symm.trans (hinit.executions id)) (by simp)
      unique := fun id _ execution _ h => absurd (h.symm.trans (hinit.executions id)) (by simp)
      cancelled := fun _ _ h => absurd h (by simp)
      completed := fun _ _ _ h => absurd h (by simp)
      completedOnce := fun _ => List.Pairwise.nil
      read := fun _ _ h => absurd h (by simp)
      memberships := hinit.memberships }
  rollback := fun hinv _ _ _ _ _ => hinv.failed (by simp)
  abort := fun hinv _ _ => hinv.failed (by simp)
  commit := by
    intro log begun seen σ call result ws hinv hpermitted _ hnow hearlier hexec
    cases call with
    | start context key input generated now =>
      obtain ⟨answer, ws₁, hstart, hresult, rfl⟩ := executes_bind_ok.mp hexec
      obtain rfl := Except.ok.inj hresult
      unfold startPrivacyRequest at hstart
      split at hstart
      · rename_i hactor
        rcases executes_withTenantRecord
          (startPrivacyMutation_leaves (by decide) (by decide) _ _ _) hstart with
          ⟨body, rfl, rfl⟩ | ⟨body, reserved, completed, ws₂, rfl, hmutation, rfl⟩
        · exact ⟨hinv.replayed, .refl σ⟩
        · obtain ⟨hfree, hrequests⟩ := startPrivacyMutation_executes hmutation
          have hleaves := fun (t : VaultTable) h₁ h₂ =>
            (startPrivacyMutation_leaves (t := t) h₁ h₂ context input generated).sameRows hmutation
          rw [sameRows_record (by decide) σ _ _ []] at hfree
          exact hinv.started hactor hfree
            ((hrequests.after_same (sameRows_record (by decide) σ _ _ [])).then_same
              (sameRows_record (by decide) σ _ _ _))
            (((sameRows_record (by decide) σ _ _ []).trans
              (hleaves .deletionExecutions (by decide) (by decide))).trans
              (sameRows_record (by decide) σ _ _ _))
            (((sameRows_record (by decide) σ _ _ []).trans
              (hleaves .memberships (by decide) (by decide))).trans
              (sameRows_record (by decide) σ _ _ _))
      · exact absurd hstart.1 (by simp)
    | confirm context key input generated now =>
      obtain ⟨answer, ws₁, hconfirm, hresult, rfl⟩ := executes_bind_ok.mp hexec
      obtain rfl := Except.ok.inj hresult
      rcases executes_withTenantRecord
        (confirmDeletionMutation_leaves (by decide) (by decide) (by decide) _ _ _) hconfirm with
        ⟨body, rfl, rfl⟩ | ⟨body, reserved, completed, ws₂, rfl, hmutation, rfl⟩
      · exact ⟨hinv.replayed, .refl σ⟩
      · obtain ⟨request, updated, workflowId, hrow, hconfirmable, hchange, hfree, hrequests,
          hexecutions⟩ := confirmDeletionMutation_executes hmutation
        have hmemberships : SameRows (S := vaultSchema) .memberships
            (σ.overlay [⟨VaultTable.idempotencyRecords, context.recordKey key, some reserved⟩])
            (σ.overlay ws₂) :=
          (confirmDeletionMutation_leaves (by decide) (by decide) (by decide) _ _ _).sameRows
            hmutation
        rw [sameRows_record (by decide) σ _ _ []] at hrow hfree
        exact hinv.confirmed hrow hconfirmable hchange hfree
          ((hrequests.after_same (sameRows_record (by decide) σ _ _ [])).then_same
            (sameRows_record (by decide) σ _ _ _))
          ((hexecutions.after_same (sameRows_record (by decide) σ _ _ [])).then_same
            (sameRows_record (by decide) σ _ _ _))
          (((sameRows_record (by decide) σ _ _ []).trans hmemberships).trans
            (sameRows_record (by decide) σ _ _ _))
    | cancel context key input now =>
      obtain ⟨answer, ws₁, hcancel, hresult, rfl⟩ := executes_bind_ok.mp hexec
      obtain rfl := Except.ok.inj hresult
      rcases executes_withTenantRecord
        (cancelDeletionMutation_leaves (by decide) (by decide) (by decide) _ _ _) hcancel with
        ⟨body, rfl, rfl⟩ | ⟨body, reserved, completed, ws₂, rfl, hmutation, rfl⟩
      · exact ⟨hinv.replayed, .refl σ⟩
      · obtain ⟨request, updated, hrow, hchange, hrequests, hrewrites, changed, old, new, hold,
          hnew, hafter⟩ := cancelDeletionMutation_executes hmutation
        have hmemberships : SameRows (S := vaultSchema) .memberships
            (σ.overlay [⟨VaultTable.idempotencyRecords, context.recordKey key, some reserved⟩])
            (σ.overlay ws₂) :=
          (cancelDeletionMutation_leaves (by decide) (by decide) (by decide) _ _ _).sameRows
            hmutation
        rw [sameRows_record (by decide) σ _ _ []] at hrow hold
        refine hinv.cancel hrow hchange
          ((hrequests.after_same (sameRows_record (by decide) σ _ _ [])).then_same
            (sameRows_record (by decide) σ _ _ _)) (fun k => ?_) hold hnew ?_
          (((sameRows_record (by decide) σ _ _ []).trans hmemberships).trans
            (sameRows_record (by decide) σ _ _ _))
        · have hk := hrewrites k
          rw [sameRows_record (by decide) σ _ _ []] at hk
          rw [sameRows_record (by decide) σ _ _ ws₂]
          exact hk
        · rw [sameRows_record (by decide) σ _ _ ws₂]
          exact hafter
    | readInput context workflowId now =>
      obtain ⟨deletion, ws₁, hread, hresult, rfl⟩ := executes_bind_ok.mp hexec
      obtain rfl := Except.ok.inj hresult
      obtain ⟨found, ws₂, hselect, hrest⟩ := executes_bind_ok.mp hread
      obtain ⟨σ₀, hs, hfound, rfl⟩ := executes_select.mp hselect
      split at hrest
      · exact absurd hrest.1 (by simp)
      rename_i execution
      obtain ⟨holds, ws₃, hholds, hcommit⟩ := executes_bind_ok.mp hrest
      obtain ⟨-, -, -, rfl⟩ := executes_select.mp hholds
      obtain ⟨hdeletion, rfl⟩ := hcommit
      obtain rfl := Except.ok.inj hdeletion
      refine ⟨hinv.frame (fun _ => rfl) (fun _ => rfl) hinv.memberships ?_ ?_ ?_, .refl σ⟩
      · rintro requestId ⟨_, _, _, _, _, hbad, _⟩
        simp at hbad
      · rintro id status ⟨_, _, _, hbad, _⟩
        simp at hbad
      · rintro id ⟨_, _, _, deletion', hentry, hid⟩
        simp only [Entry.mk.injEq, Outcome.committed.injEq, PrivacyResult.deletion.injEq] at hentry
        obtain ⟨-, rfl⟩ := hentry
        subst hid
        have hmem : execution ∈ rowsOf (S := vaultSchema) σ₀ .deletionExecutions :=
          List.mem_of_find?_eq_some (Except.ok.inj hfound).symm
        obtain ⟨k, hk⟩ := mem_rowsOf.mp hmem
        obtain ⟨hgrows, log₀, -, -, hinv₀⟩ := hearlier σ₀ hs
        obtain ⟨request, hconsistent⟩ := hinv₀.executions k execution hk
        obtain ⟨later, hlater, -⟩ := hgrows.executions k execution hk
        exact ⟨later, by rw [hconsistent.keyed]; exact hlater⟩
    | complete context input =>
      obtain ⟨progress, ws₁, hcomplete, hresult, rfl⟩ := executes_bind_ok.mp hexec
      obtain rfl := Except.ok.inj hresult
      obtain ⟨execution, moved, request, hdone⟩ := completeDeletion_executes hnow
        (fun execution hrow hsees σ₀ hs => request_seen hpermitted hearlier hrow hsees hs)
        hinv.memberships hcomplete
      exact hinv.complete hdone (hdone.keyed hinv.memberships)
    | other transaction outside =>
      obtain ⟨u, ws₁, hother, hresult, rfl⟩ := executes_bind_ok.mp hexec
      obtain rfl := Except.ok.inj hresult
      have hrows := outside_executes outside hother
      have hrequests : SameRows (S := vaultSchema) .privacyRequests σ (σ.overlay ws) :=
        fun id => hrows .privacyRequests id
      have hexecutions : SameRows (S := vaultSchema) .deletionExecutions σ (σ.overlay ws) :=
        fun id => hrows .deletionExecutions id
      refine ⟨hinv.frame hrequests hexecutions ?_ ?_ ?_ ?_, .of_same hrequests hexecutions⟩
      · intro id membership hget
        obtain ⟨-, hkept⟩ := hrows .memberships id
        obtain ⟨hfresh, hold⟩ := hkept membership hget
        cases hbefore : σ.get VaultTable.memberships id with
        | none => exact hfresh hbefore
        | some old => exact (hold old hbefore).1.trans (hinv.memberships id old hbefore)
      · rintro requestId ⟨_, _, _, _, _, hbad, _⟩
        simp at hbad
      · rintro id status ⟨_, _, _, hbad, _⟩
        simp at hbad
      · rintro id ⟨_, _, _, _, hbad, _⟩
        simp at hbad

/-- The person's row is there before and gone after. -/
def PersonDeleted (before after : Vault) (personId : Identifier) : Prop :=
  (∃ person, before.get .people personId = some person) ∧ after.get .people personId = none

/-- A membership of the person is active before and not after. -/
def MembershipDeactivated (before after : Vault) (personId : Identifier) : Prop :=
  ∃ id, ∃ membership : MembershipRow, before.get .memberships id = some membership ∧
    membership.personId = personId ∧ membership.active = true ∧
    ∀ later : MembershipRow, after.get .memberships id = some later → later.active = false

/-- The step is the completion of an execution that may delete the person. -/
structure DeletionStep {sha256 : Sha256} (s s' : (privacyProtocol sha256).System)
    (personId : Identifier) (context : TenantContext) (input : CompleteDeletionInput)
    (execution : DeletionExecutionRow) : Prop where
  /-- The execution is of that person and is in its recovery period. -/
  found : s.committed.get .deletionExecutions input.executionId = some execution
  subject : execution.personId = personId
  recovering : execution.status = .recoveryPeriod
  /-- The person has started its request and confirmed it, and it was never cancelled. -/
  started : ∃ entry ∈ s'.log, Starts execution.privacyRequestId personId .deletion entry
  confirmed : ∃ entry ∈ s'.log, Confirms input.executionId execution.privacyRequestId personId
    execution.recoveryUntil entry
  uncancelled : ∀ entry ∈ s'.log, ¬ Cancels execution.privacyRequestId entry
  /-- The recovery period has elapsed at the completion time. -/
  elapsed : execution.recoveryUntil ≤ input.completedAt
  /-- The session that commits has read the holds when none was active at that time. -/
  unheld : ∃ id progress ws seen,
    s.active id = some ⟨.complete context input, .commit (.progress progress), ws, seen⟩ ∧
    s'.log = ⟨.complete context input, .committed (.progress progress)⟩ :: s.log ∧
    ∃ σ₀ ∈ seen, ∀ holdId hold, σ₀.get .legalHolds holdId = some hold →
      hold.activeOn context personId input.completedAt = false

/-- A transaction that leaves people and memberships alone deletes nobody. -/
theorem not_deleted_of_same {before after : Vault} {personId : Identifier}
    (hpeople : SameRows (S := vaultSchema) .people before after)
    (hmemberships : SameRows (S := vaultSchema) .memberships before after) :
    ¬ (PersonDeleted before after personId ∨ MembershipDeactivated before after personId) := by
  rintro (⟨⟨person, hbefore⟩, hafter⟩ | ⟨id, membership, hbefore, -, hactive, hlater⟩)
  · rw [hpeople personId, hbefore] at hafter
    exact absurd hafter (by simp)
  · have hstill := hlater membership (by rw [hmemberships id]; exact hbefore)
    rw [hactive] at hstill
    exact absurd hstill (by decide)

/-- Only a completion changes people or memberships against `OutsidePrivacy`. -/
theorem not_deleted_of_leaves {mutation : Transaction Json} {context : TenantContext}
    {key requestHash : String} {now : Instant} {statusCode : Nat} {errors : RecordErrors}
    {answer : Answer Json} {seen : Vault → Prop} {σ : Vault} {ws : List (Write vaultSchema)}
    {personId : Identifier}
    (hrecords : mutation.Leaves VaultTable.idempotencyRecords)
    (hpeople : mutation.Leaves VaultTable.people)
    (hmemberships : mutation.Leaves VaultTable.memberships)
    (h : (withTenantRecord context key requestHash now statusCode errors mutation).Executes
      seen σ [] (.ok answer) ws) :
    ¬ (PersonDeleted σ (σ.overlay ws) personId ∨
      MembershipDeactivated σ (σ.overlay ws) personId) := by
  rcases executes_withTenantRecord hrecords h with
    ⟨body, -, rfl⟩ | ⟨body, reserved, completed, ws₁, -, hmutation, rfl⟩
  · exact not_deleted_of_same (fun _ => rfl) (fun _ => rfl)
  · exact not_deleted_of_same
      (((sameRows_record (by decide) σ _ _ []).trans (hpeople.sameRows hmutation)).trans
        (sameRows_record (by decide) σ _ _ _))
      (((sameRows_record (by decide) σ _ _ []).trans (hmemberships.sameRows hmutation)).trans
        (sameRows_record (by decide) σ _ _ _))

/-- A step that deletes a person or deactivates their membership is the completion of a
deletion that they started and confirmed. -/
theorem deletion_authorized (sha256 : Sha256) {init : Vault} (hinit : BeforePrivacy init)
    {s s' : (privacyProtocol sha256).System} (h : Protocol.Reachable init s)
    (hstep : Protocol.Step s s') {personId : Identifier}
    (hdeleted : PersonDeleted s.committed s'.committed personId ∨
      MembershipDeactivated s.committed s'.committed personId) :
    ∃ context input execution, DeletionStep s s' personId context input execution := by
  have hinv := (deletion_invariant sha256 hinit).reachable h
  rcases (deletion_invariant sha256 hinit).step_cases h hstep with hsame |
    ⟨session, call, result, ws, seen, begun, hactive, hlog, hcommitted, hpermitted, -, hnow,
      hearlier, hexec⟩
  · rw [hsame] at hdeleted
    exact absurd hdeleted (not_deleted_of_same (fun _ => rfl) (fun _ => rfl))
  rw [hcommitted] at hdeleted
  cases call with
  | start context key input generated now =>
    obtain ⟨answer, ws₁, hstart, hresult, rfl⟩ := executes_bind_ok.mp hexec
    unfold startPrivacyRequest at hstart
    split at hstart
    · exact absurd hdeleted (not_deleted_of_leaves
        (startPrivacyMutation_leaves (by decide) (by decide) _ _ _)
        (startPrivacyMutation_leaves (by decide) (by decide) _ _ _)
        (startPrivacyMutation_leaves (by decide) (by decide) _ _ _) hstart)
    · exact absurd hstart.1 (by simp)
  | confirm context key input generated now =>
    obtain ⟨answer, ws₁, hconfirm, hresult, rfl⟩ := executes_bind_ok.mp hexec
    exact absurd hdeleted (not_deleted_of_leaves
      (confirmDeletionMutation_leaves (by decide) (by decide) (by decide) _ _ _)
      (confirmDeletionMutation_leaves (by decide) (by decide) (by decide) _ _ _)
      (confirmDeletionMutation_leaves (by decide) (by decide) (by decide) _ _ _) hconfirm)
  | cancel context key input now =>
    obtain ⟨answer, ws₁, hcancel, hresult, rfl⟩ := executes_bind_ok.mp hexec
    exact absurd hdeleted (not_deleted_of_leaves
      (cancelDeletionMutation_leaves (by decide) (by decide) (by decide) _ _ _)
      (cancelDeletionMutation_leaves (by decide) (by decide) (by decide) _ _ _)
      (cancelDeletionMutation_leaves (by decide) (by decide) (by decide) _ _ _) hcancel)
  | readInput context workflowId now =>
    have hleaves : ∀ t : VaultTable, (getPrivacyDeletionInput context workflowId now >>=
        fun d => .commit (PrivacyResult.deletion d)).Leaves t := by
      intro t
      refine writes_bind (writes_bind (writes_select _) (fun found => ?_))
        (fun _ => writes_commit _)
      split
      · exact writes_rollback _
      · exact writes_bind (writes_select _) (fun _ => writes_commit _)
    exact absurd hdeleted (not_deleted_of_same ((hleaves .people).sameRows hexec)
      ((hleaves .memberships).sameRows hexec))
  | complete context input =>
    obtain ⟨progress, ws₁, hcomplete, hresult, rfl⟩ := executes_bind_ok.mp hexec
    obtain rfl := Except.ok.inj hresult
    obtain ⟨execution, moved, request, hdone⟩ := completeDeletion_executes hnow
      (fun execution hrow hsees σ₀ hs => request_seen hpermitted hearlier hrow hsees hs)
      hinv.memberships hcomplete
    obtain ⟨request', hconsistent⟩ := hinv.executions _ execution hdone.found
    rcases hdone.branch with ⟨-, hpeople, hmemberships⟩ |
      ⟨-, ⟨σ₀, h₀, hunheld⟩, hothers, hdeactivates⟩
    · exact absurd hdeleted (not_deleted_of_same hpeople hmemberships)
    have hsubject : execution.personId = personId := by
      rcases hdeleted with ⟨⟨person, hbefore⟩, hafter⟩ |
        ⟨id, membership, hbefore, hof, hmembership, hlater⟩
      · by_contra hne
        rw [hothers personId (Ne.symm hne), hbefore] at hafter
        exact absurd hafter (by simp)
      · rcases hdeactivates id with ⟨hnone, -⟩ | ⟨old, new, hold, hnew, -, -, hsame⟩
        · exact absurd (hbefore.symm.trans hnone) (by simp)
        · obtain rfl := Option.some.inj (hbefore.symm.trans hold)
          rcases hsame with hkept | hperson
          · rw [hlater new hnew, hmembership] at hkept
            exact absurd hkept (by decide)
          · exact hperson.symm.trans hof
    obtain ⟨start, hstartMem, hstarts⟩ := hinv.requests _ request' hconsistent.found
    obtain ⟨confirmation, hconfirmMem, hconfirms⟩ := hconsistent.confirmed
    rw [hconsistent.person, hconsistent.kind, hsubject] at hstarts
    rw [hsubject] at hconfirms
    rw [hsubject] at hunheld
    refine ⟨context, input, execution,
      { found := hdone.found
        subject := hsubject
        recovering := hdone.due.1
        started := ⟨start, by rw [hlog]; exact List.mem_cons_of_mem _ hstartMem, hstarts⟩
        confirmed := ⟨confirmation, by rw [hlog]; exact List.mem_cons_of_mem _ hconfirmMem,
          hconfirms⟩
        uncancelled := ?_
        elapsed := hdone.due.2
        unheld := ⟨session, progress, ws, seen, hactive, hlog, σ₀, h₀, hunheld⟩ }⟩
    intro entry hmem hcancel
    rw [hlog] at hmem
    rcases List.mem_cons.mp hmem with rfl | hmem
    · obtain ⟨_, _, _, _, _, hbad, _⟩ := hcancel
      simp at hbad
    · obtain ⟨cancelled, hfound, hstatus⟩ := hinv.cancelled _ entry hmem hcancel
      obtain rfl := Option.some.inj (hfound.symm.trans hconsistent.found)
      rw [hconsistent.status, hdone.due.1] at hstatus
      exact absurd hstatus (by decide)
  | other transaction outside =>
    obtain ⟨u, ws₁, hother, hresult, rfl⟩ := executes_bind_ok.mp hexec
    have hrows := outside_executes outside hother
    rcases hdeleted with ⟨⟨person, hbefore⟩, hafter⟩ |
      ⟨id, membership, hbefore, -, hmembership, hlater⟩
    · exact absurd (hbefore.symm.trans (hrows .people personId hafter)) (by simp)
    · obtain ⟨hgone, hkept⟩ := hrows .memberships id
      cases hafter : (s.committed.overlay ws).get VaultTable.memberships id with
      | none => exact absurd (hbefore.symm.trans (hgone hafter)) (by simp)
      | some later =>
        have hstill := ((hkept later hafter).2 membership hbefore).2.2 hmembership
        rw [hlater later hafter] at hstill
        exact absurd hstill (by decide)

/-- Both statuses of every deletion agree, and cancellation, review and hold are final. -/
def SettledStatuses (before after : Vault) : Prop :=
  (∀ id (execution : DeletionExecutionRow), before.get .deletionExecutions id = some execution →
    execution.status ∈ finalDeletionStatuses →
    ∃ later : DeletionExecutionRow, after.get .deletionExecutions id = some later ∧
      later.status = execution.status) ∧
  ∀ id (request : PrivacyRequestRow), before.get .privacyRequests id = some request →
    request.status ∈ finalDeletionStatuses →
    ∃ later : PrivacyRequestRow, after.get .privacyRequests id = some later ∧
      later.status = request.status

/-- In every interleaving of the privacy workflow with everything else: a person is deleted
and their memberships are deactivated only by the completion of a deletion that they started
and confirmed, that is not cancelled, whose recovery period has elapsed, and that has seen no
active hold; request and execution have the same status; cancellation and completion exclude
each other; final statuses are never left; and a completion happens at most once. -/
theorem privacy_deletion_safe (sha256 : Sha256) {init : Vault} (hinit : BeforePrivacy init)
    {s : (privacyProtocol sha256).System} (h : Protocol.Reachable init s) :
    (∀ s', Protocol.Step s s' → ∀ personId,
      PersonDeleted s.committed s'.committed personId ∨
        MembershipDeactivated s.committed s'.committed personId →
      ∃ context input execution, DeletionStep s s' personId context input execution) ∧
    (∀ id (execution : DeletionExecutionRow),
      s.committed.get .deletionExecutions id = some execution →
      ∃ request : PrivacyRequestRow,
        s.committed.get .privacyRequests execution.privacyRequestId = some request ∧
          request.status = execution.status) ∧
    (∀ id (execution : DeletionExecutionRow),
      s.committed.get .deletionExecutions id = some execution →
      ¬ ((∃ entry ∈ s.log, Cancels execution.privacyRequestId entry) ∧
        ∃ entry ∈ s.log, ∃ status, Completes id status entry)) ∧
    (∀ s', Protocol.Step s s' → SettledStatuses s.committed s'.committed) ∧
    ∀ id, s.log.Pairwise (fun a b =>
      ¬ ((∃ status, Completes id status a) ∧ ∃ status, Completes id status b)) := by
  have hrule := deletion_invariant sha256 hinit
  have hinv := hrule.reachable h
  refine ⟨?_, ?_, ?_, ?_, hinv.completedOnce⟩
  · intro s' hstep personId hdeleted
    exact deletion_authorized sha256 hinit h hstep hdeleted
  · intro id execution hrow
    obtain ⟨request, hconsistent⟩ := hinv.executions id execution hrow
    exact ⟨request, hconsistent.found, hconsistent.status⟩
  · rintro id execution hrow ⟨⟨cancel, hcancelMem, hcancel⟩, complete, hcompleteMem, status,
      hcomplete⟩
    obtain ⟨request, hconsistent⟩ := hinv.executions id execution hrow
    obtain ⟨request', hfound, hcancelled⟩ := hinv.cancelled _ cancel hcancelMem hcancel
    obtain rfl := Option.some.inj (hfound.symm.trans hconsistent.found)
    obtain ⟨hcases, execution', hrow', hstatus⟩ :=
      hinv.completed id status complete hcompleteMem hcomplete
    obtain rfl := Option.some.inj (hrow.symm.trans hrow')
    rw [hconsistent.status, hstatus] at hcancelled
    subst hcancelled
    rcases hcases with hbad | hbad <;> exact absurd hbad (by decide)
  · intro s' hstep
    have hgrows := hrule.step h hstep
    refine ⟨fun id execution hrow hfinal => ?_, fun id request hrow hfinal => ?_⟩
    · obtain ⟨later, hlater, -, -, -, hkept⟩ := hgrows.executions id execution hrow
      exact ⟨later, hlater, hkept hfinal⟩
    · obtain ⟨later, hlater, hkept⟩ := hgrows.requests id request hrow
      exact ⟨later, hlater, hkept hfinal⟩

/-- The tenant of the example run. -/
def exampleTenant : TenantContext := ⟨"org", "household", "person"⟩

/-- A household of one member. -/
def exampleVault : Vault :=
  ((Store.empty : Vault).set .people "person"
    (some ⟨"person", "org", "household", .data "Ada", 1, 1⟩)).set .memberships "member"
    (some ⟨"member", "org", "household", "person", .owner, true, some "account", 1⟩)

/-- The member asks for their deletion, confirms it, and the worker carries it out a day
later. -/
def exampleDeletion : List PrivacyCall :=
  [.start exampleTenant "key-1" ⟨"person", .deletion⟩ ⟨"request", "workflow", 0⟩ 0,
    .confirm exampleTenant "key-2" ⟨"request", 1⟩ ⟨"execution", 1000, 1⟩ 1000,
    .readInput exampleTenant "workflow" 90000000,
    .complete exampleTenant ⟨"execution", 1, 90000000, 35, id⟩]

theorem exampleVault_beforePrivacy : BeforePrivacy exampleVault where
  requests := fun _ => rfl
  executions := fun _ => rfl
  memberships := by
    intro id membership h
    have hmem : (id, membership) ∈ scan (S := vaultSchema) exampleVault .memberships :=
      mem_scan.mpr h
    have hscan : scan (S := vaultSchema) exampleVault .memberships =
        [("member", ⟨"member", "org", "household", "person", .owner, true, some "account", 1⟩)] :=
      rfl
    rw [hscan] at hmem
    obtain ⟨rfl, rfl⟩ := Prod.mk.inj (List.mem_singleton.mp hmem)
    rfl

theorem exampleDeletion_permitted :
    (privacyProtocol .transparent).Sequential [] exampleVault exampleDeletion := by
  have hread : (⟨.readInput exampleTenant "workflow" 90000000, .committed (.deletion
      ⟨"execution", "request", "workflow", "person", .recoveryPeriod, 86401000, 1, []⟩)⟩ :
      PrivacyEntry) ∈ ((privacyProtocol .transparent).sequential [] exampleVault
        (exampleDeletion.take 3)).1 := List.mem_cons.mpr (Or.inl rfl)
  exact ⟨trivial, trivial, trivial,
    ⟨"workflow", 90000000, _, 90000000, 35, id, hread, rfl⟩, trivial⟩

/-- In the example the member is deleted, and their request awaits its review. -/
theorem privacy_deletion_safe_example : ∃ s : (privacyProtocol .transparent).System,
    Protocol.Reachable exampleVault s ∧ s.committed.get .people "person" = none ∧
      ∃ request : PrivacyRequestRow,
        s.committed.get .privacyRequests "request" = some request ∧
          request.status = .awaitingReview := by
  obtain ⟨s, hs, -, hcommitted⟩ := Protocol.reachable_sequential exampleDeletion_permitted
  have hexecution : s.committed.get .deletionExecutions "execution" =
      some ⟨"execution", "org", "household", "request", "workflow", "person", .awaitingReview,
        86401000, some 90000000, some 3114000000, none, retainedCategories, true, 2⟩ := by
    rw [hcommitted]
    rfl
  obtain ⟨-, hstatus, -⟩ := privacy_deletion_safe .transparent exampleVault_beforePrivacy hs
  refine ⟨s, hs, ?_, hstatus "execution" _ hexecution⟩
  rw [hcommitted]
  rfl

end LegacyVault
