import LegacyVault.PrivacyRequests

/-!
# What the deletion transactions do

One lemma for each transaction of the privacy workflow: which rows a commit
has found at its locks, and how the requests, executions, people and
memberships stand afterwards. The other tables are not described here.

Every lemma is about one execution among others, with its own writes so far.
-/

namespace LegacyVault

open JsonText RowTransaction RowTransaction.Program Store

variable {seen : Vault → Prop} {σ : Vault} {ws ws' : List (Write vaultSchema)}

/-- Starting a request inserts it and touches no execution. -/
theorem startPrivacyMutation_executes {context : TenantContext} {input : StartPrivacyInput}
    {generated : StartPrivacyGenerated} {body : Json}
    (h : (startPrivacyMutation context input generated).Executes seen σ ws (.ok body) ws') :
    (σ.overlay ws).get .privacyRequests generated.privacyId = none ∧
    Replaces (S := vaultSchema) .privacyRequests generated.privacyId
      (some (startedRequest context input generated)) (σ.overlay ws) (σ.overlay ws') := by
  obtain ⟨request, ws₁, hrequest, h⟩ := executes_bind_ok.mp h
  obtain ⟨workflow, ws₂, hworkflow, hcommit⟩ := executes_bind_ok.mp h
  obtain ⟨-, rfl⟩ := hcommit
  have hleaves : (insertRow (S := vaultSchema) (ε := RepositoryError) .workflowRuns
      generated.workflowId (startedWorkflow context input generated)
      (.uniqueViolation "workflow_runs_pkey")).Leaves VaultTable.privacyRequests :=
    writes_insertRow (by decide)
  have hsame := hleaves.sameRows hworkflow
  rcases executes_insertRow.mp hrequest with ⟨hnone, -, rfl⟩ | ⟨_, _, _, _, hbad, _⟩
  · exact ⟨hnone, (replaces_overlay_cons _ _ _ _).then_same hsame⟩
  · exact absurd hbad (by simp)

/-- Confirming a deletion takes its request out of identity verification and adds the
execution, which was not there. -/
theorem confirmDeletionMutation_executes {context : TenantContext} {input : ConfirmDeletionInput}
    {generated : ConfirmDeletionGenerated} {body : Json}
    (h : (confirmDeletionMutation context input generated).Executes seen σ ws (.ok body) ws') :
    ∃ (request updated : PrivacyRequestRow) (workflowId : Identifier),
      (σ.overlay ws).get .privacyRequests input.requestId = some request ∧
      request.confirmable context = true ∧
      confirmRequestRow context input generated request = some updated ∧
      (σ.overlay ws).get .deletionExecutions generated.executionId = none ∧
      Replaces (S := vaultSchema) .privacyRequests input.requestId (some updated) (σ.overlay ws)
        (σ.overlay ws') ∧
      Replaces (S := vaultSchema) .deletionExecutions generated.executionId
        (some (confirmedExecution context input generated workflowId)) (σ.overlay ws)
        (σ.overlay ws') := by
  obtain ⟨existing, ws₁, hlock, h⟩ := executes_bind_ok.mp h
  split at h
  · exact absurd h.1 (by simp)
  rename_i found hfound
  obtain ⟨hexisting, hconfirmable⟩ := Option.filter_eq_some_iff.mp hfound
  subst hexisting
  have hrow : (σ.overlay ws).get .privacyRequests input.requestId = some found ∧
      ws₁ = ⟨VaultTable.privacyRequests, input.requestId, some found⟩ :: ws := by
    rcases executes_lockRow.mp hlock with ⟨row, hrow, -, hout, hws⟩ | ⟨_, _, _, hout, _⟩
    · obtain rfl := Option.some.inj (Except.ok.inj hout)
      exact ⟨hrow, hws⟩
    · exact absurd hout (by simp)
  obtain ⟨hrow, rfl⟩ := hrow
  obtain ⟨result, ws₂, hupdate, h⟩ := executes_bind_ok.mp h
  split at h
  · exact absurd h.1 (by simp)
  rename_i updated
  have hupdated : confirmRequestRow context input generated found = some updated ∧
      ws₂ = ⟨VaultTable.privacyRequests, input.requestId, some updated⟩ ::
        ⟨VaultTable.privacyRequests, input.requestId, some found⟩ :: ws := by
    rcases executes_updateRow.mp hupdate with ⟨old, row, hold, hchange, hout, hws⟩ |
      ⟨_, _, _, hout, _⟩
    · rw [overlay_cons, get_set_self] at hold
      obtain rfl := Option.some.inj hold
      obtain rfl := Option.some.inj (Except.ok.inj hout)
      exact ⟨hchange, hws⟩
    · exact absurd hout (by simp)
  obtain ⟨hchange, rfl⟩ := hupdated
  split at h
  · exact absurd h.1 (by simp)
  obtain ⟨workflows, ws₃, hworkflows, h⟩ := executes_bind_ok.mp h
  split at h
  · exact absurd h.1 (by simp)
  rename_i workflow _
  have hinserts := executes_of_requireUnique (executes_of_requireUnique h)
  obtain ⟨execution, ws₄, hinsert, hcommit⟩ := executes_bind_ok.mp hinserts
  obtain ⟨-, rfl⟩ := hcommit
  have hleaves : ∀ t : VaultTable, t ≠ .workflowRuns →
      (updateWhere (S := vaultSchema) (ε := RepositoryError) .workflowRuns
        (confirmWorkflowRow context input.requestId)).Leaves t :=
    fun t ht => writes_updateWhere (fun _ _ _ _ => ht)
  have hrequests := (hleaves .privacyRequests (by decide)).sameRows hworkflows
  have hexecutions := (hleaves .deletionExecutions (by decide)).sameRows hworkflows
  rcases executes_insertRow.mp hinsert with ⟨hnone, -, rfl⟩ | ⟨_, _, _, _, hbad, _⟩
  · refine ⟨found, updated, workflow.id, hrow, hconfirmable, hchange, ?_, ?_, ?_⟩
    · rw [← hnone, hexecutions]
      simp only [overlay_cons]
      rw [get_set_of_table_ne _ _ _ _ (by decide), get_set_of_table_ne _ _ _ _ (by decide)]
    · have hfirst := replaces_overlay_cons σ (t := VaultTable.privacyRequests) input.requestId
        (some found) ws
      have hsecond := hfirst.trans (replaces_overlay_cons σ _ (some updated) _)
      exact (hsecond.then_same hrequests).then_same (sameRows_overlay_cons σ _ _ _ (by decide))
    · have hlocks : SameRows (S := vaultSchema) .deletionExecutions (σ.overlay ws)
          (σ.overlay ws₃) :=
        ((sameRows_overlay_cons σ _ _ _ (by decide)).trans
          (sameRows_overlay_cons σ _ _ _ (by decide))).trans hexecutions
      exact (replaces_overlay_cons σ _ _ _).after_same hlocks
  · exact absurd hbad (by simp)

/-- A cancelled execution is not cancelled again. -/
theorem cancelExecutionRow_once {context : TenantContext} {requestId : Identifier} {now : Instant}
    {execution updated : DeletionExecutionRow}
    (h : cancelExecutionRow context requestId now execution = some updated) :
    cancelExecutionRow context requestId now updated = none := by
  unfold cancelExecutionRow at h ⊢
  split at h
  · obtain rfl := Option.some.inj h
    simp
  · exact absurd h (by simp)

/-- Cancelling a deletion takes its request out of the recovery period, and cancels
some execution that was in it. -/
theorem cancelDeletionMutation_executes {context : TenantContext} {input : CancelDeletionInput}
    {now : Instant} {body : Json}
    (h : (cancelDeletionMutation context input now).Executes seen σ ws (.ok body) ws') :
    ∃ request updated : PrivacyRequestRow,
      (σ.overlay ws).get .privacyRequests input.requestId = some request ∧
      cancelRequestRow context input now request = some updated ∧
      Replaces (S := vaultSchema) .privacyRequests input.requestId (some updated) (σ.overlay ws)
        (σ.overlay ws') ∧
      (∀ k, Rewrites (S := vaultSchema) (t := .deletionExecutions)
        (cancelExecutionRow context input.requestId now)
        ((σ.overlay ws).get .deletionExecutions k) ((σ.overlay ws').get .deletionExecutions k)) ∧
      ∃ (k : Identifier) (old new : DeletionExecutionRow),
        (σ.overlay ws).get .deletionExecutions k = some old ∧
        cancelExecutionRow context input.requestId now old = some new ∧
        (σ.overlay ws').get .deletionExecutions k = some new := by
  obtain ⟨result, ws₁, hupdate, hexecute⟩ := executes_bind_ok.mp h
  split at hexecute
  · exact absurd hexecute.1 (by simp)
  rename_i updated
  have hrequest : ∃ old, (σ.overlay ws).get VaultTable.privacyRequests input.requestId = some old ∧
      cancelRequestRow context input now old = some updated ∧
      ws₁ = ⟨VaultTable.privacyRequests, input.requestId, some updated⟩ :: ws := by
    rcases executes_updateRow.mp hupdate with ⟨old, row, hold, hchange, hout, hws⟩ |
      ⟨_, _, _, hout, _⟩
    · obtain rfl := Option.some.inj (Except.ok.inj hout)
      exact ⟨old, hold, hchange, hws⟩
    · exact absurd hout (by simp)
  obtain ⟨request, hrow, hchange, rfl⟩ := hrequest
  obtain ⟨executions, ws₂, hexecutions, hworkflow⟩ := executes_bind_ok.mp hexecute
  split at hworkflow
  · exact absurd hworkflow.1 (by simp)
  rename_i execution hhead
  obtain ⟨workflows, ws₃, hworkflows, hfinish⟩ := executes_bind_ok.mp hworkflow
  split at hfinish
  · exact absurd hfinish.1 (by simp)
  obtain ⟨-, rfl⟩ := hfinish
  have hleaves : ∀ t : VaultTable, t ≠ .workflowRuns →
      (updateWhere (S := vaultSchema) (ε := RepositoryError) .workflowRuns
        (cancelWorkflowRow context input.requestId)).Leaves t :=
    fun t ht => writes_updateWhere (fun _ _ _ _ => ht)
  have hcancels : (updateWhere (S := vaultSchema) (ε := RepositoryError) .deletionExecutions
      (cancelExecutionRow context input.requestId now)).Leaves VaultTable.privacyRequests :=
    writes_updateWhere (fun _ _ _ _ => by decide)
  have hrequests := (hcancels.sameRows hexecutions).trans
    ((hleaves .privacyRequests (by decide)).sameRows hworkflows)
  have hafter := (hleaves .deletionExecutions (by decide)).sameRows hworkflows
  have hbefore : SameRows (S := vaultSchema) .deletionExecutions (σ.overlay ws)
      (σ.overlay (⟨VaultTable.privacyRequests, input.requestId, some updated⟩ :: ws)) :=
    sameRows_overlay_cons σ _ _ ws (by decide)
  obtain ⟨hrewrites, rows, hrows, hchanged⟩ := executes_updateWhere hexecutions
  obtain rfl := Except.ok.inj hrows
  refine ⟨request, updated, hrow, hchange,
    (replaces_overlay_cons σ _ _ _).then_same hrequests, fun k => ?_, ?_⟩
  · rw [hafter k, ← hbefore k]
    exact hrewrites k
  · have hmem : execution ∈ executions := List.mem_of_mem_head? hhead
    obtain ⟨k, old, hold, hnew, hlater⟩ := hchanged execution hmem
    have hfirst := hold.eq_of_change (fun _ _ => cancelExecutionRow_once) hnew
    refine ⟨k, old, execution, by rw [← hbefore k]; exact hfirst, hnew, ?_⟩
    rw [hafter k]
    exact hlater.eq_of_none (cancelExecutionRow_once hnew)

/-- A deletion whose execution is locked and whose request is there moves both on. -/
theorem moveDeletion_executes {context : TenantContext} {executionId : Identifier}
    {execution : DeletionExecutionRow} {moved : DeletionExecutionRow → DeletionExecutionRow}
    {status : PrivacyStatus} {workflowMoved : WorkflowRow → WorkflowRow} {u : Unit}
    (hexecution : ∀ base : Vault,
      (base.overlay ws).get .deletionExecutions executionId = some execution)
    (hsees : context.sees execution = true) (hnow : seen σ)
    (hrequest : ∀ σ₀, seen σ₀ → ∃ request : PrivacyRequestRow,
      (σ₀.overlay ws).get .privacyRequests execution.privacyRequestId = some request ∧
        context.sees request = true)
    (h : (moveDeletion context executionId execution moved status workflowMoved).Executes seen σ ws
      (.ok u) ws') :
    ∃ request : PrivacyRequestRow,
      (σ.overlay ws).get .privacyRequests execution.privacyRequestId = some request ∧
      Replaces (S := vaultSchema) .deletionExecutions executionId (some (moved execution))
        (σ.overlay ws) (σ.overlay ws') ∧
      Replaces (S := vaultSchema) .privacyRequests execution.privacyRequestId
        (some (request.moved status)) (σ.overlay ws) (σ.overlay ws') := by
  obtain ⟨_, ws₁, hupdate, hmove⟩ := executes_bind_ok.mp h
  have hfirst :
      ws₁ = ⟨VaultTable.deletionExecutions, executionId, some (moved execution)⟩ :: ws := by
    rcases executes_updateRow.mp hupdate with ⟨old, row, hold, hchange, -, hws⟩ |
      ⟨σ₀, -, hnone, -, -⟩
    · obtain rfl := Option.some.inj ((hexecution σ).symm.trans hold)
      rw [if_pos hsees] at hchange
      obtain rfl := Option.some.inj hchange
      exact hws
    · rw [hexecution σ₀] at hnone
      simp [hsees] at hnone
  subst hfirst
  obtain ⟨_, ws₂, hstatus, hworkflow⟩ := executes_bind_ok.mp hmove
  have hother : ∀ base : Vault, SameRows (S := vaultSchema) .privacyRequests (base.overlay ws)
      (base.overlay (⟨VaultTable.deletionExecutions, executionId, some (moved execution)⟩ :: ws)) :=
    fun base => sameRows_overlay_cons base _ _ _ (by decide)
  obtain ⟨request, hrow, hrowSees⟩ := hrequest σ hnow
  have hsecond : ws₂ =
      ⟨VaultTable.privacyRequests, execution.privacyRequestId, some (request.moved status)⟩ ::
      ⟨VaultTable.deletionExecutions, executionId, some (moved execution)⟩ :: ws := by
    rcases executes_updateRow.mp hstatus with ⟨old, row, hold, hchange, -, hws⟩ |
      ⟨σ₀, hs, hnone, -, -⟩
    · rw [hother σ, hrow] at hold
      obtain rfl := Option.some.inj hold
      rw [if_pos hrowSees] at hchange
      obtain rfl := Option.some.inj hchange
      exact hws
    · obtain ⟨request₀, hrow₀, hsees₀⟩ := hrequest σ₀ hs
      rw [hother σ₀, hrow₀] at hnone
      simp [hsees₀] at hnone
  subst hsecond
  obtain ⟨_, ws₃, hthird, hunit⟩ := executes_bind_ok.mp hworkflow
  obtain ⟨-, rfl⟩ := hunit
  have hleaves : ∀ t : VaultTable, t ≠ .workflowRuns → (updateRow (S := vaultSchema)
      (ε := RepositoryError) .workflowRuns execution.workflowId (fun workflow : WorkflowRow =>
        if context.sees workflow then some (workflowMoved workflow) else none)).Leaves t :=
    fun t ht => writes_updateRow (fun _ _ _ => ht)
  have hexecutions := (hleaves .deletionExecutions (by decide)).sameRows hthird
  have hrequests := (hleaves .privacyRequests (by decide)).sameRows hthird
  refine ⟨request, hrow, ?_, ?_⟩
  · exact ((replaces_overlay_cons σ _ _ _).then_same
      (sameRows_overlay_cons σ _ _ _ (by decide))).then_same hexecutions
  · exact ((replaces_overlay_cons σ _ _ _).after_same (hother σ)).then_same hrequests

/-- The memberships after a deletion: only those of the person have been deactivated. -/
def DeactivatesOnly (personId : Identifier) (before after : Vault) : Prop :=
  ∀ k, (before.get .memberships k = none ∧ after.get .memberships k = none) ∨
    ∃ old new : MembershipRow, before.get .memberships k = some old ∧
      after.get .memberships k = some new ∧ new.id = old.id ∧ new.personId = old.personId ∧
      (new.active = old.active ∨ old.personId = personId)

/-- Locking and deactivating the memberships of a person deactivates no other. -/
theorem deactivateMemberships_executes {context : TenantContext} {personId : Identifier}
    {completedAt : Instant} {memberships : List MembershipRow} {ws₁ ws₂ : List (Write vaultSchema)}
    {u : Unit}
    (hkeyed : ∀ k (membership : MembershipRow),
      (σ.overlay ws).get .memberships k = some membership → membership.id = k)
    (hlock : (lockMemberships context personId).Executes seen σ ws (.ok memberships) ws₁)
    (h : (deactivateMemberships context completedAt
      (memberships.map MembershipRow.id)).Executes seen σ ws₁ (.ok u) ws₂) :
    DeactivatesOnly personId (σ.overlay ws) (σ.overlay ws₂) := by
  obtain ⟨hrewrites, rows, hrows, hlocked⟩ := executes_updateWhere hlock
  obtain rfl := Except.ok.inj hrows
  have hsame : ∀ a b, lockedRow context personId a = some b →
      b = a ∧ a.personId = personId := by
    intro a b hab
    unfold lockedRow at hab
    split at hab
    · rename_i hcondition
      exact ⟨(Option.some.inj hab).symm, hcondition.2.1⟩
    · exact absurd hab (by simp)
  have hunchanged : SameRows (S := vaultSchema) .memberships (σ.overlay ws) (σ.overlay ws₁) :=
    fun k => (hrewrites k).eq_of_same (fun a b hab => (hsame a b hab).1)
  -- a listed identifier is the key of a membership of the person
  have hlisted : ∀ id ∈ memberships.map MembershipRow.id, ∃ membership : MembershipRow,
      (σ.overlay ws).get .memberships id = some membership ∧ membership.personId = personId := by
    intro id hid
    obtain ⟨row, hrow, rfl⟩ := List.mem_map.mp hid
    obtain ⟨k, old, hbefore, hchange, -⟩ := hlocked row hrow
    have hfirst : (σ.overlay ws).get .memberships k = some old :=
      ((hbefore.eq_of_same (fun a b hab => (hsame a b hab).1))).symm
    obtain ⟨rfl, hperson⟩ := hsame old row hchange
    have hkey : row.id = k := hkeyed k row hfirst
    exact ⟨row, by rw [hkey]; exact hfirst, hperson⟩
  have hstay : DeactivatesOnly personId (σ.overlay ws) (σ.overlay ws₁) := by
    intro k
    rw [hunchanged k]
    cases hrow : (σ.overlay ws).get VaultTable.memberships k with
    | none => exact Or.inl ⟨rfl, rfl⟩
    | some row => exact Or.inr ⟨row, row, rfl, rfl, rfl, rfl, Or.inl rfl⟩
  unfold deactivateMemberships at h
  split at h
  · obtain ⟨-, rfl⟩ := h
    exact hstay
  obtain ⟨grants, ws₃, hgrants, happrovals⟩ := executes_bind_ok.mp h
  obtain ⟨approvals, ws₄, happroved, hdeactivate⟩ := executes_bind_ok.mp happrovals
  obtain ⟨deactivated, ws₅, hdeactivated, hunit⟩ := executes_bind_ok.mp hdeactivate
  obtain ⟨-, rfl⟩ := hunit
  have hgrantsLeave : (updateWhere (S := vaultSchema) (ε := RepositoryError) .permissionGrants
      (fun grant : PermissionGrantRow =>
        if context.sees grant ∧ grant.membershipId ∈ memberships.map MembershipRow.id ∧
            grant.revokedAt = none then
          some { grant with revokedAt := some completedAt, version := grant.version + 1 }
        else none)).Leaves VaultTable.memberships :=
    writes_updateWhere (fun _ _ _ _ => by decide)
  have happrovalsLeave : (updateWhere (S := vaultSchema) (ε := RepositoryError)
      .supportAccessApprovals (fun approval : SupportAccessApprovalRow =>
        if context.sees approval ∧
            approval.supportMembershipId ∈ memberships.map MembershipRow.id ∧
            approval.revokedAt = none then
          some { approval with revokedAt := some completedAt, version := approval.version + 1 }
        else none)).Leaves VaultTable.memberships :=
    writes_updateWhere (fun _ _ _ _ => by decide)
  have huntil : SameRows (S := vaultSchema) .memberships (σ.overlay ws) (σ.overlay ws₄) :=
    (hunchanged.trans (hgrantsLeave.sameRows hgrants)).trans (happrovalsLeave.sameRows happroved)
  obtain ⟨hchanges, -⟩ := executes_updateWhere hdeactivated
  intro k
  have hkept := (hchanges k).keeps
    (fun old new : MembershipRow => new.id = old.id ∧ new.personId = old.personId ∧
      (new.active = old.active ∨ old.id ∈ memberships.map MembershipRow.id))
    (fun row => ⟨rfl, rfl, Or.inl rfl⟩)
    (by
      rintro a b c ⟨hid, hperson, hactive⟩ ⟨hid', hperson', hactive'⟩
      refine ⟨hid'.trans hid, hperson'.trans hperson, ?_⟩
      rcases hactive' with heq | hmem
      · rcases hactive with heq₀ | hmem₀
        · exact Or.inl (heq.trans heq₀)
        · exact Or.inr hmem₀
      · exact Or.inr (hid ▸ hmem))
    (by
      intro old new hchange
      unfold deactivatedRow at hchange
      split at hchange
      · rename_i hcondition
        obtain rfl := Option.some.inj hchange
        exact ⟨rfl, rfl, Or.inr hcondition.2.1⟩
      · exact absurd hchange (by simp))
  rw [huntil k] at hkept
  rcases hkept with hnone | ⟨old, new, hold, hnew, hid, hperson, hactive⟩
  · exact Or.inl hnone
  refine Or.inr ⟨old, new, hold, hnew, hid, hperson, ?_⟩
  rcases hactive with heq | hmem
  · exact Or.inl heq
  · obtain ⟨membership, hmembership, hof⟩ := hlisted old.id hmem
    rw [hkeyed k old hold, hold] at hmembership
    obtain rfl := Option.some.inj hmembership
    exact Or.inr hof

/-- What the deletion of the active system does, begun with the execution locked. -/
theorem deleteActiveSystem_executes {context : TenantContext} {input : CompleteDeletionInput}
    {execution : DeletionExecutionRow} {progress : PrivacyDeletionProgress}
    (hexecution : ∀ base : Vault,
      (base.overlay ws).get .deletionExecutions input.executionId = some execution)
    (hsees : context.sees execution = true) (hnow : seen σ)
    (hrequest : ∀ σ₀, seen σ₀ → ∃ request : PrivacyRequestRow,
      (σ₀.overlay ws).get .privacyRequests execution.privacyRequestId = some request ∧
        context.sees request = true)
    (hkeyed : ∀ k (membership : MembershipRow),
      (σ.overlay ws).get .memberships k = some membership → membership.id = k)
    (h : (deleteActiveSystem context input execution).Executes seen σ ws (.ok progress) ws') :
    progress.status = .awaitingReview ∧
    (∃ request : PrivacyRequestRow,
      (σ.overlay ws).get .privacyRequests execution.privacyRequestId = some request ∧
      Replaces (S := vaultSchema) .deletionExecutions input.executionId
        (some (reviewedExecution input execution)) (σ.overlay ws) (σ.overlay ws') ∧
      Replaces (S := vaultSchema) .privacyRequests execution.privacyRequestId
        (some (request.moved .awaitingReview)) (σ.overlay ws) (σ.overlay ws')) ∧
    (∀ k, k ≠ execution.personId →
      (σ.overlay ws').get .people k = (σ.overlay ws).get .people k) ∧
    DeactivatesOnly execution.personId (σ.overlay ws) (σ.overlay ws') := by
  obtain ⟨memberships, ws₁, hlock, hrest₁⟩ := executes_bind_ok.mp h
  obtain ⟨_, ws₂, hdeactivate, hrest₂⟩ := executes_bind_ok.mp hrest₁
  obtain ⟨_, ws₃, hsessions, hrest₃⟩ := executes_bind_ok.mp hrest₂
  obtain ⟨_, ws₄, hperson, hrest₄⟩ := executes_bind_ok.mp hrest₃
  obtain ⟨_, ws₅, hprocessors, hsettle⟩ := executes_bind_ok.mp hrest₄
  have hdelete : ∀ t : VaultTable, t ≠ .people → (deleteRow (S := vaultSchema)
      (ε := RepositoryError) .people execution.personId
      (fun person : PersonRow => context.sees person)).Leaves t :=
    fun t ht => writes_deleteRow (fun _ _ => ht)
  -- requests and executions still read as before, over every base
  have hbefore : ∀ (t : VaultTable), t = .privacyRequests ∨ t = .deletionExecutions →
      ∀ base : Vault, SameRows (S := vaultSchema) t (base.overlay ws) (base.overlay ws₅) := by
    rintro t ht base k
    have h₁ : t ≠ .memberships := by rcases ht with rfl | rfl <;> decide
    have h₂ : t ≠ .permissionGrants := by rcases ht with rfl | rfl <;> decide
    have h₃ : t ≠ .supportAccessApprovals := by rcases ht with rfl | rfl <;> decide
    have h₄ : t ≠ .sessions := by rcases ht with rfl | rfl <;> decide
    have h₅ : t ≠ .people := by rcases ht with rfl | rfl <;> decide
    have h₆ : t ≠ .deletionProcessorRequests := by rcases ht with rfl | rfl <;> decide
    rw [(requestProcessors_leaves h₆ _ _ _).executes hprocessors k base,
      (hdelete t h₅).executes hperson k base,
      (endSessions_leaves h₄ _).executes hsessions k base,
      (deactivateMemberships_leaves h₂ h₃ h₁ _ _ _).executes hdeactivate k base,
      (lockMemberships_leaves h₁ _ _).executes hlock k base]
  obtain ⟨_, ws₆, hmove, hcommit⟩ := executes_bind_ok.mp hsettle
  obtain ⟨hprogress, rfl⟩ := hcommit
  obtain ⟨request, hrow, hexecutions, hrequests⟩ := moveDeletion_executes
    (fun base => by rw [hbefore _ (Or.inr rfl) base]; exact hexecution base) hsees hnow
    (fun σ₀ h₀ => by rw [hbefore _ (Or.inl rfl) σ₀]; exact hrequest σ₀ h₀) hmove
  have hmoved : ∀ t : VaultTable, t ≠ .deletionExecutions → t ≠ .privacyRequests →
      t ≠ .workflowRuns → SameRows (S := vaultSchema) t (σ.overlay ws₅) (σ.overlay ws') :=
    fun t h₁ h₂ h₃ => (moveDeletion_leaves h₁ h₂ h₃ _ _ _ _ _ _).sameRows hmove
  refine ⟨by rw [Except.ok.inj hprogress], ⟨request, ?_, ?_, ?_⟩, ?_, ?_⟩
  · rw [← hbefore _ (Or.inl rfl) σ]
    exact hrow
  · exact hexecutions.after_same (hbefore _ (Or.inr rfl) σ)
  · exact hrequests.after_same (hbefore _ (Or.inl rfl) σ)
  · intro k hk
    have hdeleted : (σ.overlay ws₄).get .people k = (σ.overlay ws₃).get .people k := by
      rcases executes_deleteRow.mp hperson with ⟨_, _, _, _, rfl⟩ | ⟨_, _, _, _, rfl⟩
      · exact (replaces_overlay_cons σ (t := VaultTable.people) _ _ _).others k hk
      · rfl
    have hprocess : SameRows (S := vaultSchema) .people (σ.overlay ws₄) (σ.overlay ws₅) :=
      (requestProcessors_leaves (by decide) _ _ _).sameRows hprocessors
    have hsession : SameRows (S := vaultSchema) .people (σ.overlay ws₂) (σ.overlay ws₃) :=
      (endSessions_leaves (by decide) _).sameRows hsessions
    have hdeactivated : SameRows (S := vaultSchema) .people (σ.overlay ws₁) (σ.overlay ws₂) :=
      (deactivateMemberships_leaves (by decide) (by decide) (by decide) _ _ _).sameRows hdeactivate
    have hlocked : SameRows (S := vaultSchema) .people (σ.overlay ws) (σ.overlay ws₁) :=
      (lockMemberships_leaves (by decide) _ _).sameRows hlock
    rw [hmoved .people (by decide) (by decide) (by decide) k, hprocess k, hdeleted, hsession k,
      hdeactivated k, hlocked k]
  · intro k
    have hprocess : SameRows (S := vaultSchema) .memberships (σ.overlay ws₄) (σ.overlay ws₅) :=
      (requestProcessors_leaves (by decide) _ _ _).sameRows hprocessors
    have hperson' : SameRows (S := vaultSchema) .memberships (σ.overlay ws₃) (σ.overlay ws₄) :=
      (hdelete .memberships (by decide)).sameRows hperson
    have hsession : SameRows (S := vaultSchema) .memberships (σ.overlay ws₂) (σ.overlay ws₃) :=
      (endSessions_leaves (by decide) _).sameRows hsessions
    rw [hmoved .memberships (by decide) (by decide) (by decide) k, hprocess k, hperson' k,
      hsession k]
    exact deactivateMemberships_executes hkeyed hlock hdeactivate k

/-- What one committed completion has found and done. -/
structure Completion (seen : Vault → Prop) (context : TenantContext) (input : CompleteDeletionInput)
    (before after : Vault) (status : PrivacyStatus) (execution moved : DeletionExecutionRow)
    (request : PrivacyRequestRow) : Prop where
  /-- The execution it has locked. -/
  found : before.get .deletionExecutions input.executionId = some execution
  sees : context.sees execution = true
  /-- It is in the recovery period, which has elapsed. -/
  due : execution.status = .recoveryPeriod ∧ execution.recoveryUntil ≤ input.completedAt
  /-- The execution is moved on, as nothing but its progress. -/
  executions : Replaces (S := vaultSchema) .deletionExecutions input.executionId (some moved)
    before after
  same : moved.id = execution.id ∧ moved.personId = execution.personId ∧
    moved.privacyRequestId = execution.privacyRequestId ∧
    moved.organizationId = execution.organizationId ∧
    moved.householdId = execution.householdId ∧ moved.recoveryUntil = execution.recoveryUntil
  moved_status : moved.status = status
  /-- Its request is moved on to the same status. -/
  request_found : before.get .privacyRequests execution.privacyRequestId = some request
  requests : Replaces (S := vaultSchema) .privacyRequests execution.privacyRequestId
    (some (request.moved status)) before after
  /-- Either a hold blocks it and no person or membership changes, or it has seen no
  active hold, and deletes the person and deactivates their memberships only. -/
  branch : (status = .blockedLegalHold ∧ SameRows (S := vaultSchema) .people before after ∧
      SameRows (S := vaultSchema) .memberships before after) ∨
    (status = .awaitingReview ∧
      (∃ σ₀, seen σ₀ ∧ ∀ id hold, σ₀.get .legalHolds id = some hold →
        hold.activeOn context execution.personId input.completedAt = false) ∧
      (∀ k, k ≠ execution.personId → after.get .people k = before.get .people k) ∧
      DeactivatesOnly execution.personId before after)

/-- A committed completion is one of these, when the request of its execution is in
every store it has seen. -/
theorem completeDeletion_executes {context : TenantContext} {input : CompleteDeletionInput}
    {progress : PrivacyDeletionProgress} (hnow : seen σ)
    (hrequest : ∀ execution : DeletionExecutionRow,
      σ.get .deletionExecutions input.executionId = some execution →
      context.sees execution = true → ∀ σ₀, seen σ₀ → ∃ request : PrivacyRequestRow,
        σ₀.get .privacyRequests execution.privacyRequestId = some request ∧
          context.sees request = true)
    (hkeyed : ∀ k (membership : MembershipRow),
      σ.get .memberships k = some membership → membership.id = k)
    (h : (completePrivacyDeletionActiveSystem context input).Executes seen σ [] (.ok progress)
      ws') :
    ∃ execution moved request,
      Completion seen context input σ (σ.overlay ws') progress.status execution moved request := by
  obtain ⟨locked, ws₁, hlock, hcheck⟩ := executes_bind_ok.mp h
  split at hcheck
  · exact absurd hcheck.1 (by simp)
  rename_i execution hfound
  obtain ⟨hlocked, hstatus⟩ := Option.filter_eq_some_iff.mp hfound
  subst hlocked
  have hrow : σ.get VaultTable.deletionExecutions input.executionId = some execution ∧
      context.sees execution = true ∧
      ws₁ = [⟨VaultTable.deletionExecutions, input.executionId, some execution⟩] := by
    rcases executes_lockRow.mp hlock with ⟨row, hrow, hsees, hout, hws⟩ | ⟨_, _, _, hout, _⟩
    · obtain rfl := Option.some.inj (Except.ok.inj hout)
      exact ⟨hrow, hsees, hws⟩
    · exact absurd hout (by simp)
  obtain ⟨hrow, hsees, rfl⟩ := hrow
  have hrecovery : execution.status = .recoveryPeriod := by
    simp only [Bool.and_eq_true, beq_iff_eq] at hstatus
    exact hstatus.2
  split at hcheck
  · exact absurd hcheck.1 (by simp)
  rename_i hdue
  obtain ⟨categories, ws₂, hholds, hbranch⟩ := executes_bind_ok.mp hcheck
  obtain ⟨σ₀, hs, hcategories, rfl⟩ := executes_select.mp hholds
  have hlockRow : ∀ base : Vault, (base.overlay
      [⟨VaultTable.deletionExecutions, input.executionId, some execution⟩]).get
      .deletionExecutions input.executionId = some execution :=
    fun base => get_set_self _ _ _ _
  have hother : ∀ (t : VaultTable), t ≠ .deletionExecutions → ∀ base : Vault,
      SameRows (S := vaultSchema) t base (base.overlay
        [⟨VaultTable.deletionExecutions, input.executionId, some execution⟩]) :=
    fun t ht base => sameRows_overlay_cons base _ _ [] ht
  have hrequest' : ∀ σ₀, seen σ₀ → ∃ request : PrivacyRequestRow, (σ₀.overlay
      [⟨VaultTable.deletionExecutions, input.executionId, some execution⟩]).get
      .privacyRequests execution.privacyRequestId = some request ∧ context.sees request = true := by
    intro base hbase
    rw [hother _ (by decide) base]
    exact hrequest execution hrow hsees base hbase
  have hfirst : Replaces (S := vaultSchema) .deletionExecutions input.executionId (some execution)
      σ (σ.overlay [⟨VaultTable.deletionExecutions, input.executionId, some execution⟩]) :=
    replaces_overlay_cons σ _ _ []
  have hdue' : execution.recoveryUntil ≤ input.completedAt := Int.not_lt.mp hdue
  split at hbranch
  · obtain ⟨_, ws₂, hmove, hcommit⟩ := executes_bind_ok.mp hbranch
    obtain ⟨hprogress, rfl⟩ := hcommit
    obtain ⟨request, hreq, hexecutions, hrequests⟩ :=
      moveDeletion_executes hlockRow hsees hnow hrequest' hmove
    have hleaves : ∀ t : VaultTable, t ≠ .deletionExecutions → t ≠ .privacyRequests →
        t ≠ .workflowRuns → SameRows (S := vaultSchema) t σ (σ.overlay ws') :=
      fun t h₁ h₂ h₃ => (hother t h₁ σ).trans
        ((moveDeletion_leaves h₁ h₂ h₃ _ _ _ _ _ _).sameRows hmove)
    obtain rfl := Except.ok.inj hprogress
    exact ⟨execution, blockedExecution categories execution, request,
      { found := hrow
        sees := hsees
        due := ⟨hrecovery, hdue'⟩
        executions := hfirst.trans hexecutions
        same := ⟨rfl, rfl, rfl, rfl, rfl, rfl⟩
        moved_status := rfl
        request_found := by rw [← hother _ (by decide) σ]; exact hreq
        requests := hrequests.after_same (hother _ (by decide) σ)
        branch := Or.inl ⟨rfl, hleaves .people (by decide) (by decide) (by decide),
          hleaves .memberships (by decide) (by decide) (by decide)⟩ }⟩
  · rename_i hempty
    have hkeyed' : ∀ k (membership : MembershipRow), (σ.overlay
        [⟨VaultTable.deletionExecutions, input.executionId, some execution⟩]).get .memberships k =
        some membership → membership.id = k := by
      intro k membership hmembership
      rw [hother _ (by decide) σ] at hmembership
      exact hkeyed k membership hmembership
    obtain ⟨hprogress, ⟨request, hreq, hexecutions, hrequests⟩, hpeople, hmemberships⟩ :=
      deleteActiveSystem_executes hlockRow hsees hnow hrequest' hkeyed' hbranch
    have hnohold : activeHoldCategories context execution.personId input.completedAt σ₀ = [] := by
      have hquery := Except.ok.inj hcategories
      have hsame : activeHoldCategories context execution.personId input.completedAt (σ₀.overlay
          [⟨VaultTable.deletionExecutions, input.executionId, some execution⟩]) =
          activeHoldCategories context execution.personId input.completedAt σ₀ := by
        unfold activeHoldCategories
        rw [overlay_cons, overlay_nil, rowsOf_set_of_table_ne _ _ _ (by decide)]
      rw [← hsame, ← hquery]
      simpa using hempty
    exact ⟨execution, reviewedExecution input execution, request,
      { found := hrow
        sees := hsees
        due := ⟨hrecovery, hdue'⟩
        executions := hfirst.trans hexecutions
        same := ⟨rfl, rfl, rfl, rfl, rfl, rfl⟩
        moved_status := by rw [hprogress]; rfl
        request_found := by rw [← hother _ (by decide) σ]; exact hreq
        requests := by rw [hprogress]; exact hrequests.after_same (hother _ (by decide) σ)
        branch := Or.inr ⟨hprogress, ⟨σ₀, hs, activeHoldCategories_eq_nil.mp hnohold⟩,
          fun k hk => by rw [hpeople k hk, hother _ (by decide) σ],
          fun k => by
            have hdeactivated := hmemberships k
            rw [hother .memberships (by decide) σ] at hdeactivated
            exact hdeactivated⟩ }⟩

end LegacyVault
