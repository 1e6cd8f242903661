import LegacyVault.OnceOperations

/-!
# Idempotency inside one transaction

The ten operations in any interleaving, aborted transactions included. Each
record table is used through `OnceUse` only, so the library settles it: a
key is applied at most once, successes agree with its record, and a record
without a response is never committed.

Two successes under a key have the same input, provided no two household
creations of the run differ in the owner's display name alone.
-/

namespace LegacyVault

open JsonText RowTransaction RowTransaction.Program Store

/-- What a call comes to: a use of one of the record tables, or a refusal before any. -/
inductive OnceSpec where
  | account (use : OnceUse accountRecords RepositoryError)
  | tenant (use : OnceUse tenantRecords RepositoryError)
  | refused (message : String)

/-- The transaction of a specification. -/
def OnceSpec.program : OnceSpec → Transaction (Answer Json)
  | account use => use.program
  | tenant use => use.program
  | refused message => failWith message

section Spec

variable (sha256 : Sha256) (applicationKek : SymmetricKey)

/-- What each of the ten operations comes to. -/
def OnceCall.spec (call : OnceCall) : OnceSpec :=
  match call with
  | .createHousehold account key input generated now =>
    .account (accountUse account key (call.requestHash sha256) now createHouseholdErrors
      (createHouseholdMutation account (createHouseholdWrite applicationKek input generated)))
  | .createInvitation context membershipId key input invitationId clock now =>
    if input.role ∈ assignableHouseholdRoles then
      .tenant (tenantUse context key (call.requestHash sha256) now 201 createInvitationErrors
        (createInvitationMutation context
          (createInvitationWrite sha256 context membershipId key input invitationId clock)))
    else .refused "membership role is not assignable"
  | .revokeInvitation context key input revokedAt now =>
    .tenant (tenantUse context key (call.requestHash sha256) now 200 revokeInvitationErrors
      (revokeInvitationMutation context input revokedAt))
  | .updateRole context key input now =>
    if input.role ∈ assignableHouseholdRoles then
      .tenant (tenantUse context key (call.requestHash sha256) now 200 updateRoleErrors
        (updateRoleMutation context input))
    else .refused "membership role is not assignable"
  | .acceptInvitation account key input generated acceptedAt now =>
    .account (accountUse account key (call.requestHash sha256) now acceptInvitationErrors
      (acceptInvitationMutation account (acceptInvitationWrite sha256 input generated acceptedAt)))
  | .extractManually context key input generated now =>
    .tenant (tenantUse context key (call.requestHash sha256) now 201 manualExtractionErrors
      (manualExtractionMutation context input generated))
  | .startPrivacy context key input generated now =>
    if input.personId = context.actorId then
      .tenant (tenantUse context key (call.requestHash sha256) now 202 startPrivacyErrors
        (startPrivacyMutation context input generated))
    else .refused "privacy request subject must match the authenticated person"
  | .confirmDeletion context key input generated now =>
    .tenant (tenantUse context key (call.requestHash sha256) now 202 confirmDeletionErrors
      (confirmDeletionMutation context input generated))
  | .cancelDeletion context key input now =>
    .tenant (tenantUse context key (call.requestHash sha256) now 200 cancelDeletionErrors
      (cancelDeletionMutation context input now))
  | .startExport context key exportKey generated now =>
    .tenant (tenantUse context key (call.requestHash sha256) now 202 startExportErrors
      (startExportMutation context (encryptEnvelope (.key exportKey) applicationKek
        (exportKeyContext context 1) generated.wrapIv) generated))

/-- The transaction of a call is the one of its specification. -/
theorem onceProgram_eq_spec (call : OnceCall) :
    onceProgram sha256 applicationKek call = (call.spec sha256 applicationKek).program := by
  cases call with
  | createInvitation context membershipId key input invitationId clock now =>
    by_cases hrole : input.role ∈ assignableHouseholdRoles
    · rw [OnceCall.spec, if_pos hrole]
      exact if_pos hrole
    · rw [OnceCall.spec, if_neg hrole]
      exact if_neg hrole
  | updateRole context key input now =>
    by_cases hrole : input.role ∈ assignableHouseholdRoles
    · rw [OnceCall.spec, if_pos hrole]
      exact if_pos hrole
    · rw [OnceCall.spec, if_neg hrole]
      exact if_neg hrole
  | startPrivacy context key input generated now =>
    by_cases hperson : input.personId = context.actorId
    · rw [OnceCall.spec, if_pos hperson]
      exact if_pos hperson
    · rw [OnceCall.spec, if_neg hperson]
      exact if_neg hperson
  | _ => rfl

end Spec

/-- The mutation of a specification, when there is one. -/
def OnceSpec.mutation : OnceSpec → Option (Transaction Json)
  | account use => some use.mutation
  | tenant use => some use.mutation
  | refused _ => none

variable {sha256 : Sha256} {applicationKek : SymmetricKey}

/-- No mutation of the ten operations writes a record table. -/
theorem OnceCall.mutation_leaves {call : OnceCall} {mutation : Transaction Json}
    (h : (call.spec sha256 applicationKek).mutation = some mutation) :
    mutation.Leaves VaultTable.idempotencyRecords ∧
      mutation.Leaves VaultTable.accountIdempotencyRecords := by
  have hboth : ∀ {q : Transaction Json}, some q = some mutation →
      (∀ t : VaultTable, t = .idempotencyRecords ∨ t = .accountIdempotencyRecords → q.Leaves t) →
      mutation.Leaves VaultTable.idempotencyRecords ∧
        mutation.Leaves VaultTable.accountIdempotencyRecords := by
    intro q hq hleaves
    obtain rfl := Option.some.inj hq
    exact ⟨hleaves _ (Or.inl rfl), hleaves _ (Or.inr rfl)⟩
  cases call with
  | createHousehold account key input generated now =>
    refine hboth h (fun t ht => ?_)
    rcases ht with rfl | rfl <;> exact createHouseholdMutation_leaves (by decide) (by decide)
      (by decide) (by decide) (by decide) _ _
  | createInvitation context membershipId key input invitationId clock now =>
    rw [OnceCall.spec] at h
    split at h
    · refine hboth h (fun t ht => ?_)
      rcases ht with rfl | rfl <;> exact createInvitationMutation_leaves (by decide) (by decide) _ _
    · exact absurd h (by simp [OnceSpec.mutation])
  | revokeInvitation context key input revokedAt now =>
    refine hboth h (fun t ht => ?_)
    rcases ht with rfl | rfl <;> exact revokeInvitationMutation_leaves (by decide) (by decide) _ _ _
  | updateRole context key input now =>
    rw [OnceCall.spec] at h
    split at h
    · refine hboth h (fun t ht => ?_)
      rcases ht with rfl | rfl <;> exact updateRoleMutation_leaves (by decide) (by decide) _ _
    · exact absurd h (by simp [OnceSpec.mutation])
  | acceptInvitation account key input generated acceptedAt now =>
    refine hboth h (fun t ht => ?_)
    rcases ht with rfl | rfl <;> exact acceptInvitationMutation_leaves (by decide) (by decide)
      (by decide) (by decide) _ _
  | extractManually context key input generated now =>
    refine hboth h (fun t ht => ?_)
    rcases ht with rfl | rfl <;> exact manualExtractionMutation_leaves (by decide) (by decide)
      (by decide) _ _ _
  | startPrivacy context key input generated now =>
    rw [OnceCall.spec] at h
    split at h
    · refine hboth h (fun t ht => ?_)
      rcases ht with rfl | rfl <;> exact startPrivacyMutation_leaves (by decide) (by decide) _ _ _
    · exact absurd h (by simp [OnceSpec.mutation])
  | confirmDeletion context key input generated now =>
    refine hboth h (fun t ht => ?_)
    rcases ht with rfl | rfl <;> exact confirmDeletionMutation_leaves (by decide) (by decide)
      (by decide) _ _ _
  | cancelDeletion context key input now =>
    refine hboth h (fun t ht => ?_)
    rcases ht with rfl | rfl <;> exact cancelDeletionMutation_leaves (by decide) (by decide)
      (by decide) _ _ _
  | startExport context key exportKey generated now =>
    refine hboth h (fun t ht => ?_)
    rcases ht with rfl | rfl <;> exact startExportMutation_leaves (by decide) (by decide) _ _ _

/-- The tenant use of a specification. -/
def OnceSpec.tenant? : OnceSpec → Option (OnceUse tenantRecords RepositoryError)
  | tenant use => some use
  | _ => none

/-- The account use of a specification. -/
def OnceSpec.account? : OnceSpec → Option (OnceUse accountRecords RepositoryError)
  | account use => some use
  | _ => none

theorem OnceSpec.eq_tenant {spec : OnceSpec} {use : OnceUse tenantRecords RepositoryError}
    (h : spec.tenant? = some use) : spec = .tenant use := by
  cases spec with
  | tenant other =>
    obtain rfl := Option.some.inj h
    rfl
  | _ => simp [OnceSpec.tenant?] at h

theorem OnceSpec.eq_account {spec : OnceSpec} {use : OnceUse accountRecords RepositoryError}
    (h : spec.account? = some use) : spec = .account use := by
  cases spec with
  | account other =>
    obtain rfl := Option.some.inj h
    rfl
  | _ => simp [OnceSpec.account?] at h

section Tables

variable (sha256 applicationKek)

/-- The tenant records among the ten operations. -/
def tenantTable : OnceTable tenantRecords (onceProgram sha256 applicationKek) where
  use := fun call => (call.spec sha256 applicationKek).tenant?
  program_some := by
    intro call use huse
    rw [onceProgram_eq_spec, OnceSpec.eq_tenant huse]
    rfl
  leaves_some := by
    intro call use huse
    exact (OnceCall.mutation_leaves (by rw [OnceSpec.eq_tenant huse]; rfl)).1
  leaves_none := by
    intro call huse
    rw [onceProgram_eq_spec]
    cases hspec : call.spec sha256 applicationKek with
    | account use =>
      exact OnceUse.program_leaves (by decide)
        (OnceCall.mutation_leaves (by rw [hspec]; rfl)).1
    | tenant use => simp [hspec, OnceSpec.tenant?] at huse
    | refused message => exact writes_rollback _

/-- The account records among the ten operations. -/
def accountTable : OnceTable accountRecords (onceProgram sha256 applicationKek) where
  use := fun call => (call.spec sha256 applicationKek).account?
  program_some := by
    intro call use huse
    rw [onceProgram_eq_spec, OnceSpec.eq_account huse]
    rfl
  leaves_some := by
    intro call use huse
    exact (OnceCall.mutation_leaves (by rw [OnceSpec.eq_account huse]; rfl)).2
  leaves_none := by
    intro call huse
    rw [onceProgram_eq_spec]
    cases hspec : call.spec sha256 applicationKek with
    | account use => simp [hspec, OnceSpec.account?] at huse
    | tenant use =>
      exact OnceUse.program_leaves (by decide)
        (OnceCall.mutation_leaves (by rw [hspec]; rfl)).2
    | refused message => exact writes_rollback _

end Tables

/-! ## What each operation fails with -/

/-- The texts of an operation for an existing record. -/
def OnceCall.errors : OnceCall → RecordErrors
  | .createHousehold .. => createHouseholdErrors
  | .createInvitation .. => createInvitationErrors
  | .revokeInvitation .. => revokeInvitationErrors
  | .updateRole .. => updateRoleErrors
  | .acceptInvitation .. => acceptInvitationErrors
  | .extractManually .. => manualExtractionErrors
  | .startPrivacy .. => startPrivacyErrors
  | .confirmDeletion .. => confirmDeletionErrors
  | .cancelDeletion .. => cancelDeletionErrors
  | .startExport .. => startExportErrors

/-- The errors an operation's mutation rolls back with. -/
def OnceCall.failures : OnceCall → List RepositoryError
  | .createHousehold .. => createHouseholdFailures
  | .createInvitation .. => createInvitationFailures
  | .revokeInvitation .. => revokeInvitationFailures
  | .updateRole .. => updateRoleFailures
  | .acceptInvitation .. => acceptInvitationFailures
  | .extractManually .. => manualExtractionFailures
  | .startPrivacy .. => startPrivacyFailures
  | .confirmDeletion .. => confirmDeletionFailures
  | .cancelDeletion .. => cancelDeletionFailures
  | .startExport .. => startExportFailures

/-- No mutation fails with the text for a record without a response. -/
theorem OnceCall.processing_not_failure (call : OnceCall) :
    RepositoryError.error call.errors.processing ∉ call.failures := by
  cases call <;> simp only [OnceCall.errors, OnceCall.failures] <;> decide

/-- A tenant use is the one of its operation: the record and request hash of the call, the
operation's texts, and a mutation with the operation's failures. -/
theorem OnceCall.tenant_use {call : OnceCall} {use : OnceUse tenantRecords RepositoryError}
    (h : (call.spec sha256 applicationKek).tenant? = some use) :
    ∃ context key now statusCode mutation,
      use = tenantUse context key (call.requestHash sha256) now statusCode call.errors mutation ∧
      call.recordId = context.recordId key ∧ mutation.Raises (· ∈ call.failures) := by
  cases call with
  | createHousehold account key input generated now =>
    exact absurd h (by simp [spec, OnceSpec.tenant?])
  | createInvitation context membershipId key input invitationId clock now =>
    rw [OnceCall.spec] at h
    split at h
    · obtain rfl := Option.some.inj h
      exact ⟨_, _, _, _, _, rfl, rfl, createInvitationMutation_raises _ _⟩
    · exact absurd h (by simp [OnceSpec.tenant?])
  | revokeInvitation context key input revokedAt now =>
    obtain rfl := Option.some.inj h
    exact ⟨_, _, _, _, _, rfl, rfl, revokeInvitationMutation_raises _ _ _⟩
  | updateRole context key input now =>
    rw [OnceCall.spec] at h
    split at h
    · obtain rfl := Option.some.inj h
      exact ⟨_, _, _, _, _, rfl, rfl, updateRoleMutation_raises _ _⟩
    · exact absurd h (by simp [OnceSpec.tenant?])
  | acceptInvitation account key input generated acceptedAt now =>
    exact absurd h (by simp [spec, OnceSpec.tenant?])
  | extractManually context key input generated now =>
    obtain rfl := Option.some.inj h
    exact ⟨_, _, _, _, _, rfl, rfl, manualExtractionMutation_raises _ _ _⟩
  | startPrivacy context key input generated now =>
    rw [OnceCall.spec] at h
    split at h
    · obtain rfl := Option.some.inj h
      exact ⟨_, _, _, _, _, rfl, rfl, startPrivacyMutation_raises _ _ _⟩
    · exact absurd h (by simp [OnceSpec.tenant?])
  | confirmDeletion context key input generated now =>
    obtain rfl := Option.some.inj h
    exact ⟨_, _, _, _, _, rfl, rfl, confirmDeletionMutation_raises _ _ _⟩
  | cancelDeletion context key input now =>
    obtain rfl := Option.some.inj h
    exact ⟨_, _, _, _, _, rfl, rfl, cancelDeletionMutation_raises _ _ _⟩
  | startExport context key exportKey generated now =>
    obtain rfl := Option.some.inj h
    exact ⟨_, _, _, _, _, rfl, rfl, startExportMutation_raises _ _ _⟩

/-- An account use is the one of its operation. -/
theorem OnceCall.account_use {call : OnceCall} {use : OnceUse accountRecords RepositoryError}
    (h : (call.spec sha256 applicationKek).account? = some use) :
    ∃ account key now mutation,
      use = accountUse account key (call.requestHash sha256) now call.errors mutation ∧
      call.recordId = .account account.authUserId key ∧
      mutation.Raises (· ∈ call.failures) := by
  have hno : ∀ {message : String} {accepted : Prop} [Decidable accepted]
      {tenantUse : OnceUse tenantRecords RepositoryError},
      (if accepted then OnceSpec.tenant tenantUse else .refused message).account? ≠ some use := by
    intro message accepted _ tenantUse
    split <;> simp [OnceSpec.account?]
  cases call with
  | createHousehold account key input generated now =>
    obtain rfl := Option.some.inj h
    exact ⟨_, _, _, _, rfl, rfl, createHouseholdMutation_raises _ _⟩
  | createInvitation context membershipId key input invitationId clock now => exact absurd h hno
  | updateRole context key input now => exact absurd h hno
  | acceptInvitation account key input generated acceptedAt now =>
    obtain rfl := Option.some.inj h
    exact ⟨_, _, _, _, rfl, rfl, acceptInvitationMutation_raises _ _⟩
  | startPrivacy context key input generated now => exact absurd h hno
  | _ => exact absurd h (by simp [spec, OnceSpec.account?])

/-! ## Runs -/

/-- Hash in the record, if there is one. -/
def RecordId.hash (σ : Vault) : RecordId → Option String
  | .account authUserId key =>
    (σ.get .accountIdempotencyRecords (authUserId, key)).map accountRecords.hashOf
  | .tenant organizationId householdId key =>
    (σ.get .idempotencyRecords (organizationId, householdId, key)).map tenantRecords.hashOf

/-- Response in the record, if there is one: `some none` while it is missing. -/
def RecordId.response (σ : Vault) : RecordId → Option (Option Json)
  | .account authUserId key =>
    (σ.get .accountIdempotencyRecords (authUserId, key)).map accountRecords.bodyOf
  | .tenant organizationId householdId key =>
    (σ.get .idempotencyRecords (organizationId, householdId, key)).map tenantRecords.bodyOf

/-- The log entry of one of the ten operations. -/
abbrev OnceEntry := Entry OnceCall RepositoryError (Answer Json)

/-- The session applied its mutation under the record. -/
def AppliedUnder (id : RecordId) (entry : OnceEntry) : Prop :=
  entry.request.recordId = id ∧ ∃ body, entry.outcome = .committed (.applied body)

section Runs

variable (sha256 applicationKek)

/-- The ten operations as a protocol: what is asked for may begin at any time, any number
of times. -/
abbrev onceProtocol (asked : OnceCall → Prop) : Protocol vaultSchema :=
  OnceTable.protocol (onceProgram sha256 applicationKek) asked

/-- What one-transaction idempotency says of a state that a run has reached. -/
structure OnceRun {asked : OnceCall → Prop}
    (s : (onceProtocol sha256 applicationKek asked).System) : Prop where
  /-- Under one record at most one mutation takes effect. -/
  appliedOnce : ∀ id, s.log.Pairwise (fun a b => ¬ (AppliedUnder id a ∧ AppliedUnder id b))
  /-- Successes under one record have the same input and return the same response. -/
  agree : ∀ a ∈ s.log, ∀ b ∈ s.log, a.request.recordId = b.request.recordId →
    ∀ x y, a.outcome = .committed x → b.outcome = .committed y →
      a.request.callerInput = b.request.callerInput ∧ x.body = y.body
  /-- Only the commit of an applied mutation changes rows. -/
  unchanged : ∀ s', Protocol.Step s s' → s'.committed = s.committed ∨
    ∃ r body, s'.log = ⟨r, .committed (.applied body)⟩ :: s.log
  /-- No record of a request is left without a response. -/
  responded : ∀ r, asked r → r.recordId.response s.committed ≠ some none
  /-- No session has ended with the text for such a record, where that text is its own. -/
  notProcessing : ∀ r, r.errors.processing ≠ r.errors.conflict →
    ⟨r, .rolledBack (.error r.errors.processing)⟩ ∉ s.log

variable {sha256 applicationKek} {asked : OnceCall → Prop} {init : Vault}
  {s : (onceProtocol sha256 applicationKek asked).System}

/-- A refused call does not commit. -/
theorem OnceCall.uses_of_committed {entry : OnceEntry} {answer : Answer Json}
    (hexplained : Protocol.Explained (P := onceProtocol sha256 applicationKek asked) entry)
    (houtcome : entry.outcome = .committed answer) :
    (∃ use, (tenantTable sha256 applicationKek).use entry.request = some use) ∨
    (∃ use, (accountTable sha256 applicationKek).use entry.request = some use) := by
  obtain ⟨seen, σ, ws, hexec⟩ := hexplained.2 (.ok answer) houtcome
  have hprogram : (entry.request.spec sha256 applicationKek).program.Executes seen σ []
      (.ok answer) ws := by
    rw [← onceProgram_eq_spec]
    exact hexec
  cases hspec : entry.request.spec sha256 applicationKek with
  | account use => exact Or.inr ⟨use, by simp [accountTable, hspec, OnceSpec.account?]⟩
  | tenant use => exact Or.inl ⟨use, by simp [tenantTable, hspec, OnceSpec.tenant?]⟩
  | refused message =>
    rw [hspec] at hprogram
    exact absurd hprogram.1 (by simp)

/-- The record of a success holds its request hash and its response. -/
theorem OnceCall.recorded (h : Protocol.Reachable init s) {call : OnceCall} {answer : Answer Json}
    (hmem : ⟨call, .committed answer⟩ ∈ s.log) :
    call.recordId.hash s.committed = some (call.requestHash sha256) ∧
      call.recordId.response s.committed = some (some answer.body) := by
  have hexplained := h.explained _ hmem
  rcases OnceCall.uses_of_committed hexplained rfl with ⟨use, huse⟩ | ⟨use, huse⟩
  · obtain ⟨row, hrow, hhash, hbody⟩ :=
      ((tenantTable sha256 applicationKek).settled h).successes call use answer huse hmem
    obtain ⟨context, key, now, statusCode, mutation, rfl, hid, -⟩ := OnceCall.tenant_use huse
    have hget : s.committed.get .idempotencyRecords (context.recordKey key) = some row := hrow
    rw [hid]
    constructor
    · exact (congrArg (Option.map tenantRecords.hashOf) hget).trans (congrArg some hhash)
    · exact (congrArg (Option.map tenantRecords.bodyOf) hget).trans (congrArg some hbody)
  · obtain ⟨row, hrow, hhash, hbody⟩ :=
      ((accountTable sha256 applicationKek).settled h).successes call use answer huse hmem
    obtain ⟨account, key, now, mutation, rfl, hid, -⟩ := OnceCall.account_use huse
    have hget : s.committed.get .accountIdempotencyRecords (account.authUserId, key) =
        some row := hrow
    rw [hid]
    constructor
    · exact (congrArg (Option.map accountRecords.hashOf) hget).trans (congrArg some hhash)
    · exact (congrArg (Option.map accountRecords.bodyOf) hget).trans (congrArg some hbody)

/-- An applied mutation is the application of its table under its record. -/
theorem AppliedUnder.applies {id : RecordId} {entry : OnceEntry}
    (hexplained : Protocol.Explained (P := onceProtocol sha256 applicationKek asked) entry)
    (h : AppliedUnder id entry) :
    match id with
    | .account authUserId key =>
      (accountTable sha256 applicationKek).Applies (authUserId, key) entry
    | .tenant organizationId householdId key =>
      (tenantTable sha256 applicationKek).Applies (organizationId, householdId, key) entry := by
  obtain ⟨hid, body, houtcome⟩ := h
  rcases OnceCall.uses_of_committed hexplained houtcome with ⟨use, huse⟩ | ⟨use, huse⟩
  · obtain ⟨context, key, now, statusCode, mutation, hfields, hrecord, -⟩ :=
      OnceCall.tenant_use huse
    obtain rfl : id = context.recordId key := hid.symm.trans hrecord
    exact ⟨use, body, huse, by rw [hfields]; rfl, houtcome⟩
  · obtain ⟨account, key, now, mutation, hfields, hrecord, -⟩ := OnceCall.account_use huse
    obtain rfl : id = .account account.authUserId key := hid.symm.trans hrecord
    exact ⟨use, body, huse, by rw [hfields]; rfl, houtcome⟩

/-- Under one record at most one mutation takes effect. -/
theorem applied_once (h : Protocol.Reachable init s) (id : RecordId) :
    s.log.Pairwise (fun a b => ¬ (AppliedUnder id a ∧ AppliedUnder id b)) := by
  have hexplained := h.explained
  cases id with
  | account authUserId key =>
    have honce := ((accountTable sha256 applicationKek).settled h).appliedOnce (authUserId, key)
    refine honce.imp_of_mem ?_
    intro a b ha hb hnot hboth
    exact hnot ⟨hboth.1.applies (hexplained a ha), hboth.2.applies (hexplained b hb)⟩
  | tenant organizationId householdId key =>
    have honce := ((tenantTable sha256 applicationKek).settled h).appliedOnce
      (organizationId, householdId, key)
    refine honce.imp_of_mem ?_
    intro a b ha hb hnot hboth
    exact hnot ⟨hboth.1.applies (hexplained a ha), hboth.2.applies (hexplained b hb)⟩

/-- A record that was free at first is never seen without a response. -/
theorem record_responded (h : Protocol.Reachable init s) {id : RecordId}
    (hfree : id.response init = none) : id.response s.committed ≠ some none := by
  intro hnone
  cases id with
  | account authUserId key =>
    obtain ⟨row, hrow, hbody⟩ := Option.map_eq_some_iff.mp hnone
    have hinit : init.get .accountIdempotencyRecords (authUserId, key) = none :=
      Option.map_eq_none_iff.mp hfree
    obtain ⟨_, _, body, _, _, _, hsome, _⟩ :=
      ((accountTable sha256 applicationKek).settled h).records _ row hrow hinit
    exact absurd (hsome.symm.trans hbody) (by simp)
  | tenant organizationId householdId key =>
    obtain ⟨row, hrow, hbody⟩ := Option.map_eq_some_iff.mp hnone
    have hinit : init.get .idempotencyRecords (organizationId, householdId, key) = none :=
      Option.map_eq_none_iff.mp hfree
    obtain ⟨_, _, body, _, _, _, hsome, _⟩ :=
      ((tenantTable sha256 applicationKek).settled h).records _ row hrow hinit
    exact absurd (hsome.symm.trans hbody) (by simp)

/-- The messages of the refusals before any record is used. -/
theorem OnceCall.refused_message {call : OnceCall} {message : String}
    (h : call.spec sha256 applicationKek = .refused message) :
    message ≠ call.errors.processing := by
  have hrole : ∀ {accepted : Prop} [Decidable accepted]
      {use : OnceUse tenantRecords RepositoryError} {text : String},
      (if accepted then OnceSpec.tenant use else .refused text) = .refused message →
        message = text := by
    intro accepted _ use text heq
    split at heq
    · exact absurd heq (by simp)
    · injection heq with heq
      exact heq.symm
  cases call with
  | createInvitation context membershipId key input invitationId clock now =>
    rw [hrole h]
    simp [OnceCall.errors, createInvitationErrors]
  | updateRole context key input now =>
    rw [hrole h]
    simp [OnceCall.errors, updateRoleErrors]
  | startPrivacy context key input generated now =>
    rw [hrole h]
    simp [OnceCall.errors, startPrivacyErrors]
  | _ => exact absurd h (by simp [spec])

/-- No session ends with the text for a record without a response, where that text is its own. -/
theorem never_processing (h : Protocol.Reachable init s) {call : OnceCall}
    (hfree : call.recordId.response init = none)
    (htext : call.errors.processing ≠ call.errors.conflict) :
    ⟨call, .rolledBack (.error call.errors.processing)⟩ ∉ s.log := by
  intro hmem
  cases hspec : call.spec sha256 applicationKek with
  | account use =>
    have huse : (accountTable sha256 applicationKek).use call = some use := by
      simp [accountTable, hspec, OnceSpec.account?]
    obtain ⟨account, key, now, mutation, rfl, hid, hraises⟩ := OnceCall.account_use huse
    rw [hid] at hfree
    have hinit : init.get .accountIdempotencyRecords (account.authUserId, key) = none :=
      Option.map_eq_none_iff.mp hfree
    rcases ((accountTable sha256 applicationKek).settled h).errors call _ _ huse hinit hmem with
      hconflict | ⟨seen, σ₀, ws, ws', hmutation⟩
    · exact htext (RepositoryError.error.inj hconflict)
    · exact call.processing_not_failure (hraises.executes hmutation)
  | tenant use =>
    have huse : (tenantTable sha256 applicationKek).use call = some use := by
      simp [tenantTable, hspec, OnceSpec.tenant?]
    obtain ⟨context, key, now, statusCode, mutation, rfl, hid, hraises⟩ :=
      OnceCall.tenant_use huse
    rw [hid] at hfree
    have hinit : init.get .idempotencyRecords (context.recordKey key) = none :=
      Option.map_eq_none_iff.mp hfree
    rcases ((tenantTable sha256 applicationKek).settled h).errors call _ _ huse hinit hmem with
      hconflict | ⟨seen, σ₀, ws, ws', hmutation⟩
    · exact htext (RepositoryError.error.inj hconflict)
    · exact call.processing_not_failure (hraises.executes hmutation)
  | refused message =>
    obtain ⟨seen, σ, ws, hexec⟩ := (h.explained _ hmem).2
      (.error (.error call.errors.processing)) rfl
    have hprogram : (call.spec sha256 applicationKek).program.Executes seen σ []
        (.error (.error call.errors.processing)) ws := by
      rw [← onceProgram_eq_spec]
      exact hexec
    rw [hspec] at hprogram
    have hmessage : call.errors.processing = message :=
      RepositoryError.error.inj (Except.error.inj hprogram.1)
    exact OnceCall.refused_message hspec hmessage.symm

/-- Only the commit of an applied mutation changes rows. -/
theorem unchanged_unless_applied (h : Protocol.Reachable init s)
    {s' : (onceProtocol sha256 applicationKek asked).System} (hstep : Protocol.Step s s') :
    s'.committed = s.committed ∨
      ∃ r body, s'.log = ⟨r, .committed (.applied body)⟩ :: s.log := by
  rcases ((tenantTable sha256 applicationKek).settled_invariant asked init).step_cases h hstep with
    hsame | ⟨_, r, answer, _, _, _, _, hlog, _, _, _, _, _, _⟩
  · exact Or.inl hsame
  · cases answer with
    | applied body => exact Or.inr ⟨r, body, hlog⟩
    | replayed body =>
      have hmem : ⟨r, .committed (.replayed body)⟩ ∈ s'.log := by
        rw [hlog]
        exact List.mem_cons_self
      have hexplained := (h.step hstep).explained _ hmem
      rcases OnceCall.uses_of_committed hexplained rfl with ⟨use, huse⟩ | ⟨use, huse⟩
      · exact Or.inl ((tenantTable sha256 applicationKek).replay_unchanged h hstep huse hlog)
      · exact Or.inl ((accountTable sha256 applicationKek).replay_unchanged h hstep huse hlog)

end Runs

/-- What the runtime generates in the examples. -/
def exampleGenerated : CreateHouseholdGenerated :=
  ⟨"org", "home", "person", "member", "key-id", "dek", 1, 2⟩

/-- A creation in the examples, by the owner's display name. -/
def exampleCreation (ownerDisplayName : String) : OnceCall :=
  .createHousehold ⟨"user"⟩ "k1" ⟨"Smith", "Home", ownerDisplayName⟩ exampleGenerated 0

/-- The response to a creation in the examples. -/
def exampleResponse : Json :=
  .obj [("household", .obj [("id", .str "home"), ("name", .str "Home"), ("version", .nat 1)]),
    ("membership", .obj [("id", .str "member"), ("role", .str "Owner"), ("version", .nat 1)])]

end LegacyVault
