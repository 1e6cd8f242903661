import LegacyVault.Library.IsoDates
import LegacyVault.Library.SessionSpans
import LegacyVault.SupportAccess

/-!
# Runs of support access

Approvals, revocations and resolutions of identities in any interleaving. An
approval keeps what it was persisted with; only its revocation is ever added,
and then it changes no more.

The policy reads the window of an approval with both bounds taken down to whole
milliseconds. Within that window it honours exactly the approvals that were not
revoked when the identity was resolved.
-/

namespace LegacyVault.SupportAccess

open EcmaText RowTransaction RowTransaction.Program RowTransaction.Protocol IsoTime

/-! ## The statements -/

section Statements

variable {times : TimeReadings} {seen : SupportRows → Prop} {σ : SupportRows}
  {ws ws' : List (Write supportSchema)}

/-- What `approveSupportAccess` has checked of a call that persists a row with the given
bounds. -/
structure Admitted (times : TimeReadings) (call : ApproveCall) (startsAt expiresAt : Timestamp) :
    Prop where
  /-- The reason is a code. -/
  reason : reasonCodeAccepted call.reasonCode = true
  /-- The period is in order for `Date.parse`. -/
  period : periodAccepted (times.parse call.startsAt) (times.parse call.expiresAt) = true
  /-- The authorizer let the owner approve every category. -/
  allowed : approvesEach call.authorize call.owner call.categories
    "vault.support-access.approve" = true
  /-- The bounds are those of the period. -/
  bounds : storedPeriod times call = some (startsAt, expiresAt)
  /-- The row passes the checks of the table. -/
  checked : (call.row startsAt expiresAt).checked = true

/-- An approval that commits has inserted its row for a support agent's active membership. -/
theorem executes_approveSupportAccess {call : ApproveCall} {answer : SupportAnswer}
    (h : (approveSupportAccess times call).Executes seen σ ws (.ok answer) ws') :
    ∃ startsAt expiresAt, Admitted times call startsAt expiresAt ∧
      (∃ σ₀ membership, seen σ₀ ∧ membershipFor call (σ₀.overlay ws) = some membership ∧
        membership.role = .supportAgent) ∧
      (σ.overlay ws).get .supportAccessApprovals call.id = none ∧
      answer = .approved call.id 1 ∧
      ws' = ⟨.supportAccessApprovals, call.id, some (call.row startsAt expiresAt)⟩ :: ws := by
  unfold approveSupportAccess at h
  split at h
  · exact absurd h.1 (by simp)
  rename_i hreason
  split at h
  · exact absurd h.1 (by simp)
  split at h
  · exact absurd h.1 (by simp)
  rename_i hperiod
  split at h
  · exact absurd h.1 (by simp)
  rename_i hallowed
  obtain ⟨target, ws₁, htarget, h⟩ := executes_bind_ok.mp h
  obtain ⟨σ₀, hseen, hfound, rfl⟩ := executes_select.mp htarget
  obtain rfl := Except.ok.inj hfound
  split at h
  · rename_i hagent
    obtain ⟨membership, hmembership, hrole⟩ := (Option.any_eq_true _ _).mp hagent
    unfold insertApproval at h
    split at h
    · exact absurd h.1 (by simp)
    rename_i startsAt expiresAt hbounds
    simp only at h
    split at h
    · rename_i hchecked
      obtain ⟨inserted, ws₂, hinsert, hanswer, rfl⟩ := executes_bind_ok.mp h
      obtain ⟨hfree, -, rfl⟩ := executes_insertRow_ok hinsert
      have hagentRole : membership.role = .supportAgent := by
        rw [Bool.and_eq_true, beq_iff_eq] at hrole
        exact hrole.1
      exact ⟨startsAt, expiresAt, ⟨by simpa using hreason, by simpa using hperiod,
        by simpa using hallowed, hbounds, hchecked⟩, ⟨σ₀, membership, hseen, hmembership,
        hagentRole⟩, hfree, Except.ok.inj hanswer, rfl⟩
    · exact absurd h.1 (by simp)
  · exact absurd h.1 (by simp)

/-- A revocation that commits has found the approval unrevoked and added its time. -/
theorem executes_revokeSupportAccess {call : RevokeCall} {answer : SupportAnswer}
    (h : (revokeSupportAccess call).Executes seen σ ws (.ok answer) ws') :
    ∃ row : ApprovalRow, (σ.overlay ws).get .supportAccessApprovals call.approvalId = some row ∧
      row.revokedAt = none ∧
      ws' = ⟨.supportAccessApprovals, call.approvalId,
        some { row with revokedAt := some call.now, version := row.version + 1 }⟩ :: ws := by
  obtain ⟨existing, ws₁, hexisting, h⟩ := executes_bind_ok.mp h
  obtain ⟨-, -, -, rfl⟩ := executes_select.mp hexisting
  cases existing with
  | none => exact absurd h.1 (by simp)
  | some existing =>
    simp only at h
    split at h
    · exact absurd h.1 (by simp)
    obtain ⟨changed, ws₂, hupdate, h⟩ := executes_bind_ok.mp h
    cases changed with
    | none => exact absurd h.1 (by simp)
    | some changed =>
      obtain ⟨row, hrow, hchange, rfl⟩ := executes_updateRow_some hupdate
      have hwrites := h.2
      unfold revocation at hchange
      split at hchange
      · rename_i hrevocable
        obtain rfl := Option.some.inj hchange
        have hunrevoked : row.revokedAt = none := by
          simp only [ApprovalRow.revocable, Bool.and_eq_true, Option.isNone_iff_eq_none]
            at hrevocable
          exact hrevocable.1.2
        exact ⟨row, hrow, hunrevoked, hwrites⟩
      · exact absurd hchange (by simp)

/-- The identity of a support agent comes from a membership row and from the approvals that
are open for it at one moment. -/
theorem executes_resolve {call : ResolveCall} {identity : ResolvedMembershipIdentity}
    (h : (resolve call).Executes seen σ ws (.ok identity) ws') :
    ws' = ws ∧ ∃ σ₀ σ₁ membership, seen σ₀ ∧ seen σ₁ ∧
      membership ∈ activeMemberships call (σ₀.overlay ws) ∧
      identity.membershipId = membership.id ∧ identity.role = membership.role ∧
      identity.supportApprovals = if membership.role = .supportAgent then
        openApprovals membership call.now (σ₁.overlay ws) else [] := by
  obtain ⟨rows, ws₁, hrows, h⟩ := executes_bind_ok.mp h
  obtain ⟨σ₀, hseen₀, hfound, rfl⟩ := executes_select.mp hrows
  obtain rfl := Except.ok.inj hfound
  split at h
  · exact absurd h.1 (by simp)
  rename_i membership others hmemberships
  split at h
  · exact absurd h.1 (by simp)
  obtain ⟨grants, ws₂, hgrants, h⟩ := executes_bind_ok.mp h
  obtain ⟨-, -, -, hws₂⟩ := executes_select.mp hgrants
  obtain ⟨approvals, ws₃, happrovals, hidentity, hws'⟩ := executes_bind_ok.mp h
  obtain ⟨σ₁, hseen₁, hopen, hws₃⟩ := executes_select.mp happrovals
  obtain rfl := Except.ok.inj hidentity
  rw [hws₂] at hws₃ hopen
  exact ⟨hws'.trans hws₃, σ₀, σ₁, membership, hseen₀, hseen₁,
    hmemberships ▸ List.mem_cons_self, rfl, rfl, Except.ok.inj hopen⟩

end Statements

/-! ## The rows of a run -/

section Runs

variable {times : TimeReadings} {init : SupportRows}

/-- An approval stays what it was persisted as, except for a revocation that is added once. -/
def ApprovalRow.Kept (before after : ApprovalRow) : Prop :=
  after = { before with revokedAt := after.revokedAt, version := after.version } ∧
    (before.revokedAt ≠ none → after = before)

theorem ApprovalRow.Kept.refl (row : ApprovalRow) : row.Kept row := ⟨rfl, fun _ => rfl⟩

theorem ApprovalRow.Kept.trans {a b c : ApprovalRow} (h : a.Kept b) (h' : b.Kept c) :
    a.Kept c := by
  refine ⟨?_, fun hrevoked => ?_⟩
  · rw [h'.1, h.1]
  · have hsame := h.2 hrevoked
    rw [hsame] at h'
    exact h'.2 hrevoked

/-- The row was persisted by the call, for a support agent's membership of the initial rows. -/
structure PersistedBy (times : TimeReadings) (init : SupportRows) (call : ApproveCall)
    (row : ApprovalRow) : Prop where
  /-- The call was admitted with the row's bounds. -/
  admitted : Admitted times call row.startsAt row.expiresAt
  /-- The row is the inserted one, with a revocation perhaps. -/
  kept : (call.row row.startsAt row.expiresAt).Kept row
  /-- The membership is of the owner's tenant and a support agent's. -/
  membership : ∃ membership, membershipFor call init = some membership ∧
    membership.role = .supportAgent

theorem PersistedBy.later {call : ApproveCall} {before after : ApprovalRow}
    (h : PersistedBy times init call before) (hkept : before.Kept after) :
    PersistedBy times init call after := by
  have hstarts : after.startsAt = before.startsAt := by rw [hkept.1]
  have hexpires : after.expiresAt = before.expiresAt := by rw [hkept.1]
  refine ⟨?_, ?_, h.membership⟩
  · rw [hstarts, hexpires]
    exact h.admitted
  · rw [hstarts, hexpires]
    exact h.kept.trans hkept

/-- The approval that an entry of the log has revoked. -/
def revokedApproval (entry : (supportProtocol times).LogEntry) : Option Identifier :=
  match entry.request, entry.outcome with
  | .revoke call, .committed _ => some call.approvalId
  | _, _ => none

/-- A call of `approveSupportAccess` has persisted the approval. -/
def approvedEntry (call : ApproveCall) : (supportProtocol times).LogEntry :=
  ⟨.approve call, .committed (.approved call.id 1)⟩

/-- What holds of the rows after every run: memberships are the initial ones, approvals were
persisted by calls of the log, and those that the log revokes, each once, are revoked. -/
structure SupportState (init : SupportRows) (log : List (supportProtocol times).LogEntry)
    (σ : SupportRows) : Prop where
  /-- No membership changes. -/
  memberships : Store.SameRows (S := supportSchema) .memberships init σ
  /-- Every approval was persisted by a call. -/
  persisted : ∀ k row, σ.get .supportAccessApprovals k = some row →
    ∃ call, approvedEntry call ∈ log ∧ call.id = k ∧ PersistedBy times init call row
  /-- Every revoked approval of the log is revoked. -/
  revoked : ∀ k ∈ log.filterMap revokedApproval, ∃ row : ApprovalRow,
    σ.get .supportAccessApprovals k = some row ∧ row.revokedAt ≠ none
  /-- No approval is revoked twice. -/
  once : (log.filterMap revokedApproval).Nodup

/-- Approvals stay. -/
def ApprovalsKept : SupportRows → SupportRows → Prop :=
  Store.Keeps (S := supportSchema) .supportAccessApprovals ApprovalRow.Kept

/-- An entry that revokes nothing and leaves the rows alone keeps the state. -/
theorem SupportState.ends {log : List (supportProtocol times).LogEntry} {σ : SupportRows}
    {entry : (supportProtocol times).LogEntry} (h : SupportState init log σ)
    (hnone : revokedApproval entry = none) : SupportState init (entry :: log) σ where
  memberships := h.memberships
  persisted := by
    intro k row hrow
    obtain ⟨call, hmem, hid, hpersisted⟩ := h.persisted k row hrow
    exact ⟨call, List.mem_cons_of_mem _ hmem, hid, hpersisted⟩
  revoked := by
    intro k hk
    rw [List.filterMap_cons_none hnone] at hk
    exact h.revoked k hk
  once := by
    rw [List.filterMap_cons_none hnone]
    exact h.once

/-- The membership that an approval is for is the one of the same rows. -/
theorem membershipFor_congr (call : ApproveCall) {σ σ' : SupportRows}
    (h : Store.SameRows (S := supportSchema) .memberships σ σ') :
    membershipFor call σ' = membershipFor call σ :=
  congrArg (Option.filter _) (h call.supportMembershipId)

/-- Approvals are no memberships. -/
theorem memberships_ne_approvals :
    SupportTable.memberships ≠ SupportTable.supportAccessApprovals := by
  decide

/-- A persisted approval keeps the state. -/
theorem SupportState.approve {log : List (supportProtocol times).LogEntry} {σ : SupportRows}
    {call : ApproveCall} {startsAt expiresAt : Timestamp} (h : SupportState init log σ)
    (hadmitted : Admitted times call startsAt expiresAt)
    (hmembership : ∃ membership, membershipFor call init = some membership ∧
      membership.role = .supportAgent)
    (hfree : σ.get .supportAccessApprovals call.id = none) :
    SupportState init (approvedEntry call :: log)
      (σ.overlay [⟨.supportAccessApprovals, call.id, some (call.row startsAt expiresAt)⟩]) := by
  have hwrite : Store.Replaces (S := supportSchema) .supportAccessApprovals call.id
      (some (call.row startsAt expiresAt)) σ (σ.overlay [⟨.supportAccessApprovals, call.id,
        some (call.row startsAt expiresAt)⟩]) := Store.replaces_write σ
  constructor
  · exact h.memberships.trans (Store.sameRows_write σ memberships_ne_approvals)
  · intro k row hrow
    rcases hwrite.get_cases k with ⟨hk, hnew⟩ | ⟨-, hold⟩
    · obtain rfl := Option.some.inj (hnew.symm.trans hrow)
      exact ⟨call, List.mem_cons_self, hk.symm, hadmitted, .refl _, hmembership⟩
    · obtain ⟨earlier, hmem, hid, hpersisted⟩ := h.persisted k row (hold.symm.trans hrow)
      exact ⟨earlier, List.mem_cons_of_mem _ hmem, hid, hpersisted⟩
  · intro k hk
    obtain ⟨row, hrow, hrevoked⟩ := h.revoked k hk
    have hne : k ≠ call.id := by
      intro heq
      rw [heq] at hrow
      exact absurd (hrow.symm.trans hfree) (by simp)
    exact ⟨row, (hwrite.others k hne).trans hrow, hrevoked⟩
  · exact h.once

/-- A revoked approval keeps the state: it was not revoked before. -/
theorem SupportState.revoke {log : List (supportProtocol times).LogEntry} {σ : SupportRows}
    {call : RevokeCall} {answer : SupportAnswer} {row after : ApprovalRow}
    (h : SupportState init log σ)
    (hrow : σ.get .supportAccessApprovals call.approvalId = some row)
    (hunrevoked : row.revokedAt = none) (hkept : row.Kept after)
    (hrevoked : after.revokedAt ≠ none) :
    SupportState init (⟨.revoke call, .committed answer⟩ :: log)
      (σ.overlay [⟨.supportAccessApprovals, call.approvalId, some after⟩]) := by
  have hwrite : Store.Replaces (S := supportSchema) .supportAccessApprovals call.approvalId
      (some after) σ (σ.overlay [⟨.supportAccessApprovals, call.approvalId, some after⟩]) :=
    Store.replaces_write σ
  have hlogged : (⟨.revoke call, .committed answer⟩ :: log).filterMap
      (@revokedApproval times) = call.approvalId :: log.filterMap revokedApproval := rfl
  constructor
  · exact h.memberships.trans (Store.sameRows_write σ memberships_ne_approvals)
  · intro k found hfound
    rcases hwrite.get_cases k with ⟨hk, hnew⟩ | ⟨-, hold⟩
    · obtain rfl := Option.some.inj (hnew.symm.trans hfound)
      obtain ⟨approval, hmem, hid, hpersisted⟩ := h.persisted _ row hrow
      exact ⟨approval, List.mem_cons_of_mem _ hmem, hid.trans hk.symm, hpersisted.later hkept⟩
    · obtain ⟨approval, hmem, hid, hpersisted⟩ := h.persisted k found (hold.symm.trans hfound)
      exact ⟨approval, List.mem_cons_of_mem _ hmem, hid, hpersisted⟩
  · intro k hk
    rw [hlogged] at hk
    rcases hwrite.get_cases k with ⟨-, hnew⟩ | ⟨hne, hold⟩
    · exact ⟨after, hnew, hrevoked⟩
    · obtain ⟨found, hfound, hfoundRevoked⟩ :=
        h.revoked k ((List.mem_cons.mp hk).resolve_left hne)
      exact ⟨found, hold.trans hfound, hfoundRevoked⟩
  · rw [hlogged, List.nodup_cons]
    refine ⟨fun hmem => ?_, h.once⟩
    obtain ⟨found, hfound, hfoundRevoked⟩ := h.revoked _ hmem
    obtain rfl := Option.some.inj (hfound.symm.trans hrow)
    exact hfoundRevoked hunrevoked

/-- The state holds in every run, and approvals stay. -/
theorem support_invariant (hnone : ∀ k, init.get .supportAccessApprovals k = none) :
    (supportProtocol times).Invariant init (SupportState init) ApprovalsKept where
  refl := fun σ => (Store.SameRows.refl _ σ).keeps ApprovalRow.Kept.refl
  trans := by
    intro σ₁ σ₂ σ₃ h h'
    have hkept : ∀ a b c : ApprovalRow, a.Kept b → b.Kept c → a.Kept c :=
      fun _ _ _ => ApprovalRow.Kept.trans
    exact Store.Keeps.trans hkept h h'
  start := ⟨.refl _ _, fun k row hrow => absurd (hrow.symm.trans (hnone k)) (by simp),
    fun k hk => absurd hk (by simp), List.nodup_nil⟩
  commit := by
    intro log begun seen σ request answer ws hstate _ _ _ hearlier hexec
    have hsame : Store.SameRows (S := supportSchema) .supportAccessApprovals σ σ := .refl _ σ
    cases request with
    | approve call =>
      obtain ⟨startsAt, expiresAt, hadmitted, ⟨σ₀, membership, hseen, hmembership, hrole⟩, hfree,
        rfl, rfl⟩ := executes_approveSupportAccess hexec
      obtain ⟨-, log₀, -, -, hheld⟩ := hearlier σ₀ hseen
      have hinitial : membershipFor call init = some membership :=
        (membershipFor_congr call hheld.memberships).symm.trans hmembership
      refine ⟨hstate.approve hadmitted ⟨membership, hinitial, hrole⟩ hfree, ?_⟩
      exact (Store.replaces_write σ).keeps ApprovalRow.Kept.refl
        (fun before hbefore => absurd (hbefore.symm.trans hfree) (by simp))
    | revoke call =>
      obtain ⟨row, hrow, hunrevoked, rfl⟩ := executes_revokeSupportAccess hexec
      have hkept : row.Kept
          { row with revokedAt := some call.now, version := row.version + 1 } :=
        ⟨rfl, fun hrevoked => absurd hunrevoked hrevoked⟩
      refine ⟨hstate.revoke hrow hunrevoked hkept (by simp), ?_⟩
      refine (Store.replaces_write σ).keeps ApprovalRow.Kept.refl (fun before hbefore => ?_)
      rwa [Option.some.inj (hbefore.symm.trans hrow)]
    | resolve call =>
      obtain ⟨identity, ws₁, hresolve, hanswer, hws⟩ := executes_bind_ok.mp hexec
      obtain ⟨hws₁, -⟩ := executes_resolve hresolve
      rw [hws, hws₁, Store.overlay_nil]
      exact ⟨hstate.ends rfl, hsame.keeps ApprovalRow.Kept.refl⟩
  rollback := by
    intro log begun seen σ request error ws hstate _ _ _ _ _
    refine hstate.ends ?_
    cases request <;> rfl
  abort := by
    intro log begun σ request hstate _ _
    refine hstate.ends ?_
    cases request <;> rfl

end Runs

end LegacyVault.SupportAccess
