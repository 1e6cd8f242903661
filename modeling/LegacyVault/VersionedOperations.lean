import LegacyVault.Consents
import LegacyVault.DocumentExtraction
import LegacyVault.DocumentProcessing
import LegacyVault.DocumentUploads
import LegacyVault.EmergencyAccess
import LegacyVault.Facts
import LegacyVault.Households
import LegacyVault.Library.GuardedRows
import LegacyVault.PrivacyRequests

/-!
# Operations that expect a version

The operations of the repository that take an expected version, in any
interleaving with each other and with transactions that raise the versions of
the rows they change. They test the version in different ways: in the guard of
an update, after a lock, before an update that tests it again, or on another
table than the one they are about. In every one of them, whoever commits has
found the expected version at the moment of the commit and has raised it.

An operation that is answered from the record of its key changes nothing.
-/

namespace LegacyVault

open JsonText RowTransaction RowTransaction.Program RowTransaction.Protocol Store

/-! ## Versions -/

/-- The tables whose rows carry a version that some modelled statement reads. -/
def VaultTable.versioned : VaultTable → Bool
  | households | people | memberships | permissionGrants | supportAccessApprovals
  | membershipInvitations | facts | documents | consents | emergencyAccessRequests | reports
  | workflowRuns | privacyRequests | deletionExecutions | exports | subscriptions
  | billingRefunds | notificationDeliveries => true
  | _ => false

/-- The version of a row, zero in a table without versions. -/
def VaultTable.version : (t : VaultTable) → t.Row → Nat
  | households => HouseholdRow.version
  | people => PersonRow.version
  | memberships => MembershipRow.version
  | permissionGrants => PermissionGrantRow.version
  | supportAccessApprovals => SupportAccessApprovalRow.version
  | membershipInvitations => MembershipInvitationRow.version
  | facts => FactRow.version
  | documents => DocumentRow.version
  | consents => ConsentRow.version
  | emergencyAccessRequests => EmergencyAccessRow.version
  | reports => ReportRow.version
  | workflowRuns => WorkflowRow.version
  | privacyRequests => PrivacyRequestRow.version
  | deletionExecutions => DeletionExecutionRow.version
  | exports => ExportRow.version
  | subscriptions => SubscriptionRow.version
  | billingRefunds => BillingRefundRow.version
  | notificationDeliveries => NotificationDeliveryRow.version
  | _ => fun _ => 0

/-- Versions of rows ascend. -/
def VaultTable.rule (t : VaultTable) : TableRule := if t.versioned then .ascends else .free

/-- A carried out deletion deletes a person as well. -/
def VaultTable.deletionRule (t : VaultTable) : TableRule :=
  if t = .people then .erases else t.rule

/-- What holds of every table across operations: people come and go. -/
def VaultTable.runRule (t : VaultTable) : TableRule := if t = .people then .free else t.rule

theorem VaultTable.rule_ne_erases (t : VaultTable) : t.rule ≠ .erases := by
  cases t <;> decide

/-- Writes that keep to rules of the vault. -/
abbrev VaultObeys (rule : VaultTable → TableRule) :
    (t : VaultTable) → t.Key → Option t.Row → Option t.Row → Prop :=
  Obeys (S := vaultSchema) VaultTable.version rule

/-- The change applies at the expected version, and raises it. -/
def RaisesFrom (t : VaultTable) (expected : Nat) (change : t.Row → Option t.Row) : Prop :=
  ∀ old new, change old = some new → t.version old = expected ∧ expected < t.version new

/-- The change raises the version. -/
def RaisesVersion (t : VaultTable) (change : t.Row → Option t.Row) : Prop :=
  ∀ old new, change old = some new → t.version old < t.version new

section Changes

variable {t : VaultTable} {expected : Nat} {condition : t.Row → Prop} [DecidablePred condition]
  {moved : t.Row → t.Row}

/-- An update whose condition asks for the expected version. -/
theorem raisesFrom_ite (hcondition : ∀ row, condition row → t.version row = expected)
    (hmoved : ∀ row, t.version (moved row) = t.version row + 1) :
    RaisesFrom t expected (fun row => if condition row then some (moved row) else none) := by
  intro old new h
  obtain ⟨hold, hnew⟩ := Option.ite_none_right_eq_some.mp h
  obtain rfl := Option.some.inj hnew
  have hversion := hcondition old hold
  rw [hmoved old, hversion]
  exact ⟨rfl, Nat.lt_succ_self _⟩

/-- An update that raises the version. -/
theorem raisesVersion_ite (hmoved : ∀ row, t.version (moved row) = t.version row + 1) :
    RaisesVersion t (fun row => if condition row then some (moved row) else none) := by
  intro old new h
  obtain ⟨-, hnew⟩ := Option.ite_none_right_eq_some.mp h
  obtain rfl := Option.some.inj hnew
  rw [hmoved old]
  exact Nat.lt_succ_self _

theorem RaisesFrom.raises {change : t.Row → Option t.Row} (h : RaisesFrom t expected change) :
    RaisesVersion t change := by
  intro old new hchange
  obtain ⟨hversion, hlater⟩ := h old new hchange
  rw [hversion]
  exact hlater

end Changes

/-! ## What the operations write -/

section Obeys

variable {rule : VaultTable → TableRule} {t : VaultTable} {k : t.Key}

/-- A row is inserted. -/
theorem obeys_insert (h : rule t ≠ .erases) (row : t.Row) : VaultObeys rule t k none (some row) :=
  TableRule.allows_insert row h

/-- A row is updated. -/
theorem writes_raise (h : rule t ≠ .erases) {change : t.Row → Option t.Row}
    (hchange : RaisesVersion t change) :
    (updateRow (S := vaultSchema) t k change : Transaction _).Writes (VaultObeys rule) :=
  writes_updateRow (fun old new hnew => TableRule.allows_update (hchange old new hnew) h)

/-- All matching rows are updated. -/
theorem writes_raiseWhere (h : rule t ≠ .erases) {change : t.Row → Option t.Row}
    (hchange : RaisesVersion t change) :
    (updateWhere (S := vaultSchema) t change : Transaction _).Writes (VaultObeys rule) :=
  writes_updateWhere (fun _ old new hnew => TableRule.allows_update (hchange old new hnew) h)

/-- A row is locked. -/
theorem writes_lock {condition : t.Row → Bool} :
    (lockRow (S := vaultSchema) t k condition : Transaction _).Writes (VaultObeys rule) :=
  writes_lockRow (fun _ => obeys_refl (S := vaultSchema) _ _ _)

theorem raiseHouseholdVersion_obeys (h : rule .households ≠ .erases) (householdId : Identifier)
    (condition : HouseholdRow → Bool) :
    (raiseHouseholdVersion householdId condition).Writes (VaultObeys rule) :=
  writes_raise (t := .households) h (raisesVersion_ite (fun _ => rfl))

theorem createInvitationMutation_obeys (context : TenantContext) (input : InvitationWrite) :
    (createInvitationMutation context input).Writes (VaultObeys VaultTable.rule) := by
  refine writes_bind (raiseHouseholdVersion_obeys (VaultTable.rule_ne_erases _) _ _)
    (fun household => ?_)
  split
  · exact writes_rollback _
  refine writes_bind (writes_select _) (fun taken => ?_)
  split
  · exact writes_rollback _
  · exact writes_bind (writes_insertRow (obeys_insert (VaultTable.rule_ne_erases _) _))
      (fun _ => writes_commit _)

theorem revokeInvitationMutation_obeys (context : TenantContext) (input : RevokeInvitationInput)
    (revokedAt : Instant) :
    (revokeInvitationMutation context input revokedAt).Writes (VaultObeys VaultTable.rule) := by
  refine writes_bind (writes_raise (t := .membershipInvitations) (VaultTable.rule_ne_erases _)
    (raisesVersion_ite (fun _ => rfl))) (fun invitation => ?_)
  split
  · exact writes_rollback _
  refine writes_bind (raiseHouseholdVersion_obeys (VaultTable.rule_ne_erases _) _ _)
    (fun household => ?_)
  split
  · exact writes_rollback _
  · exact writes_commit _

theorem updateRoleMutation_obeys (context : TenantContext) (input : UpdateRoleInput) :
    (updateRoleMutation context input).Writes (VaultObeys VaultTable.rule) := by
  refine writes_bind (writes_raise (t := .memberships) (VaultTable.rule_ne_erases _)
    (raisesVersion_ite (fun _ => rfl))) (fun membership => ?_)
  split
  · exact writes_rollback _
  refine writes_bind (raiseHouseholdVersion_obeys (VaultTable.rule_ne_erases _) _ _)
    (fun household => ?_)
  split
  · exact writes_rollback _
  · exact writes_commit _

theorem insertPerson_obeys (person : PersonRow) :
    (insertPerson person).Writes (VaultObeys VaultTable.rule) :=
  writes_bind (writes_insertRow (obeys_insert (VaultTable.rule_ne_erases _) _))
    (fun _ => writes_commit _)

theorem insertMembership_obeys (membership : MembershipRow) :
    (insertMembership membership).Writes (VaultObeys VaultTable.rule) :=
  writes_bind (writes_requireUnique _ _) (fun _ =>
    writes_bind (writes_insertRow (obeys_insert (VaultTable.rule_ne_erases _) _))
      (fun _ => writes_commit _))

theorem acceptInvitationMutation_obeys (context : AccountContext) (input : AcceptanceWrite) :
    (acceptInvitationMutation context input).Writes (VaultObeys VaultTable.rule) := by
  refine writes_bind (writes_select _) (fun visible => ?_)
  split
  · exact writes_rollback _
  refine writes_bind (writes_lock (t := .membershipInvitations)) (fun locked => ?_)
  split
  · exact writes_rollback _
  split
  · exact writes_rollback _
  refine writes_bind (insertPerson_obeys _) (fun _ => ?_)
  refine writes_bind (insertMembership_obeys _) (fun _ => ?_)
  refine writes_bind (writes_raise (t := .membershipInvitations) (VaultTable.rule_ne_erases _)
    (raisesVersion_ite (fun _ => rfl))) (fun accepted => ?_)
  split
  · exact writes_rollback _
  refine writes_bind (raiseHouseholdVersion_obeys (VaultTable.rule_ne_erases _) _ _)
    (fun household => ?_)
  split
  · exact writes_rollback _
  · exact writes_commit _

theorem completeUploadMutation_obeys (context : TenantContext) (input : UploadCompletionInput)
    (workflowId : Identifier) (uploadedAt : Instant) :
    (completeUploadMutation context input workflowId uploadedAt).Writes
      (VaultObeys VaultTable.rule) := by
  refine writes_bind (writes_raise (t := .documents) (VaultTable.rule_ne_erases _)
    (raisesVersion_ite (fun _ => rfl))) (fun updated => ?_)
  split
  · exact writes_rollback _
  · exact writes_bind (writes_requireUnique _ _) (fun _ =>
      writes_bind (writes_insertRow (obeys_insert (VaultTable.rule_ne_erases _) _))
        (fun _ => writes_commit _))

theorem completeDocumentScan_obeys (context : TenantContext) (document : DocumentProcessingInput)
    (outcome : ScanOutcome) (processedAt : Instant) :
    (completeDocumentScan context document outcome processedAt).Writes
      (VaultObeys VaultTable.rule) := by
  refine writes_bind (writes_raise (t := .documents) (VaultTable.rule_ne_erases _)
    (raisesVersion_ite (fun _ => rfl))) (fun updated => ?_)
  split
  · exact writes_rollback _
  refine writes_bind (writes_raise (t := .workflowRuns) (VaultTable.rule_ne_erases _)
    (raisesVersion_ite (fun _ => rfl))) (fun advanced => ?_)
  split
  · exact writes_rollback _
  · exact writes_commit _

theorem completeDocumentOcr_obeys (context : TenantContext) (document : DocumentProcessingInput)
    (ciphertextSha256 : String) (createdAt : Instant) :
    (completeDocumentOcr context document ciphertextSha256 createdAt).Writes
      (VaultObeys VaultTable.rule) := by
  refine writes_bind (writes_insertOrIgnore (obeys_insert (VaultTable.rule_ne_erases _) _))
    (fun _ => ?_)
  refine writes_bind (writes_select _) (fun recorded => ?_)
  split
  · refine writes_bind (writes_select _) (fun deleteOriginal => ?_)
    refine writes_bind (writes_raise (t := .workflowRuns) (VaultTable.rule_ne_erases _)
      (raisesVersion_ite (fun _ => rfl))) (fun advanced => ?_)
    split
    · exact writes_rollback _
    · exact writes_commit _
  · exact writes_rollback _

theorem insertCandidate_obeys (context : TenantContext) (documentId : Identifier)
    (capturedAt : Instant) (candidate : ManualCandidateWrite) :
    (insertCandidate context documentId capturedAt candidate).Writes
      (VaultObeys VaultTable.rule) :=
  writes_bind (writes_insertRow (obeys_insert (VaultTable.rule_ne_erases _) _))
    (fun _ => writes_insertRow (obeys_insert (VaultTable.rule_ne_erases _) _))

theorem manualExtractionMutation_obeys (context : TenantContext) (input : ManualExtractionInput)
    (generated : ManualExtractionGenerated) :
    (manualExtractionMutation context input generated).Writes (VaultObeys VaultTable.rule) := by
  refine writes_bind (writes_select _) (fun document => ?_)
  split
  · exact writes_rollback _
  refine writes_bind (writes_lock (t := .workflowRuns)) (fun locked => ?_)
  split
  · exact writes_rollback _
  refine writes_bind (writes_forEach (insertCandidate_obeys context _ _)) (fun facts => ?_)
  refine writes_bind (writes_raise (t := .workflowRuns) (VaultTable.rule_ne_erases _)
    (raisesVersion_ite (fun _ => rfl))) (fun completed => ?_)
  split
  · exact writes_rollback _
  · exact writes_commit _

theorem confirmDeletionMutation_obeys (context : TenantContext) (input : ConfirmDeletionInput)
    (generated : ConfirmDeletionGenerated) :
    (confirmDeletionMutation context input generated).Writes (VaultObeys VaultTable.rule) := by
  refine writes_bind (writes_lock (t := .privacyRequests)) (fun existing => ?_)
  split
  · exact writes_rollback _
  refine writes_bind (writes_raise (t := .privacyRequests) (VaultTable.rule_ne_erases _)
    (raisesVersion_ite (fun _ => rfl))) (fun updated => ?_)
  split
  · exact writes_rollback _
  split
  · exact writes_rollback _
  refine writes_bind (writes_raiseWhere (t := .workflowRuns) (VaultTable.rule_ne_erases _)
    (raisesVersion_ite (fun _ => rfl))) (fun workflows => ?_)
  split
  · exact writes_rollback _
  refine writes_bind (writes_requireUnique _ _) (fun _ => ?_)
  refine writes_bind (writes_requireUnique _ _) (fun _ => ?_)
  exact writes_bind (writes_insertRow (obeys_insert (VaultTable.rule_ne_erases _) _))
    (fun _ => writes_commit _)

theorem cancelDeletionMutation_obeys (context : TenantContext) (input : CancelDeletionInput)
    (now : Instant) :
    (cancelDeletionMutation context input now).Writes (VaultObeys VaultTable.rule) := by
  refine writes_bind (writes_raise (t := .privacyRequests) (VaultTable.rule_ne_erases _)
    (raisesVersion_ite (fun _ => rfl))) (fun updated => ?_)
  split
  · exact writes_rollback _
  refine writes_bind (writes_raiseWhere (t := .deletionExecutions) (VaultTable.rule_ne_erases _)
    (raisesVersion_ite (fun _ => rfl))) (fun executions => ?_)
  split
  · exact writes_rollback _
  refine writes_bind (writes_raiseWhere (t := .workflowRuns) (VaultTable.rule_ne_erases _)
    (raisesVersion_ite (fun _ => rfl))) (fun workflows => ?_)
  split
  · exact writes_rollback _
  · exact writes_commit _

/-- Moving a deletion on raises the versions of its three rows. -/
theorem moveDeletion_obeys (context : TenantContext) (executionId : Identifier)
    (execution : DeletionExecutionRow) {moved : DeletionExecutionRow → DeletionExecutionRow}
    (status : PrivacyStatus) {workflowMoved : WorkflowRow → WorkflowRow}
    (hmoved : ∀ row, (moved row).version = row.version + 1)
    (hworkflow : ∀ row, (workflowMoved row).version = row.version + 1) :
    (moveDeletion context executionId execution moved status workflowMoved).Writes
      (VaultObeys VaultTable.deletionRule) := by
  refine writes_bind (writes_raise (t := .deletionExecutions) (by decide)
    (raisesVersion_ite hmoved)) (fun _ => ?_)
  refine writes_bind (writes_raise (t := .privacyRequests) (by decide)
    (raisesVersion_ite (fun _ => rfl))) (fun _ => ?_)
  exact writes_bind (writes_raise (t := .workflowRuns) (by decide) (raisesVersion_ite hworkflow))
    (fun _ => writes_commit _)

theorem deactivateMemberships_obeys (context : TenantContext) (completedAt : Instant)
    (membershipIds : List Identifier) :
    (deactivateMemberships context completedAt membershipIds).Writes
      (VaultObeys VaultTable.deletionRule) := by
  unfold deactivateMemberships
  split
  · exact writes_commit _
  refine writes_bind (writes_raiseWhere (t := .permissionGrants) (by decide)
    (raisesVersion_ite (fun _ => rfl))) (fun _ => ?_)
  refine writes_bind (writes_raiseWhere (t := .supportAccessApprovals) (by decide)
    (raisesVersion_ite (fun _ => rfl))) (fun _ => ?_)
  exact writes_bind (writes_raiseWhere (t := .memberships) (by decide)
    (raisesVersion_ite (fun _ => rfl))) (fun _ => writes_commit _)

theorem endSessions_obeys (authUserIds : List Identifier) :
    (endSessions authUserIds).Writes (VaultObeys VaultTable.deletionRule) := by
  unfold endSessions
  split
  · exact writes_commit _
  · exact writes_bind (writes_deleteWhere (fun _ _ _ => trivial)) (fun _ => writes_commit _)

/-- The memberships of the person are locked as they are. -/
theorem lockMemberships_obeys (context : TenantContext) (personId : Identifier) :
    (lockMemberships context personId).Writes (VaultObeys VaultTable.deletionRule) := by
  refine writes_updateWhere (fun k old row hlock => ?_)
  obtain ⟨-, hsame⟩ := Option.ite_none_right_eq_some.mp hlock
  obtain rfl : old = row := Option.some.inj hsame
  exact obeys_refl (S := vaultSchema) _ _ _

theorem deleteActiveSystem_obeys (context : TenantContext) (input : CompleteDeletionInput)
    (execution : DeletionExecutionRow) :
    (deleteActiveSystem context input execution).Writes (VaultObeys VaultTable.deletionRule) := by
  refine writes_bind (lockMemberships_obeys _ _) (fun memberships => ?_)
  refine writes_bind (deactivateMemberships_obeys _ _ _) (fun _ => ?_)
  refine writes_bind (endSessions_obeys _) (fun _ => ?_)
  refine writes_bind (writes_deleteRow (fun _ _ => Or.inr rfl)) (fun _ => ?_)
  refine writes_bind (writes_bind (writes_forEach (fun processor =>
    writes_insertOrIgnore trivial)) (fun _ => writes_commit _)) (fun _ => ?_)
  exact writes_bind (moveDeletion_obeys _ _ _ _ (fun _ => rfl) (fun _ => rfl))
    (fun _ => writes_commit _)

theorem completeDeletion_obeys (context : TenantContext) (input : CompleteDeletionInput) :
    (completePrivacyDeletionActiveSystem context input).Writes
      (VaultObeys VaultTable.deletionRule) := by
  refine writes_bind (writes_lock (t := .deletionExecutions)) (fun locked => ?_)
  split
  · exact writes_rollback _
  split
  · exact writes_rollback _
  refine writes_bind (writes_select _) (fun categories => ?_)
  split
  · exact writes_bind (moveDeletion_obeys _ _ _ _ (fun _ => rfl) (fun _ => rfl))
      (fun _ => writes_commit _)
  · exact deleteActiveSystem_obeys _ _ _

/-- The record of a failed scan raises the versions of the rows it writes. -/
theorem recordDocumentScanFailure_obeys (context : TenantContext)
    (documentId workflowId : Identifier) (errorClass : String) :
    (recordDocumentScanFailure context documentId workflowId errorClass).Writes
      (VaultObeys VaultTable.rule) := by
  refine writes_bind (writes_raise (t := .documents) (VaultTable.rule_ne_erases _)
    (raisesVersion_ite (fun _ => rfl))) (fun _ => ?_)
  exact writes_bind (writes_raise (t := .workflowRuns) (VaultTable.rule_ne_erases _)
    (raisesVersion_ite (fun _ => rfl))) (fun _ => writes_commit _)

/-- The record of a failed step raises the version of its workflow. -/
theorem recordWorkflowFailure_obeys (context : TenantContext) (workflowId : Identifier)
    (errorClass : String) :
    (recordWorkflowFailure context workflowId errorClass).Writes (VaultObeys VaultTable.rule) :=
  writes_bind (writes_raise (t := .workflowRuns) (VaultTable.rule_ne_erases _)
    (raisesVersion_ite (fun _ => rfl))) (fun _ => writes_commit _)

/-- An original that is marked as deleted once more stays as it is. -/
theorem originalDeletedDocument_again {context : TenantContext} {deletedAt : Instant}
    {before after : DocumentRow}
    (h : originalDeletedDocument context deletedAt before = some after) :
    after = before ∨ before.version < after.version := by
  rw [originalDeletedDocument] at h
  obtain ⟨-, hafter⟩ := Option.ite_none_right_eq_some.mp h
  obtain rfl := Option.some.inj hafter
  by_cases hdeleted : before.originalDeletedAt = none
  · right
    rw [if_pos hdeleted]
    exact Nat.lt_succ_self _
  · left
    obtain ⟨at', hat⟩ := Option.ne_none_iff_exists'.mp hdeleted
    have hsame : some (before.originalDeletedAt.getD deletedAt) = before.originalDeletedAt := by
      rw [hat]
      rfl
    rw [if_neg hdeleted, hsame]

theorem completeDocumentOriginalDeletion_obeys (context : TenantContext)
    (documentId workflowId : Identifier) (deletedAt : Instant) :
    (completeDocumentOriginalDeletion context documentId workflowId deletedAt).Writes
      (VaultObeys VaultTable.rule) := by
  refine writes_bind (writes_updateRow (fun old row hchange => ?_)) (fun _ => ?_)
  · rcases originalDeletedDocument_again hchange with rfl | hlater
    · exact obeys_refl (S := vaultSchema) _ _ _
    · exact TableRule.allows_update hlater (VaultTable.rule_ne_erases _)
  refine writes_bind (writes_raise (t := .workflowRuns) (VaultTable.rule_ne_erases _)
    (raisesVersion_ite (fun _ => rfl))) (fun advanced => ?_)
  cases advanced with
  | some workflow => exact writes_commit _
  | none =>
    refine writes_bind (writes_select _) (fun completed => ?_)
    cases completed
    · exact writes_rollback _
    · exact writes_commit _

end Obeys

/-! ## The operations -/

/-- Another transaction that raises the versions of the rows it changes. -/
structure OtherTransaction where
  transaction : Transaction Unit
  obeys : transaction.Writes (VaultObeys VaultTable.runRule)

/-- A call of an operation that takes an expected version, or of a transaction that writes the
same tables. -/
inductive VersionedCall where
  | confirmFact (context : TenantContext) (factId : Identifier) (expectedVersion : Nat)
    (confirmedAt : Instant)
  | rejectFact (context : TenantContext) (factId : Identifier) (expectedVersion : Nat)
  | disputeFact (context : TenantContext) (factId : Identifier) (expectedVersion : Nat)
  | decideEmergency (context : TenantContext) (requestId : Identifier) (expectedVersion : Nat)
    (decision : EmergencyDecision) (decisionAt : Instant)
  | releaseEmergency (context : TenantContext) (requestId : Identifier) (expectedVersion : Nat)
    (releasedAt : Instant)
  | withdrawConsent (context : TenantContext) (consentId : Identifier) (expectedVersion : Nat)
    (withdrawnAt : Instant)
  | createInvitation (context : TenantContext) (key : String) (input : InvitationWrite)
    (now : Instant)
  | revokeInvitation (context : TenantContext) (key : String) (input : RevokeInvitationInput)
    (revokedAt now : Instant)
  | acceptInvitation (account : AccountContext) (key : String) (input : AcceptanceWrite)
    (now : Instant)
  | updateRole (context : TenantContext) (key : String) (input : UpdateRoleInput) (now : Instant)
  | completeUpload (context : TenantContext) (key : String) (input : UploadCompletionInput)
    (workflowId : Identifier) (uploadedAt now : Instant)
  | completeScan (context : TenantContext) (document : DocumentProcessingInput)
    (outcome : ScanOutcome) (processedAt : Instant)
  | completeOcr (context : TenantContext) (document : DocumentProcessingInput)
    (ciphertextSha256 : String) (createdAt : Instant)
  | extractManually (context : TenantContext) (key : String) (input : ManualExtractionInput)
    (generated : ManualExtractionGenerated) (now : Instant)
  | completeStep (context : TenantContext) (workflowId : Identifier) (expectedVersion : Nat)
    (step : String) (nextStep : Option String)
  | confirmDeletion (context : TenantContext) (key : String) (input : ConfirmDeletionInput)
    (generated : ConfirmDeletionGenerated) (now : Instant)
  | cancelDeletion (context : TenantContext) (key : String) (input : CancelDeletionInput)
    (now : Instant)
  | completeDeletion (context : TenantContext) (input : CompleteDeletionInput)
  | recordScanFailure (context : TenantContext) (documentId workflowId : Identifier)
    (errorClass : String)
  | recordStepFailure (context : TenantContext) (workflowId : Identifier) (errorClass : String)
  | completeOriginalDeletion (context : TenantContext) (documentId workflowId : Identifier)
    (deletedAt : Instant)
  | other (transaction : OtherTransaction)

/-- How a committed call has ended. -/
inductive CallEffect where
  /-- It has made its changes. -/
  | applied
  /-- It was answered from the record of its key. -/
  | replayed
  deriving DecidableEq

/-- Whether an answer was made or read back. -/
def answerEffect : Answer Json → CallEffect
  | .applied _ => .applied
  | .replayed _ => .replayed

/-- An operation under a key, with what its answer tells. -/
def recorded (operation : Transaction (Answer Json)) : Transaction CallEffect :=
  operation >>= fun answer => pure (answerEffect answer)

/-- An operation that applies whenever it commits. -/
def applying {α : Type} (operation : Transaction α) : Transaction CallEffect :=
  operation >>= fun _ => pure .applied

/-- The transaction of a call. -/
def versionedProgram (sha256 : Sha256) : VersionedCall → Transaction CallEffect
  | .confirmFact context factId expectedVersion confirmedAt =>
    applying (LegacyVault.confirmFact context factId expectedVersion confirmedAt)
  | .rejectFact context factId expectedVersion =>
    applying (LegacyVault.rejectFact context factId expectedVersion)
  | .disputeFact context factId expectedVersion =>
    applying (LegacyVault.disputeFact context factId expectedVersion)
  | .decideEmergency context requestId expectedVersion decision decisionAt =>
    applying (decideEmergencyAccess context requestId expectedVersion decision decisionAt)
  | .releaseEmergency context requestId expectedVersion releasedAt =>
    applying (releaseEmergencyAccess context requestId expectedVersion releasedAt)
  | .withdrawConsent context consentId expectedVersion withdrawnAt =>
    applying (LegacyVault.withdrawConsent context consentId expectedVersion withdrawnAt)
  | .createInvitation context key input now =>
    recorded (createMembershipInvitation sha256 context key input now)
  | .revokeInvitation context key input revokedAt now =>
    recorded (revokeMembershipInvitation sha256 context key input revokedAt now)
  | .acceptInvitation account key input now =>
    recorded (acceptMembershipInvitation sha256 account key input now)
  | .updateRole context key input now =>
    recorded (updateMembershipRole sha256 context key input now)
  | .completeUpload context key input workflowId uploadedAt now =>
    recorded (completeDocumentUpload sha256 context key input workflowId uploadedAt now)
  | .completeScan context document outcome processedAt =>
    applying (completeDocumentScan context document outcome processedAt)
  | .completeOcr context document ciphertextSha256 createdAt =>
    applying (completeDocumentOcr context document ciphertextSha256 createdAt)
  | .extractManually context key input generated now =>
    recorded (completeManualDocumentExtraction sha256 context key input generated now)
  | .completeStep context workflowId expectedVersion step nextStep =>
    applying (completeWorkflowStep context workflowId expectedVersion step nextStep)
  | .confirmDeletion context key input generated now =>
    recorded (confirmPrivacyDeletion sha256 context key input generated now)
  | .cancelDeletion context key input now =>
    recorded (cancelPrivacyDeletion sha256 context key input now)
  | .completeDeletion context input =>
    applying (completePrivacyDeletionActiveSystem context input)
  | .recordScanFailure context documentId workflowId errorClass =>
    applying (recordDocumentScanFailure context documentId workflowId errorClass)
  | .recordStepFailure context workflowId errorClass =>
    applying (recordWorkflowFailure context workflowId errorClass)
  | .completeOriginalDeletion context documentId workflowId deletedAt =>
    applying (completeDocumentOriginalDeletion context documentId workflowId deletedAt)
  | .other transaction => applying transaction.transaction

/-- The operations as a protocol: any call may come at any time. -/
def versionedProtocol (sha256 : Sha256) : Protocol vaultSchema where
  Request := VersionedCall
  Error := RepositoryError
  Result := CallEffect
  program := versionedProgram sha256
  permitted := fun _ _ => True

/-- What a call may do to each table. -/
def VersionedCall.rule : VersionedCall → VaultTable → TableRule
  | .completeDeletion _ _ => VaultTable.deletionRule
  | .other _ => VaultTable.runRule
  | _ => VaultTable.rule

section Obeys

variable {rule : VaultTable → TableRule}

/-- An update that is answered or fails. -/
theorem answered_obeys {t : VaultTable} {k : t.Key} {change : t.Row → Option t.Row} {α : Type}
    {f : Option t.Row → Transaction α} (h : rule t ≠ .erases) (hchange : RaisesVersion t change)
    (hrest : ∀ updated, (f updated).Writes (VaultObeys rule)) :
    (updateRow (S := vaultSchema) t k change >>= f).Writes (VaultObeys rule) :=
  writes_bind (writes_raise h hchange) hrest

theorem applying_obeys {α : Type} {operation : Transaction α}
    (h : operation.Writes (VaultObeys rule)) : (applying operation).Writes (VaultObeys rule) :=
  writes_bind h (fun _ => writes_commit _)

theorem recorded_obeys {operation : Transaction (Answer Json)}
    (h : operation.Writes (VaultObeys rule)) : (recorded operation).Writes (VaultObeys rule) :=
  writes_bind h (fun _ => writes_commit _)

theorem withTenantRecord_obeys {context : TenantContext} {key requestHash : String} {now : Instant}
    {statusCode : Nat} {errors : RecordErrors} {mutation : Transaction Json}
    (h : mutation.Writes (VaultObeys VaultTable.rule)) :
    (withTenantRecord context key requestHash now statusCode errors mutation).Writes
      (VaultObeys VaultTable.rule) :=
  OnceUse.program_writes (fun _ _ => trivial) h

end Obeys

/-- Every call keeps to the rules of its tables. -/
theorem versionedProgram_obeys (sha256 : Sha256) (call : VersionedCall) :
    (versionedProgram sha256 call).Writes (VaultObeys call.rule) := by
  cases call with
  | confirmFact context factId expectedVersion confirmedAt =>
    refine applying_obeys (answered_obeys (t := .facts) (VaultTable.rule_ne_erases _)
      (raisesVersion_ite (fun _ => rfl)) (fun updated => ?_))
    cases updated <;> trivial
  | rejectFact context factId expectedVersion =>
    refine applying_obeys (answered_obeys (t := .facts) (VaultTable.rule_ne_erases _)
      (raisesVersion_ite (fun _ => rfl)) (fun updated => ?_))
    cases updated <;> trivial
  | disputeFact context factId expectedVersion =>
    refine applying_obeys (answered_obeys (t := .facts) (VaultTable.rule_ne_erases _)
      (raisesVersion_ite (fun _ => rfl)) (fun updated => ?_))
    cases updated <;> trivial
  | decideEmergency context requestId expectedVersion decision decisionAt =>
    refine applying_obeys (answered_obeys (t := .emergencyAccessRequests)
      (VaultTable.rule_ne_erases _) (raisesVersion_ite (fun _ => rfl)) (fun updated => ?_))
    cases updated <;> trivial
  | releaseEmergency context requestId expectedVersion releasedAt =>
    refine applying_obeys (answered_obeys (t := .emergencyAccessRequests)
      (VaultTable.rule_ne_erases _) (raisesVersion_ite (fun _ => rfl)) (fun updated => ?_))
    cases updated <;> trivial
  | withdrawConsent context consentId expectedVersion withdrawnAt =>
    refine applying_obeys (answered_obeys (t := .consents) (VaultTable.rule_ne_erases _)
      (raisesVersion_ite (fun _ => rfl)) (fun updated => ?_))
    cases updated <;> trivial
  | createInvitation context key input now =>
    apply recorded_obeys
    unfold createMembershipInvitation
    split
    · exact withTenantRecord_obeys (createInvitationMutation_obeys _ _)
    · exact writes_rollback _
  | revokeInvitation context key input revokedAt now =>
    exact recorded_obeys (withTenantRecord_obeys (revokeInvitationMutation_obeys _ _ _))
  | acceptInvitation account key input now =>
    exact recorded_obeys (OnceUse.program_writes (fun _ _ => trivial)
      (acceptInvitationMutation_obeys _ _))
  | updateRole context key input now =>
    apply recorded_obeys
    unfold updateMembershipRole
    split
    · exact withTenantRecord_obeys (updateRoleMutation_obeys _ _)
    · exact writes_rollback _
  | completeUpload context key input workflowId uploadedAt now =>
    exact recorded_obeys (withTenantRecord_obeys (completeUploadMutation_obeys _ _ _ _))
  | completeScan context document outcome processedAt =>
    exact applying_obeys (completeDocumentScan_obeys _ _ _ _)
  | completeOcr context document ciphertextSha256 createdAt =>
    exact applying_obeys (completeDocumentOcr_obeys _ _ _ _)
  | extractManually context key input generated now =>
    exact recorded_obeys (withTenantRecord_obeys (manualExtractionMutation_obeys _ _ _))
  | completeStep context workflowId expectedVersion step nextStep =>
    refine applying_obeys (answered_obeys (t := .workflowRuns) (VaultTable.rule_ne_erases _)
      (raisesVersion_ite (fun _ => rfl)) (fun updated => ?_))
    cases updated <;> trivial
  | confirmDeletion context key input generated now =>
    exact recorded_obeys (withTenantRecord_obeys (confirmDeletionMutation_obeys _ _ _))
  | cancelDeletion context key input now =>
    exact recorded_obeys (withTenantRecord_obeys (cancelDeletionMutation_obeys _ _ _))
  | completeDeletion context input => exact applying_obeys (completeDeletion_obeys _ _)
  | recordScanFailure context documentId workflowId errorClass =>
    exact applying_obeys (recordDocumentScanFailure_obeys _ _ _ _)
  | recordStepFailure context workflowId errorClass =>
    exact applying_obeys (recordWorkflowFailure_obeys _ _ _)
  | completeOriginalDeletion context documentId workflowId deletedAt =>
    exact applying_obeys (completeDocumentOriginalDeletion_obeys _ _ _ _)
  | other transaction => exact applying_obeys transaction.obeys

/-- What a call may do is allowed by the rules of all calls. -/
theorem VersionedCall.rule_le (call : VersionedCall) (t : VaultTable) :
    t.runRule = call.rule t ∨ t.runRule = .free := by
  unfold VaultTable.runRule
  split
  · exact Or.inr rfl
  · rename_i hpeople
    left
    cases call with
    | completeDeletion _ _ => exact (if_neg hpeople).symm
    | other _ => exact (if_neg hpeople).symm
    | _ => rfl

theorem versionedProgram_ascends (sha256 : Sha256) (call : VersionedCall) :
    (versionedProgram sha256 call).Writes (VaultObeys VaultTable.runRule) :=
  Writes.mono (fun t _ _ _ h => TableRule.Allows.mono (call.rule_le t) h)
    (versionedProgram_obeys sha256 call)

/-! ## Guards -/

/-- The row with its expected version. -/
abbrev vaultGuard (t : VaultTable) (k : t.Key) (expected : Nat) : Guard vaultSchema :=
  ⟨t, k, expected⟩

/-- The rows whose versions a call has expected, when it has led from one store to the next. An
acceptance finds its invitation by the token: the row it has marked as accepted. -/
def VersionedCall.Guards (σ σ' : Vault) (g : Guard vaultSchema) : VersionedCall → Prop
  | .confirmFact _ factId expectedVersion _ => g = vaultGuard .facts factId expectedVersion
  | .rejectFact _ factId expectedVersion => g = vaultGuard .facts factId expectedVersion
  | .disputeFact _ factId expectedVersion => g = vaultGuard .facts factId expectedVersion
  | .decideEmergency _ requestId expectedVersion _ _ =>
    g = vaultGuard .emergencyAccessRequests requestId expectedVersion
  | .releaseEmergency _ requestId expectedVersion _ =>
    g = vaultGuard .emergencyAccessRequests requestId expectedVersion
  | .withdrawConsent _ consentId expectedVersion _ =>
    g = vaultGuard .consents consentId expectedVersion
  | .createInvitation context _ input _ =>
    g = vaultGuard .households context.householdId input.expectedHouseholdVersion
  | .revokeInvitation _ _ input _ _ =>
    g = vaultGuard .membershipInvitations input.invitationId input.expectedVersion
  | .acceptInvitation account _ input _ =>
    ∃ (invitationId : Identifier) (before after : MembershipInvitationRow),
      g = vaultGuard .membershipInvitations invitationId input.expectedInvitationVersion ∧
      σ.get .membershipInvitations invitationId = some before ∧ before.acceptedAt = none ∧
      σ'.get .membershipInvitations invitationId = some after ∧
      after.acceptedAt = some input.acceptedAt ∧
      after.acceptedByAuthUserId = some account.authUserId
  | .updateRole _ _ input _ => g = vaultGuard .memberships input.membershipId input.expectedVersion
  | .completeUpload _ _ input _ _ _ =>
    g = vaultGuard .documents input.documentId input.expectedVersion
  | .completeScan _ document _ _ =>
    g = vaultGuard .documents document.id document.version ∨
      g = vaultGuard .workflowRuns document.workflowId document.workflowVersion
  | .completeOcr _ document _ _ =>
    g = vaultGuard .workflowRuns document.workflowId document.workflowVersion
  | .extractManually _ _ input _ _ =>
    g = vaultGuard .workflowRuns input.workflowId input.expectedWorkflowVersion
  | .completeStep _ workflowId expectedVersion _ _ =>
    g = vaultGuard .workflowRuns workflowId expectedVersion
  | .confirmDeletion _ _ input _ _ =>
    g = vaultGuard .privacyRequests input.requestId input.expectedVersion
  | .cancelDeletion _ _ input _ =>
    g = vaultGuard .privacyRequests input.requestId input.expectedVersion
  | .completeDeletion _ input =>
    g = vaultGuard .deletionExecutions input.executionId input.expectedVersion
  | .recordScanFailure .. | .recordStepFailure .. | .completeOriginalDeletion .. | .other _ => False

/-- The call takes an expected version. -/
def VersionedCall.Expects : VersionedCall → Prop
  | .recordScanFailure .. | .recordStepFailure .. | .completeOriginalDeletion .. | .other _ => False
  | _ => True

section Checks

variable {t : VaultTable} {k : t.Key} {expected : Nat} {g : Guard vaultSchema}

/-- An update at the expected version, after which the versions ascend. -/
theorem guarded_checks {α : Type} {change : t.Row → Option t.Row}
    {f : Option t.Row → Transaction α} (hrule : t.rule = .ascends)
    (hchange : RaisesFrom t expected change)
    (hnone : (f none).Checks VaultTable.version (vaultGuard t k expected))
    (hrest : ∀ row, (f (some row)).Writes (VaultObeys VaultTable.rule)) :
    (updateRow (S := vaultSchema) t k change >>= f).Checks VaultTable.version
      (vaultGuard t k expected) :=
  checks_updateRow VaultTable.rule (g := vaultGuard t k expected) hrule hchange hnone hrest

/-- A failing transaction commits nothing. -/
theorem checks_failWith {α : Type} (message : String) :
    (failWith message : Transaction α).Checks VaultTable.version g :=
  checks_rollback _

theorem confirmFact_checks (context : TenantContext) (factId : Identifier) (expectedVersion : Nat)
    (confirmedAt : Instant) :
    (confirmFact context factId expectedVersion confirmedAt).Checks VaultTable.version
      (vaultGuard .facts factId expectedVersion) :=
  guarded_checks (t := .facts) rfl (raisesFrom_ite (fun _ h => h.2.1) (fun _ => rfl))
    (checks_failWith _) (fun _ => writes_commit _)

theorem rejectFact_checks (context : TenantContext) (factId : Identifier) (expectedVersion : Nat) :
    (rejectFact context factId expectedVersion).Checks VaultTable.version
      (vaultGuard .facts factId expectedVersion) :=
  guarded_checks (t := .facts) rfl (raisesFrom_ite (fun _ h => h.2.1) (fun _ => rfl))
    (checks_failWith _) (fun _ => writes_commit _)

theorem disputeFact_checks (context : TenantContext) (factId : Identifier) (expectedVersion : Nat) :
    (disputeFact context factId expectedVersion).Checks VaultTable.version
      (vaultGuard .facts factId expectedVersion) :=
  guarded_checks (t := .facts) rfl (raisesFrom_ite (fun _ h => h.2.1) (fun _ => rfl))
    (checks_failWith _) (fun _ => writes_commit _)

theorem decideEmergencyAccess_checks (context : TenantContext) (requestId : Identifier)
    (expectedVersion : Nat) (decision : EmergencyDecision) (decisionAt : Instant) :
    (decideEmergencyAccess context requestId expectedVersion decision decisionAt).Checks
      VaultTable.version (vaultGuard .emergencyAccessRequests requestId expectedVersion) :=
  guarded_checks (t := .emergencyAccessRequests) rfl
    (raisesFrom_ite (fun _ h => h.2.1) (fun _ => rfl)) (checks_failWith _)
    (fun _ => writes_commit _)

theorem releaseEmergencyAccess_checks (context : TenantContext) (requestId : Identifier)
    (expectedVersion : Nat) (releasedAt : Instant) :
    (releaseEmergencyAccess context requestId expectedVersion releasedAt).Checks VaultTable.version
      (vaultGuard .emergencyAccessRequests requestId expectedVersion) :=
  guarded_checks (t := .emergencyAccessRequests) rfl
    (raisesFrom_ite (fun _ h => h.2.1) (fun _ => rfl)) (checks_failWith _)
    (fun _ => writes_commit _)

theorem withdrawConsent_checks (context : TenantContext) (consentId : Identifier)
    (expectedVersion : Nat) (withdrawnAt : Instant) :
    (withdrawConsent context consentId expectedVersion withdrawnAt).Checks VaultTable.version
      (vaultGuard .consents consentId expectedVersion) :=
  guarded_checks (t := .consents) rfl (raisesFrom_ite (fun _ h => h.2.1) (fun _ => rfl))
    (checks_failWith _) (fun _ => writes_commit _)

theorem completeWorkflowStep_checks (context : TenantContext) (workflowId : Identifier)
    (expectedVersion : Nat) (step : String) (nextStep : Option String) :
    (completeWorkflowStep context workflowId expectedVersion step nextStep).Checks
      VaultTable.version (vaultGuard .workflowRuns workflowId expectedVersion) :=
  guarded_checks (t := .workflowRuns) rfl
    (raisesFrom_ite (fun _ h => h.2.1) (fun _ => rfl)) (checks_failWith _)
    (fun _ => writes_commit _)

theorem createInvitationMutation_checks (context : TenantContext) (input : InvitationWrite) :
    (createInvitationMutation context input).Checks VaultTable.version
      (vaultGuard .households context.householdId input.expectedHouseholdVersion) := by
  refine guarded_checks (t := .households) rfl (raisesFrom_ite (fun row h => ?_) (fun _ => rfl))
    (checks_failWith _) (fun household => ?_)
  · have hguard := (Bool.and_eq_true_iff.mp h).2
    exact beq_iff_eq.mp hguard
  · refine writes_bind (writes_select _) (fun taken => ?_)
    split
    · exact writes_rollback _
    · exact writes_bind (writes_insertRow (obeys_insert (VaultTable.rule_ne_erases _) _))
        (fun _ => writes_commit _)

theorem revokeInvitationMutation_checks (context : TenantContext) (input : RevokeInvitationInput)
    (revokedAt : Instant) :
    (revokeInvitationMutation context input revokedAt).Checks VaultTable.version
      (vaultGuard .membershipInvitations input.invitationId input.expectedVersion) := by
  refine guarded_checks (t := .membershipInvitations) rfl
    (raisesFrom_ite (fun _ h => h.2.1) (fun _ => rfl)) (checks_failWith _) (fun invitation => ?_)
  refine writes_bind (raiseHouseholdVersion_obeys (VaultTable.rule_ne_erases _) _ _)
    (fun household => ?_)
  split
  · exact writes_rollback _
  · exact writes_commit _

theorem updateRoleMutation_checks (context : TenantContext) (input : UpdateRoleInput) :
    (updateRoleMutation context input).Checks VaultTable.version
      (vaultGuard .memberships input.membershipId input.expectedVersion) := by
  refine guarded_checks (t := .memberships) rfl
    (raisesFrom_ite (fun _ h => h.2.1) (fun _ => rfl)) (checks_failWith _) (fun membership => ?_)
  refine writes_bind (raiseHouseholdVersion_obeys (VaultTable.rule_ne_erases _) _ _)
    (fun household => ?_)
  split
  · exact writes_rollback _
  · exact writes_commit _

theorem completeUploadMutation_checks (context : TenantContext) (input : UploadCompletionInput)
    (workflowId : Identifier) (uploadedAt : Instant) :
    (completeUploadMutation context input workflowId uploadedAt).Checks VaultTable.version
      (vaultGuard .documents input.documentId input.expectedVersion) := by
  refine guarded_checks (t := .documents) rfl
    (raisesFrom_ite (fun _ h => h.2.2) (fun _ => rfl)) (checks_failWith _) (fun document => ?_)
  exact writes_bind (writes_requireUnique _ _) (fun _ =>
    writes_bind (writes_insertRow (obeys_insert (VaultTable.rule_ne_erases _) _))
      (fun _ => writes_commit _))

/-- A completed scan has found the document at the version it has read. -/
theorem completeDocumentScan_checks (context : TenantContext) (document : DocumentProcessingInput)
    (outcome : ScanOutcome) (processedAt : Instant) :
    (completeDocumentScan context document outcome processedAt).Checks VaultTable.version
      (vaultGuard .documents document.id document.version) := by
  refine guarded_checks (t := .documents) rfl
    (raisesFrom_ite (fun _ h => h.2.2) (fun _ => rfl)) (checks_failWith _) (fun updated => ?_)
  refine writes_bind (writes_raise (t := .workflowRuns) (VaultTable.rule_ne_erases _)
    (raisesVersion_ite (fun _ => rfl))) (fun advanced => ?_)
  split
  · exact writes_rollback _
  · exact writes_commit _

/-- A completed scan has found the workflow at the version it has read. -/
theorem completeDocumentScan_checks_workflow (context : TenantContext)
    (document : DocumentProcessingInput) (outcome : ScanOutcome) (processedAt : Instant) :
    (completeDocumentScan context document outcome processedAt).Checks VaultTable.version
      (vaultGuard .workflowRuns document.workflowId document.workflowVersion) := by
  have hother : ∀ change, (updateRow (S := vaultSchema) .documents document.id change :
      Transaction _).Leaves VaultTable.workflowRuns :=
    fun change => writes_updateRow (fun _ _ _ => by decide)
  refine checks_bind (hother _).keepsRows (fun updated => ?_)
  split
  · exact checks_failWith _
  · exact guarded_checks (t := .workflowRuns) rfl
      (raisesFrom_ite (fun _ h => h.2.1) (fun _ => rfl)) (checks_failWith _)
      (fun advanced => writes_commit _)

theorem completeDocumentOcr_checks (context : TenantContext) (document : DocumentProcessingInput)
    (ciphertextSha256 : String) (createdAt : Instant) :
    (completeDocumentOcr context document ciphertextSha256 createdAt).Checks VaultTable.version
      (vaultGuard .workflowRuns document.workflowId document.workflowVersion) := by
  have hother : ∀ row, (insertOrIgnore (S := vaultSchema) .documentDerivatives
      (document.id, searchablePdf) row : Transaction _).Leaves VaultTable.workflowRuns :=
    fun row => writes_insertOrIgnore (by decide)
  refine checks_bind (hother _).keepsRows (fun _ => ?_)
  refine checks_bind (writes_select _) (fun recorded => ?_)
  split
  · refine checks_bind (writes_select _) (fun deleteOriginal => ?_)
    exact guarded_checks (t := .workflowRuns) rfl
      (raisesFrom_ite (fun _ h => h.2.1) (fun _ => rfl)) (checks_failWith _)
      (fun advanced => writes_commit _)
  · exact checks_failWith _

theorem insertCandidate_leaves_workflows (context : TenantContext) (documentId : Identifier)
    (capturedAt : Instant) (candidate : ManualCandidateWrite) :
    (insertCandidate context documentId capturedAt candidate).Leaves VaultTable.workflowRuns :=
  writes_bind (writes_insertRow (by decide)) (fun _ => writes_insertRow (by decide))

theorem manualExtractionMutation_checks (context : TenantContext) (input : ManualExtractionInput)
    (generated : ManualExtractionGenerated) :
    (manualExtractionMutation context input generated).Checks VaultTable.version
      (vaultGuard .workflowRuns input.workflowId input.expectedWorkflowVersion) := by
  refine checks_bind (writes_select _) (fun document => ?_)
  split
  · exact checks_failWith _
  refine checks_bind (keepsRows_lockRow _ _ _ _) (fun locked => ?_)
  split
  · exact checks_failWith _
  have hcandidates : (forEach (input.writes context generated) (insertCandidate context
      input.documentId generated.capturedAt)).Leaves VaultTable.workflowRuns :=
    writes_forEach (insertCandidate_leaves_workflows context _ _)
  refine checks_bind hcandidates.keepsRows (fun facts => ?_)
  exact guarded_checks (t := .workflowRuns) rfl
    (raisesFrom_ite (fun _ h => h.2.1) (fun _ => rfl)) (checks_failWith _)
    (fun completed => writes_commit _)

theorem confirmDeletionMutation_checks (context : TenantContext) (input : ConfirmDeletionInput)
    (generated : ConfirmDeletionGenerated) :
    (confirmDeletionMutation context input generated).Checks VaultTable.version
      (vaultGuard .privacyRequests input.requestId input.expectedVersion) := by
  refine checks_bind (keepsRows_lockRow _ _ _ _) (fun existing => ?_)
  split
  · exact checks_failWith _
  refine guarded_checks (t := .privacyRequests) rfl
    (raisesFrom_ite (fun _ h => h.2) (fun _ => rfl)) (checks_failWith _) (fun request => ?_)
  show Writes _ (ite _ _ _)
  split
  · exact writes_rollback _
  refine writes_bind (writes_raiseWhere (t := .workflowRuns) (VaultTable.rule_ne_erases _)
    (raisesVersion_ite (fun _ => rfl))) (fun workflows => ?_)
  split
  · exact writes_rollback _
  refine writes_bind (writes_requireUnique _ _) (fun _ => ?_)
  refine writes_bind (writes_requireUnique _ _) (fun _ => ?_)
  exact writes_bind (writes_insertRow (obeys_insert (VaultTable.rule_ne_erases _) _))
    (fun _ => writes_commit _)

theorem cancelDeletionMutation_checks (context : TenantContext) (input : CancelDeletionInput)
    (now : Instant) :
    (cancelDeletionMutation context input now).Checks VaultTable.version
      (vaultGuard .privacyRequests input.requestId input.expectedVersion) := by
  refine guarded_checks (t := .privacyRequests) rfl
    (raisesFrom_ite (fun _ h => h.2.2.2.2) (fun _ => rfl)) (checks_failWith _)
    (fun request => ?_)
  refine writes_bind (writes_raiseWhere (t := .deletionExecutions) (VaultTable.rule_ne_erases _)
    (raisesVersion_ite (fun _ => rfl))) (fun executions => ?_)
  split
  · exact writes_rollback _
  refine writes_bind (writes_raiseWhere (t := .workflowRuns) (VaultTable.rule_ne_erases _)
    (raisesVersion_ite (fun _ => rfl))) (fun workflows => ?_)
  split
  · exact writes_rollback _
  · exact writes_commit _

/-- Moving on an execution that is locked raises its version: no snapshot lets it go missing. -/
theorem moveDeletion_passes {context : TenantContext} {executionId : Identifier}
    {execution locked : DeletionExecutionRow}
    {moved : DeletionExecutionRow → DeletionExecutionRow} {status : PrivacyStatus}
    {workflowMoved : WorkflowRow → WorkflowRow}
    (hmoved : ∀ row, (moved row).version = row.version + 1)
    (hworkflow : ∀ row, (workflowMoved row).version = row.version + 1) {seen : Vault → Prop}
    {σ : Vault} {ws ws' : List (Write vaultSchema)} {done : Unit}
    (hlocked : ∀ base : Vault,
      (base.overlay ws).get .deletionExecutions executionId = some locked)
    (hsees : context.sees locked = true)
    (h : (moveDeletion context executionId execution moved status workflowMoved).Executes seen σ ws
      (.ok done) ws') :
    (vaultGuard .deletionExecutions executionId locked.version).Passes VaultTable.version
      (σ.overlay ws) (σ.overlay ws') := by
  obtain ⟨updated, ws₁, hupdate, hrest⟩ := executes_bind_ok.mp h
  rcases executes_updateRow.mp hupdate with ⟨old, row, hold, hchange, -, rfl⟩ |
    ⟨σ₀, -, hmissing, -, -⟩
  · obtain rfl : locked = old := Option.some.inj ((hlocked σ).symm.trans hold)
    obtain ⟨-, hrow⟩ := Option.ite_none_right_eq_some.mp hchange
    obtain rfl := Option.some.inj hrow
    have hpassed : (vaultGuard .deletionExecutions executionId locked.version).Passes
        VaultTable.version (σ.overlay ws)
        (σ.overlay (⟨.deletionExecutions, executionId, some (moved locked)⟩ :: ws)) := by
      refine ⟨locked, moved locked, hold, rfl, get_set_self _ _ _ _, ?_⟩
      show locked.version < (moved locked).version
      rw [hmoved locked]
      exact Nat.lt_succ_self _
    have hascends := Writes.executes (Q := VaultObeys VaultTable.deletionRule)
      (obeys_refl (S := vaultSchema)) (obeys_trans (S := vaultSchema))
      (writes_bind (writes_raise (t := .privacyRequests) (by decide)
        (raisesVersion_ite (fun _ => rfl))) (fun _ =>
          writes_bind (writes_raise (t := .workflowRuns) (by decide) (raisesVersion_ite hworkflow))
            (fun _ => writes_commit _))) hrest .deletionExecutions executionId
    exact hpassed.then_ascends hascends
  · have hfound := hlocked σ₀
    rw [hfound, Option.bind_some, if_pos hsees] at hmissing
    exact absurd hmissing (by simp)

/-- The statements before a deletion is moved on leave the locked execution alone. -/
theorem deleteActiveSystem_passes {context : TenantContext} {input : CompleteDeletionInput}
    {execution : DeletionExecutionRow} {seen : Vault → Prop} {σ : Vault}
    {ws ws' : List (Write vaultSchema)} {progress : PrivacyDeletionProgress}
    (hlocked : ∀ base : Vault,
      (base.overlay ws).get .deletionExecutions input.executionId = some execution)
    (hsees : context.sees execution = true)
    (h : (deleteActiveSystem context input execution).Executes seen σ ws (.ok progress) ws') :
    (vaultGuard .deletionExecutions input.executionId execution.version).Passes VaultTable.version
      (σ.overlay ws) (σ.overlay ws') := by
  obtain ⟨memberships, ws₁, hmemberships, h⟩ := executes_bind_ok.mp h
  obtain ⟨_, ws₂, hdeactivate, h⟩ := executes_bind_ok.mp h
  obtain ⟨_, ws₃, hsessions, h⟩ := executes_bind_ok.mp h
  obtain ⟨person, ws₄, hperson, h⟩ := executes_bind_ok.mp h
  obtain ⟨_, ws₅, hprocessors, h⟩ := executes_bind_ok.mp h
  obtain ⟨done, ws₆, hmove, -, rfl⟩ := executes_bind_ok.mp h
  have hdelete : (deleteRow (S := vaultSchema) .people execution.personId
      (fun person : PersonRow => context.sees person) : Transaction _).Leaves
        VaultTable.deletionExecutions := writes_deleteRow (fun _ _ => by decide)
  have hkept : ∀ base : Vault, (base.overlay ws₅).get .deletionExecutions input.executionId =
      (base.overlay ws).get .deletionExecutions input.executionId := by
    intro base
    rw [(requestProcessors_leaves (by decide) _ _ _).executes hprocessors _ base,
      hdelete.executes hperson _ base,
      (endSessions_leaves (by decide) _).executes hsessions _ base,
      (deactivateMemberships_leaves (by decide) (by decide) (by decide) _ _ _).executes
        hdeactivate _ base,
      (lockMemberships_leaves (by decide) _ _).executes hmemberships _ base]
  refine Guard.Passes.after_same (hkept σ) ?_
  exact moveDeletion_passes (fun _ => rfl) (fun _ => rfl)
    (fun base => (hkept base).trans (hlocked base)) hsees hmove

theorem completeDeletion_checks (context : TenantContext) (input : CompleteDeletionInput) :
    (completePrivacyDeletionActiveSystem context input).Checks VaultTable.version
      (vaultGuard .deletionExecutions input.executionId input.expectedVersion) := by
  intro seen σ ws ws' progress h
  obtain ⟨locked, ws₁, hlock, h⟩ := executes_bind_ok.mp h
  split at h
  · exact absurd h.1 (by simp)
  rename_i execution hfound
  obtain ⟨hexecution, hguard⟩ := Option.filter_eq_some_iff.mp hfound
  subst hexecution
  obtain ⟨hrow, hsees, rfl⟩ := executes_lockRow_some hlock
  have hexpected : execution.version = input.expectedVersion :=
    beq_iff_eq.mp (Bool.and_eq_true_iff.mp hguard).1
  have hbefore : (σ.overlay (⟨.deletionExecutions, input.executionId, some execution⟩ :: ws)).get
      .deletionExecutions input.executionId = (σ.overlay ws).get .deletionExecutions
        input.executionId := (get_set_self _ _ _ _).trans hrow.symm
  rw [← hexpected]
  refine Guard.Passes.after_same hbefore ?_
  split at h
  · exact absurd h.1 (by simp)
  obtain ⟨categories, ws₂, hselect, h⟩ := executes_bind_ok.mp h
  obtain ⟨-, -, -, rfl⟩ := executes_select.mp hselect
  split at h
  · obtain ⟨done, ws₃, hmove, -, rfl⟩ := executes_bind_ok.mp h
    exact moveDeletion_passes (fun _ => rfl) (fun _ => rfl)
      (fun base => get_set_self _ _ _ _) hsees hmove
  · exact deleteActiveSystem_passes (fun base => get_set_self _ _ _ _) hsees h

/-- An acceptance that commits has accepted one invitation at its expected version, and changes no
other. -/
theorem acceptInvitationMutation_passes {context : AccountContext} {input : AcceptanceWrite}
    {seen : Vault → Prop} {σ : Vault} {ws ws' : List (Write vaultSchema)} {body : Json}
    (h : (acceptInvitationMutation context input).Executes seen σ ws (.ok body) ws') :
    ∃ (invitationId : Identifier) (before after : MembershipInvitationRow),
      (σ.overlay ws).get .membershipInvitations invitationId = some before ∧
      before.version = input.expectedInvitationVersion ∧ before.acceptedAt = none ∧
      Replaces (S := vaultSchema) .membershipInvitations invitationId (some after)
        (σ.overlay ws) (σ.overlay ws') ∧
      after.version = before.version + 1 ∧ after.acceptedAt = some input.acceptedAt ∧
      after.acceptedByAuthUserId = some context.authUserId := by
  obtain ⟨visible, ws₁, hselect, h⟩ := executes_bind_ok.mp h
  obtain ⟨-, -, -, hws⟩ := executes_select.mp hselect
  obtain rfl : ws = ws₁ := hws.symm
  split at h
  · exact absurd h.1 (by simp)
  obtain ⟨locked, ws₂, hlock, h⟩ := executes_bind_ok.mp h
  split at h
  · exact absurd h.1 (by simp)
  rename_i invitation hlocked
  split at h
  · exact absurd h.1 (by simp)
  obtain ⟨_, ws₃, hperson, h⟩ := executes_bind_ok.mp h
  obtain ⟨_, ws₄, hmembership, h⟩ := executes_bind_ok.mp h
  obtain ⟨updated, ws₅, hupdate, h⟩ := executes_bind_ok.mp h
  split at h
  · exact absurd h.1 (by simp)
  obtain ⟨before, hbefore, hchange, rfl⟩ := executes_updateRow_some hupdate
  obtain ⟨⟨hexpected, hopen, -⟩, hafter⟩ := Option.ite_none_right_eq_some.mp hchange
  obtain rfl := Option.some.inj hafter
  obtain ⟨raised, ws₆, hraise, h⟩ := executes_bind_ok.mp h
  split at h
  · exact absurd h.1 (by simp)
  obtain ⟨-, rfl⟩ := h
  have hsame : SameRows (S := vaultSchema) .membershipInvitations (σ.overlay ws)
      (σ.overlay ws₄) := by
    intro k
    rw [(insertMembership_leaves (by decide) _).executes hmembership k σ,
      (insertPerson_leaves (by decide) _).executes hperson k σ,
      (keepsRows_lockRow _ _ _ _).executes hlock k]
  have hhouseholds : SameRows (S := vaultSchema) .membershipInvitations
      (σ.overlay (⟨.membershipInvitations, invitation.id, some _⟩ :: ws₄)) (σ.overlay ws') :=
    (raiseHouseholdVersion_leaves (by decide) _ _).sameRows hraise
  refine ⟨invitation.id, before, _, (hsame _).symm.trans hbefore, hexpected, hopen,
    ((replaces_overlay_cons σ _ _ _).after_same hsame).then_same hhouseholds, rfl, rfl, rfl⟩

end Checks

section Applied

variable {sha256 : Sha256} {seen : Vault → Prop} {σ : Vault} {ws ws' : List (Write vaultSchema)}
  {t : VaultTable} {k : t.Key} {expected : Nat} {g : Guard vaultSchema}

/-- An operation without a record passes the guard it checks. -/
theorem applying_passes {α : Type} {operation : Transaction α}
    (hchecks : operation.Checks VaultTable.version g) {result : CallEffect}
    (h : (applying operation).Executes seen σ ws (.ok result) ws') :
    g.Passes VaultTable.version (σ.overlay ws) (σ.overlay ws') := by
  obtain ⟨a, ws₁, hoperation, -, rfl⟩ := executes_bind_ok.mp h
  exact hchecks _ _ _ _ _ hoperation

/-- An operation under a key that has applied passes the guard its mutation checks. -/
theorem recorded_passes {context : TenantContext} {key requestHash : String} {now : Instant}
    {statusCode : Nat} {errors : RecordErrors} {mutation : Transaction Json}
    (hleaves : mutation.Leaves VaultTable.idempotencyRecords)
    (hchecks : mutation.Checks VaultTable.version (vaultGuard t k expected))
    (ht : t ≠ .idempotencyRecords)
    (h : (recorded (withTenantRecord context key requestHash now statusCode errors
      mutation)).Executes seen σ ws (.ok .applied) ws') :
    (vaultGuard t k expected).Passes VaultTable.version (σ.overlay ws) (σ.overlay ws') := by
  obtain ⟨answer, ws₁, hrecord, heffect, rfl⟩ := executes_bind_ok.mp h
  rcases executes_withTenantRecord hleaves hrecord with ⟨body, rfl, -⟩ |
    ⟨body, reserved, completed, ws₂, -, hmutation, rfl⟩
  · exact absurd (Except.ok.inj heffect) (by simp [answerEffect])
  · obtain ⟨before, after, hbefore, hexpected, hafter, hlater⟩ := hchecks _ _ _ _ _ hmutation
    exact ⟨before, after, (sameRows_overlay_cons σ _ _ _ ht _).symm.trans hbefore, hexpected,
      (sameRows_overlay_cons σ _ _ _ ht _).trans hafter, hlater⟩

/-- What was answered from a record has written nothing. -/
theorem recorded_replayed {context : TenantContext} {key requestHash : String} {now : Instant}
    {statusCode : Nat} {errors : RecordErrors} {mutation : Transaction Json}
    (hleaves : mutation.Leaves VaultTable.idempotencyRecords)
    (h : (recorded (withTenantRecord context key requestHash now statusCode errors
      mutation)).Executes seen σ ws (.ok .replayed) ws') : ws' = ws := by
  obtain ⟨answer, ws₁, hrecord, heffect, rfl⟩ := executes_bind_ok.mp h
  rcases executes_withTenantRecord hleaves hrecord with ⟨body, -, hws⟩ |
    ⟨body, reserved, completed, ws₂, rfl, -, -⟩
  · exact hws
  · exact absurd (Except.ok.inj heffect) (by simp [answerEffect])

/-- An acceptance that has applied has run its mutation. -/
theorem recorded_acceptance {account : AccountContext} {key : String} {input : AcceptanceWrite}
    {now : Instant} {result : CallEffect}
    (h : (recorded (acceptMembershipInvitation sha256 account key input now)).Executes seen σ ws
      (.ok result) ws') :
    (result = .replayed ∧ ws' = ws) ∨
    ∃ body reserved completed ws₁, result = .applied ∧
      (acceptInvitationMutation account input).Executes seen σ
        (⟨VaultTable.accountIdempotencyRecords, (account.authUserId, key), some reserved⟩ :: ws)
        (.ok body) ws₁ ∧
      ws' = ⟨VaultTable.accountIdempotencyRecords, (account.authUserId, key),
        some completed⟩ :: ws₁ := by
  obtain ⟨answer, ws₁, hrecord, heffect, rfl⟩ := executes_bind_ok.mp h
  have hleaves := acceptInvitationMutation_leaves (t := .accountIdempotencyRecords) (by decide)
    (by decide) (by decide) (by decide) account input
  rcases RecordShape.executes_once_ok hleaves hrecord with
    ⟨_, _, body, _, _, _, _, rfl, hws⟩ | ⟨body, ws₂, _, hmutation, rfl, hws⟩
  · exact Or.inl ⟨Except.ok.inj heffect, hws⟩
  · exact Or.inr ⟨body, _, _, ws₂, Except.ok.inj heffect, hmutation, hws⟩

end Applied

/-! ## No lost update -/

section Calls

variable {sha256 : Sha256} {seen : Vault → Prop} {σ : Vault} {ws' : List (Write vaultSchema)}
  {call : VersionedCall}

/-- A call that has applied has passed all its guards. -/
theorem versionedProgram_passes
    (h : (versionedProgram sha256 call).Executes seen σ [] (.ok .applied) ws')
    {g : Guard vaultSchema} (hg : call.Guards σ (σ.overlay ws') g) :
    g.Passes VaultTable.version σ (σ.overlay ws') := by
  cases call with
  | confirmFact context factId expectedVersion confirmedAt =>
    obtain rfl := hg
    exact applying_passes (confirmFact_checks _ _ _ _) h
  | rejectFact context factId expectedVersion =>
    obtain rfl := hg
    exact applying_passes (rejectFact_checks _ _ _) h
  | disputeFact context factId expectedVersion =>
    obtain rfl := hg
    exact applying_passes (disputeFact_checks _ _ _) h
  | decideEmergency context requestId expectedVersion decision decisionAt =>
    obtain rfl := hg
    exact applying_passes (decideEmergencyAccess_checks _ _ _ _ _) h
  | releaseEmergency context requestId expectedVersion releasedAt =>
    obtain rfl := hg
    exact applying_passes (releaseEmergencyAccess_checks _ _ _ _) h
  | withdrawConsent context consentId expectedVersion withdrawnAt =>
    obtain rfl := hg
    exact applying_passes (withdrawConsent_checks _ _ _ _) h
  | createInvitation context key input now =>
    obtain rfl := hg
    rw [versionedProgram, createMembershipInvitation] at h
    split at h
    · exact recorded_passes (createInvitationMutation_leaves (by decide) (by decide) _ _)
        (createInvitationMutation_checks _ _) (by decide) h
    · exact absurd (executes_bind_ok.mp h) (fun ⟨_, _, hfail, _⟩ => absurd hfail.1 (by simp))
  | revokeInvitation context key input revokedAt now =>
    obtain rfl := hg
    exact recorded_passes (revokeInvitationMutation_leaves (by decide) (by decide) _ _ _)
      (revokeInvitationMutation_checks _ _ _) (by decide) h
  | acceptInvitation account key input now =>
    obtain ⟨invitationId, before, after, rfl, hbefore, hopen, hafter, haccepted, -⟩ := hg
    rcases recorded_acceptance h with ⟨hbad, -⟩ |
      ⟨body, reserved, completed, ws₁, -, hmutation, rfl⟩
    · exact absurd hbad (by decide)
    obtain ⟨acceptedId, old, new, hold, hexpected, -, hreplaces, hraised, -, -⟩ :=
      acceptInvitationMutation_passes hmutation
    have hfirst : SameRows (S := vaultSchema) .membershipInvitations σ (σ.overlay
        [⟨.accountIdempotencyRecords, (account.authUserId, key), some reserved⟩]) :=
      sameRows_write σ (by decide)
    have hall : Replaces (S := vaultSchema) .membershipInvitations acceptedId (some new) σ
        (σ.overlay (⟨.accountIdempotencyRecords, (account.authUserId, key),
          some completed⟩ :: ws₁)) :=
      (hreplaces.after_same hfirst).writeOther (by decide)
    rcases hall.get_cases invitationId with ⟨rfl, hrow⟩ | ⟨-, hrow⟩
    · refine ⟨old, new, (hfirst _).symm.trans hold, hexpected, hrow, ?_⟩
      show input.expectedInvitationVersion < new.version
      omega
    · -- an invitation that was open and is accepted has changed
      obtain rfl := Option.some.inj ((hrow.trans hbefore).symm.trans hafter)
      exact absurd (hopen.symm.trans haccepted) (by simp)
  | updateRole context key input now =>
    obtain rfl := hg
    rw [versionedProgram, updateMembershipRole] at h
    split at h
    · exact recorded_passes (updateRoleMutation_leaves (by decide) (by decide) _ _)
        (updateRoleMutation_checks _ _) (by decide) h
    · exact absurd (executes_bind_ok.mp h) (fun ⟨_, _, hfail, _⟩ => absurd hfail.1 (by simp))
  | completeUpload context key input workflowId uploadedAt now =>
    obtain rfl := hg
    exact recorded_passes (completeUploadMutation_leaves (by decide) (by decide) _ _ _ _)
      (completeUploadMutation_checks _ _ _ _) (by decide) h
  | completeScan context document outcome processedAt =>
    rcases hg with rfl | rfl
    · exact applying_passes (completeDocumentScan_checks _ _ _ _) h
    · exact applying_passes (completeDocumentScan_checks_workflow _ _ _ _) h
  | completeOcr context document ciphertextSha256 createdAt =>
    obtain rfl := hg
    exact applying_passes (completeDocumentOcr_checks _ _ _ _) h
  | extractManually context key input generated now =>
    obtain rfl := hg
    exact recorded_passes
      (manualExtractionMutation_leaves (by decide) (by decide) (by decide) _ _ _) (manualExtractionMutation_checks _ _ _) (by decide) h
  | completeStep context workflowId expectedVersion step nextStep =>
    obtain rfl := hg
    exact applying_passes (completeWorkflowStep_checks _ _ _ _ _) h
  | confirmDeletion context key input generated now =>
    obtain rfl := hg
    exact recorded_passes (confirmDeletionMutation_leaves (by decide) (by decide) (by decide) _ _ _)
      (confirmDeletionMutation_checks _ _ _) (by decide) h
  | cancelDeletion context key input now =>
    obtain rfl := hg
    exact recorded_passes (cancelDeletionMutation_leaves (by decide) (by decide) (by decide) _ _ _)
      (cancelDeletionMutation_checks _ _ _) (by decide) h
  | completeDeletion context input =>
    obtain rfl := hg
    exact applying_passes (completeDeletion_checks _ _) h
  | recordScanFailure _ _ _ _ => exact absurd hg id
  | recordStepFailure _ _ _ => exact absurd hg id
  | completeOriginalDeletion _ _ _ _ => exact absurd hg id
  | other _ => exact absurd hg id

/-- A call that takes an expected version has a guard when it has applied. -/
theorem versionedProgram_guarded (hexpects : call.Expects)
    (h : (versionedProgram sha256 call).Executes seen σ [] (.ok .applied) ws') :
    ∃ g, call.Guards σ (σ.overlay ws') g := by
  cases call with
  | acceptInvitation account key input now =>
    rcases recorded_acceptance h with ⟨hbad, -⟩ |
      ⟨body, reserved, completed, ws₁, -, hmutation, rfl⟩
    · exact absurd hbad (by decide)
    obtain ⟨invitationId, before, after, hbefore, -, hopen, hreplaces, -, haccepted, hby⟩ :=
      acceptInvitationMutation_passes hmutation
    have hsame : SameRows (S := vaultSchema) .membershipInvitations σ (σ.overlay
        [⟨.accountIdempotencyRecords, (account.authUserId, key), some reserved⟩]) :=
      sameRows_write σ (by decide)
    have hfirst : σ.get .membershipInvitations invitationId = some before :=
      (hsame _).symm.trans hbefore
    have hlast : (σ.overlay (⟨.accountIdempotencyRecords, (account.authUserId, key),
        some completed⟩ :: ws₁)).get .membershipInvitations invitationId = some after :=
      (hreplaces.writeOther (by decide)).row
    exact ⟨_, invitationId, before, after, rfl, hfirst, hopen, hlast, haccepted, hby⟩
  | completeScan context document outcome processedAt => exact ⟨_, Or.inl rfl⟩
  | recordScanFailure _ _ _ _ => exact absurd hexpects id
  | recordStepFailure _ _ _ => exact absurd hexpects id
  | completeOriginalDeletion _ _ _ _ => exact absurd hexpects id
  | other _ => exact absurd hexpects id
  | _ => exact ⟨_, rfl⟩

/-- Versions ascend in the tables of all guards. -/
theorem VersionedCall.guards_ascends {σ' : Vault} {g : Guard vaultSchema}
    (hg : call.Guards σ σ' g) : VaultTable.runRule g.table = .ascends := by
  cases call with
  | acceptInvitation account key input now =>
    obtain ⟨invitationId, before, after, rfl, -⟩ := hg
    rfl
  | completeScan context document outcome processedAt => rcases hg with rfl | rfl <;> rfl
  | recordScanFailure _ _ _ _ => exact absurd hg id
  | recordStepFailure _ _ _ => exact absurd hg id
  | completeOriginalDeletion _ _ _ _ => exact absurd hg id
  | other _ => exact absurd hg id
  | _ =>
    obtain rfl := hg
    rfl

/-- A row with a version that a call has changed has a later version, unless it is the person of
a deletion. -/
theorem versionedProgram_raises (hexpects : call.Expects)
    (h : (versionedProgram sha256 call).Executes seen σ [] (.ok .applied) ws') {t : VaultTable}
    {k : t.Key} {before : t.Row} (ht : t.versioned = true) (hbefore : σ.get t k = some before)
    (hchanged : (σ.overlay ws').get t k ≠ some before) :
    (∃ after, (σ.overlay ws').get t k = some after ∧ t.version before < t.version after) ∨
      (t = .people ∧ (σ.overlay ws').get t k = none) := by
  have hrow := Writes.executes (obeys_refl (S := vaultSchema)) (obeys_trans (S := vaultSchema))
    (versionedProgram_obeys sha256 call) h t k
  rw [overlay_nil, hbefore] at hrow
  have hascends : t.rule = .ascends := if_pos ht
  have hcases : call.rule t = .ascends ∨ (t = .people ∧ call.rule t = .erases) := by
    cases call with
    | completeDeletion context input =>
      by_cases hpeople : t = .people
      · exact Or.inr ⟨hpeople, if_pos hpeople⟩
      · exact Or.inl ((if_neg hpeople).trans hascends)
    | other _ => exact absurd hexpects id
    | _ => exact Or.inl hascends
  unfold Obeys at hrow
  rcases hcases with hrule | ⟨hpeople, hrule⟩
  · rw [hrule] at hrow
    rcases hrow with hsame | hmissing | ⟨old, new, hold, hnew, hlater⟩
    · exact absurd hsame hchanged
    · exact absurd hmissing (by simp)
    · obtain rfl := Option.some.inj hold
      exact Or.inl ⟨new, hnew, hlater⟩
  · rw [hrule] at hrow
    exact Or.inr ⟨hpeople, hrow.resolve_left hchanged⟩

/-- A call that was answered from the record of its key has written nothing. -/
theorem versionedProgram_replayed
    (h : (versionedProgram sha256 call).Executes seen σ [] (.ok .replayed) ws') : ws' = [] := by
  have happlying : ∀ {α : Type} {operation : Transaction α},
      ¬ (applying operation).Executes seen σ [] (.ok .replayed) ws' := by
    intro α operation hbad
    obtain ⟨_, _, -, heffect, -⟩ := executes_bind_ok.mp hbad
    exact absurd (Except.ok.inj heffect) (by decide)
  cases call with
  | createInvitation context key input now =>
    rw [versionedProgram, createMembershipInvitation] at h
    split at h
    · exact recorded_replayed (createInvitationMutation_leaves (by decide) (by decide) _ _) h
    · exact absurd (executes_bind_ok.mp h) (fun ⟨_, _, hfail, _⟩ => absurd hfail.1 (by simp))
  | revokeInvitation context key input revokedAt now =>
    exact recorded_replayed (revokeInvitationMutation_leaves (by decide) (by decide) _ _ _) h
  | acceptInvitation account key input now =>
    rcases recorded_acceptance h with ⟨-, hws⟩ | ⟨_, _, _, _, hbad, _⟩
    · exact hws
    · exact absurd hbad (by decide)
  | updateRole context key input now =>
    rw [versionedProgram, updateMembershipRole] at h
    split at h
    · exact recorded_replayed (updateRoleMutation_leaves (by decide) (by decide) _ _) h
    · exact absurd (executes_bind_ok.mp h) (fun ⟨_, _, hfail, _⟩ => absurd hfail.1 (by simp))
  | completeUpload context key input workflowId uploadedAt now =>
    exact recorded_replayed (completeUploadMutation_leaves (by decide) (by decide) _ _ _ _) h
  | extractManually context key input generated now =>
    exact recorded_replayed
      (manualExtractionMutation_leaves (by decide) (by decide) (by decide) _ _ _) h
  | confirmDeletion context key input generated now =>
    exact recorded_replayed
      (confirmDeletionMutation_leaves (by decide) (by decide) (by decide) _ _ _) h
  | cancelDeletion context key input now =>
    exact recorded_replayed
      (cancelDeletionMutation_leaves (by decide) (by decide) (by decide) _ _ _) h
  | _ => exact absurd h happlying

end Calls

section Runs

variable {sha256 : Sha256} {init : Vault}

/-- A step of the operations: the systems before and after. -/
abbrev VersionedStep (sha256 : Sha256) : Type :=
  (versionedProtocol sha256).System × (versionedProtocol sha256).System

/-- The step in which a call commits its changes. -/
def VersionedStep.Succeeds (step : VersionedStep sha256) (call : VersionedCall) : Prop :=
  step.2.log = ⟨call, .committed .applied⟩ :: step.1.log

/-- The step in which some call that has expected the version of the guard commits its changes. -/
def VersionedStep.SucceedsAt (step : VersionedStep sha256) (g : Guard vaultSchema) : Prop :=
  ∃ call, step.Succeeds call ∧ call.Guards step.1.committed step.2.committed g

/-- A commit of a run is an execution of its program on the committed rows. -/
theorem VersionedStep.executes {step : VersionedStep sha256} {call : VersionedCall}
    {effect : CallEffect} (h : Reachable init step.1) (hstep : Step step.1 step.2)
    (hlog : step.2.log = ⟨call, .committed effect⟩ :: step.1.log) :
    ∃ (seen : Vault → Prop) (ws : List (Write vaultSchema)),
      step.2.committed = step.1.committed.overlay ws ∧
      (versionedProgram sha256 call).Executes seen step.1.committed [] (.ok effect) ws := by
  obtain ⟨ws, -, seen, hcommitted, -, -, -, -, hexec⟩ :=
    (trivialInvariant (versionedProtocol sha256) init).committed_step h hstep hlog
  exact ⟨seen, ws, hcommitted, hexec⟩

/-- A success passes its guards. -/
theorem VersionedStep.Succeeds.passes {step : VersionedStep sha256} {call : VersionedCall}
    (hsuccess : step.Succeeds call) (h : Reachable init step.1) (hstep : Step step.1 step.2)
    {g : Guard vaultSchema} (hg : call.Guards step.1.committed step.2.committed g) :
    g.Passes VaultTable.version step.1.committed step.2.committed := by
  obtain ⟨seen, ws, hcommitted, hexec⟩ := VersionedStep.executes h hstep hsuccess
  rw [hcommitted] at hg ⊢
  exact versionedProgram_passes hexec hg

/-- Rows change only in a step in which a call commits its changes. -/
theorem VersionedStep.changes {step : VersionedStep sha256} (h : Reachable init step.1)
    (hstep : Step step.1 step.2) (hchanged : step.2.committed ≠ step.1.committed) :
    ∃ call, step.Succeeds call := by
  obtain ⟨call, effect, hlog⟩ := hstep.committed_or_log.resolve_left hchanged
  cases effect with
  | applied => exact ⟨call, hlog⟩
  | replayed =>
    obtain ⟨seen, ws, hcommitted, hexec⟩ := VersionedStep.executes h hstep hlog
    rw [versionedProgram_replayed hexec] at hcommitted
    exact absurd hcommitted hchanged

/-- What a success does: it has found every row whose version it expects at that version, and
leaves it at a later one; and of every other row with a version that it changes, it raises the
version, or it deletes the person of a deletion. -/
structure VersionedStep.Sound (step : VersionedStep sha256) (call : VersionedCall) : Prop where
  guarded : ∃ g, call.Guards step.1.committed step.2.committed g
  passes : ∀ g, call.Guards step.1.committed step.2.committed g →
    g.Passes VaultTable.version step.1.committed step.2.committed
  raises : ∀ (t : VaultTable) (k : t.Key) (before : t.Row), t.versioned = true →
    step.1.committed.get t k = some before → step.2.committed.get t k ≠ some before →
    (∃ after, step.2.committed.get t k = some after ∧ t.version before < t.version after) ∨
      (t = .people ∧ step.2.committed.get t k = none)

/-- In every run at most one operation succeeds at a version of a row; a success raises the
versions of what it writes; and rows change only when an operation succeeds. -/
theorem versioned_operations {steps : List (VersionedStep sha256)}
    {s : (versionedProtocol sha256).System} (hrun : Run init steps s) :
    (∀ g, steps.Pairwise (fun later earlier => ¬ (later.SucceedsAt g ∧ earlier.SucceedsAt g))) ∧
    (∀ step ∈ steps, ∀ call : VersionedCall, call.Expects → step.Succeeds call →
      step.Sound call) ∧
    (∀ step ∈ steps, step.2.committed ≠ step.1.committed → ∃ call, step.Succeeds call) := by
  refine ⟨fun g => ?_, fun step hmem call hexpects hsuccess => ?_, fun step hmem hchanged => ?_⟩
  · by_cases hrule : VaultTable.runRule g.table = .ascends
    · have honce := Run.passes_once (versionedProgram_ascends sha256) hrun hrule
      refine honce.imp_of_mem (fun {later earlier} hlater hearlier hnot hboth => hnot ?_)
      obtain ⟨⟨call, hsuccess, hg⟩, ⟨call', hsuccess', hg'⟩⟩ := hboth
      obtain ⟨hreachable, hstep⟩ := hrun.steps later hlater
      obtain ⟨hreachable', hstep'⟩ := hrun.steps earlier hearlier
      exact ⟨hsuccess.passes hreachable hstep hg, hsuccess'.passes hreachable' hstep' hg'⟩
    · refine List.pairwise_of_forall (fun later earlier hboth => ?_)
      obtain ⟨⟨call, -, hg⟩, -⟩ := hboth
      exact hrule (VersionedCall.guards_ascends hg)
  · obtain ⟨hreachable, hstep⟩ := hrun.steps step hmem
    obtain ⟨seen, ws, hcommitted, hexec⟩ := VersionedStep.executes hreachable hstep hsuccess
    refine ⟨?_, fun g hg => hsuccess.passes hreachable hstep hg, ?_⟩
    · rw [hcommitted]
      exact versionedProgram_guarded hexpects hexec
    · rw [hcommitted]
      intro t k before ht hbefore hchanged
      exact versionedProgram_raises hexpects hexec ht hbefore hchanged
  · obtain ⟨hreachable, hstep⟩ := hrun.steps step hmem
    exact VersionedStep.changes hreachable hstep hchanged

end Runs

/-- A candidate at its first version, which is rejected and confirmed by two callers. -/
def exampleVersioned : Vault :=
  (Store.empty : Vault).set .facts "f1" (some
    ({ id := "f1", organizationId := "o1", householdId := "h1", fieldKey := "identity.name"
       typedValueEncrypted := .data "x", keyVersion := 1, status := .candidate
       sourceType := .manual, sourceId := "p1", evidenceIds := [], confidence := none
       sensitivity := .sensitive, confirmedBy := none, confirmedAt := none
       version := 1 } : FactRow))

/-- The two calls. -/
def exampleVersionedCalls : List VersionedCall :=
  [.rejectFact ⟨"o1", "h1", "p1"⟩ "f1" 1, .confirmFact ⟨"o1", "h1", "p2"⟩ "f1" 1 20]

theorem versioned_operations_example :
    ∃ (steps : List (VersionedStep Sha256.transparent))
      (s : (versionedProtocol Sha256.transparent).System),
      Run exampleVersioned steps s ∧
      s.log = [⟨.confirmFact ⟨"o1", "h1", "p2"⟩ "f1" 1 20,
          .rolledBack (.error "fact confirmation conflict or policy denial")⟩,
        ⟨.rejectFact ⟨"o1", "h1", "p1"⟩ "f1" 1, .committed .applied⟩] ∧
      ∀ g, steps.Pairwise (fun later earlier =>
        ¬ (later.SucceedsAt g ∧ earlier.SucceedsAt g)) := by
  have hpermitted : (versionedProtocol Sha256.transparent).Sequential [] exampleVersioned
      exampleVersionedCalls := ⟨trivial, trivial, trivial⟩
  have hmeets : (versionedProtocol Sha256.transparent).MeetsEach (fun _ _ _ => True) []
      exampleVersioned exampleVersionedCalls := ⟨trivial, trivial, trivial⟩
  obtain ⟨steps, s, hrun, hlog, -, -⟩ := run_sequential hpermitted hmeets
  exact ⟨steps, s, hrun, hlog, (versioned_operations hrun).1⟩

end LegacyVault
