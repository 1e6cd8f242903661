import LegacyVault.Entities
import LegacyVault.Library.RowStatements
import LegacyVault.Library.InterleavedTransactions

/-!
# The vault database

The tables of the SQL migrations as a keyed row store, and the transactions
of the repository as programs over it. A row is visible to a tenant
transaction when it carries that tenant's organization and household, as the
row-level policies say. Tables are keyed by their `id` except where the
migration declares another unique key the statements conflict on.

Unique columns outside the key are tested by the programs that rely on them.
Columns that no modelled statement reads or writes are left out.
-/

namespace LegacyVault

open JsonText RowTransaction

/-- An `organizations` row. -/
structure OrganizationRow where
  id : Identifier
  name : String
  deriving DecidableEq

/-- A `households` row. -/
structure HouseholdRow where
  id : Identifier
  organizationId : Identifier
  name : String
  version : Nat
  deriving DecidableEq

/-- Status of a household key. -/
inductive HouseholdKeyStatus where
  | active | decryptOnly | retired
  deriving DecidableEq

/-- A `household_keys` row. -/
structure HouseholdKeyRow where
  id : Identifier
  organizationId : Identifier
  householdId : Identifier
  keyVersion : Nat
  wrappedKey : Sealed
  status : HouseholdKeyStatus
  deriving DecidableEq

/-- A `people` row. -/
structure PersonRow where
  id : Identifier
  organizationId : Identifier
  householdId : Identifier
  displayNameEncrypted : Sealed
  keyVersion : Nat
  version : Nat
  deriving DecidableEq

/-- A `memberships` row. -/
structure MembershipRow where
  id : Identifier
  organizationId : Identifier
  householdId : Identifier
  personId : Identifier
  role : Role
  active : Bool
  authUserId : Option Identifier
  version : Nat
  deriving DecidableEq

/-- A `permission_grants` row. -/
structure PermissionGrantRow where
  id : Identifier
  organizationId : Identifier
  householdId : Identifier
  membershipId : Identifier
  categories : List RecordCategory
  actions : List PermissionAction
  purpose : String
  startsAt : Instant
  expiresAt : Option Instant
  revokedAt : Option Instant
  version : Nat
  deriving DecidableEq

/-- A `support_access_approvals` row. -/
structure SupportAccessApprovalRow where
  id : Identifier
  organizationId : Identifier
  householdId : Identifier
  supportMembershipId : Identifier
  approvedByOwnerId : Identifier
  reasonCode : String
  categories : List RecordCategory
  startsAt : Instant
  expiresAt : Instant
  revokedAt : Option Instant
  version : Nat
  deriving DecidableEq

/-- A `session` row of the authentication tables. -/
structure SessionRow where
  id : Identifier
  userId : Identifier
  deriving DecidableEq

/-- A `user` row of the authentication tables. -/
structure UserRow where
  id : Identifier
  email : String
  emailVerified : Bool
  deriving DecidableEq

/-- A `membership_invitations` row. -/
structure MembershipInvitationRow where
  id : Identifier
  organizationId : Identifier
  householdId : Identifier
  emailHash : String
  tokenHash : String
  role : Role
  invitedBy : Identifier
  expiresAt : Instant
  acceptedAt : Option Instant
  acceptedByAuthUserId : Option Identifier
  revokedAt : Option Instant
  version : Nat
  deriving DecidableEq

/-- A `facts` row. -/
structure FactRow where
  id : Identifier
  organizationId : Identifier
  householdId : Identifier
  fieldKey : String
  typedValueEncrypted : Sealed
  keyVersion : Nat
  status : FactStatus
  sourceType : SourceType
  sourceId : Identifier
  evidenceIds : List Identifier
  confidence : Option NumberLiteral
  sensitivity : Sensitivity
  confirmedBy : Option Identifier
  confirmedAt : Option Instant
  version : Nat
  deriving DecidableEq

/-- An `evidence` row. -/
structure EvidenceRow where
  id : Identifier
  organizationId : Identifier
  householdId : Identifier
  sourceType : SourceType
  sourceId : Identifier
  locator : String
  capturedAt : Instant
  deriving DecidableEq

/-- A `documents` row. -/
structure DocumentRow where
  id : Identifier
  organizationId : Identifier
  householdId : Identifier
  objectKey : String
  originalSha256 : String
  mediaType : String
  status : DocumentStatus
  encryptionKeyVersion : Nat
  wrappedDataKey : Option Sealed
  maximumBytes : Nat
  ciphertextSha256 : Option String
  uploadedAt : Option Instant
  processedAt : Option Instant
  lastErrorClass : Option String
  deleteOriginalAfterProcessing : Bool
  originalDeletedAt : Option Instant
  version : Nat
  deriving DecidableEq

/-- A `document_derivatives` row. -/
structure DocumentDerivativeRow where
  id : Identifier
  organizationId : Identifier
  householdId : Identifier
  documentId : Identifier
  kind : String
  objectKey : String
  ciphertextSha256 : String
  encryptionKeyVersion : Nat
  createdAt : Instant
  deriving DecidableEq

/-- The `status` tag of a stored object. -/
inductive ObjectStatus where
  | quarantined | clean | completed
  deriving DecidableEq

/-- An object of the object store: its bytes, and its `status` tag. -/
structure StoredObject where
  ciphertext : Sealed
  status : ObjectStatus
  deriving DecidableEq

/-- A `consents` row. -/
structure ConsentRow where
  id : Identifier
  organizationId : Identifier
  householdId : Identifier
  personId : Identifier
  purpose : ConsentPurpose
  policyVersion : String
  grantedAt : Instant
  withdrawnAt : Option Instant
  version : Nat
  deriving DecidableEq

/-- An `emergency_access_requests` row. -/
structure EmergencyAccessRow where
  id : Identifier
  organizationId : Identifier
  householdId : Identifier
  requesterId : Identifier
  recipientMembershipId : Identifier
  categories : List RecordCategory
  reasonEncrypted : Sealed
  keyVersion : Nat
  status : EmergencyAccessStatus
  requestedAt : Instant
  decisionAt : Option Instant
  releaseAfter : Option Instant
  version : Nat
  deriving DecidableEq

/-- Status of a report. -/
inductive ReportStatus where
  | pending | completed | failed
  deriving DecidableEq

/-- The stored text of a report status. -/
def ReportStatus.text : ReportStatus → String
  | pending => "pending"
  | completed => "completed"
  | failed => "failed"

/-- A `reports` row. -/
structure ReportRow where
  id : Identifier
  organizationId : Identifier
  householdId : Identifier
  workflowId : Option Identifier
  kind : ReportKind
  status : ReportStatus
  generatedAt : Instant
  payloadEncrypted : Option Sealed
  encryptionKeyVersion : Option Nat
  requestedBy : Option Identifier
  version : Nat
  deriving DecidableEq

/-- A `workflow_runs` row. -/
structure WorkflowRow where
  id : Identifier
  organizationId : Identifier
  householdId : Identifier
  kind : String
  idempotencyKey : String
  status : WorkflowStatus
  completedSteps : List String
  nextStep : Option String
  lastErrorClass : Option String
  subjectType : Option String
  subjectId : Option Identifier
  version : Nat
  deriving DecidableEq

/-- A `privacy_requests` row. -/
structure PrivacyRequestRow where
  id : Identifier
  organizationId : Identifier
  householdId : Identifier
  personId : Identifier
  kind : PrivacyRequestKind
  status : PrivacyStatus
  requestedAt : Instant
  verifiedAt : Option Instant
  recoveryUntil : Option Instant
  completedAt : Option Instant
  version : Nat
  deriving DecidableEq

/-- A `deletion_executions` row. -/
structure DeletionExecutionRow where
  id : Identifier
  organizationId : Identifier
  householdId : Identifier
  privacyRequestId : Identifier
  workflowId : Identifier
  personId : Identifier
  status : PrivacyStatus
  recoveryUntil : Instant
  activeSystemCompletedAt : Option Instant
  backupExpiresAt : Option Instant
  completedAt : Option Instant
  retainedCategories : List String
  sharedDataReviewRequired : Bool
  version : Nat
  deriving DecidableEq

/-- Status of a request to a deletion processor. -/
inductive ProcessorRequestStatus where
  | pending | submitted | confirmed | notSupported | verificationRequired | failed
  deriving DecidableEq

/-- A `deletion_processor_requests` row. -/
structure DeletionProcessorRow where
  id : Identifier
  organizationId : Identifier
  householdId : Identifier
  workflowId : Identifier
  processor : String
  status : ProcessorRequestStatus
  requestedAt : Instant
  deriving DecidableEq

/-- What a legal hold is placed on. -/
inductive HoldSubject where
  | household | person
  deriving DecidableEq

/-- A `legal_holds` row. -/
structure LegalHoldRow where
  id : Identifier
  organizationId : Identifier
  householdId : Identifier
  category : String
  subjectType : HoldSubject
  subjectId : Identifier
  startsAt : Instant
  expiresAt : Option Instant
  releasedAt : Option Instant
  deriving DecidableEq

/-- Status of a portable export. -/
inductive ExportStatus where
  | pending | building | completed | failed | expired
  deriving DecidableEq

/-- The stored text of an export status. -/
def ExportStatus.text : ExportStatus → String
  | pending => "pending"
  | building => "building"
  | completed => "completed"
  | failed => "failed"
  | expired => "expired"

/-- An `exports` row. -/
structure ExportRow where
  id : Identifier
  organizationId : Identifier
  householdId : Identifier
  workflowId : Identifier
  status : ExportStatus
  wrappedExportKey : Sealed
  encryptionKeyVersion : Nat
  objectKey : Option String
  archiveSha256 : Option String
  signerPublicKey : Option String
  createdAt : Instant
  completedAt : Option Instant
  version : Nat
  deriving DecidableEq

/-- A `subscriptions` row. -/
structure SubscriptionRow where
  id : Identifier
  organizationId : Identifier
  householdId : Identifier
  status : SubscriptionStatus
  plan : String
  providerCustomerId : Option String
  providerSubscriptionId : Option String
  providerUpdatedAt : Option Instant
  trialEndsAt : Option Instant
  currentPeriodEndsAt : Option Instant
  cancelAtPeriodEnd : Bool
  canceledAt : Option Instant
  version : Nat
  deriving DecidableEq

/-- A `billing_events` row. -/
structure BillingEventRow where
  id : Identifier
  organizationId : Identifier
  householdId : Identifier
  externalEventId : String
  eventType : String
  providerCreatedAt : Instant
  processedAt : Option Instant
  deriving DecidableEq

/-- A `billing_refunds` row. -/
structure BillingRefundRow where
  id : Identifier
  organizationId : Identifier
  householdId : Identifier
  providerRefundId : String
  providerChargeId : Option String
  amount : Nat
  currency : String
  reason : Option String
  status : RefundStatus
  providerUpdatedAt : Instant
  version : Nat
  deriving DecidableEq

/-- A stored response: the table checks that status code and body are null together. -/
structure StoredResponse where
  statusCode : Nat
  responseBody : Json
  deriving DecidableEq

/-- An `idempotency_records` row. -/
structure IdempotencyRow where
  organizationId : Identifier
  householdId : Identifier
  idempotencyKey : String
  requestHash : String
  response : Option StoredResponse
  expiresAt : Instant
  deriving DecidableEq

/-- An `account_idempotency_records` row. -/
structure AccountIdempotencyRow where
  authUserId : Identifier
  idempotencyKey : String
  requestHash : String
  responseBody : Option Json
  expiresAt : Instant
  deriving DecidableEq

/-- Status of a notification delivery. -/
inductive DeliveryStatus where
  | pending | sent | failed
  deriving DecidableEq

/-- A `notification_deliveries` row. -/
structure NotificationDeliveryRow where
  id : Identifier
  organizationId : Identifier
  householdId : Identifier
  workflowId : Identifier
  recipientPersonId : Identifier
  status : DeliveryStatus
  providerMessageId : Option String
  version : Nat
  deriving DecidableEq

/-- The tables of the vault. -/
inductive VaultTable where
  | organizations | households | householdKeys | people | memberships | permissionGrants
  | supportAccessApprovals | sessions | users | membershipInvitations | facts | evidence
  | documents | consents | emergencyAccessRequests | reports | workflowRuns | privacyRequests
  | deletionExecutions | deletionProcessorRequests | legalHolds | exports | subscriptions
  | billingEvents | billingRefunds | idempotencyRecords | accountIdempotencyRecords
  | notificationDeliveries | documentDerivatives
  /-- The unique index on the object keys of documents, with their documents. -/
  | documentObjectKeys
  /-- The object store. It is no part of the database: each of its operations is a transaction
  of one statement. -/
  | objects
  deriving DecidableEq

/-- The unique key the statements on a table conflict on. -/
abbrev VaultTable.Key : VaultTable → Type
  | deletionProcessorRequests => Identifier × String
  | subscriptions => Identifier × Identifier
  | idempotencyRecords => Identifier × Identifier × String
  | accountIdempotencyRecords => Identifier × String
  | notificationDeliveries => Identifier × Identifier
  | documentDerivatives => Identifier × String
  | documentObjectKeys | objects => String
  | _ => Identifier

/-- The row type of a table. -/
abbrev VaultTable.Row : VaultTable → Type
  | organizations => OrganizationRow
  | households => HouseholdRow
  | householdKeys => HouseholdKeyRow
  | people => PersonRow
  | memberships => MembershipRow
  | permissionGrants => PermissionGrantRow
  | supportAccessApprovals => SupportAccessApprovalRow
  | sessions => SessionRow
  | users => UserRow
  | membershipInvitations => MembershipInvitationRow
  | facts => FactRow
  | evidence => EvidenceRow
  | documents => DocumentRow
  | consents => ConsentRow
  | emergencyAccessRequests => EmergencyAccessRow
  | reports => ReportRow
  | workflowRuns => WorkflowRow
  | privacyRequests => PrivacyRequestRow
  | deletionExecutions => DeletionExecutionRow
  | deletionProcessorRequests => DeletionProcessorRow
  | legalHolds => LegalHoldRow
  | exports => ExportRow
  | subscriptions => SubscriptionRow
  | billingEvents => BillingEventRow
  | billingRefunds => BillingRefundRow
  | idempotencyRecords => IdempotencyRow
  | accountIdempotencyRecords => AccountIdempotencyRow
  | notificationDeliveries => NotificationDeliveryRow
  | documentDerivatives => DocumentDerivativeRow
  | documentObjectKeys => Identifier
  | objects => StoredObject

/-- Keys of every table are compared. -/
def VaultTable.keyDecEq : (t : VaultTable) → DecidableEq t.Key
  | deletionProcessorRequests => inferInstanceAs (DecidableEq (Identifier × String))
  | subscriptions => inferInstanceAs (DecidableEq (Identifier × Identifier))
  | idempotencyRecords => inferInstanceAs (DecidableEq (Identifier × Identifier × String))
  | accountIdempotencyRecords => inferInstanceAs (DecidableEq (Identifier × String))
  | notificationDeliveries => inferInstanceAs (DecidableEq (Identifier × Identifier))
  | documentDerivatives => inferInstanceAs (DecidableEq (Identifier × String))
  | documentObjectKeys | objects => inferInstanceAs (DecidableEq String)
  | organizations | households | householdKeys | people | memberships | permissionGrants
  | supportAccessApprovals | sessions | users | membershipInvitations | facts | evidence
  | documents | consents | emergencyAccessRequests | reports | workflowRuns | privacyRequests
  | deletionExecutions | legalHolds | exports | billingEvents | billingRefunds =>
    inferInstanceAs (DecidableEq Identifier)

/-- The vault database schema. -/
abbrev vaultSchema : Schema where
  Table := VaultTable
  Key := VaultTable.Key
  Row := VaultTable.Row
  tableDecEq := inferInstance
  keyDecEq := VaultTable.keyDecEq

/-- A state of the vault database. -/
abbrev Vault := Store vaultSchema

/-- Errors that roll a transaction back. -/
inductive RepositoryError where
  /-- `throw new Error(message)`. -/
  | error (message : String)
  /-- PostgreSQL error 23505 on the named constraint. -/
  | uniqueViolation (constraint : String)
  /-- PostgreSQL error 23514 on the named constraint. -/
  | checkViolation (constraint : String)
  /-- A write the row-level policies refuse. -/
  | rowSecurity
  deriving DecidableEq

/-- A repository transaction. -/
abbrev Transaction (α : Type) := Program vaultSchema RepositoryError α

/-- `throw new Error(message)` inside a transaction. -/
def failWith {α : Type} (message : String) : Transaction α := .rollback (.error message)

/-- Rows that carry a tenant. -/
class TenantRow (ρ : Type) where
  /-- Organization of the row. -/
  organizationOf : ρ → Identifier
  /-- Household of the row. -/
  householdOf : ρ → Identifier

instance : TenantRow HouseholdRow := ⟨HouseholdRow.organizationId, HouseholdRow.id⟩
instance : TenantRow HouseholdKeyRow :=
  ⟨HouseholdKeyRow.organizationId, HouseholdKeyRow.householdId⟩
instance : TenantRow PersonRow := ⟨PersonRow.organizationId, PersonRow.householdId⟩
instance : TenantRow MembershipRow := ⟨MembershipRow.organizationId, MembershipRow.householdId⟩
instance : TenantRow PermissionGrantRow :=
  ⟨PermissionGrantRow.organizationId, PermissionGrantRow.householdId⟩
instance : TenantRow SupportAccessApprovalRow :=
  ⟨SupportAccessApprovalRow.organizationId, SupportAccessApprovalRow.householdId⟩
instance : TenantRow MembershipInvitationRow :=
  ⟨MembershipInvitationRow.organizationId, MembershipInvitationRow.householdId⟩
instance : TenantRow FactRow := ⟨FactRow.organizationId, FactRow.householdId⟩
instance : TenantRow EvidenceRow := ⟨EvidenceRow.organizationId, EvidenceRow.householdId⟩
instance : TenantRow DocumentRow := ⟨DocumentRow.organizationId, DocumentRow.householdId⟩
instance : TenantRow ConsentRow := ⟨ConsentRow.organizationId, ConsentRow.householdId⟩
instance : TenantRow EmergencyAccessRow :=
  ⟨EmergencyAccessRow.organizationId, EmergencyAccessRow.householdId⟩
instance : TenantRow ReportRow := ⟨ReportRow.organizationId, ReportRow.householdId⟩
instance : TenantRow WorkflowRow := ⟨WorkflowRow.organizationId, WorkflowRow.householdId⟩
instance : TenantRow PrivacyRequestRow :=
  ⟨PrivacyRequestRow.organizationId, PrivacyRequestRow.householdId⟩
instance : TenantRow DeletionExecutionRow :=
  ⟨DeletionExecutionRow.organizationId, DeletionExecutionRow.householdId⟩
instance : TenantRow LegalHoldRow := ⟨LegalHoldRow.organizationId, LegalHoldRow.householdId⟩
instance : TenantRow ExportRow := ⟨ExportRow.organizationId, ExportRow.householdId⟩
instance : TenantRow SubscriptionRow :=
  ⟨SubscriptionRow.organizationId, SubscriptionRow.householdId⟩
instance : TenantRow BillingEventRow :=
  ⟨BillingEventRow.organizationId, BillingEventRow.householdId⟩
instance : TenantRow BillingRefundRow :=
  ⟨BillingRefundRow.organizationId, BillingRefundRow.householdId⟩
instance : TenantRow DocumentDerivativeRow :=
  ⟨DocumentDerivativeRow.organizationId, DocumentDerivativeRow.householdId⟩
instance : TenantRow NotificationDeliveryRow :=
  ⟨NotificationDeliveryRow.organizationId, NotificationDeliveryRow.householdId⟩

/-- The row-level policy of tenant tables. -/
def TenantContext.sees {ρ : Type} [TenantRow ρ] (context : TenantContext) (row : ρ) : Bool :=
  TenantRow.organizationOf row == context.organizationId &&
    TenantRow.householdOf row == context.householdId

theorem TenantContext.sees_iff {ρ : Type} [TenantRow ρ] {context : TenantContext} {row : ρ} :
    context.sees row = true ↔ TenantRow.organizationOf row = context.organizationId ∧
      TenantRow.householdOf row = context.householdId := by
  simp [sees]

/-- SHA-256 and HMAC-SHA-256 digests in their text encodings, assumed free of collisions. -/
structure Sha256 where
  /-- `createHash("sha256").update(text).digest("hex")`. -/
  digest : String → String
  /-- `createHmac("sha256", applicationKek).update(text)`, digested. -/
  hmac : String → String
  /-- No two texts share a digest. -/
  collisionFree : Function.Injective digest
  /-- No two texts share a keyed digest. -/
  hmacCollisionFree : Function.Injective hmac

/-- Digests that show their text, for running the model on examples. -/
def Sha256.transparent : Sha256 := ⟨id, id, Function.injective_id, Function.injective_id⟩

/-- The request hash of a request shape. -/
def Sha256.ofJson (sha256 : Sha256) (shape : Json) : String := sha256.digest (stringify shape)

/-- Equal request hashes come from equal request shapes. -/
theorem Sha256.ofJson_inj (sha256 : Sha256) {a b : Json} :
    sha256.ofJson a = sha256.ofJson b ↔ a = b :=
  ⟨fun h => stringify_injective (sha256.collisionFree h), fun h => by rw [h]⟩

/-- Fail when a query finds a row that the named unique constraint rules out. The rows of
transactions in progress are not waited for. -/
def requireUnique (constraint : String) (taken : Vault → Bool) : Transaction Unit := do
  let found ← Program.select taken
  if found then .rollback (.uniqueViolation constraint) else .commit ()

/-- A uniqueness test writes nothing. -/
@[simp] theorem writes_requireUnique
    {Q : (t : VaultTable) → t.Key → Option t.Row → Option t.Row → Prop} (constraint : String)
    (taken : Vault → Bool) :
    Program.Writes (S := vaultSchema) Q (requireUnique constraint taken) := by
  refine Program.writes_bind (Program.writes_select _) (fun found => ?_)
  cases found
  · exact Program.writes_commit _
  · exact Program.writes_rollback _

/-- A uniqueness test fails with its constraint only. -/
theorem raises_requireUnique {Q : RepositoryError → Prop} {constraint : String}
    (h : Q (.uniqueViolation constraint)) (taken : Vault → Bool) :
    Program.Raises Q (requireUnique constraint taken) := by
  refine Program.raises_bind (Program.raises_select _) (fun found => ?_)
  cases found
  · exact Program.raises_commit _
  · exact h

/-- A transaction goes on from a passed uniqueness test with nothing written. -/
theorem executes_of_requireUnique {constraint : String} {taken : Vault → Bool} {α : Type}
    {rest : Unit → Transaction α} {seen : Vault → Prop} {σ : Vault}
    {ws ws' : List (Write vaultSchema)} {a : α}
    (h : (requireUnique constraint taken >>= rest).Executes seen σ ws (.ok a) ws') :
    (rest ()).Executes seen σ ws (.ok a) ws' := by
  obtain ⟨u, ws₁, htest, hrest⟩ := Program.executes_bind_ok.mp h
  obtain ⟨found, ws₂, hselect, hfound⟩ := Program.executes_bind_ok.mp htest
  obtain ⟨-, -, -, rfl⟩ := Program.executes_select.mp hselect
  cases found
  · obtain ⟨-, rfl⟩ := hfound
    exact hrest
  · exact absurd hfound.1 (by simp)

end LegacyVault
