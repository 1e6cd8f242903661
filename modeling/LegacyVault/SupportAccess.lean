import LegacyVault.Library.InterleavedTransactions
import LegacyVault.Library.RowStatements
import LegacyVault.MembershipIdentities

/-!
# Support access

What `PostgresAccessApprovalStore` persists, and what `MembershipIdentityStore`
makes of it for a support agent. The database keeps times to the microsecond;
the `Date` that the driver makes of one keeps whole milliseconds.

`Date.parse` and the database read the bounds of a period each in their own
way, so both are parameters. An authorizer answers for every call anew. What an
identity is given besides grants and approvals is left open.
-/

namespace LegacyVault.SupportAccess

open EcmaText RowTransaction RowTransaction.Program IsoTime

/-- Microseconds since the epoch, as a `timestamptz` column keeps them. -/
abbrev Timestamp := Int

/-- The instant of the `Date` that the driver makes of a stored time. -/
def toDate (time : Timestamp) : Instant := time / 1000

/-- Four hours in microseconds: `interval '4 hours'`. -/
def fourHours : Timestamp := 4 * 60 * 60 * 1000 * 1000

/-- A `support_access_approvals` row, its times as the database keeps them. -/
structure ApprovalRow where
  id : Identifier
  organizationId : Identifier
  householdId : Identifier
  supportMembershipId : Identifier
  approvedByOwnerId : Identifier
  reasonCode : String
  categories : List RecordCategory
  startsAt : Timestamp
  expiresAt : Timestamp
  revokedAt : Option Timestamp
  version : Nat
  deriving DecidableEq

/-- An approval as the policy reads it. -/
def ApprovalRow.approval (row : ApprovalRow) : SupportAccessApproval where
  approvedByOwnerId := row.approvedByOwnerId
  reasonCode := row.reasonCode
  categories := row.categories
  startsAt := toISOString (toDate row.startsAt)
  expiresAt := toISOString (toDate row.expiresAt)
  revokedAt := row.revokedAt.map (fun time => toISOString (toDate time))

/-- The check constraints of the table. -/
def ApprovalRow.checked (row : ApprovalRow) : Bool :=
  decide (3 ≤ row.reasonCode.length ∧ row.reasonCode.length ≤ 120) && decide (0 < row.version) &&
    decide (row.startsAt < row.expiresAt) && decide (row.expiresAt ≤ row.startsAt + fourHours)

/-- The tables that support access is about. -/
inductive SupportTable where
  | memberships | permissionGrants | supportAccessApprovals
  deriving DecidableEq

/-- The schema of these tables. -/
def supportSchema : Schema where
  Table := SupportTable
  Key := fun _ => Identifier
  Row
    | .memberships => MembershipRow
    | .permissionGrants => PermissionGrantRow
    | .supportAccessApprovals => ApprovalRow
  tableDecEq := inferInstance
  keyDecEq := fun _ => inferInstanceAs (DecidableEq String)

/-- The rows of these tables. -/
abbrev SupportRows := Store supportSchema

/-- What an authorizer is asked for an identity. -/
structure AccessScope where
  category : RecordCategory
  action : PermissionAction
  purpose : String

/-- An `AccessAuthorizer` during one call: whether it lets the identity pass. -/
abbrev AccessAuthorizer := AuthenticatedTenantIdentity → AccessScope → Bool

/-- A call of `approveSupportAccess`, with the id it generates. -/
structure ApproveCall where
  owner : AuthenticatedTenantIdentity
  supportMembershipId : Identifier
  reasonCode : String
  categories : List RecordCategory
  startsAt : String
  expiresAt : String
  authorize : AccessAuthorizer
  id : Identifier

/-- A call of `revokeSupportAccess`, with the time its transaction begins. -/
structure RevokeCall where
  owner : AuthenticatedTenantIdentity
  approvalId : Identifier
  expectedVersion : Int
  authorize : AccessAuthorizer
  now : Timestamp

/-- A call of `resolve`, with the time its transaction begins and the categories that are
released to the membership in an emergency. -/
structure ResolveCall where
  authUserId : Identifier
  requestedHouseholdId : Option Identifier
  released : List RecordCategory
  now : Timestamp

/-- What may be asked of the two stores. -/
inductive SupportRequest where
  | approve (call : ApproveCall)
  | revoke (call : RevokeCall)
  | resolve (call : ResolveCall)

/-- Their answers. -/
inductive SupportAnswer where
  | approved (id : Identifier) (version : Nat)
  | revoked (id : Identifier) (version : Nat) (revokedAt : String)
  | identity (identity : ResolvedMembershipIdentity)

/-- Their errors. -/
inductive SupportError where
  /-- `AccessApprovalValidationError`. -/
  | validation (message : String)
  /-- What the authorizer throws. -/
  | denied
  /-- A statement that the database refuses. -/
  | database
  /-- `AuthenticationRequiredError` or `HouseholdSelectionRequiredError`. -/
  | unresolved (message : String)
  deriving DecidableEq

/-- A transaction of the two stores. -/
abbrev SupportTransaction := Program supportSchema SupportError

/-- The readings of a time. -/
structure TimeReadings where
  /-- `Date.parse`. -/
  parse : String → Option Int
  /-- A text that is stored in a `timestamptz` column. -/
  timestamptz : String → Option Timestamp

/-- An instant that a `Date` can hold. -/
def InDateRange (instant : Instant) : Prop :=
  -8640000000000000 ≤ instant ∧ instant ≤ 8640000000000000

instance (instant : Instant) : Decidable (InDateRange instant) := by
  unfold InDateRange
  infer_instance

/-- What the readings are relied on for. -/
structure TimeReadings.Sound (times : TimeReadings) : Prop where
  /-- `Date.parse` reads what `toISOString` writes. -/
  written : ∀ instant, InDateRange instant → times.parse (toISOString instant) = some instant
  /-- A text that `Date.parse` reads is not stored as a time beyond the range of a `Date`. -/
  stored : ∀ text instant time, times.parse text = some instant →
    times.timestamptz text = some time → InDateRange (toDate time)

/-! ## Approving -/

/-- A letter or a digit. -/
def isAlphanumeric (c : Char) : Bool :=
  (65 ≤ c.toNat && c.toNat ≤ 90) || (97 ≤ c.toNat && c.toNat ≤ 122) ||
    (48 ≤ c.toNat && c.toNat ≤ 57)

/-- `/^[A-Za-z0-9][A-Za-z0-9._:-]{2,119}$/u`. -/
def reasonCodeAccepted (reasonCode : String) : Bool :=
  match reasonCode.toList with
  | [] => false
  | first :: rest =>
    isAlphanumeric first && decide (2 ≤ rest.length ∧ rest.length ≤ 119) &&
      rest.all (fun c => isAlphanumeric c || c == '.' || c == '_' || c == ':' || c == '-')

/-- The period has two bounds in order, at most four hours apart. -/
def periodAccepted (startsAt expiresAt : Option Int) : Bool :=
  match startsAt, expiresAt with
  | some startsAt, some expiresAt =>
    decide (startsAt < expiresAt) && decide (expiresAt - startsAt ≤ 4 * 60 * 60 * 1000)
  | _, _ => false

/-- The authorizer lets the identity approve every one of the categories. -/
def approvesEach (authorize : AccessAuthorizer) (owner : AuthenticatedTenantIdentity)
    (categories : List RecordCategory) (purpose : String) : Bool :=
  categories.all (fun category => authorize owner ⟨category, .approve, purpose⟩)

/-- The membership is in the tenant of the identity. -/
def inTenant (owner : AuthenticatedTenantIdentity) (organizationId householdId : Identifier) :
    Bool :=
  organizationId == owner.organizationId && householdId == owner.householdId

/-- The membership that an approval is for, if the tenant of the identity has it. -/
def membershipFor (call : ApproveCall) (σ : SupportRows) : Option MembershipRow :=
  (σ.get .memberships call.supportMembershipId).filter
    (fun row : MembershipRow => inTenant call.owner row.organizationId row.householdId)

/-- The row of an approval with the given bounds. -/
def ApproveCall.row (call : ApproveCall) (startsAt expiresAt : Timestamp) : ApprovalRow where
  id := call.id
  organizationId := call.owner.organizationId
  householdId := call.owner.householdId
  supportMembershipId := call.supportMembershipId
  approvedByOwnerId := call.owner.actorId
  reasonCode := call.reasonCode
  categories := call.categories
  startsAt := startsAt
  expiresAt := expiresAt
  revokedAt := none
  version := 1

section Store

variable (times : TimeReadings)

/-- The bounds of the period, as the database stores them. -/
def storedPeriod (call : ApproveCall) : Option (Timestamp × Timestamp) := do
  let startsAt ← times.timestamptz call.startsAt
  let expiresAt ← times.timestamptz call.expiresAt
  pure (startsAt, expiresAt)

/-- The insert of an approval. -/
def insertApproval (call : ApproveCall) : SupportTransaction SupportAnswer :=
  match storedPeriod times call with
  | none => rollback .database
  | some (startsAt, expiresAt) =>
    let row := call.row startsAt expiresAt
    if row.checked then do
      let _ ← insertRow (S := supportSchema) .supportAccessApprovals row.id row .database
      pure (.approved row.id row.version)
    else rollback .database

/-- `approveSupportAccess`. -/
def approveSupportAccess (call : ApproveCall) : SupportTransaction SupportAnswer :=
  if !reasonCodeAccepted call.reasonCode then rollback (.validation "reason code is invalid")
  else if call.categories = [] ∨ ¬ call.categories.Nodup then
    rollback (.validation "categories are invalid")
  else if !periodAccepted (times.parse call.startsAt) (times.parse call.expiresAt) then
    rollback (.validation "approval period is invalid")
  else if !approvesEach call.authorize call.owner call.categories
      "vault.support-access.approve" then
    rollback .denied
  else do
    let target ← select (membershipFor call)
    if target.any (fun row => row.role == .supportAgent && row.active) then
      insertApproval times call
    else rollback (.validation "support membership is unavailable")

/-! ## Revoking -/

/-- The approval is the tenant's and not revoked. -/
def ApprovalRow.revocable (owner : AuthenticatedTenantIdentity) (row : ApprovalRow) : Bool :=
  inTenant owner row.organizationId row.householdId && row.revokedAt.isNone

/-- The revocation of an approval at the expected version. -/
def revocation (call : RevokeCall) (row : ApprovalRow) : Option ApprovalRow :=
  if row.revocable call.owner && (row.version : Int) == call.expectedVersion then
    some { row with revokedAt := some call.now, version := row.version + 1 }
  else none

/-- `revokeSupportAccess`. -/
def revokeSupportAccess (call : RevokeCall) : SupportTransaction SupportAnswer := do
  let existing ← select (fun σ : SupportRows =>
    (σ.get .supportAccessApprovals call.approvalId).filter (ApprovalRow.revocable call.owner))
  match existing with
  | none => rollback (.validation "approval is unavailable")
  | some existing =>
    if !approvesEach call.authorize call.owner (ApprovalRow.categories existing)
        "vault.support-access.revoke" then
      rollback .denied
    else do
      let row ← updateRow (S := supportSchema) .supportAccessApprovals call.approvalId
        (revocation call)
      match row with
      | none => rollback (.validation "approval revocation conflict or unavailable")
      | some row =>
        pure (.revoked (ApprovalRow.id row) (ApprovalRow.version row)
          (toISOString (toDate call.now)))

/-! ## Resolving an identity -/

/-- Active memberships of an account, in the selected household if one is selected. -/
def activeMemberships (call : ResolveCall) (σ : SupportRows) : List MembershipRow :=
  let active := (σ.rowsOf .memberships).filter (fun membership : MembershipRow =>
    membership.active && call.requestedHouseholdId.all (· == membership.householdId) &&
      membership.authUserId == some call.authUserId)
  (active.insertionSort (fun a b => a.id ≤ b.id)).take 2

/-- Grants of a membership. -/
def membershipGrants (membership : MembershipRow) (σ : SupportRows) : List PermissionGrant :=
  let grants := (σ.rowsOf .permissionGrants).filter (fun grant : PermissionGrantRow =>
    grant.organizationId == membership.organizationId &&
      grant.householdId == membership.householdId && grant.membershipId == membership.id)
  (grants.insertionSort (fun a b =>
    a.startsAt < b.startsAt ∨ (a.startsAt = b.startsAt ∧ a.id ≤ b.id))).map
    PermissionGrantRow.grant

/-- The approval is one of the membership's, not revoked, and its window contains the time. -/
def ApprovalRow.openFor (membership : MembershipRow) (now : Timestamp) (row : ApprovalRow) : Bool :=
  row.organizationId == membership.organizationId && row.householdId == membership.householdId &&
    row.supportMembershipId == membership.id && row.revokedAt.isNone &&
    decide (row.startsAt ≤ now) && decide (now < row.expiresAt)

/-- Approvals of a membership at the time `now`. -/
def openApprovals (membership : MembershipRow) (now : Timestamp) (σ : SupportRows) :
    List SupportAccessApproval :=
  let rows := (σ.rowsOf .supportAccessApprovals).filter (ApprovalRow.openFor membership now)
  (rows.insertionSort (fun a b =>
    a.expiresAt < b.expiresAt ∨ (a.expiresAt = b.expiresAt ∧ a.id ≤ b.id))).map
    ApprovalRow.approval

/-- `MembershipIdentityStore.resolve`. -/
def resolve (call : ResolveCall) : SupportTransaction ResolvedMembershipIdentity := do
  let rows ← select (activeMemberships call)
  match rows with
  | [] => rollback (.unresolved "membership unavailable")
  | row :: others =>
    if call.requestedHouseholdId = none ∧ others ≠ [] then
      rollback (.unresolved "household selection required")
    else do
      let grants ← select (membershipGrants row)
      let supportApprovals ← select (fun σ : SupportRows =>
        if row.role = .supportAgent then openApprovals row call.now σ else [])
      pure {
        organizationId := row.organizationId
        householdId := row.householdId
        actorId := row.personId
        membershipId := row.id
        role := row.role
        grants := grants
        supportApprovals := supportApprovals
        emergencyReleaseCategories :=
          if row.role = .emergencyRecipient then call.released else [] }

/-- Any number of calls, none of which waits for another to be permitted. -/
def supportProtocol : Protocol supportSchema where
  Request := SupportRequest
  Error := SupportError
  Result := SupportAnswer
  program
    | .approve call => approveSupportAccess times call
    | .revoke call => revokeSupportAccess call
    | .resolve call => resolve call >>= fun identity => pure (.identity identity)
  permitted := fun _ _ => True

end Store

end LegacyVault.SupportAccess
