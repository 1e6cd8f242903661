import LegacyVault.Authorization
import LegacyVault.Database
import LegacyVault.Library.IsoTime
import Mathlib.Data.List.Sort

/-!
# Membership identities

What `MembershipIdentityStore` makes of an account: the active membership in
the selected household, with its grants, its support approvals, and the
categories that have been released to it in an emergency. Every statement
reads the rows committed at its own moment.

Stored lists of categories and actions have been written from valid ones, so
reading them back does not fail.
-/

namespace LegacyVault

open RowTransaction RowTransaction.Program IsoTime

/-- `ResolvedMembershipIdentity`. -/
structure ResolvedMembershipIdentity where
  organizationId : Identifier
  householdId : Identifier
  actorId : Identifier
  membershipId : Identifier
  role : Role
  grants : List PermissionGrant
  supportApprovals : List SupportAccessApproval
  emergencyReleaseCategories : List RecordCategory
  deriving DecidableEq

/-- `AuthenticatedTenantIdentity`. -/
structure AuthenticatedTenantIdentity extends ResolvedMembershipIdentity where
  sessionIssuedAt : String
  mfaVerifiedAt : Option String
  deriving DecidableEq

/-- The tenant context of an identity. -/
def ResolvedMembershipIdentity.context (identity : ResolvedMembershipIdentity) : TenantContext :=
  ⟨identity.organizationId, identity.householdId, identity.actorId⟩

/-- A grant as the policy reads it. -/
def PermissionGrantRow.grant (grant : PermissionGrantRow) : PermissionGrant where
  categories := grant.categories
  actions := grant.actions
  purpose := grant.purpose
  startsAt := toISOString grant.startsAt
  expiresAt := grant.expiresAt.map toISOString
  revokedAt := grant.revokedAt.map toISOString

/-- An approval as the policy reads it. -/
def SupportAccessApprovalRow.approval (approval : SupportAccessApprovalRow) :
    SupportAccessApproval where
  approvedByOwnerId := approval.approvedByOwnerId
  reasonCode := approval.reasonCode
  categories := approval.categories
  startsAt := toISOString approval.startsAt
  expiresAt := toISOString approval.expiresAt
  revokedAt := approval.revokedAt.map toISOString

/-- Active memberships of an account, in the selected household if one is selected. -/
def membershipsOf (authUserId : Identifier) (requestedHouseholdId : Option Identifier)
    (σ : Vault) : List MembershipRow :=
  let active := (σ.rowsOf .memberships).filter (fun membership : MembershipRow =>
    membership.active && requestedHouseholdId.all (· == membership.householdId) &&
      membership.authUserId == some authUserId)
  (active.insertionSort (fun a b => a.id ≤ b.id)).take 2

/-- Grants of a membership. -/
def grantsOf (membership : MembershipRow) (σ : Vault) : List PermissionGrant :=
  let grants := (σ.rowsOf .permissionGrants).filter (fun grant : PermissionGrantRow =>
    grant.organizationId == membership.organizationId &&
      grant.householdId == membership.householdId && grant.membershipId == membership.id)
  (grants.insertionSort (fun a b =>
    a.startsAt < b.startsAt ∨ (a.startsAt = b.startsAt ∧ a.id ≤ b.id))).map
    PermissionGrantRow.grant

/-- Approvals of support access through a membership at the database time `now`. -/
def supportApprovalsOf (membership : MembershipRow) (now : Instant) (σ : Vault) :
    List SupportAccessApproval :=
  let approvals := (σ.rowsOf .supportAccessApprovals).filter
    (fun approval : SupportAccessApprovalRow =>
      approval.organizationId == membership.organizationId &&
        approval.householdId == membership.householdId &&
        approval.supportMembershipId == membership.id && approval.revokedAt.isNone &&
        decide (approval.startsAt ≤ now) && decide (now < approval.expiresAt))
  (approvals.insertionSort (fun a b =>
    a.expiresAt < b.expiresAt ∨ (a.expiresAt = b.expiresAt ∧ a.id ≤ b.id))).map
    SupportAccessApprovalRow.approval

/-- The request is released to the membership at the database time `now`. -/
def EmergencyAccessRow.releasedTo (membership : MembershipRow) (now : Instant)
    (request : EmergencyAccessRow) : Bool :=
  request.organizationId == membership.organizationId &&
    request.householdId == membership.householdId &&
    request.recipientMembershipId == membership.id && request.status == .released &&
    request.releaseAfter.any (fun releaseAfter => decide (releaseAfter ≤ now))

/-- Categories released to a membership at the database time `now`, each once. -/
def releasedCategories (membership : MembershipRow) (now : Instant) (σ : Vault) :
    List RecordCategory :=
  let released := (σ.rowsOf .emergencyAccessRequests).filter
    (fun request : EmergencyAccessRow => request.releasedTo membership now)
  ((released.insertionSort (fun a b =>
    a.releaseAfter.getD 0 < b.releaseAfter.getD 0 ∨
      (a.releaseAfter = b.releaseAfter ∧ a.id ≤ b.id))).flatMap
    EmergencyAccessRow.categories).eraseDups

/-- `MembershipIdentityStore.resolve`. -/
def resolveMembership (authUserId : Identifier) (requestedHouseholdId : Option Identifier)
    (now : Instant) : Transaction ResolvedMembershipIdentity := do
  let rows ← select (membershipsOf authUserId requestedHouseholdId)
  match rows with
  | [] => failWith "membership unavailable"
  | row :: others =>
    if requestedHouseholdId = none ∧ others ≠ [] then failWith "household selection required"
    else do
      let grants ← select (grantsOf row)
      let supportApprovals ← select (fun σ : Vault =>
        if row.role = .supportAgent then supportApprovalsOf row now σ else [])
      let emergencyReleaseCategories ← select (fun σ : Vault =>
        if row.role = .emergencyRecipient then releasedCategories row now σ else [])
      pure {
        organizationId := row.organizationId
        householdId := row.householdId
        actorId := row.personId
        membershipId := row.id
        role := row.role
        grants := grants
        supportApprovals := supportApprovals
        emergencyReleaseCategories := emergencyReleaseCategories }

/-- `requireIdentityAuthorization`: it throws unless the policy allows the request. -/
def requireIdentityAuthorization (parse : String → Option Int)
    (identity : AuthenticatedTenantIdentity) (category : RecordCategory)
    (action : PermissionAction) (purpose : String) (now : Instant) : Bool :=
  (authorize parse {
    role := identity.role
    grants := identity.grants
    category := category
    action := action
    purpose := purpose
    now := toISOString now
    sessionIssuedAt := identity.sessionIssuedAt
    mfaVerifiedAt := identity.mfaVerifiedAt
    supportApprovals := some identity.supportApprovals
    emergencyReleaseCategories := some identity.emergencyReleaseCategories }).allowed

/-- Resolving an identity writes nothing. -/
theorem resolveMembership_readOnly (authUserId : Identifier)
    (requestedHouseholdId : Option Identifier) (now : Instant) :
    (resolveMembership authUserId requestedHouseholdId now).ReadOnly := by
  refine writes_bind (writes_select _) (fun rows => ?_)
  cases rows with
  | nil => exact writes_rollback _
  | cons row others =>
    simp only
    split
    · exact writes_rollback _
    · exact writes_bind (writes_select _) (fun grants => writes_bind (writes_select _)
        (fun approvals => writes_bind (writes_select _) (fun released => writes_commit _)))

/-- A category in a membership's identity is listed in a request released to it. -/
theorem mem_releasedCategories {membership : MembershipRow} {now : Instant} {σ : Vault}
    {category : RecordCategory} (h : category ∈ releasedCategories membership now σ) :
    ∃ (k : Identifier) (request : EmergencyAccessRow),
      σ.get .emergencyAccessRequests k = some request ∧
      request.releasedTo membership now = true ∧ category ∈ request.categories := by
  rw [releasedCategories, List.mem_eraseDups] at h
  obtain ⟨request, hmem, hcategory⟩ := List.mem_flatMap.mp h
  obtain ⟨hmem, hreleased⟩ := List.mem_filter.mp ((List.perm_insertionSort _ _).mem_iff.mp hmem)
  obtain ⟨k, hrow⟩ := Store.mem_rowsOf.mp hmem
  exact ⟨k, request, hrow, hreleased, hcategory⟩

/-- An account's membership is one of the rows. -/
theorem mem_membershipsOf {authUserId : Identifier} {requestedHouseholdId : Option Identifier}
    {σ : Vault} {membership : MembershipRow}
    (h : membership ∈ membershipsOf authUserId requestedHouseholdId σ) :
    ∃ k : Identifier, σ.get .memberships k = some membership := by
  have hsorted := List.mem_of_mem_take h
  have hmem := (List.perm_insertionSort _ _).mem_iff.mp hsorted
  exact Store.mem_rowsOf.mp (List.mem_filter.mp hmem).1

/-- The identity of an emergency recipient comes from a membership row and from the requests
released to it. -/
theorem executes_resolveMembership {authUserId : Identifier}
    {requestedHouseholdId : Option Identifier} {now : Instant}
    {identity : ResolvedMembershipIdentity} {seen : Vault → Prop} {σ : Vault}
    {ws ws' : List (Write vaultSchema)}
    (h : (resolveMembership authUserId requestedHouseholdId now).Executes seen σ ws
      (.ok identity) ws') :
    ∃ (σ₀ : Vault) (k : Identifier) (membership : MembershipRow), seen σ₀ ∧
      (σ₀.overlay ws).get .memberships k = some membership ∧
      identity.membershipId = membership.id ∧ identity.actorId = membership.personId ∧
      ∀ category ∈ identity.emergencyReleaseCategories, ∃ σ₁, seen σ₁ ∧
        category ∈ releasedCategories membership now (σ₁.overlay ws) := by
  obtain ⟨rows, ws₁, hrows, h⟩ := executes_bind_ok.mp h
  obtain ⟨σ₀, hseen, hfound, hws⟩ := executes_select.mp hrows
  obtain rfl : ws = ws₁ := hws.symm
  obtain rfl := Except.ok.inj hfound
  split at h
  · exact absurd h.1 (by simp)
  rename_i row others hmatch
  split at h
  · exact absurd h.1 (by simp)
  obtain ⟨k, hrow⟩ := mem_membershipsOf (hmatch ▸ List.mem_cons_self)
  obtain ⟨grants, ws₂, hgrants, h⟩ := executes_bind_ok.mp h
  obtain ⟨-, -, -, hws₂⟩ := executes_select.mp hgrants
  obtain ⟨approvals, ws₃, happrovals, h⟩ := executes_bind_ok.mp h
  obtain ⟨-, -, -, hws₃⟩ := executes_select.mp happrovals
  obtain ⟨released, ws₄, hreleased, hidentity, -⟩ := executes_bind_ok.mp h
  obtain ⟨σ₁, hseen₁, hcategories, -⟩ := executes_select.mp hreleased
  obtain rfl := Except.ok.inj hidentity
  refine ⟨σ₀, k, row, hseen, hrow, rfl, rfl, ?_⟩
  intro category hcategory
  rw [Except.ok.inj hcategories, hws₃, hws₂] at hcategory
  split at hcategory
  · exact ⟨σ₁, hseen₁, hcategory⟩
  · exact absurd hcategory (by simp)

end LegacyVault
