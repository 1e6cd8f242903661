import LegacyVault.IdempotencyRecords
import LegacyVault.Library.IsoTime

/-!
# Households and memberships

Household creation, invitations, and role changes: what the API runtime hands
to the repository, and the repository transactions. Every one of them
reserves its idempotency key, mutates and stores its response in one
transaction. Household creation and acceptance run under the account, the
others under the tenant.

Generated identifiers, nonces and clock readings are inputs. Sending the
invitation e-mail after the commit is not modelled.
-/

namespace LegacyVault

open JsonText RowTransaction RowTransaction.Program IsoTime

/-- `assignableHouseholdRoles`. -/
def assignableHouseholdRoles : List Role :=
  [.coOwner, .editor, .familyHelper, .professionalAdvisor, .readOnlyViewer, .emergencyRecipient]

/-- The new household as a response member. -/
def householdJson (household : HouseholdRow) : Json :=
  .obj [("id", .str household.id), ("name", .str household.name),
    ("version", .nat household.version)]

/-- A membership as a response member. -/
def membershipJson (membership : MembershipRow) : Json :=
  .obj [("id", .str membership.id), ("role", .str membership.role.text),
    ("version", .nat membership.version)]

/-- Insert a person, as creation and acceptance do. -/
def insertPerson (person : PersonRow) : Transaction Unit := do
  let _ ← insertRow (S := vaultSchema) .people person.id person (.uniqueViolation "people_pkey")
  pure ()

/-- Insert a membership. An account has at most one in a household. -/
def insertMembership (membership : MembershipRow) : Transaction Unit := do
  requireUnique "memberships_auth_user_household_unique" (fun σ =>
    (σ.rowsOf .memberships).any (fun other : MembershipRow =>
      other.organizationId == membership.organizationId &&
        other.householdId == membership.householdId && membership.authUserId.isSome &&
        other.authUserId == membership.authUserId))
  let _ ← insertRow (S := vaultSchema) .memberships membership.id membership
    (.uniqueViolation "memberships_pkey")
  pure ()

/-- Raise a household's version. Returns the row afterwards. -/
def raiseHouseholdVersion (householdId : Identifier) (condition : HouseholdRow → Bool) :
    Transaction (Option HouseholdRow) :=
  updateRow (S := vaultSchema) .households householdId (fun household : HouseholdRow =>
    if condition household then some { household with version := household.version + 1 } else none)

/-- Inserting a person writes people only. -/
theorem insertPerson_leaves {t : VaultTable} (h : t ≠ .people) (person : PersonRow) :
    (insertPerson person).Leaves t :=
  writes_bind (writes_insertRow h) (fun _ => writes_commit _)

theorem insertPerson_raises {Q : RepositoryError → Prop} (h : Q (.uniqueViolation "people_pkey"))
    (person : PersonRow) : (insertPerson person).Raises Q :=
  raises_bind (raises_insertRow h) (fun _ => raises_commit _)

/-- Inserting a membership writes memberships only. -/
theorem insertMembership_leaves {t : VaultTable} (h : t ≠ .memberships)
    (membership : MembershipRow) : (insertMembership membership).Leaves t :=
  writes_bind (writes_requireUnique _ _) (fun _ =>
    writes_bind (writes_insertRow h) (fun _ => writes_commit _))

theorem insertMembership_raises {Q : RepositoryError → Prop}
    (hunique : Q (.uniqueViolation "memberships_auth_user_household_unique"))
    (hkey : Q (.uniqueViolation "memberships_pkey")) (membership : MembershipRow) :
    (insertMembership membership).Raises Q :=
  raises_bind (raises_requireUnique hunique _) (fun _ =>
    raises_bind (raises_insertRow hkey) (fun _ => raises_commit _))

/-- Raising a household's version writes households only. -/
theorem raiseHouseholdVersion_leaves {t : VaultTable} (h : t ≠ .households)
    (householdId : Identifier) (condition : HouseholdRow → Bool) :
    (raiseHouseholdVersion householdId condition).Leaves t :=
  writes_updateRow (fun _ _ _ => h)

/-! ## Household creation -/

/-- What the caller of household creation supplies. -/
@[ext] structure CreateHouseholdInput where
  organizationName : String
  householdName : String
  ownerDisplayName : String
  deriving DecidableEq

/-- What the runtime generates for household creation. -/
structure CreateHouseholdGenerated where
  organizationId : Identifier
  householdId : Identifier
  personId : Identifier
  membershipId : Identifier
  householdKeyId : Identifier
  plaintextKey : SymmetricKey
  wrapIv : Nat
  displayNameIv : Nat
  deriving DecidableEq

/-- What the repository receives for household creation. -/
structure HouseholdWrite where
  organizationId : Identifier
  organizationName : String
  householdId : Identifier
  householdName : String
  personId : Identifier
  membershipId : Identifier
  displayNameCiphertext : Sealed
  keyVersion : Nat
  householdKeyId : Identifier
  wrappedHouseholdKey : Sealed
  deriving DecidableEq

/-- The context a household key is wrapped in. -/
def householdKeyContext (organizationId householdId : Identifier) (keyVersion : Nat) :
    EncryptionContext :=
  ⟨organizationId, householdId, householdId, "household-dek", keyVersion⟩

/-- The context a display name is sealed in. -/
def displayNameContext (organizationId householdId personId : Identifier) (keyVersion : Nat) :
    EncryptionContext :=
  ⟨organizationId, householdId, personId, "person-display-name", keyVersion⟩

/-- `createHousehold` of the API runtime, up to the repository call. -/
def createHouseholdWrite (applicationKek : SymmetricKey) (input : CreateHouseholdInput)
    (generated : CreateHouseholdGenerated) : HouseholdWrite where
  organizationId := generated.organizationId
  organizationName := input.organizationName
  householdId := generated.householdId
  householdName := input.householdName
  personId := generated.personId
  membershipId := generated.membershipId
  displayNameCiphertext := encryptEnvelope (.data input.ownerDisplayName) generated.plaintextKey
    (displayNameContext generated.organizationId generated.householdId generated.personId 1)
    generated.displayNameIv
  keyVersion := 1
  householdKeyId := generated.householdKeyId
  wrappedHouseholdKey := encryptEnvelope (.key generated.plaintextKey) applicationKek
    (householdKeyContext generated.organizationId generated.householdId 1) generated.wrapIv

/-- The request shape `createHouseholdForAccount` hashes. -/
def HouseholdWrite.shape (input : HouseholdWrite) : Json :=
  .obj [("organizationName", .str input.organizationName),
    ("householdName", .str input.householdName), ("expectedVersion", .nat 0)]

/-- The inserts of `createHouseholdForAccount`. -/
def createHouseholdMutation (context : AccountContext) (input : HouseholdWrite) :
    Transaction Json := do
  let _ ← insertRow (S := vaultSchema) .organizations input.organizationId
    (⟨input.organizationId, input.organizationName⟩ : OrganizationRow)
    (.uniqueViolation "organizations_pkey")
  let household : HouseholdRow :=
    ⟨input.householdId, input.organizationId, input.householdName, 1⟩
  let _ ← insertRow (S := vaultSchema) .households input.householdId household
    (.uniqueViolation "households_pkey")
  requireUnique "household_keys_one_active" (fun σ =>
    (σ.rowsOf .householdKeys).any (fun key : HouseholdKeyRow =>
      key.householdId == input.householdId))
  let _ ← insertRow (S := vaultSchema) .householdKeys input.householdKeyId
    (⟨input.householdKeyId, input.organizationId, input.householdId, input.keyVersion,
      input.wrappedHouseholdKey, .active⟩ : HouseholdKeyRow)
    (.uniqueViolation "household_keys_pkey")
  insertPerson ⟨input.personId, input.organizationId, input.householdId,
    input.displayNameCiphertext, input.keyVersion, 1⟩
  let membership : MembershipRow :=
    ⟨input.membershipId, input.organizationId, input.householdId, input.personId, .owner, true,
      some context.authUserId, 1⟩
  insertMembership membership
  pure (.obj [("household", householdJson household), ("membership", membershipJson membership)])

/-- Household creation writes the new household's rows only. -/
theorem createHouseholdMutation_leaves {t : VaultTable} (horganizations : t ≠ .organizations)
    (hhouseholds : t ≠ .households) (hkeys : t ≠ .householdKeys) (hpeople : t ≠ .people)
    (hmemberships : t ≠ .memberships) (context : AccountContext) (input : HouseholdWrite) :
    (createHouseholdMutation context input).Leaves t := by
  refine writes_bind (writes_insertRow horganizations) (fun _ => ?_)
  refine writes_bind (writes_insertRow hhouseholds) (fun _ => ?_)
  refine writes_bind (writes_requireUnique _ _) (fun _ => ?_)
  refine writes_bind (writes_insertRow hkeys) (fun _ => ?_)
  refine writes_bind (insertPerson_leaves hpeople _) (fun _ => ?_)
  exact writes_bind (insertMembership_leaves hmemberships _) (fun _ => writes_commit _)

/-- What household creation fails with. -/
def createHouseholdFailures : List RepositoryError :=
  [.uniqueViolation "organizations_pkey", .uniqueViolation "households_pkey",
    .uniqueViolation "household_keys_one_active", .uniqueViolation "household_keys_pkey",
    .uniqueViolation "people_pkey", .uniqueViolation "memberships_auth_user_household_unique",
    .uniqueViolation "memberships_pkey"]

theorem createHouseholdMutation_raises (context : AccountContext) (input : HouseholdWrite) :
    (createHouseholdMutation context input).Raises (· ∈ createHouseholdFailures) := by
  refine raises_bind (raises_insertRow (by decide)) (fun _ => ?_)
  refine raises_bind (raises_insertRow (by decide)) (fun _ => ?_)
  refine raises_bind (raises_requireUnique (by decide) _) (fun _ => ?_)
  refine raises_bind (raises_insertRow (by decide)) (fun _ => ?_)
  refine raises_bind (insertPerson_raises (by decide) _) (fun _ => ?_)
  exact raises_bind (insertMembership_raises (by decide) (by decide) _)
    (fun _ => raises_commit _)

/-- Errors of household creation on an existing record. -/
def createHouseholdErrors : RecordErrors :=
  ⟨"account idempotency key conflict", "household creation is still processing"⟩

/-- `createHouseholdForAccount`. -/
def createHouseholdForAccount (sha256 : Sha256) (context : AccountContext) (key : String)
    (input : HouseholdWrite) (now : Instant) : Transaction (Answer Json) :=
  withAccountRecord context key (sha256.ofJson input.shape) now createHouseholdErrors
    (createHouseholdMutation context input)

/-! ## Invitations -/

/-- What the caller of invitation creation supplies. -/
@[ext] structure CreateInvitationInput where
  /-- The e-mail address, trimmed and in lower case. -/
  email : String
  role : Role
  expectedHouseholdVersion : Nat
  deriving DecidableEq

/-- What the repository receives for invitation creation. -/
structure InvitationWrite where
  expectedHouseholdVersion : Nat
  invitationId : Identifier
  emailHash : String
  tokenHash : String
  role : Role
  invitedBy : Identifier
  expiresAt : Instant
  deriving DecidableEq

/-- The keyed hash of an invited e-mail address. -/
def invitationEmailHash (sha256 : Sha256) (email : String) : String :=
  sha256.hmac ("membership-invite-email:" ++ email)

/-- `createInvitation` of the API runtime, up to the repository call. -/
def createInvitationWrite (sha256 : Sha256) (context : TenantContext) (membershipId : Identifier)
    (key : String) (input : CreateInvitationInput) (invitationId : Identifier) (now : Instant) :
    InvitationWrite :=
  let emailHash := invitationEmailHash sha256 input.email
  let token := sha256.hmac ("membership-invite-token:" ++ context.organizationId ++ ":" ++
    context.householdId ++ ":" ++ key ++ ":" ++ emailHash)
  { expectedHouseholdVersion := input.expectedHouseholdVersion
    invitationId := invitationId
    emailHash := emailHash
    tokenHash := sha256.digest token
    role := input.role
    invitedBy := membershipId
    expiresAt := now + 72 * 60 * 60 * 1000 }

/-- The request shape `createMembershipInvitation` hashes. -/
def InvitationWrite.shape (input : InvitationWrite) : Json :=
  .obj [("emailHash", .str input.emailHash), ("role", .str input.role.text),
    ("expectedHouseholdVersion", .nat input.expectedHouseholdVersion)]

/-- The mutation of `createMembershipInvitation`. -/
def createInvitationMutation (context : TenantContext) (input : InvitationWrite) :
    Transaction Json := do
  let household ← raiseHouseholdVersion context.householdId (fun household =>
    context.sees household && household.version == input.expectedHouseholdVersion)
  match household with
  | none => failWith "membership invitation version conflict"
  | some household => do
    let taken ← select (fun σ : Vault => (σ.rowsOf .membershipInvitations).any
      (fun other : MembershipInvitationRow => other.tokenHash == input.tokenHash ||
        (context.sees other && other.emailHash == input.emailHash && other.acceptedAt.isNone &&
          other.revokedAt.isNone)))
    if taken then failWith "membership invitation conflict"
    else do
      let invitation : MembershipInvitationRow :=
        ⟨input.invitationId, context.organizationId, context.householdId, input.emailHash,
          input.tokenHash, input.role, input.invitedBy, input.expiresAt, none, none, none, 1⟩
      let _ ← insertRow (S := vaultSchema) .membershipInvitations input.invitationId invitation
        (.error "membership invitation conflict")
      pure (.obj [("invitation", .obj [("id", .str invitation.id),
          ("role", .str invitation.role.text),
          ("expiresAt", .str (toISOString invitation.expiresAt)),
          ("version", .nat invitation.version)]),
        ("householdVersion", .nat household.version)])

/-- Invitation creation writes households and invitations only. -/
theorem createInvitationMutation_leaves {t : VaultTable} (hhouseholds : t ≠ .households)
    (hinvitations : t ≠ .membershipInvitations) (context : TenantContext)
    (input : InvitationWrite) : (createInvitationMutation context input).Leaves t := by
  refine writes_bind (raiseHouseholdVersion_leaves hhouseholds _ _) (fun household => ?_)
  split
  · exact writes_rollback _
  refine writes_bind (writes_select _) (fun taken => ?_)
  split
  · exact writes_rollback _
  · exact writes_bind (writes_insertRow hinvitations) (fun _ => writes_commit _)

/-- What invitation creation fails with. -/
def createInvitationFailures : List RepositoryError :=
  [.error "membership invitation version conflict", .error "membership invitation conflict"]

theorem createInvitationMutation_raises (context : TenantContext) (input : InvitationWrite) :
    (createInvitationMutation context input).Raises (· ∈ createInvitationFailures) := by
  refine raises_bind (raises_updateRow _ _ _) (fun household => ?_)
  split
  · exact List.mem_cons_self
  refine raises_bind (raises_select _) (fun taken => ?_)
  split
  · exact List.mem_cons_of_mem _ List.mem_cons_self
  · exact raises_bind (raises_insertRow (by decide)) (fun _ => raises_commit _)

/-- Errors of invitation creation on an existing record. -/
def createInvitationErrors : RecordErrors :=
  ⟨"membership invitation idempotency conflict", "membership invitation is still processing"⟩

/-- `createMembershipInvitation`. -/
def createMembershipInvitation (sha256 : Sha256) (context : TenantContext) (key : String)
    (input : InvitationWrite) (now : Instant) : Transaction (Answer Json) :=
  if input.role ∈ assignableHouseholdRoles then
    withTenantRecord context key (sha256.ofJson input.shape) now 201 createInvitationErrors
      (createInvitationMutation context input)
  else failWith "membership role is not assignable"

/-- Input of `revokeMembershipInvitation` that the caller supplies. -/
@[ext] structure RevokeInvitationInput where
  invitationId : Identifier
  expectedVersion : Nat
  deriving DecidableEq

/-- The request shape `revokeMembershipInvitation` hashes. -/
def RevokeInvitationInput.shape (input : RevokeInvitationInput) : Json :=
  .obj [("invitationId", .str input.invitationId), ("expectedVersion", .nat input.expectedVersion)]

/-- The mutation of `revokeMembershipInvitation`. -/
def revokeInvitationMutation (context : TenantContext) (input : RevokeInvitationInput)
    (revokedAt : Instant) : Transaction Json := do
  let invitation ← updateRow (S := vaultSchema) .membershipInvitations input.invitationId
    (fun invitation : MembershipInvitationRow =>
      if context.sees invitation ∧ invitation.version = input.expectedVersion ∧
          invitation.acceptedAt = none ∧ invitation.revokedAt = none then
        some { invitation with revokedAt := some revokedAt, version := invitation.version + 1 }
      else none)
  match invitation with
  | none => failWith "membership invitation revocation conflict"
  | some invitation => do
    let household ← raiseHouseholdVersion context.householdId (fun household =>
      context.sees household)
    match household with
    | none => failWith "membership invitation household update failed"
    | some household =>
      pure (.obj [("invitation", .obj [("id", .str invitation.id), ("status", .str "revoked"),
          ("version", .nat invitation.version)]),
        ("householdVersion", .nat household.version)])

/-- Invitation revocation writes invitations and households only. -/
theorem revokeInvitationMutation_leaves {t : VaultTable} (hhouseholds : t ≠ .households)
    (hinvitations : t ≠ .membershipInvitations) (context : TenantContext)
    (input : RevokeInvitationInput) (revokedAt : Instant) :
    (revokeInvitationMutation context input revokedAt).Leaves t := by
  refine writes_bind (writes_updateRow (fun _ _ _ => hinvitations)) (fun invitation => ?_)
  split
  · exact writes_rollback _
  refine writes_bind (raiseHouseholdVersion_leaves hhouseholds _ _) (fun household => ?_)
  split
  · exact writes_rollback _
  · exact writes_commit _

/-- What invitation revocation fails with. -/
def revokeInvitationFailures : List RepositoryError :=
  [.error "membership invitation revocation conflict",
    .error "membership invitation household update failed"]

theorem revokeInvitationMutation_raises (context : TenantContext) (input : RevokeInvitationInput)
    (revokedAt : Instant) :
    (revokeInvitationMutation context input revokedAt).Raises (· ∈ revokeInvitationFailures) := by
  refine raises_bind (raises_updateRow _ _ _) (fun invitation => ?_)
  split
  · exact List.mem_cons_self
  refine raises_bind (raises_updateRow _ _ _) (fun household => ?_)
  split
  · exact List.mem_cons_of_mem _ List.mem_cons_self
  · exact raises_commit _

/-- Errors of invitation revocation on an existing record. -/
def revokeInvitationErrors : RecordErrors :=
  ⟨"invitation revocation idempotency conflict", "invitation revocation is still processing"⟩

/-- `revokeMembershipInvitation`. -/
def revokeMembershipInvitation (sha256 : Sha256) (context : TenantContext) (key : String)
    (input : RevokeInvitationInput) (revokedAt now : Instant) : Transaction (Answer Json) :=
  withTenantRecord context key (sha256.ofJson input.shape) now 200 revokeInvitationErrors
    (revokeInvitationMutation context input revokedAt)

/-! ## Roles -/

/-- Input of `updateMembershipRole` that the caller supplies. -/
@[ext] structure UpdateRoleInput where
  membershipId : Identifier
  role : Role
  expectedVersion : Nat
  deriving DecidableEq

/-- The request shape `updateMembershipRole` hashes. -/
def UpdateRoleInput.shape (input : UpdateRoleInput) : Json :=
  .obj [("membershipId", .str input.membershipId), ("role", .str input.role.text),
    ("expectedVersion", .nat input.expectedVersion)]

/-- The mutation of `updateMembershipRole`. -/
def updateRoleMutation (context : TenantContext) (input : UpdateRoleInput) :
    Transaction Json := do
  let membership ← updateRow (S := vaultSchema) .memberships input.membershipId
    (fun membership : MembershipRow =>
      if context.sees membership ∧ membership.version = input.expectedVersion ∧
          membership.active = true ∧ membership.role ≠ .owner then
        some { membership with role := input.role, version := membership.version + 1 }
      else none)
  match membership with
  | none => failWith "membership role update conflict"
  | some membership => do
    let household ← raiseHouseholdVersion context.householdId (fun household =>
      context.sees household)
    match household with
    | none => failWith "membership household update failed"
    | some household =>
      pure (.obj [("membership", membershipJson membership),
        ("householdVersion", .nat household.version)])

/-- A role change writes memberships and households only. -/
theorem updateRoleMutation_leaves {t : VaultTable} (hmemberships : t ≠ .memberships)
    (hhouseholds : t ≠ .households) (context : TenantContext) (input : UpdateRoleInput) :
    (updateRoleMutation context input).Leaves t := by
  refine writes_bind (writes_updateRow (fun _ _ _ => hmemberships)) (fun membership => ?_)
  split
  · exact writes_rollback _
  refine writes_bind (raiseHouseholdVersion_leaves hhouseholds _ _) (fun household => ?_)
  split
  · exact writes_rollback _
  · exact writes_commit _

/-- What a role change fails with. -/
def updateRoleFailures : List RepositoryError :=
  [.error "membership role update conflict", .error "membership household update failed"]

theorem updateRoleMutation_raises (context : TenantContext) (input : UpdateRoleInput) :
    (updateRoleMutation context input).Raises (· ∈ updateRoleFailures) := by
  refine raises_bind (raises_updateRow _ _ _) (fun membership => ?_)
  split
  · exact List.mem_cons_self
  refine raises_bind (raises_updateRow _ _ _) (fun household => ?_)
  split
  · exact List.mem_cons_of_mem _ List.mem_cons_self
  · exact raises_commit _

/-- Errors of a role change on an existing record. -/
def updateRoleErrors : RecordErrors :=
  ⟨"membership role idempotency conflict", "membership role update is still processing"⟩

/-- `updateMembershipRole`. -/
def updateMembershipRole (sha256 : Sha256) (context : TenantContext) (key : String)
    (input : UpdateRoleInput) (now : Instant) : Transaction (Answer Json) :=
  if input.role ∈ assignableHouseholdRoles then
    withTenantRecord context key (sha256.ofJson input.shape) now 200 updateRoleErrors
      (updateRoleMutation context input)
  else failWith "membership role is not assignable"

/-! ## Acceptance -/

/-- What the caller of invitation acceptance supplies, with the e-mail of the account. -/
@[ext] structure AcceptInvitationInput where
  token : String
  /-- The account's e-mail address, trimmed and in lower case. -/
  email : String
  displayName : String
  expectedInvitationVersion : Nat
  deriving DecidableEq

/-- What the runtime generates or looks up for acceptance. -/
structure AcceptInvitationGenerated where
  /-- Tenant of the invitation that was looked up. -/
  organizationId : Identifier
  householdId : Identifier
  personId : Identifier
  membershipId : Identifier
  plaintextKey : SymmetricKey
  keyVersion : Nat
  displayNameIv : Nat
  deriving DecidableEq

/-- `MembershipInvitationAcceptanceContext`. -/
structure InvitationAcceptanceContext where
  id : Identifier
  organizationId : Identifier
  householdId : Identifier
  role : Role
  version : Nat
  expiresAt : Instant
  deriving DecidableEq

/-- The account may accept the invitation, or has accepted it. -/
def MembershipInvitationRow.acceptable (invitation : MembershipInvitationRow)
    (context : AccountContext) (emailHash : String) (now : Instant) : Bool :=
  let acceptedByThisAccount := invitation.acceptedAt.isSome &&
    invitation.acceptedByAuthUserId == some context.authUserId
  invitation.emailHash == emailHash && invitation.revokedAt.isNone &&
    (acceptedByThisAccount ||
      (invitation.acceptedAt.isNone && decide (now < invitation.expiresAt)))

/-- The acceptable invitation with a token. -/
def acceptableInvitation (context : AccountContext) (tokenHash emailHash : String) (now : Instant)
    (σ : Vault) : Option MembershipInvitationRow :=
  ((σ.rowsOf .membershipInvitations).find?
    (fun invitation : MembershipInvitationRow => invitation.tokenHash == tokenHash)).filter
      (·.acceptable context emailHash now)

/-- `getMembershipInvitationForAcceptance`. -/
def getMembershipInvitationForAcceptance (context : AccountContext) (tokenHash emailHash : String)
    (now : Instant) : Transaction (Option InvitationAcceptanceContext) := do
  let found ← select (acceptableInvitation context tokenHash emailHash now)
  pure (found.map (fun invitation => ⟨invitation.id, invitation.organizationId,
    invitation.householdId, invitation.role, invitation.version, invitation.expiresAt⟩))

/-- What the repository receives for acceptance. -/
structure AcceptanceWrite where
  tokenHash : String
  emailHash : String
  displayNameHash : String
  expectedInvitationVersion : Nat
  personId : Identifier
  membershipId : Identifier
  displayNameCiphertext : Sealed
  keyVersion : Nat
  acceptedAt : Instant
  deriving DecidableEq

/-- `acceptInvitation` of the API runtime, at the repository call. -/
def acceptInvitationWrite (sha256 : Sha256) (input : AcceptInvitationInput)
    (generated : AcceptInvitationGenerated) (acceptedAt : Instant) : AcceptanceWrite where
  tokenHash := sha256.digest input.token
  emailHash := invitationEmailHash sha256 input.email
  displayNameHash := sha256.digest input.displayName
  expectedInvitationVersion := input.expectedInvitationVersion
  personId := generated.personId
  membershipId := generated.membershipId
  displayNameCiphertext := encryptEnvelope (.data input.displayName) generated.plaintextKey
    (displayNameContext generated.organizationId generated.householdId generated.personId
      generated.keyVersion) generated.displayNameIv
  keyVersion := generated.keyVersion
  acceptedAt := acceptedAt

/-- The request shape `acceptMembershipInvitation` hashes. -/
def AcceptanceWrite.shape (input : AcceptanceWrite) : Json :=
  .obj [("tokenHash", .str input.tokenHash), ("emailHash", .str input.emailHash),
    ("displayNameHash", .str input.displayNameHash),
    ("expectedInvitationVersion", .nat input.expectedInvitationVersion)]

/-- The invitation is addressed to the account and can still be accepted. -/
def MembershipInvitationRow.available (invitation : MembershipInvitationRow)
    (input : AcceptanceWrite) : Bool :=
  invitation.emailHash == input.emailHash && invitation.acceptedAt.isNone &&
    invitation.revokedAt.isNone && decide (input.acceptedAt < invitation.expiresAt)

/-- The mutation of `acceptMembershipInvitation`. -/
def acceptInvitationMutation (context : AccountContext) (input : AcceptanceWrite) :
    Transaction Json := do
  let visible ← select (fun σ : Vault => (σ.rowsOf .membershipInvitations).find?
    (fun invitation : MembershipInvitationRow => invitation.tokenHash == input.tokenHash))
  match visible.filter (·.available input) with
  | none => failWith "membership invitation unavailable"
  | some visibleRow => do
    let tenant : TenantContext :=
      ⟨visibleRow.organizationId, visibleRow.householdId, context.authUserId⟩
    let locked ← lockRow (S := vaultSchema) .membershipInvitations visibleRow.id
      (fun invitation : MembershipInvitationRow => tenant.sees invitation)
    match locked.filter
      (fun invitation : MembershipInvitationRow => invitation.available input) with
    | none => failWith "membership invitation unavailable"
    | some invitation =>
      if invitation.version ≠ input.expectedInvitationVersion then
        failWith "membership invitation version conflict"
      else do
        insertPerson ⟨input.personId, invitation.organizationId, invitation.householdId,
          input.displayNameCiphertext, input.keyVersion, 1⟩
        let membership : MembershipRow :=
          ⟨input.membershipId, invitation.organizationId, invitation.householdId, input.personId,
            invitation.role, true, some context.authUserId, 1⟩
        insertMembership membership
        let accepted ← updateRow (S := vaultSchema) .membershipInvitations invitation.id
          (fun row : MembershipInvitationRow =>
            if row.version = input.expectedInvitationVersion ∧ row.acceptedAt = none ∧
                row.revokedAt = none then
              some { row with
                acceptedAt := some input.acceptedAt
                acceptedByAuthUserId := some context.authUserId
                version := row.version + 1 }
            else none)
        match accepted with
        | none => failWith "membership invitation version conflict"
        | some _ => do
          let household ← raiseHouseholdVersion invitation.householdId (fun household =>
            tenant.sees household)
          match household with
          | none => failWith "membership acceptance returned no row"
          | some household =>
            pure (.obj [("household", householdJson household),
              ("membership", membershipJson membership)])

/-- Acceptance writes invitations, people, memberships and households only. -/
theorem acceptInvitationMutation_leaves {t : VaultTable}
    (hinvitations : t ≠ .membershipInvitations) (hpeople : t ≠ .people)
    (hmemberships : t ≠ .memberships) (hhouseholds : t ≠ .households) (context : AccountContext)
    (input : AcceptanceWrite) : (acceptInvitationMutation context input).Leaves t := by
  refine writes_bind (writes_select _) (fun visible => ?_)
  split
  · exact writes_rollback _
  refine writes_bind (writes_lockRow (fun _ => hinvitations)) (fun locked => ?_)
  split
  · exact writes_rollback _
  split
  · exact writes_rollback _
  refine writes_bind (insertPerson_leaves hpeople _) (fun _ => ?_)
  refine writes_bind (insertMembership_leaves hmemberships _) (fun _ => ?_)
  refine writes_bind (writes_updateRow (fun _ _ _ => hinvitations)) (fun accepted => ?_)
  split
  · exact writes_rollback _
  refine writes_bind (raiseHouseholdVersion_leaves hhouseholds _ _) (fun household => ?_)
  split
  · exact writes_rollback _
  · exact writes_commit _

/-- What acceptance fails with. -/
def acceptInvitationFailures : List RepositoryError :=
  [.error "membership invitation unavailable", .error "membership invitation version conflict",
    .uniqueViolation "people_pkey", .uniqueViolation "memberships_auth_user_household_unique",
    .uniqueViolation "memberships_pkey", .error "membership acceptance returned no row"]

theorem acceptInvitationMutation_raises (context : AccountContext) (input : AcceptanceWrite) :
    (acceptInvitationMutation context input).Raises (· ∈ acceptInvitationFailures) := by
  have hunavailable : RepositoryError.error "membership invitation unavailable" ∈
      acceptInvitationFailures := by decide
  have hversion : RepositoryError.error "membership invitation version conflict" ∈
      acceptInvitationFailures := by decide
  have hnorow : RepositoryError.error "membership acceptance returned no row" ∈
      acceptInvitationFailures := by decide
  refine raises_bind (raises_select _) (fun visible => ?_)
  split
  · exact hunavailable
  refine raises_bind (raises_lockRow _ _ _) (fun locked => ?_)
  split
  · exact hunavailable
  split
  · exact hversion
  refine raises_bind (insertPerson_raises (by decide) _) (fun _ => ?_)
  refine raises_bind (insertMembership_raises (by decide) (by decide) _) (fun _ => ?_)
  refine raises_bind (raises_updateRow _ _ _) (fun accepted => ?_)
  split
  · exact hversion
  refine raises_bind (raises_updateRow _ _ _) (fun household => ?_)
  split
  · exact hnorow
  · exact raises_commit _

/-- Errors of acceptance on an existing record. -/
def acceptInvitationErrors : RecordErrors :=
  ⟨"invitation acceptance idempotency conflict", "invitation acceptance is still processing"⟩

/-- `acceptMembershipInvitation`. -/
def acceptMembershipInvitation (sha256 : Sha256) (context : AccountContext) (key : String)
    (input : AcceptanceWrite) (now : Instant) : Transaction (Answer Json) :=
  withAccountRecord context key (sha256.ofJson input.shape) now acceptInvitationErrors
    (acceptInvitationMutation context input)

end LegacyVault
