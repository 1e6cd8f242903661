import LegacyVault.AuditStore
import LegacyVault.HouseholdChanges
import LegacyVault.HouseholdRoutes
import LegacyVault.VaultWorld

/-!
# The vault with its audit store

What the calls of the API's routes do with the rows of the vault and with the
audit events. `authorizeIdentity` of the API runtime asks the policy and
appends an event for its decision; nothing else appends.

A transaction may commit without its caller learning of it. Of most
operations nothing is said but that they leave emergency requests alone.
-/

namespace LegacyVault

open Audit EcmaText Handlers JsonText RowTransaction RowTransaction.Program Store

/-! ## Decisions -/

/-- The stored text of a permission action. -/
def PermissionAction.text : PermissionAction → String
  | read => "read"
  | create => "create"
  | update => "update"
  | delete => "delete"
  | «export» => "export"
  | approve => "approve"

/-- What the audit and the transactions are given by the deployment, the host and the database. -/
structure AuditEnvironment where
  sha256 : Sha256
  applicationKek : SymmetricKey
  /-- `Date.parse`. -/
  parse : String → Option Int
  columns : AuditColumns
  hmac : Hmac
  localeCompare : String → String → Int
  auditKey : List UInt8
  /-- `toLowerCase`. -/
  toLowerCase : String → String

/-- The decision of the policy about an identity. -/
def identityDecision (parse : String → Option Int) (identity : AuthenticatedTenantIdentity)
    (category : RecordCategory) (action : PermissionAction) (purpose : String) (now : Instant) :
    AuthorizationDecision :=
  authorize parse {
    role := identity.role
    grants := identity.grants
    category := category
    action := action
    purpose := purpose
    now := IsoTime.toISOString now
    sessionIssuedAt := identity.sessionIssuedAt
    mfaVerifiedAt := identity.mfaVerifiedAt
    supportApprovals := some identity.supportApprovals
    emergencyReleaseCategories := some identity.emergencyReleaseCategories }

/-- The identity is authorized when the decision allows it. -/
theorem requireIdentityAuthorization_eq {parse : String → Option Int}
    {identity : AuthenticatedTenantIdentity} {category : RecordCategory}
    {action : PermissionAction} {purpose : String} {now : Instant} :
    requireIdentityAuthorization parse identity category action purpose now =
      (identityDecision parse identity category action purpose now).allowed := rfl

/-- The outcome of a decision, as its event names it. -/
def AuthorizationDecision.outcome (decision : AuthorizationDecision) : String :=
  if decision.allowed then "allowed" else "denied"

/-- The metadata of the event of a decision. -/
def AuthorizationDecision.metadata (decision : AuthorizationDecision) (category : RecordCategory)
    (action : PermissionAction) : Metadata where
  entries := [("category", .string category.text), ("permission_action", .string action.text)] ++
    if decision.allowed then [] else [("decision_reason", .string decision.reason.text)]
  distinct := by split <;> simp

/-- The event that `authorizeIdentity` appends for a decision. -/
def decisionEvent (identity : AuthenticatedTenantIdentity) (category : RecordCategory)
    (action : PermissionAction) (purpose : String) (decision : AuthorizationDecision)
    (id occurredAt : String) (acknowledged : Bool) : AppendCall :=
  ⟨⟨identity.organizationId, identity.householdId⟩,
    ⟨id, occurredAt, identity.actorId, purpose, decision.outcome,
      decision.metadata category action⟩, acknowledged⟩

/-- `authorizeIdentity` of the API runtime: it returns when an allowed event was appended, throws
the denial when a denied event was, and another error when the append fails or is not
acknowledged. -/
def AuditEnvironment.Authorizes (env : AuditEnvironment) (identity : AuthenticatedTenantIdentity)
    (category : RecordCategory) (action : PermissionAction) (purpose : String) (ρ : AuditRows)
    (answer : Except RouteError Unit) (ρ' : AuditRows) : Prop :=
  ∃ now id occurredAt acknowledged,
    let decision := identityDecision env.parse identity category action purpose now
    let appended := (append env.columns env.hmac env.localeCompare env.auditKey
      (decisionEvent identity category action purpose decision id occurredAt
        acknowledged)).transact ρ
    ρ' = appended.2 ∧
      match appended.1, acknowledged with
      | .ok _, true =>
        answer = if decision.allowed then .ok () else .error .authorizationDenied
      | _, _ => ∃ message, answer = .error (.error message)

/-- An event of an identity was appended: it stands in the chain of the identity's household. -/
structure AuditEnvironment.Records (env : AuditEnvironment)
    (identity : AuthenticatedTenantIdentity) (purpose outcome : String) (row : AuditEventRow)
    (ρ ρ' : AuditRows) : Prop where
  new : ρ.get .auditEvents row.key = none
  stored : ρ'.get .auditEvents row.key = some row
  organization : env.columns.uuid identity.organizationId = some row.organizationId
  household : env.columns.uuid identity.householdId = some row.householdId
  actor : pseudonymizeIdentifier env.hmac env.auditKey identity.actorId = .ok row.actorPseudonym
  action : row.action = purpose
  outcome : row.outcome = outcome

/-! ## Transactions -/

/-- A transaction commits or fails, and its caller learns of this or of some error. -/
def Committed {α β : Type} (p : Transaction α) (view : α → β) (σ : Vault)
    (answer : Except RouteError β) (σ' : Vault) : Prop :=
  Transacts p view σ answer σ' ∨ (∃ thrown, answer = .error thrown) ∧ σ' = (p.transact σ).2

/-- The store that a transaction leaves. -/
theorem Committed.store {α β : Type} {p : Transaction α} {view : α → β} {σ σ' : Vault}
    {answer : Except RouteError β} (h : Committed p view σ answer σ') :
    σ' = (p.transact σ).2 := by
  rcases h with h | ⟨-, h⟩
  · exact h.store
  · exact h

/-- What a vault operation does with the rows of the vault. -/
def VaultOperation.Commits (context : TenantContext) :
    (operation : VaultOperation) → Vault → Except RouteError operation.Result → Vault → Prop
  | .getFactFieldKey factId => Transacts (LegacyVault.getFactFieldKey context factId) id
  | .getEmergencyAccessCategories requestId =>
    Transacts (LegacyVault.getEmergencyAccessCategories context requestId) id
  | .createEmergencyAccessRequest input =>
    Committed (LegacyVault.createEmergencyAccessRequest context input) StatusReceipt.toJson
  | .decideEmergencyAccess requestId expectedVersion decision decisionAt =>
    Committed (LegacyVault.decideEmergencyAccess context requestId expectedVersion decision
      decisionAt) StatusReceipt.toJson
  | .releaseEmergencyAccess requestId expectedVersion releasedAt =>
    Committed (LegacyVault.releaseEmergencyAccess context requestId expectedVersion releasedAt)
      StatusReceipt.toJson
  | _ => fun σ _ σ' => SameRows (S := vaultSchema) .emergencyAccessRequests σ σ'

/-- A call of one of the ten operations, as its caller sees it. -/
def AuditEnvironment.CommitsOnce (env : AuditEnvironment) (call : OnceCall) (σ : Vault)
    (answer : Except RouteError Json) (σ' : Vault) : Prop :=
  Committed (onceProgram env.sha256 env.applicationKek call) Answer.body σ answer σ'

/-- A household key may have been inserted. -/
structure AddsKey (σ σ' : Vault) : Prop where
  rows : ∀ t, t ≠ .householdKeys → SameRows (S := vaultSchema) t σ σ'
  keys : ∀ (k : Identifier) (key : HouseholdKeyRow), σ.get .householdKeys k = some key →
    σ'.get .householdKeys k = some key

/-- What an acceptance is called with, with the address of the account. -/
def AuditEnvironment.acceptance (env : AuditEnvironment) (account : AuthenticatedAccountIdentity)
    (input : AcceptanceInput) : AcceptInvitationInput :=
  ⟨input.token, env.toLowerCase (trim account.email), input.displayName,
    input.expectedInvitationVersion⟩

/-- `acceptInvitation` of the API runtime: it looks for the invitation, gets the key of the
household, and runs the transaction. -/
def AuditEnvironment.Accepts (env : AuditEnvironment) (account : AuthenticatedAccountIdentity)
    (key : String) (input : AcceptanceInput) (σ : Vault) (answer : Except RouteError Json)
    (σ' : Vault) : Prop :=
  ∃ acceptedAt now,
    let accepted := env.acceptance account input
    match acceptableInvitation account.context (env.sha256.digest input.token)
      (invitationEmailHash env.sha256 accepted.email) acceptedAt σ with
    | none => answer = .error (.error "membership invitation unavailable") ∧ σ' = σ
    | some invitation => ∃ σ₁, AddsKey σ σ₁ ∧
      ((∃ thrown, answer = .error thrown) ∧ σ' = σ₁ ∨
        ∃ generated : AcceptInvitationGenerated,
          generated.organizationId = invitation.organizationId ∧
          generated.householdId = invitation.householdId ∧
          env.CommitsOnce (.acceptInvitation account.context key accepted generated acceptedAt now)
            σ₁ answer σ')

/-! ## The world of the routes -/

/-- The rows of the vault and the audit events. -/
structure AuditedVault where
  vault : Vault
  audit : AuditRows

/-- What the calls of the routes are answered with, and what they do. -/
def auditedWorld (env : AuditEnvironment) : World apiInterface AuditedVault :=
  fun s call answer s' =>
  match call, answer with
  | .vault (.authorizeIdentity identity category action purpose), answer =>
    s'.vault = s.vault ∧ env.Authorizes identity category action purpose s.audit answer s'.audit
  | .vault (.perform identity operation), answer =>
    s'.audit = s.audit ∧ operation.Commits identity.context s.vault answer s'.vault
  | .vault .resolveIdentity, _ | .vault .currentTime, _ | .resolveAccount, _
  | .listHouseholds _, _ => s' = s
  | .createHousehold account key input, answer => s'.audit = s.audit ∧ ∃ generated now,
    env.CommitsOnce (.createHousehold account.context key input generated now) s.vault answer
      s'.vault
  | .acceptInvitation account key input, answer =>
    s'.audit = s.audit ∧ env.Accepts account key input s.vault answer s'.vault
  | .listMembers _, _ => s'.audit = s.audit ∧ AddsKey s.vault s'.vault
  | .createInvitation identity key input, answer =>
    s'.audit = s.audit ∧ ∃ invitationId clock now,
      env.CommitsOnce (.createInvitation identity.context identity.membershipId key input
        invitationId clock now) s.vault answer s'.vault
  | .revokeInvitation identity key input, answer => s'.audit = s.audit ∧ ∃ revokedAt now,
    env.CommitsOnce (.revokeInvitation identity.context key input revokedAt now) s.vault answer
      s'.vault
  | .updateMemberRole identity key input, answer => s'.audit = s.audit ∧ ∃ now,
    env.CommitsOnce (.updateRole identity.context key input now) s.vault answer s'.vault

/-- Every emergency request asks for some category. -/
def AsksSome (σ : Vault) : Prop :=
  ∀ (k : Identifier) (request : EmergencyAccessRow),
    σ.get .emergencyAccessRequests k = some request → request.categories ≠ []

/-- What other requests and the workers may do at any time: anything with the rows of the vault,
but for emergency requests that ask for nothing, and appending audit events. -/
structure OthersWork (s s' : AuditedVault) : Prop where
  asks : AsksSome s.vault → AsksSome s'.vault
  audit : RowsStay s.audit s'.audit

end LegacyVault
