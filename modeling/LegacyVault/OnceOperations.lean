import LegacyVault.Households
import LegacyVault.PrivacyRequests
import LegacyVault.DocumentExtraction
import LegacyVault.PortableExports

/-!
# The operations that run once under a key

The ten operations that reserve their key, mutate and store their response
in one transaction, as one protocol over the two record tables: what each
caller supplies, the request shape it is hashed as, and the record it uses.

The shapes tell the operations apart, and all inputs of an operation but
one: household creation does not hash the owner's display name.
-/

namespace LegacyVault

open JsonText RowTransaction RowTransaction.Program

/-- A call of one of the ten operations, with all that the runtime generates for it. -/
inductive OnceCall where
  | createHousehold (account : AccountContext) (key : String) (input : CreateHouseholdInput)
      (generated : CreateHouseholdGenerated) (now : Instant)
  | createInvitation (context : TenantContext) (membershipId : Identifier) (key : String)
      (input : CreateInvitationInput) (invitationId : Identifier) (clock now : Instant)
  | revokeInvitation (context : TenantContext) (key : String) (input : RevokeInvitationInput)
      (revokedAt now : Instant)
  | updateRole (context : TenantContext) (key : String) (input : UpdateRoleInput) (now : Instant)
  | acceptInvitation (account : AccountContext) (key : String) (input : AcceptInvitationInput)
      (generated : AcceptInvitationGenerated) (acceptedAt now : Instant)
  | extractManually (context : TenantContext) (key : String) (input : ManualExtractionInput)
      (generated : ManualExtractionGenerated) (now : Instant)
  | startPrivacy (context : TenantContext) (key : String) (input : StartPrivacyInput)
      (generated : StartPrivacyGenerated) (now : Instant)
  | confirmDeletion (context : TenantContext) (key : String) (input : ConfirmDeletionInput)
      (generated : ConfirmDeletionGenerated) (now : Instant)
  | cancelDeletion (context : TenantContext) (key : String) (input : CancelDeletionInput)
      (now : Instant)
  | startExport (context : TenantContext) (key : String) (exportKey : SymmetricKey)
      (generated : ExportGenerated) (now : Instant)

/-- What a caller supplies, by operation. -/
inductive CallerInput where
  | createHousehold (input : CreateHouseholdInput)
  | createInvitation (input : CreateInvitationInput)
  | revokeInvitation (input : RevokeInvitationInput)
  | updateRole (input : UpdateRoleInput)
  | acceptInvitation (input : AcceptInvitationInput)
  | extractManually (input : ManualExtractionInput)
  | startPrivacy (input : StartPrivacyInput)
  | confirmDeletion (input : ConfirmDeletionInput)
  | cancelDeletion (input : CancelDeletionInput)
  | startExport (exportKey : SymmetricKey)

/-- The scope of a record and its key. -/
inductive RecordId where
  | account (authUserId : Identifier) (key : String)
  | tenant (organizationId householdId : Identifier) (key : String)
  deriving DecidableEq

/-- What the caller has supplied. -/
def OnceCall.callerInput : OnceCall → CallerInput
  | .createHousehold _ _ input _ _ => .createHousehold input
  | .createInvitation _ _ _ input _ _ _ => .createInvitation input
  | .revokeInvitation _ _ input _ _ => .revokeInvitation input
  | .updateRole _ _ input _ => .updateRole input
  | .acceptInvitation _ _ input _ _ _ => .acceptInvitation input
  | .extractManually _ _ input _ _ => .extractManually input
  | .startPrivacy _ _ input _ _ => .startPrivacy input
  | .confirmDeletion _ _ input _ _ => .confirmDeletion input
  | .cancelDeletion _ _ input _ => .cancelDeletion input
  | .startExport _ _ exportKey _ _ => .startExport exportKey

/-- The record of a tenant's key. -/
def TenantContext.recordId (context : TenantContext) (key : String) : RecordId :=
  .tenant context.organizationId context.householdId key

/-- The record a call uses. -/
def OnceCall.recordId : OnceCall → RecordId
  | .createHousehold account key _ _ _ => .account account.authUserId key
  | .createInvitation context _ key _ _ _ _ => context.recordId key
  | .revokeInvitation context key _ _ _ => context.recordId key
  | .updateRole context key _ _ => context.recordId key
  | .acceptInvitation account key _ _ _ _ => .account account.authUserId key
  | .extractManually context key _ _ _ => context.recordId key
  | .startPrivacy context key _ _ _ => context.recordId key
  | .confirmDeletion context key _ _ _ => context.recordId key
  | .cancelDeletion context key _ _ => context.recordId key
  | .startExport context key _ _ _ => context.recordId key

variable (sha256 : Sha256) (applicationKek : SymmetricKey)

/-- The transaction of a call. -/
def onceProgram : OnceCall → Transaction (Answer Json)
  | .createHousehold account key input generated now =>
    createHouseholdForAccount sha256 account key
      (createHouseholdWrite applicationKek input generated) now
  | .createInvitation context membershipId key input invitationId clock now =>
    createMembershipInvitation sha256 context key
      (createInvitationWrite sha256 context membershipId key input invitationId clock) now
  | .revokeInvitation context key input revokedAt now =>
    revokeMembershipInvitation sha256 context key input revokedAt now
  | .updateRole context key input now => updateMembershipRole sha256 context key input now
  | .acceptInvitation account key input generated acceptedAt now =>
    acceptMembershipInvitation sha256 account key
      (acceptInvitationWrite sha256 input generated acceptedAt) now
  | .extractManually context key input generated now =>
    completeManualDocumentExtraction sha256 context key input generated now
  | .startPrivacy context key input generated now =>
    startPrivacyRequest sha256 context key input generated now
  | .confirmDeletion context key input generated now =>
    confirmPrivacyDeletion sha256 context key input generated now
  | .cancelDeletion context key input now =>
    cancelPrivacyDeletion sha256 context key input now
  | .startExport context key exportKey generated now =>
    startPortableExport sha256 applicationKek context key exportKey generated now

/-- The request shape of an input. A confirmation also hashes the recovery days of the
deployment; an invitation and an acceptance hash digests of what the caller supplies. -/
def CallerInput.shape (recoveryDays : Nat) : CallerInput → Json
  | .createHousehold input => .obj [("organizationName", .str input.organizationName),
      ("householdName", .str input.householdName), ("expectedVersion", .nat 0)]
  | .createInvitation input =>
    .obj [("emailHash", .str (invitationEmailHash sha256 input.email)),
      ("role", .str input.role.text),
      ("expectedHouseholdVersion", .nat input.expectedHouseholdVersion)]
  | .revokeInvitation input => input.shape
  | .updateRole input => input.shape
  | .acceptInvitation input => .obj [("tokenHash", .str (sha256.digest input.token)),
      ("emailHash", .str (invitationEmailHash sha256 input.email)),
      ("displayNameHash", .str (sha256.digest input.displayName)),
      ("expectedInvitationVersion", .nat input.expectedInvitationVersion)]
  | .extractManually input => input.shape
  | .startPrivacy input => input.shape
  | .confirmDeletion input => confirmDeletionShape input recoveryDays
  | .cancelDeletion input => input.shape
  | .startExport exportKey => exportShape sha256 exportKey 1

/-- Recovery days of a confirmation. -/
def OnceCall.recoveryDays : OnceCall → Nat
  | .confirmDeletion _ _ _ generated _ => generated.recoveryDays
  | _ => 0

/-- The request hash of a call. -/
def OnceCall.requestHash (call : OnceCall) : String :=
  sha256.ofJson (call.callerInput.shape sha256 call.recoveryDays)

/-- Two inputs that differ at most in the owner's display name of a household creation. -/
def CallerInput.SameButOwner : CallerInput → CallerInput → Prop
  | .createHousehold a, .createHousehold b =>
    a.organizationName = b.organizationName ∧ a.householdName = b.householdName
  | a, b => a = b

variable {sha256 applicationKek}

theorem ManualCandidate.toJson_injective : Function.Injective ManualCandidate.toJson := by
  rintro ⟨fieldKey, value, locator, sensitivity, confidence⟩
    ⟨fieldKey', value', locator', sensitivity', confidence'⟩ h
  have hsensitivity : ∀ a b : Sensitivity, a.text = b.text → a = b := by
    intro a b
    cases a <;> cases b <;> simp [Sensitivity.text]
  cases confidence <;> cases confidence' <;> simp [ManualCandidate.toJson] at h ⊢
  · exact ⟨h.1, h.2.1, h.2.2.1, hsensitivity _ _ h.2.2.2⟩
  · exact ⟨h.1, h.2.1, h.2.2.1, hsensitivity _ _ h.2.2.2.1, h.2.2.2.2⟩

/-- Names of the members that the request shape of an operation has. -/
def CallerInput.memberNames : CallerInput → List String
  | .createHousehold _ => ["organizationName", "householdName", "expectedVersion"]
  | .createInvitation _ => ["emailHash", "role", "expectedHouseholdVersion"]
  | .revokeInvitation _ => ["invitationId", "expectedVersion"]
  | .updateRole _ => ["membershipId", "role", "expectedVersion"]
  | .acceptInvitation _ =>
    ["tokenHash", "emailHash", "displayNameHash", "expectedInvitationVersion"]
  | .extractManually _ => ["documentId", "workflowId", "expectedWorkflowVersion", "candidates"]
  | .startPrivacy _ => ["personId", "kind"]
  | .confirmDeletion _ => ["requestId", "expectedVersion", "recoveryDays"]
  | .cancelDeletion _ => ["requestId", "expectedVersion"]
  | .startExport _ => ["exportKeyFingerprint", "encryptionKeyVersion"]

theorem CallerInput.memberNames_shape (sha256 : Sha256) (input : CallerInput)
    (recoveryDays : Nat) :
    JsonText.memberNames (input.shape sha256 recoveryDays) = input.memberNames := by
  cases input <;> rfl

theorem invitationEmailHash_injective : Function.Injective (invitationEmailHash sha256) := by
  intro a b h
  have htext : "membership-invite-email:" ++ a = "membership-invite-email:" ++ b :=
    sha256.hmacCollisionFree h
  have hlist := congrArg String.toList htext
  rw [String.toList_append, String.toList_append] at hlist
  exact String.toList_inj.mp (List.append_cancel_left hlist)

/-- Equal request shapes come from equal inputs, but for the owner of a household creation.
The member names tell the operations apart. -/
theorem CallerInput.sameButOwner_of_shape {a b : CallerInput} {recoveryDays recoveryDays' : Nat}
    (h : a.shape sha256 recoveryDays = b.shape sha256 recoveryDays') : a.SameButOwner b := by
  have hnames : a.memberNames = b.memberNames := by
    rw [← memberNames_shape sha256 a recoveryDays, h, memberNames_shape sha256]
  cases a <;> cases b <;> first | (simp [CallerInput.memberNames] at hnames; done) | skip
  case createHousehold.createHousehold a b =>
    simp [CallerInput.shape] at h
    exact h
  case createInvitation.createInvitation a b =>
    simp [CallerInput.shape] at h
    have hemail : a.email = b.email := invitationEmailHash_injective h.1
    have hrole : a.role = b.role := Role.text_injective h.2.1
    exact congrArg CallerInput.createInvitation (CreateInvitationInput.ext hemail hrole h.2.2)
  case revokeInvitation.revokeInvitation a b =>
    simp [CallerInput.shape, RevokeInvitationInput.shape] at h
    exact congrArg CallerInput.revokeInvitation (RevokeInvitationInput.ext h.1 h.2)
  case updateRole.updateRole a b =>
    simp [CallerInput.shape, UpdateRoleInput.shape] at h
    have hrole : a.role = b.role := Role.text_injective h.2.1
    exact congrArg CallerInput.updateRole (UpdateRoleInput.ext h.1 hrole h.2.2)
  case acceptInvitation.acceptInvitation a b =>
    simp [CallerInput.shape] at h
    have htoken : a.token = b.token := sha256.collisionFree h.1
    have hemail : a.email = b.email := invitationEmailHash_injective h.2.1
    have hname : a.displayName = b.displayName := sha256.collisionFree h.2.2.1
    exact congrArg CallerInput.acceptInvitation
      (AcceptInvitationInput.ext htoken hemail hname h.2.2.2)
  case extractManually.extractManually a b =>
    simp [CallerInput.shape, ManualExtractionInput.shape] at h
    have hcandidates : a.candidates = b.candidates :=
      List.map_injective_iff.mpr ManualCandidate.toJson_injective h.2.2.2
    exact congrArg CallerInput.extractManually
      (ManualExtractionInput.ext h.1 h.2.1 h.2.2.1 hcandidates)
  case startPrivacy.startPrivacy a b =>
    simp [CallerInput.shape, StartPrivacyInput.shape] at h
    have hkind : a.kind = b.kind := PrivacyRequestKind.text_injective h.2
    exact congrArg CallerInput.startPrivacy (StartPrivacyInput.ext h.1 hkind)
  case confirmDeletion.confirmDeletion a b =>
    simp [CallerInput.shape, confirmDeletionShape] at h
    exact congrArg CallerInput.confirmDeletion (ConfirmDeletionInput.ext h.1 h.2.1)
  case cancelDeletion.cancelDeletion a b =>
    simp [CallerInput.shape, CancelDeletionInput.shape] at h
    exact congrArg CallerInput.cancelDeletion (CancelDeletionInput.ext h.1 h.2)
  case startExport.startExport a b =>
    simp [CallerInput.shape, exportShape] at h
    have hkey : a = b := sha256.collisionFree h
    exact congrArg CallerInput.startExport hkey

end LegacyVault
