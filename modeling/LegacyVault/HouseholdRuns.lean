import LegacyVault.HouseholdChanges

/-!
# Households over whole runs

What holds of households, memberships and invitations in every interleaving
of the operations: each household was created once and its version counts
what has happened to it, each membership came from a creation or from an
accepted invitation, and a closed invitation is never touched again.

Every part is shown for one change at a time, and then for all runs.
-/

namespace LegacyVault

open JsonText RowTransaction RowTransaction.Program Store

/-- The household whose version an applied call raises. An acceptance names it in its response. -/
def OnceCall.raises (body : Json) : OnceCall → Option Identifier
  | .createInvitation context _ _ _ _ _ _ => some context.householdId
  | .revokeInvitation context _ _ _ _ => some context.householdId
  | .updateRole context _ _ _ => some context.householdId
  | .acceptInvitation _ _ _ _ _ _ =>
    match (member "household" body).bind (member "id") with
    | some (.str householdId) => some householdId
    | _ => none
  | _ => none

/-- The call took effect and raised the version of the household. -/
def raisedVersion (householdId : Identifier) (entry : OnceEntry) : Bool :=
  match entry.outcome with
  | .committed (.applied body) => entry.request.raises body == some householdId
  | _ => false

/-- The call took effect and created the household. -/
def createdIn (householdId : Identifier) (entry : OnceEntry) : Bool :=
  match entry.request, entry.outcome with
  | .createHousehold _ _ _ generated _, .committed (.applied _) =>
    generated.householdId == householdId
  | _, _ => false

/-- The entry is the creation of a household by the account. -/
def Creates (account : AccountContext) (generated : CreateHouseholdGenerated)
    (entry : OnceEntry) : Prop :=
  ∃ key input now body,
    entry = ⟨.createHousehold account key input generated now, .committed (.applied body)⟩

/-- What the log says of a household: nothing has happened to one that is missing; any other
was created once, and its version counts the calls that raised it. -/
def Ledger (log : List OnceEntry) (householdId : Identifier) : Option HouseholdRow → Prop
  | none => ∀ entry ∈ log, createdIn householdId entry = false ∧
      raisedVersion householdId entry = false
  | some household => (log.filter (createdIn householdId)).length = 1 ∧
      household.version = 1 + log.countP (raisedVersion householdId)

/-- The membership is the owner's, as some creation inserted it. -/
def IsCreator (log : List OnceEntry) (k : Identifier) (membership : MembershipRow) : Prop :=
  ∃ entry ∈ log, ∃ account generated, Creates account generated entry ∧
    generated.membershipId = k ∧ membership = ownerMembership account generated

/-- The membership belongs to the account that accepted an invitation to its household. -/
def IsInvited (σ : Vault) (membership : MembershipRow) : Prop :=
  ∃ (invitationId : Identifier) (invitation : MembershipInvitationRow),
    σ.get .membershipInvitations invitationId = some invitation ∧
    invitation.acceptedAt ≠ none ∧
    invitation.acceptedByAuthUserId = membership.authUserId ∧
    invitation.organizationId = membership.organizationId ∧
    invitation.householdId = membership.householdId

/-- The entry is an acceptance of the invitation as it stands: by an account with the invited
e-mail address, before the expiry, at the version before. -/
def Accepts (sha256 : Sha256) (invitation : MembershipInvitationRow) (entry : OnceEntry) : Prop :=
  ∃ account key input generated acceptedAt now body,
    entry = ⟨.acceptInvitation account key input generated acceptedAt now,
      .committed (.applied body)⟩ ∧
    invitation.tokenHash = sha256.digest input.token ∧
    invitation.emailHash = invitationEmailHash sha256 input.email ∧
    invitation.acceptedAt = some acceptedAt ∧ acceptedAt < invitation.expiresAt ∧
    invitation.acceptedByAuthUserId = some account.authUserId ∧
    invitation.version = input.expectedInvitationVersion + 1

/-- What holds of one invitation. -/
structure InvitationSound (sha256 : Sha256) (log : List OnceEntry)
    (invitation : MembershipInvitationRow) : Prop where
  /-- Its role can be given by invitation. -/
  role : invitation.role ∈ assignableHouseholdRoles
  /-- It is not both accepted and revoked. -/
  exclusive : invitation.acceptedAt = none ∨ invitation.revokedAt = none
  /-- Where it is accepted, some acceptance has done it. -/
  accepted : invitation.acceptedAt ≠ none → ∃ entry ∈ log, Accepts sha256 invitation entry

/-- What holds of one membership. -/
def MembershipSound (log : List OnceEntry) (σ : Vault) (k : Identifier)
    (membership : MembershipRow) : Prop :=
  IsCreator log k membership ∨
    (membership.role ∈ assignableHouseholdRoles ∧ IsInvited σ membership)

/-- What holds of log and rows between transactions. -/
structure HouseholdsSound (sha256 : Sha256) (log : List OnceEntry) (σ : Vault) : Prop where
  /-- Rows are stored under their identifiers. -/
  keyed : Keyed σ
  /-- Every household has its ledger. -/
  ledger : ∀ k, Ledger log k (σ.get .households k)
  /-- Every creation's owner is still there, and so is the household. -/
  creations : ∀ entry ∈ log, ∀ account generated, Creates account generated entry →
    σ.get .memberships generated.membershipId = some (ownerMembership account generated) ∧
      σ.get .households generated.householdId ≠ none
  /-- Every membership is sound. -/
  memberships : ∀ (k : Identifier) (membership : MembershipRow),
    σ.get .memberships k = some membership → MembershipSound log σ k membership
  /-- Every invitation is sound. -/
  invitations : ∀ (k : Identifier) (invitation : MembershipInvitationRow),
    σ.get .membershipInvitations k = some invitation → InvitationSound sha256 log invitation

/-- Invitations and owners' memberships are kept. -/
structure HouseholdsKept (σ σ' : Vault) : Prop where
  /-- Invitations are. -/
  invitations : InvitationsKept σ σ'
  /-- An owner's membership does not change. -/
  owners : ∀ (k : Identifier) (membership : MembershipRow),
    σ.get .memberships k = some membership → membership.role = .owner →
    σ'.get .memberships k = some membership

theorem MembershipInvitationRow.SameOffer.refl (row : MembershipInvitationRow) :
    row.SameOffer row :=
  ⟨rfl, rfl, rfl, rfl, rfl, rfl⟩

theorem MembershipInvitationRow.SameOffer.trans {a b c : MembershipInvitationRow}
    (h : a.SameOffer b) (h' : b.SameOffer c) : a.SameOffer c where
  organization := h'.organization.trans h.organization
  household := h'.household.trans h.household
  email := h'.email.trans h.email
  token := h'.token.trans h.token
  role := h'.role.trans h.role
  expiry := h'.expiry.trans h.expiry

theorem HouseholdsKept.refl (σ : Vault) : HouseholdsKept σ σ where
  invitations := fun _ old hold => ⟨old, hold, .refl old, fun _ => rfl⟩
  owners := fun _ _ hrow _ => hrow

theorem HouseholdsKept.trans {σ₁ σ₂ σ₃ : Vault} (h : HouseholdsKept σ₁ σ₂)
    (h' : HouseholdsKept σ₂ σ₃) : HouseholdsKept σ₁ σ₃ where
  invitations := by
    intro k old hold
    obtain ⟨middle, hmiddle, hoffer, hclosed⟩ := h.invitations k old hold
    obtain ⟨new, hnew, hoffer', hclosed'⟩ := h'.invitations k middle hmiddle
    refine ⟨new, hnew, hoffer.trans hoffer', fun hold => ?_⟩
    obtain rfl := hclosed hold
    exact hclosed' hold
  owners := fun k row hrow hrole => h'.owners k row (h.owners k row hrow hrole) hrole

section Change

variable {sha256 : Sha256} {σ σ' : Vault} {call : OnceCall} {body : Json}

/-- Invitations that are the same rows are kept. -/
theorem invitationsKept_of_same (h : SameRows (S := vaultSchema) .membershipInvitations σ σ') :
    InvitationsKept σ σ' :=
  fun k old hold => ⟨old, (h k).trans hold, .refl old, fun _ => rfl⟩

/-- A new invitation keeps the others. -/
theorem invitationsKept_of_insert {k : Identifier} {row : MembershipInvitationRow}
    (hfree : σ.get .membershipInvitations k = none)
    (h : Replaces (S := vaultSchema) .membershipInvitations k (some row) σ σ') :
    InvitationsKept σ σ' := by
  intro k' old hold
  have hother : k' ≠ k := by
    rintro rfl
    exact absurd (hold.symm.trans hfree) (by simp)
  exact ⟨old, (h.others k' hother).trans hold, .refl old, fun _ => rfl⟩

/-- Closing an open invitation keeps what it offers, and keeps the others. -/
theorem invitationsKept_of_close {k : Identifier} {row row' : MembershipInvitationRow}
    (hrow : σ.get .membershipInvitations k = some row)
    (hopen : row.acceptedAt = none ∧ row.revokedAt = none)
    (h : Replaces (S := vaultSchema) .membershipInvitations k (some row') σ σ')
    (hoffer : row.SameOffer row') : InvitationsKept σ σ' := by
  intro k' old hold
  rcases h.get_cases k' with ⟨rfl, hnew⟩ | ⟨-, hsame⟩
  · obtain rfl : row = old := Option.some.inj (hrow.symm.trans hold)
    refine ⟨row', hnew, hoffer, fun hclosed => ?_⟩
    rcases hclosed with haccepted | hrevoked
    · exact absurd hopen.1 haccepted
    · exact absurd hopen.2 hrevoked
  · exact ⟨old, hsame.trans hold, .refl old, fun _ => rfl⟩

/-- An invitation that can be accepted is open. -/
theorem MembershipInvitationRow.open_of_available {invitation : MembershipInvitationRow}
    {input : AcceptanceWrite} (h : invitation.available input = true) :
    (invitation.acceptedAt = none ∧ invitation.revokedAt = none) ∧
      invitation.emailHash = input.emailHash ∧ input.acceptedAt < invitation.expiresAt := by
  simp only [available, Bool.and_eq_true, beq_iff_eq, Option.isNone_iff_eq_none,
    decide_eq_true_eq] at h
  exact ⟨⟨h.1.1.2, h.1.2⟩, h.1.1.1, h.2⟩

/-- Memberships under other keys are the same after an insert. -/
theorem owners_of_insert {k : Identifier} {row : MembershipRow}
    (hfree : σ.get .memberships k = none)
    (h : Replaces (S := vaultSchema) .memberships k (some row) σ σ') (k' : Identifier)
    (membership : MembershipRow) (hrow : σ.get .memberships k' = some membership) :
    σ'.get .memberships k' = some membership := by
  have hother : k' ≠ k := by
    rintro rfl
    exact absurd (hrow.symm.trans hfree) (by simp)
  exact (h.others k' hother).trans hrow

/-- Every change keeps invitations and owners. -/
theorem HouseholdChange.kept (h : HouseholdChange sha256 σ σ' call body) :
    HouseholdsKept σ σ' := by
  cases h with
  | created _ _ hnewMembership _ _ hmemberships hinvitations =>
    exact ⟨invitationsKept_of_same hinvitations,
      fun k row hrow _ => owners_of_insert hnewMembership hmemberships k row hrow⟩
  | invited _ _ _ hnew _ _ hmemberships hinvitations =>
    exact ⟨invitationsKept_of_insert hnew hinvitations,
      fun k row hrow _ => (hmemberships k).trans hrow⟩
  | revoked _ invitation _ hinvitation hopen _ _ hmemberships hinvitations =>
    exact ⟨invitationsKept_of_close hinvitation hopen hinvitations ⟨rfl, rfl, rfl, rfl, rfl, rfl⟩,
      fun k row hrow _ => (hmemberships k).trans hrow⟩
  | roleUpdated _ membership _ _ hmembership hnotOwner _ _ hmemberships hinvitations =>
    refine ⟨invitationsKept_of_same hinvitations, fun k row hrow howner => ?_⟩
    rcases hmemberships.get_cases k with ⟨rfl, -⟩ | ⟨-, hsame⟩
    · obtain rfl : membership = row := Option.some.inj (hmembership.symm.trans hrow)
      exact absurd howner hnotOwner
    · exact hsame.trans hrow
  | accepted _ _ invitation _ hinvitation _ havailable _ _ hnewMembership _ _ _ hmemberships
      hinvitations =>
    have hopen := (MembershipInvitationRow.open_of_available havailable).1
    exact ⟨invitationsKept_of_close hinvitation hopen hinvitations ⟨rfl, rfl, rfl, rfl, rfl, rfl⟩,
      fun k row hrow _ => owners_of_insert hnewMembership hmemberships k row hrow⟩
  | other _ _ _ hmemberships hinvitations =>
    exact ⟨invitationsKept_of_same hinvitations, fun k row hrow _ => (hmemberships k).trans hrow⟩

/-- Every change keeps rows under their identifiers. -/
theorem HouseholdChange.keyed (h : HouseholdChange sha256 σ σ' call body) (hkeyed : Keyed σ) :
    Keyed σ' := by
  have hhouseholds : ∀ {k : Identifier} {new : HouseholdRow},
      Replaces (S := vaultSchema) .households k (some new) σ σ' → new.id = k →
      ∀ (k' : Identifier) (row : HouseholdRow), σ'.get .households k' = some row →
        row.id = k' := by
    intro k new hreplaces hid k' row hrow
    rcases hreplaces.get_cases k' with ⟨rfl, hnew⟩ | ⟨-, hsame⟩
    · obtain rfl : new = row := Option.some.inj (hnew.symm.trans hrow)
      exact hid
    · exact hkeyed.households k' row (hsame.symm.trans hrow)
  have hinvitations : ∀ {k : Identifier} {new : MembershipInvitationRow},
      Replaces (S := vaultSchema) .membershipInvitations k (some new) σ σ' → new.id = k →
      ∀ (k' : Identifier) (row : MembershipInvitationRow),
        σ'.get .membershipInvitations k' = some row → row.id = k' := by
    intro k new hreplaces hid k' row hrow
    rcases hreplaces.get_cases k' with ⟨rfl, hnew⟩ | ⟨-, hsame⟩
    · obtain rfl : new = row := Option.some.inj (hnew.symm.trans hrow)
      exact hid
    · exact hkeyed.invitations k' row (hsame.symm.trans hrow)
  cases h with
  | created _ _ _ hh _ _ hi =>
    exact ⟨hhouseholds hh rfl, fun k row hrow => hkeyed.invitations k row ((hi k).symm.trans hrow)⟩
  | invited household _ hhousehold _ hh _ _ hi =>
    exact ⟨hhouseholds hh (hkeyed.households _ household hhousehold), hinvitations hi rfl⟩
  | revoked household invitation hhousehold hinvitation _ hh _ _ hi =>
    exact ⟨hhouseholds hh (hkeyed.households _ household hhousehold),
      hinvitations hi (hkeyed.invitations _ invitation hinvitation)⟩
  | roleUpdated household _ _ hhousehold _ _ hh _ _ hi =>
    exact ⟨hhouseholds hh (hkeyed.households _ household hhousehold),
      fun k row hrow => hkeyed.invitations k row ((hi k).symm.trans hrow)⟩
  | accepted household _ invitation hhousehold hinvitation _ _ _ _ _ _ hh _ _ hi =>
    exact ⟨hhouseholds hh (hkeyed.households _ household hhousehold),
      hinvitations hi (hkeyed.invitations _ invitation hinvitation)⟩
  | other _ hh _ _ hi =>
    exact ⟨fun k row hrow => hkeyed.households k row ((hh k).symm.trans hrow),
      fun k row hrow => hkeyed.invitations k row ((hi k).symm.trans hrow)⟩

/-- The entry of an applied call. -/
abbrev appliedEntry (call : OnceCall) (body : Json) : OnceEntry :=
  ⟨call, .committed (.applied body)⟩

/-- A household the entry does not concern keeps its ledger. -/
theorem Ledger.cons_other {log : List OnceEntry} {k : Identifier} {row : Option HouseholdRow}
    {entry : OnceEntry} (h : Ledger log k row) (hcreated : createdIn k entry = false)
    (hraised : raisedVersion k entry = false) : Ledger (entry :: log) k row := by
  cases row with
  | none => exact List.forall_mem_cons.mpr ⟨⟨hcreated, hraised⟩, h⟩
  | some household =>
    constructor
    · rw [List.filter_cons_of_neg (by simp [hcreated])]
      exact h.1
    · rw [List.countP_cons_of_neg (by simp [hraised])]
      exact h.2

/-- A raised household counts its entry. -/
theorem Ledger.cons_raised {log : List OnceEntry} {k : Identifier} {household : HouseholdRow}
    {entry : OnceEntry} (h : Ledger log k (some household)) (hcreated : createdIn k entry = false)
    (hraised : raisedVersion k entry = true) :
    Ledger (entry :: log) k (some household.raised) := by
  constructor
  · rw [List.filter_cons_of_neg (by simp [hcreated])]
    exact h.1
  · rw [List.countP_cons_of_pos hraised]
    have hversion : household.version = 1 + log.countP (raisedVersion k) := h.2
    show household.version + 1 = 1 + (log.countP (raisedVersion k) + 1)
    omega

/-- A created household starts its ledger. -/
theorem Ledger.cons_created {log : List OnceEntry} {k : Identifier} {household : HouseholdRow}
    {entry : OnceEntry} (h : Ledger log k none) (hcreated : createdIn k entry = true)
    (hraised : raisedVersion k entry = false) (hversion : household.version = 1) :
    Ledger (entry :: log) k (some household) := by
  have hnone : log.filter (createdIn k) = [] :=
    List.filter_eq_nil_iff.mpr (fun other hmem => by simp [(h other hmem).1])
  have hzero : log.countP (raisedVersion k) = 0 :=
    List.countP_eq_zero.mpr (fun other hmem => by simp [(h other hmem).2])
  constructor
  · rw [List.filter_cons_of_pos hcreated, hnone]
    rfl
  · rw [List.countP_cons_of_neg (by simp [hraised]), hzero, hversion]

/-- A call that raises one household keeps the ledgers. -/
theorem ledger_of_raise {log : List OnceEntry} {householdId : Identifier}
    {household : HouseholdRow} (hledger : ∀ k, Ledger log k (σ.get .households k))
    (hraises : call.raises body = some householdId)
    (hcreates : ∀ k, createdIn k (appliedEntry call body) = false)
    (hhousehold : σ.get .households householdId = some household)
    (hhouseholds : Replaces (S := vaultSchema) .households householdId (some household.raised) σ σ')
    (k : Identifier) : Ledger (appliedEntry call body :: log) k (σ'.get .households k) := by
  have hbefore := hledger k
  rcases hhouseholds.get_cases k with ⟨rfl, hnew⟩ | ⟨hk, hsame⟩
  · rw [hhousehold] at hbefore
    rw [hnew]
    exact hbefore.cons_raised (hcreates k) (by simp [raisedVersion, hraises])
  · rw [hsame]
    have hother : raisedVersion k (appliedEntry call body) = false := by
      simp [raisedVersion, hraises, Ne.symm hk]
    exact hbefore.cons_other (hcreates k) hother

/-- Every change keeps the ledgers. -/
theorem HouseholdChange.ledger {log : List OnceEntry} (h : HouseholdChange sha256 σ σ' call body)
    (hledger : ∀ k, Ledger log k (σ.get .households k)) (k : Identifier) :
    Ledger (appliedEntry call body :: log) k (σ'.get .households k) := by
  cases h with
  | @created account key input generated now _ person hnew _ hhouseholds _ _ _ =>
    have hbefore := hledger k
    rcases hhouseholds.get_cases k with ⟨rfl, hrow⟩ | ⟨hk, hsame⟩
    · rw [hnew] at hbefore
      rw [hrow]
      exact hbefore.cons_created (by simp [createdIn]) rfl rfl
    · rw [hsame]
      exact hbefore.cons_other (by simp [createdIn, Ne.symm hk]) rfl
  | invited household _ hhousehold _ hhouseholds _ _ _ =>
    exact ledger_of_raise hledger rfl (fun _ => rfl) hhousehold hhouseholds k
  | revoked household _ hhousehold _ _ hhouseholds _ _ _ =>
    exact ledger_of_raise hledger rfl (fun _ => rfl) hhousehold hhouseholds k
  | roleUpdated household _ _ hhousehold _ _ hhouseholds _ _ _ =>
    exact ledger_of_raise hledger rfl (fun _ => rfl) hhousehold hhouseholds k
  | accepted household _ invitation hhousehold _ _ _ _ _ _ hbody hhouseholds _ _ _ =>
    refine ledger_of_raise hledger ?_ (fun _ => rfl) hhousehold hhouseholds k
    simp only [OnceCall.raises, hbody]
  | other hcall hhouseholds _ _ _ =>
    rw [hhouseholds k]
    have hneither : createdIn k (appliedEntry call body) = false ∧
        raisedVersion k (appliedEntry call body) = false := by
      cases call <;> first | exact ⟨rfl, rfl⟩ | exact absurd hcall (by simp [OnceCall.onMembers])
    exact (hledger k).cons_other hneither.1 hneither.2

/-- An accepted invitation stays what it is, so its membership stays invited. -/
theorem IsInvited.mono {membership : MembershipRow} (h : IsInvited σ membership)
    (hkept : InvitationsKept σ σ') : IsInvited σ' membership := by
  obtain ⟨invitationId, invitation, hrow, haccepted, hrest⟩ := h
  obtain ⟨new, hnew, -, hclosed⟩ := hkept invitationId invitation hrow
  obtain rfl := hclosed (Or.inl haccepted)
  exact ⟨invitationId, new, hnew, haccepted, hrest⟩

theorem IsCreator.mono {log log' : List OnceEntry} {k : Identifier} {membership : MembershipRow}
    (h : IsCreator log k membership) (hlog : ∀ entry ∈ log, entry ∈ log') :
    IsCreator log' k membership := by
  obtain ⟨entry, hmem, hrest⟩ := h
  exact ⟨entry, hlog entry hmem, hrest⟩

theorem MembershipSound.mono {log log' : List OnceEntry} {k : Identifier}
    {membership : MembershipRow} (h : MembershipSound log σ k membership)
    (hlog : ∀ entry ∈ log, entry ∈ log') (hkept : InvitationsKept σ σ') :
    MembershipSound log' σ' k membership :=
  h.imp (fun hcreator => hcreator.mono hlog) (fun hinvited => ⟨hinvited.1, hinvited.2.mono hkept⟩)

theorem InvitationSound.mono {log log' : List OnceEntry} {invitation : MembershipInvitationRow}
    (h : InvitationSound sha256 log invitation) (hlog : ∀ entry ∈ log, entry ∈ log') :
    InvitationSound sha256 log' invitation where
  role := h.role
  exclusive := h.exclusive
  accepted := by
    intro haccepted
    obtain ⟨entry, hmem, haccepts⟩ := h.accepted haccepted
    exact ⟨entry, hlog entry hmem, haccepts⟩

/-- An acceptance is recorded in the invitation it leaves. -/
theorem accepts_acceptedBy {invitation : MembershipInvitationRow} {account : AccountContext}
    {key : String} {input : AcceptInvitationInput} {generated : AcceptInvitationGenerated}
    {acceptedAt : Instant} (now : Instant)
    (htoken : invitation.tokenHash = sha256.digest input.token)
    (havailable : invitation.available
      (acceptInvitationWrite sha256 input generated acceptedAt) = true)
    (hversion : invitation.version = input.expectedInvitationVersion) :
    Accepts sha256 (invitation.acceptedBy account acceptedAt)
      (appliedEntry (.acceptInvitation account key input generated acceptedAt now) body) := by
  obtain ⟨-, hemail, hexpiry⟩ := MembershipInvitationRow.open_of_available havailable
  exact ⟨account, key, input, generated, acceptedAt, now, body, rfl, htoken, hemail, rfl, hexpiry,
    rfl, congrArg (· + 1) hversion⟩

/-- Every change keeps invitations sound. -/
theorem HouseholdChange.invitationsSound {log : List OnceEntry}
    (h : HouseholdChange sha256 σ σ' call body)
    (hsound : ∀ (k : Identifier) (invitation : MembershipInvitationRow),
      σ.get .membershipInvitations k = some invitation → InvitationSound sha256 log invitation)
    (k : Identifier) (invitation : MembershipInvitationRow)
    (hrow : σ'.get .membershipInvitations k = some invitation) :
    InvitationSound sha256 (appliedEntry call body :: log) invitation := by
  have hlog : ∀ entry ∈ log, entry ∈ appliedEntry call body :: log :=
    fun _ hmem => List.mem_cons_of_mem _ hmem
  have hold : σ'.get .membershipInvitations k = σ.get .membershipInvitations k →
      InvitationSound sha256 (appliedEntry call body :: log) invitation :=
    fun hsame => (hsound k invitation (hsame.symm.trans hrow)).mono hlog
  cases h with
  | created _ _ _ _ _ _ hinvitations => exact hold (hinvitations k)
  | invited _ hrole _ _ _ _ _ hinvitations =>
    rcases hinvitations.get_cases k with ⟨-, hnew⟩ | ⟨-, hsame⟩
    · obtain rfl := Option.some.inj (hnew.symm.trans hrow)
      exact ⟨hrole, Or.inl rfl, fun haccepted => absurd rfl haccepted⟩
    · exact hold hsame
  | revoked _ before _ hinvitation hopen _ _ _ hinvitations =>
    rcases hinvitations.get_cases k with ⟨-, hnew⟩ | ⟨-, hsame⟩
    · obtain rfl := Option.some.inj (hnew.symm.trans hrow)
      have hrole := (hsound _ before hinvitation).role
      exact ⟨hrole, Or.inl hopen.1, fun haccepted => absurd hopen.1 haccepted⟩
    · exact hold hsame
  | roleUpdated _ _ _ _ _ _ _ _ _ hinvitations => exact hold (hinvitations k)
  | accepted _ _ before _ hinvitation htoken havailable hversion _ _ _ _ _ _ hinvitations =>
    rcases hinvitations.get_cases k with ⟨-, hnew⟩ | ⟨-, hsame⟩
    · obtain rfl := Option.some.inj (hnew.symm.trans hrow)
      have hrole := (hsound _ before hinvitation).role
      have hopen := (MembershipInvitationRow.open_of_available havailable).1
      exact ⟨hrole, Or.inr hopen.2, fun _ =>
        ⟨_, List.mem_cons_self, accepts_acceptedBy _ htoken havailable hversion⟩⟩
    · exact hold hsame
  | other _ _ _ _ hinvitations => exact hold (hinvitations k)

/-- Every change keeps memberships sound. -/
theorem HouseholdChange.membershipsSound {log : List OnceEntry}
    (h : HouseholdChange sha256 σ σ' call body)
    (hinvitationsSound : ∀ (k : Identifier) (invitation : MembershipInvitationRow),
      σ.get .membershipInvitations k = some invitation → InvitationSound sha256 log invitation)
    (hsound : ∀ (k : Identifier) (membership : MembershipRow),
      σ.get .memberships k = some membership → MembershipSound log σ k membership)
    (k : Identifier) (membership : MembershipRow)
    (hrow : σ'.get .memberships k = some membership) :
    MembershipSound (appliedEntry call body :: log) σ' k membership := by
  have hkept := h.kept.invitations
  have hlog : ∀ entry ∈ log, entry ∈ appliedEntry call body :: log :=
    fun _ hmem => List.mem_cons_of_mem _ hmem
  have hold : σ'.get .memberships k = σ.get .memberships k →
      MembershipSound (appliedEntry call body :: log) σ' k membership :=
    fun hsame => (hsound k membership (hsame.symm.trans hrow)).mono hlog hkept
  cases h with
  | @created account key input generated now _ _ _ _ _ _ hmemberships _ =>
    rcases hmemberships.get_cases k with ⟨rfl, hnew⟩ | ⟨-, hsame⟩
    · obtain rfl := Option.some.inj (hnew.symm.trans hrow)
      exact Or.inl ⟨_, List.mem_cons_self, account, generated, ⟨key, input, now, body, rfl⟩, rfl,
        rfl⟩
    · exact hold hsame
  | invited _ _ _ _ _ _ hmemberships _ => exact hold (hmemberships k)
  | revoked _ _ _ _ _ _ _ hmemberships _ => exact hold (hmemberships k)
  | roleUpdated _ before hrole _ hmembership hnotOwner _ _ hmemberships _ =>
    rcases hmemberships.get_cases k with ⟨rfl, hnew⟩ | ⟨-, hsame⟩
    · obtain rfl := Option.some.inj (hnew.symm.trans hrow)
      rcases hsound _ before hmembership with ⟨_, -, account, generated, -, -, howner⟩ |
        ⟨-, hinvited⟩
      · exact absurd (congrArg MembershipRow.role howner) hnotOwner
      · have hstill : IsInvited σ' before := hinvited.mono hkept
        exact Or.inr ⟨hrole, hstill⟩
    · exact hold hsame
  | accepted _ invitationId invitation _ hinvitation _ _ _ _ _ _ _ _ hmemberships hinvitations =>
    rcases hmemberships.get_cases k with ⟨rfl, hnew⟩ | ⟨-, hsame⟩
    · obtain rfl := Option.some.inj (hnew.symm.trans hrow)
      have hrole := (hinvitationsSound _ invitation hinvitation).role
      exact Or.inr ⟨hrole, invitationId, _, hinvitations.row, by
        simp [MembershipInvitationRow.acceptedBy], rfl, rfl, rfl⟩
    · exact hold hsame
  | other _ _ _ hmemberships _ => exact hold (hmemberships k)

/-- A change that replaces or adds a household deletes none. -/
theorem HouseholdChange.households_kept (h : HouseholdChange sha256 σ σ' call body)
    (k : Identifier) (hrow : σ.get .households k ≠ none) : σ'.get .households k ≠ none := by
  have hreplaced : ∀ {householdId : Identifier} {household : HouseholdRow},
      Replaces (S := vaultSchema) .households householdId (some household) σ σ' →
      σ'.get .households k ≠ none := by
    intro householdId household hreplaces
    rcases hreplaces.get_cases k with ⟨-, hnew⟩ | ⟨-, hsame⟩
    · simp [hnew]
    · rw [hsame]
      exact hrow
  cases h with
  | created _ _ _ hhouseholds _ _ _ => exact hreplaced hhouseholds
  | invited _ _ _ _ hhouseholds _ _ _ => exact hreplaced hhouseholds
  | revoked _ _ _ _ _ hhouseholds _ _ _ => exact hreplaced hhouseholds
  | roleUpdated _ _ _ _ _ _ hhouseholds _ _ _ => exact hreplaced hhouseholds
  | accepted _ _ _ _ _ _ _ _ _ _ _ hhouseholds _ _ _ => exact hreplaced hhouseholds
  | other _ hhouseholds _ _ _ =>
    rw [hhouseholds k]
    exact hrow

/-- Every change keeps log and rows sound. -/
theorem HouseholdsSound.change {log : List OnceEntry} (hsound : HouseholdsSound sha256 log σ)
    (h : HouseholdChange sha256 σ σ' call body) :
    HouseholdsSound sha256 (appliedEntry call body :: log) σ' where
  keyed := h.keyed hsound.keyed
  ledger := h.ledger hsound.ledger
  creations := by
    intro entry hmem account generated hcreates
    rcases List.mem_cons.mp hmem with rfl | hmem
    · obtain ⟨key, input, now, body', heq⟩ := hcreates
      obtain ⟨rfl, -⟩ := Entry.mk.inj heq
      cases h with
      | created _ _ _ hhouseholds _ hmemberships _ =>
        exact ⟨hmemberships.row, by simp [hhouseholds.row]⟩
      | other hcall => exact absurd hcall (by simp [OnceCall.onMembers])
    · obtain ⟨hmembership, hhousehold⟩ := hsound.creations entry hmem account generated hcreates
      exact ⟨h.kept.owners _ _ hmembership rfl, h.households_kept _ hhousehold⟩
  memberships := h.membershipsSound hsound.invitations hsound.memberships
  invitations := h.invitationsSound hsound.invitations

/-- A call that took no effect keeps log and rows sound. -/
theorem HouseholdsSound.cons {log : List OnceEntry} (hsound : HouseholdsSound sha256 log σ)
    {entry : OnceEntry} (hentry : ∀ body, entry.outcome ≠ .committed (.applied body)) :
    HouseholdsSound sha256 (entry :: log) σ := by
  obtain ⟨request, outcome⟩ := entry
  have hlog : ∀ other ∈ log, other ∈ (⟨request, outcome⟩ :: log : List OnceEntry) :=
    fun _ hmem => List.mem_cons_of_mem _ hmem
  refine ⟨hsound.keyed, fun k => (hsound.ledger k).cons_other ?_ ?_, ?_, ?_, ?_⟩
  · unfold createdIn
    split
    · exact absurd ‹_› (hentry _)
    · rfl
  · unfold raisedVersion
    split
    · exact absurd ‹_› (hentry _)
    · rfl
  · intro other hmem account generated hcreates
    rcases List.mem_cons.mp hmem with rfl | hmem
    · obtain ⟨_, _, _, body, heq⟩ := hcreates
      exact absurd (Entry.mk.inj heq).2 (hentry body)
    · exact hsound.creations other hmem account generated hcreates
  · intro k membership hrow
    exact (hsound.memberships k membership hrow).mono hlog (HouseholdsKept.refl σ).invitations
  · intro k invitation hrow
    exact (hsound.invitations k invitation hrow).mono hlog

end Change

section Runs

variable {sha256 : Sha256} {applicationKek : SymmetricKey} {asked : OnceCall → Prop}

/-- Nothing has happened to the empty database. -/
theorem householdsSound_empty : HouseholdsSound sha256 [] Store.empty where
  keyed := ⟨fun k row hrow => absurd hrow (by simp), fun k row hrow => absurd hrow (by simp)⟩
  ledger := fun k entry hmem => absurd hmem (by simp)
  creations := fun entry hmem => absurd hmem (by simp)
  memberships := fun k row hrow => absurd hrow (by simp)
  invitations := fun k row hrow => absurd hrow (by simp)

/-- In every interleaving log and rows are sound, and invitations and owners are kept. -/
theorem households_invariant :
    (onceProtocol sha256 applicationKek asked).Invariant Store.empty (HouseholdsSound sha256)
      HouseholdsKept where
  refl := HouseholdsKept.refl
  trans := HouseholdsKept.trans
  start := householdsSound_empty
  commit := by
    intro log begun seen σ call answer ws hsound _ _ _ hearlier hexec
    have hseen : ∀ σ₀, seen σ₀ → Keyed σ₀ ∧ InvitationsKept σ₀ σ := by
      intro σ₀ h₀
      obtain ⟨hkept, log₀, -, -, hsound₀⟩ := hearlier σ₀ h₀
      exact ⟨hsound₀.keyed, hkept.invitations⟩
    rcases OnceCall.executes_change hsound.keyed hseen hexec with
      ⟨body, rfl, rfl⟩ | ⟨body, rfl, hchange⟩
    · exact ⟨hsound.cons (fun body => by simp), HouseholdsKept.refl _⟩
    · exact ⟨hsound.change hchange, hchange.kept⟩
  rollback := fun hsound _ _ _ _ _ => hsound.cons (fun body => by simp)
  abort := fun hsound _ _ => hsound.cons (fun body => by simp)

end Runs

/-- A household is founded, its owner invites somebody, they accept, and their role changes. -/
def exampleHousehold : List OnceCall :=
  [.createHousehold ⟨"u1"⟩ "k1" ⟨"Family", "Home", "Ada"⟩
      ⟨"o1", "h1", "p1", "m1", "hk1", "dek", 1, 2⟩ 0,
    .createInvitation ⟨"o1", "h1", "p1"⟩ "m1" "k2" ⟨"bob@example.com", .editor, 1⟩ "i1" 0 0,
    .acceptInvitation ⟨"u2"⟩ "k3"
      ⟨"membership-invite-token:o1:h1:k2:membership-invite-email:bob@example.com",
        "bob@example.com", "Bob", 1⟩ ⟨"o1", "h1", "p2", "m2", "dek", 1, 3⟩ 5 5,
    .updateRole ⟨"o1", "h1", "p1"⟩ "k4" ⟨"m2", .readOnlyViewer, 1⟩ 6]

end LegacyVault
