import LegacyVault.OneTransactionIdempotency

/-!
# What the household operations change

One description for every applied call: which rows of households, people,
memberships and invitations it found, and how they stand afterwards. The
operations on documents, privacy requests and exports leave all four tables
alone.

An acceptance looks its invitation up before it locks it. The lookup may be
older than the lock, so its description rests on what invitations keep.
-/

namespace LegacyVault

open JsonText RowTransaction RowTransaction.Program Store

/-- Households and invitations are stored under their own identifiers. -/
structure Keyed (σ : Vault) : Prop where
  /-- Households are. -/
  households : ∀ (k : Identifier) (row : HouseholdRow),
    σ.get .households k = some row → row.id = k
  /-- Invitations are. -/
  invitations : ∀ (k : Identifier) (row : MembershipInvitationRow),
    σ.get .membershipInvitations k = some row → row.id = k

/-- What never changes of an invitation. -/
structure MembershipInvitationRow.SameOffer (old new : MembershipInvitationRow) : Prop where
  /-- It stays in its organization. -/
  organization : new.organizationId = old.organizationId
  /-- It stays in its household. -/
  household : new.householdId = old.householdId
  /-- It stays addressed to its e-mail address. -/
  email : new.emailHash = old.emailHash
  /-- It keeps its token. -/
  token : new.tokenHash = old.tokenHash
  /-- It keeps its role. -/
  role : new.role = old.role
  /-- It keeps its expiry. -/
  expiry : new.expiresAt = old.expiresAt

/-- An accepted or revoked invitation. -/
def MembershipInvitationRow.Closed (row : MembershipInvitationRow) : Prop :=
  row.acceptedAt ≠ none ∨ row.revokedAt ≠ none

/-- Invitations keep what they offer, and those that are closed do not change at all. -/
def InvitationsKept (σ σ' : Vault) : Prop :=
  ∀ (k : Identifier) (old : MembershipInvitationRow),
    σ.get .membershipInvitations k = some old →
    ∃ new : MembershipInvitationRow, σ'.get .membershipInvitations k = some new ∧
      old.SameOffer new ∧ (old.Closed → new = old)

/-- The household a created household's rows start with. -/
def createdHousehold (input : CreateHouseholdInput) (generated : CreateHouseholdGenerated) :
    HouseholdRow :=
  ⟨generated.householdId, generated.organizationId, input.householdName, 1⟩

/-- The membership of a household's creator. -/
def ownerMembership (account : AccountContext) (generated : CreateHouseholdGenerated) :
    MembershipRow :=
  ⟨generated.membershipId, generated.organizationId, generated.householdId, generated.personId,
    .owner, true, some account.authUserId, 1⟩

/-- The person of a household's creator. -/
def HouseholdWrite.ownerPerson (input : HouseholdWrite) : PersonRow :=
  ⟨input.personId, input.organizationId, input.householdId, input.displayNameCiphertext,
    input.keyVersion, 1⟩

/-- The household with its version raised. -/
def HouseholdRow.raised (household : HouseholdRow) : HouseholdRow :=
  { household with version := household.version + 1 }

/-- An invitation as it is created. -/
def openInvitation (context : TenantContext) (input : InvitationWrite) :
    MembershipInvitationRow :=
  ⟨input.invitationId, context.organizationId, context.householdId, input.emailHash,
    input.tokenHash, input.role, input.invitedBy, input.expiresAt, none, none, none, 1⟩

/-- An invitation as its acceptance leaves it. -/
def MembershipInvitationRow.acceptedBy (invitation : MembershipInvitationRow)
    (account : AccountContext) (acceptedAt : Instant) : MembershipInvitationRow :=
  { invitation with
    acceptedAt := some acceptedAt
    acceptedByAuthUserId := some account.authUserId
    version := invitation.version + 1 }

/-- The membership an acceptance creates. -/
def MembershipInvitationRow.membership (invitation : MembershipInvitationRow)
    (account : AccountContext) (input : AcceptanceWrite) : MembershipRow :=
  ⟨input.membershipId, invitation.organizationId, invitation.householdId, input.personId,
    invitation.role, true, some account.authUserId, 1⟩

/-- The person an acceptance creates. -/
def MembershipInvitationRow.person (invitation : MembershipInvitationRow)
    (input : AcceptanceWrite) : PersonRow :=
  ⟨input.personId, invitation.organizationId, invitation.householdId,
    input.displayNameCiphertext, input.keyVersion, 1⟩

/-- The operations on households and their members. -/
def OnceCall.onMembers : OnceCall → Bool
  | .createHousehold .. | .createInvitation .. | .revokeInvitation .. | .updateRole ..
  | .acceptInvitation .. => true
  | _ => false

section Change

variable (sha256 : Sha256) (σ σ' : Vault)

/-- What an applied call does to households, people, memberships and invitations. -/
inductive HouseholdChange : OnceCall → Json → Prop
  /-- A household is created with its owner. -/
  | created {account : AccountContext} {key : String} {input : CreateHouseholdInput}
      {generated : CreateHouseholdGenerated} {now : Instant} {body : Json} (person : PersonRow)
      (hnew : σ.get .households generated.householdId = none)
      (hnewMembership : σ.get .memberships generated.membershipId = none)
      (hhouseholds : Replaces (S := vaultSchema) .households generated.householdId
        (some (createdHousehold input generated)) σ σ')
      (hpeople : Replaces (S := vaultSchema) .people generated.personId (some person) σ σ')
      (hmemberships : Replaces (S := vaultSchema) .memberships generated.membershipId
        (some (ownerMembership account generated)) σ σ')
      (hinvitations : SameRows (S := vaultSchema) .membershipInvitations σ σ') :
      HouseholdChange (.createHousehold account key input generated now) body
  /-- An invitation is created at the expected household version. -/
  | invited {context : TenantContext} {membershipId : Identifier} {key : String}
      {input : CreateInvitationInput} {invitationId : Identifier} {clock now : Instant}
      {body : Json} (household : HouseholdRow) (hrole : input.role ∈ assignableHouseholdRoles)
      (hhousehold : σ.get .households context.householdId = some household)
      (hnew : σ.get .membershipInvitations invitationId = none)
      (hhouseholds : Replaces (S := vaultSchema) .households context.householdId
        (some household.raised) σ σ')
      (hpeople : SameRows (S := vaultSchema) .people σ σ')
      (hmemberships : SameRows (S := vaultSchema) .memberships σ σ')
      (hinvitations : Replaces (S := vaultSchema) .membershipInvitations invitationId
        (some (openInvitation context
          (createInvitationWrite sha256 context membershipId key input invitationId clock))) σ σ') :
      HouseholdChange (.createInvitation context membershipId key input invitationId clock now)
        body
  /-- An open invitation is revoked. -/
  | revoked {context : TenantContext} {key : String} {input : RevokeInvitationInput}
      {revokedAt now : Instant} {body : Json} (household : HouseholdRow)
      (invitation : MembershipInvitationRow)
      (hhousehold : σ.get .households context.householdId = some household)
      (hinvitation : σ.get .membershipInvitations input.invitationId = some invitation)
      (hopen : invitation.acceptedAt = none ∧ invitation.revokedAt = none)
      (hhouseholds : Replaces (S := vaultSchema) .households context.householdId
        (some household.raised) σ σ')
      (hpeople : SameRows (S := vaultSchema) .people σ σ')
      (hmemberships : SameRows (S := vaultSchema) .memberships σ σ')
      (hinvitations : Replaces (S := vaultSchema) .membershipInvitations input.invitationId
        (some { invitation with
          revokedAt := some revokedAt
          version := invitation.version + 1 }) σ σ') :
      HouseholdChange (.revokeInvitation context key input revokedAt now) body
  /-- An active membership that is not the owner's gets an assignable role. -/
  | roleUpdated {context : TenantContext} {key : String} {input : UpdateRoleInput}
      {now : Instant} {body : Json} (household : HouseholdRow) (membership : MembershipRow)
      (hrole : input.role ∈ assignableHouseholdRoles)
      (hhousehold : σ.get .households context.householdId = some household)
      (hmembership : σ.get .memberships input.membershipId = some membership)
      (hnotOwner : membership.role ≠ .owner)
      (hhouseholds : Replaces (S := vaultSchema) .households context.householdId
        (some household.raised) σ σ')
      (hpeople : SameRows (S := vaultSchema) .people σ σ')
      (hmemberships : Replaces (S := vaultSchema) .memberships input.membershipId
        (some { membership with role := input.role, version := membership.version + 1 }) σ σ')
      (hinvitations : SameRows (S := vaultSchema) .membershipInvitations σ σ') :
      HouseholdChange (.updateRole context key input now) body
  /-- An open invitation is accepted: a person and a membership are created. -/
  | accepted {account : AccountContext} {key : String} {input : AcceptInvitationInput}
      {generated : AcceptInvitationGenerated} {acceptedAt now : Instant} {body : Json}
      (household : HouseholdRow) (invitationId : Identifier) (invitation : MembershipInvitationRow)
      (hhousehold : σ.get .households invitation.householdId = some household)
      (hinvitation : σ.get .membershipInvitations invitationId = some invitation)
      (htoken : invitation.tokenHash = sha256.digest input.token)
      (havailable : invitation.available
        (acceptInvitationWrite sha256 input generated acceptedAt) = true)
      (hversion : invitation.version = input.expectedInvitationVersion)
      (hnewPerson : σ.get .people generated.personId = none)
      (hnewMembership : σ.get .memberships generated.membershipId = none)
      (hbody : (member "household" body).bind (member "id") = some (.str invitation.householdId))
      (hhouseholds : Replaces (S := vaultSchema) .households invitation.householdId
        (some household.raised) σ σ')
      (hpeople : Replaces (S := vaultSchema) .people generated.personId
        (some (invitation.person (acceptInvitationWrite sha256 input generated acceptedAt))) σ σ')
      (hmemberships : Replaces (S := vaultSchema) .memberships generated.membershipId
        (some (invitation.membership account
          (acceptInvitationWrite sha256 input generated acceptedAt))) σ σ')
      (hinvitations : Replaces (S := vaultSchema) .membershipInvitations invitationId
        (some (invitation.acceptedBy account acceptedAt)) σ σ') :
      HouseholdChange (.acceptInvitation account key input generated acceptedAt now) body
  /-- Another operation. -/
  | other {call : OnceCall} {body : Json} (hcall : call.onMembers = false)
      (hhouseholds : SameRows (S := vaultSchema) .households σ σ')
      (hpeople : SameRows (S := vaultSchema) .people σ σ')
      (hmemberships : SameRows (S := vaultSchema) .memberships σ σ')
      (hinvitations : SameRows (S := vaultSchema) .membershipInvitations σ σ') :
      HouseholdChange call body

end Change

section Executes

variable {seen : Vault → Prop} {σ : Vault} {ws ws' : List (Write vaultSchema)}

theorem insertPerson_executes {person : PersonRow} {u : Unit}
    (h : (insertPerson person).Executes seen σ ws (.ok u) ws') :
    (σ.overlay ws).get .people person.id = none ∧
      ws' = ⟨VaultTable.people, person.id, some person⟩ :: ws := by
  obtain ⟨row, ws₁, hinsert, -, hws⟩ := executes_bind_ok.mp h
  obtain ⟨hfree, -, hwritten⟩ := executes_insertRow_ok hinsert
  exact ⟨hfree, hws.trans hwritten⟩

theorem insertMembership_executes {membership : MembershipRow} {u : Unit}
    (h : (insertMembership membership).Executes seen σ ws (.ok u) ws') :
    (σ.overlay ws).get .memberships membership.id = none ∧
      ws' = ⟨VaultTable.memberships, membership.id, some membership⟩ :: ws := by
  obtain ⟨row, ws₁, hinsert, -, hws⟩ := executes_bind_ok.mp (executes_of_requireUnique h)
  obtain ⟨hfree, -, hwritten⟩ := executes_insertRow_ok hinsert
  exact ⟨hfree, hws.trans hwritten⟩

theorem raiseHouseholdVersion_executes {householdId : Identifier}
    {condition : HouseholdRow → Bool} {row : HouseholdRow}
    (h : (raiseHouseholdVersion householdId condition).Executes seen σ ws (.ok (some row)) ws') :
    ∃ household : HouseholdRow, (σ.overlay ws).get .households householdId = some household ∧
      row = household.raised ∧
      ws' = ⟨VaultTable.households, householdId, some household.raised⟩ :: ws := by
  obtain ⟨household, hold, hchange, hws⟩ := executes_updateRow_some h
  simp only [Option.ite_none_right_eq_some] at hchange
  obtain ⟨-, hrow⟩ := hchange
  obtain rfl : HouseholdRow.raised household = row := Option.some.inj hrow
  exact ⟨household, hold, rfl, hws⟩

theorem createHouseholdMutation_executes {sha256 : Sha256} {applicationKek : SymmetricKey}
    {account : AccountContext} {key : String} {input : CreateHouseholdInput}
    {generated : CreateHouseholdGenerated} {now : Instant} {body : Json}
    (h : (createHouseholdMutation account
      (createHouseholdWrite applicationKek input generated)).Executes seen σ ws (.ok body) ws') :
    HouseholdChange sha256 (σ.overlay ws) (σ.overlay ws')
      (.createHousehold account key input generated now) body := by
  obtain ⟨_, ws₁, horganization, h⟩ := executes_bind_ok.mp h
  obtain ⟨-, -, rfl⟩ := executes_insertRow_ok horganization
  obtain ⟨_, ws₂, hhousehold, h⟩ := executes_bind_ok.mp h
  obtain ⟨hnew, -, rfl⟩ := executes_insertRow_ok hhousehold
  obtain ⟨_, ws₃, hkey, h⟩ := executes_bind_ok.mp (executes_of_requireUnique h)
  obtain ⟨-, -, rfl⟩ := executes_insertRow_ok hkey
  obtain ⟨_, ws₄, hperson, h⟩ := executes_bind_ok.mp h
  obtain ⟨-, rfl⟩ := insertPerson_executes hperson
  obtain ⟨_, ws₅, hmembership, h⟩ := executes_bind_ok.mp h
  obtain ⟨hnewMembership, rfl⟩ := insertMembership_executes hmembership
  obtain ⟨-, rfl⟩ := h
  have hbase : ∀ t : VaultTable, SameRows (S := vaultSchema) t (σ.overlay ws) (σ.overlay ws) :=
    fun t => SameRows.refl (S := vaultSchema) t _
  refine .created (createHouseholdWrite applicationKek input generated).ownerPerson
    ?_ ?_ ?_ ?_ ?_ ?_
  · exact ((hbase .households).writeOther (by decide) _).symm.trans hnew
  · exact (((((hbase .memberships).writeOther (by decide)).writeOther (by decide)).writeOther
      (by decide)).writeOther (by decide) _).symm.trans hnewMembership
  · exact ((((hbase .households).writeOther (by decide)).write.writeOther (by decide)).writeOther
      (by decide)).writeOther (by decide)
  · exact ((((hbase .people).writeOther (by decide)).writeOther (by decide)).writeOther
      (by decide)).write.writeOther (by decide)
  · exact ((((hbase .memberships).writeOther (by decide)).writeOther (by decide)).writeOther
      (by decide)).writeOther (by decide) |>.write
  · exact ((((hbase .membershipInvitations).writeOther (by decide)).writeOther
      (by decide)).writeOther (by decide)).writeOther (by decide) |>.writeOther (by decide)

theorem createInvitationMutation_executes {sha256 : Sha256} {context : TenantContext}
    {membershipId : Identifier} {key : String} {input : CreateInvitationInput}
    {invitationId : Identifier} {clock now : Instant} {body : Json}
    (hrole : input.role ∈ assignableHouseholdRoles)
    (h : (createInvitationMutation context (createInvitationWrite sha256 context membershipId key
      input invitationId clock)).Executes seen σ ws (.ok body) ws') :
    HouseholdChange sha256 (σ.overlay ws) (σ.overlay ws')
      (.createInvitation context membershipId key input invitationId clock now) body := by
  obtain ⟨raised, ws₁, hraise, h⟩ := executes_bind_ok.mp h
  cases raised with
  | none => exact absurd h.1 (by simp)
  | some row =>
    obtain ⟨household, hhousehold, rfl, rfl⟩ := raiseHouseholdVersion_executes hraise
    obtain ⟨taken, ws₂, hselect, h⟩ := executes_bind_ok.mp h
    obtain ⟨-, -, -, rfl⟩ := executes_select.mp hselect
    cases taken with
    | true => exact absurd h.1 (by simp)
    | false =>
      obtain ⟨inserted, ws₃, hinsert, h⟩ := executes_bind_ok.mp h
      obtain ⟨hfree, -, rfl⟩ := executes_insertRow_ok hinsert
      obtain ⟨-, rfl⟩ := h
      have hbase : ∀ t : VaultTable, SameRows (S := vaultSchema) t (σ.overlay ws) (σ.overlay ws) :=
        fun t => SameRows.refl (S := vaultSchema) t _
      refine .invited household hrole hhousehold ?_ ?_ ?_ ?_ ?_
      · exact ((hbase .membershipInvitations).writeOther (by decide) _).symm.trans hfree
      · exact (hbase .households).write.writeOther (by decide)
      · exact ((hbase .people).writeOther (by decide)).writeOther (by decide)
      · exact ((hbase .memberships).writeOther (by decide)).writeOther (by decide)
      · exact ((hbase .membershipInvitations).writeOther (by decide)).write

theorem revokeInvitationMutation_executes {sha256 : Sha256} {context : TenantContext}
    {key : String} {input : RevokeInvitationInput} {revokedAt now : Instant} {body : Json}
    (h : (revokeInvitationMutation context input revokedAt).Executes seen σ ws (.ok body) ws') :
    HouseholdChange sha256 (σ.overlay ws) (σ.overlay ws')
      (.revokeInvitation context key input revokedAt now) body := by
  obtain ⟨updated, ws₁, hupdate, h⟩ := executes_bind_ok.mp h
  cases updated with
  | none => exact absurd h.1 (by simp)
  | some row =>
    obtain ⟨invitation, hinvitation, hchange, rfl⟩ := executes_updateRow_some hupdate
    simp only [Option.ite_none_right_eq_some, Option.some.injEq] at hchange
    obtain ⟨⟨-, -, hopen⟩, rfl⟩ := hchange
    obtain ⟨raised, ws₂, hraise, h⟩ := executes_bind_ok.mp h
    cases raised with
    | none => exact absurd h.1 (by simp)
    | some raised =>
      obtain ⟨household, hhousehold, -, rfl⟩ := raiseHouseholdVersion_executes hraise
      obtain ⟨-, rfl⟩ := h
      have hbase : ∀ t : VaultTable, SameRows (S := vaultSchema) t (σ.overlay ws) (σ.overlay ws) :=
        fun t => SameRows.refl (S := vaultSchema) t _
      refine .revoked household invitation ?_ hinvitation hopen ?_ ?_ ?_ ?_
      · exact ((hbase .households).writeOther (by decide) _).symm.trans hhousehold
      · exact ((hbase .households).writeOther (by decide)).write
      · exact ((hbase .people).writeOther (by decide)).writeOther (by decide)
      · exact ((hbase .memberships).writeOther (by decide)).writeOther (by decide)
      · exact (hbase .membershipInvitations).write.writeOther (by decide)

theorem updateRoleMutation_executes {sha256 : Sha256} {context : TenantContext} {key : String}
    {input : UpdateRoleInput} {now : Instant} {body : Json}
    (hrole : input.role ∈ assignableHouseholdRoles)
    (h : (updateRoleMutation context input).Executes seen σ ws (.ok body) ws') :
    HouseholdChange sha256 (σ.overlay ws) (σ.overlay ws') (.updateRole context key input now)
      body := by
  obtain ⟨updated, ws₁, hupdate, h⟩ := executes_bind_ok.mp h
  cases updated with
  | none => exact absurd h.1 (by simp)
  | some row =>
    obtain ⟨membership, hmembership, hchange, rfl⟩ := executes_updateRow_some hupdate
    simp only [Option.ite_none_right_eq_some, Option.some.injEq] at hchange
    obtain ⟨⟨-, -, -, hnotOwner⟩, rfl⟩ := hchange
    obtain ⟨raised, ws₂, hraise, h⟩ := executes_bind_ok.mp h
    cases raised with
    | none => exact absurd h.1 (by simp)
    | some raised =>
      obtain ⟨household, hhousehold, -, rfl⟩ := raiseHouseholdVersion_executes hraise
      obtain ⟨-, rfl⟩ := h
      have hbase : ∀ t : VaultTable, SameRows (S := vaultSchema) t (σ.overlay ws) (σ.overlay ws) :=
        fun t => SameRows.refl (S := vaultSchema) t _
      refine .roleUpdated household membership hrole ?_ hmembership hnotOwner ?_ ?_ ?_ ?_
      · exact ((hbase .households).writeOther (by decide) _).symm.trans hhousehold
      · exact ((hbase .households).writeOther (by decide)).write
      · exact ((hbase .people).writeOther (by decide)).writeOther (by decide)
      · exact (hbase .memberships).write.writeOther (by decide)
      · exact ((hbase .membershipInvitations).writeOther (by decide)).writeOther (by decide)

/-- The invitation an acceptance locks is the one it has looked up: its token says so. -/
theorem acceptInvitationMutation_executes {sha256 : Sha256} {account : AccountContext}
    {key : String} {input : AcceptInvitationInput} {generated : AcceptInvitationGenerated}
    {acceptedAt now : Instant} {body : Json} (hkeyed : Keyed (σ.overlay ws))
    (hearlier : ∀ σ₀, seen σ₀ → Keyed (σ₀.overlay ws) ∧
      InvitationsKept (σ₀.overlay ws) (σ.overlay ws))
    (h : (acceptInvitationMutation account
      (acceptInvitationWrite sha256 input generated acceptedAt)).Executes seen σ ws (.ok body) ws') :
    HouseholdChange sha256 (σ.overlay ws) (σ.overlay ws')
      (.acceptInvitation account key input generated acceptedAt now) body := by
  obtain ⟨visible, ws₁, hselect, h⟩ := executes_bind_ok.mp h
  obtain ⟨σ₀, hseen, hvisible, hws⟩ := executes_select.mp hselect
  obtain rfl : ws = ws₁ := hws.symm
  obtain rfl := Except.ok.inj hvisible
  split at h
  · exact absurd h.1 (by simp)
  rename_i visibleRow hfound
  obtain ⟨hfind, -⟩ := Option.filter_eq_some_iff.mp hfound
  have hlookup : (σ₀.overlay ws).get .membershipInvitations visibleRow.id = some visibleRow := by
    have hmem : visibleRow ∈ (σ₀.overlay ws).rowsOf VaultTable.membershipInvitations :=
      List.mem_of_find?_eq_some hfind
    obtain ⟨k, hk⟩ := mem_rowsOf.mp hmem
    have hid : visibleRow.id = k := (hearlier σ₀ hseen).1.invitations k visibleRow hk
    rw [hid]
    exact hk
  have htoken : visibleRow.tokenHash = sha256.digest input.token := by
    have hmatches := List.find?_some hfind
    exact beq_iff_eq.mp hmatches
  obtain ⟨locked, ws₂, hlock, h⟩ := executes_bind_ok.mp h
  split at h
  · exact absurd h.1 (by simp)
  rename_i invitation hlocked
  obtain ⟨hinvitation, havailable⟩ := Option.filter_eq_some_iff.mp hlocked
  subst hinvitation
  obtain ⟨hinvitation, -, rfl⟩ := executes_lockRow_some hlock
  have hid : invitation.id = visibleRow.id := hkeyed.invitations _ invitation hinvitation
  obtain ⟨kept, hkept, hoffer, -⟩ := (hearlier σ₀ hseen).2 _ visibleRow hlookup
  obtain rfl : kept = invitation := Option.some.inj (hkept.symm.trans hinvitation)
  split at h
  · exact absurd h.1 (by simp)
  rename_i hversion
  obtain ⟨_, ws₃, hperson, h⟩ := executes_bind_ok.mp h
  obtain ⟨hnewPerson, rfl⟩ := insertPerson_executes hperson
  obtain ⟨_, ws₄, hmembership, h⟩ := executes_bind_ok.mp h
  obtain ⟨hnewMembership, rfl⟩ := insertMembership_executes hmembership
  obtain ⟨updated, ws₅, hupdate, h⟩ := executes_bind_ok.mp h
  cases updated with
  | none => exact absurd h.1 (by simp)
  | some updated =>
    obtain ⟨old, hold, hchange, rfl⟩ := executes_updateRow_some hupdate
    simp only [overlay_cons] at hold
    rw [get_set_of_table_ne _ _ _ _ (by decide), get_set_of_table_ne _ _ _ _ (by decide), hid,
      get_set_self] at hold
    obtain rfl : kept = old := Option.some.inj hold
    simp only [Option.ite_none_right_eq_some, Option.some.injEq] at hchange
    obtain ⟨-, rfl⟩ := hchange
    obtain ⟨raised, ws₆, hraise, h⟩ := executes_bind_ok.mp h
    cases raised with
    | none => exact absurd h.1 (by simp)
    | some raised =>
      obtain ⟨household, hhousehold, rfl, rfl⟩ := raiseHouseholdVersion_executes hraise
      obtain ⟨hbody, rfl⟩ := h
      obtain rfl := Except.ok.inj hbody
      have hbase : ∀ t : VaultTable, SameRows (S := vaultSchema) t (σ.overlay ws) (σ.overlay ws) :=
        fun t => SameRows.refl (S := vaultSchema) t _
      have hhousehold' : (σ.overlay ws).get .households kept.householdId = some household :=
        (((((hbase .households).writeOther (by decide)).writeOther (by decide)).writeOther
          (by decide)).writeOther (by decide) _).symm.trans hhousehold
      refine .accepted household visibleRow.id kept hhousehold' hinvitation
        (hoffer.token.trans htoken) havailable (not_not.mp hversion) ?_ ?_ ?_ ?_ ?_ ?_ ?_
      · exact ((hbase .people).writeOther (by decide) _).symm.trans hnewPerson
      · exact (((hbase .memberships).writeOther (by decide)).writeOther
          (by decide) _).symm.trans hnewMembership
      · have hname : household.id = kept.householdId := hkeyed.households _ household hhousehold'
        simp [member, householdJson, HouseholdRow.raised, hname]
      · exact ((((hbase .households).writeOther (by decide)).writeOther (by decide)).writeOther
          (by decide)).writeOther (by decide) |>.write
      · exact ((((hbase .people).writeOther (by decide)).write.writeOther (by decide)).writeOther
          (by decide)).writeOther (by decide)
      · exact ((((hbase .memberships).writeOther (by decide)).writeOther
          (by decide)).write.writeOther (by decide)).writeOther (by decide)
      · rw [← hid]
        refine Replaces.writeOther (Replaces.rewrite (v := some kept) ?_) (by decide)
        exact ((hbase .membershipInvitations).write.writeOther (by decide)).writeOther (by decide)

end Executes

/-- The same rows in every table that is not a record table. -/
def SameButRecords (σ σ' : Vault) : Prop :=
  ∀ t : VaultTable, t ≠ .idempotencyRecords → t ≠ .accountIdempotencyRecords →
    SameRows (S := vaultSchema) t σ σ'

theorem SameButRecords.symm {σ σ' : Vault} (h : SameButRecords σ σ') : SameButRecords σ' σ :=
  fun t htenant haccount k => (h t htenant haccount k).symm

theorem Keyed.congr {σ σ' : Vault} (h : Keyed σ) (hsame : SameButRecords σ σ') : Keyed σ' where
  households := fun k row hrow =>
    h.households k row ((hsame .households (by decide) (by decide) k).symm.trans hrow)
  invitations := fun k row hrow =>
    h.invitations k row ((hsame .membershipInvitations (by decide) (by decide) k).symm.trans hrow)

theorem InvitationsKept.congr {σ₀ σ₀' σ σ' : Vault} (h : InvitationsKept σ₀ σ)
    (h₀ : SameButRecords σ₀ σ₀') (hsame : SameButRecords σ σ') : InvitationsKept σ₀' σ' := by
  intro k old hold
  have hbefore : σ₀.get .membershipInvitations k = some old :=
    (h₀ .membershipInvitations (by decide) (by decide) k).symm.trans hold
  obtain ⟨new, hnew, hoffer, hclosed⟩ := h k old hbefore
  exact ⟨new, (hsame .membershipInvitations (by decide) (by decide) k).trans hnew, hoffer, hclosed⟩

/-- A change is about the four tables: the record tables do not matter. -/
theorem HouseholdChange.congr {sha256 : Sha256} {σ₁ σ₂ σ₃ σ₄ : Vault} {call : OnceCall}
    {body : Json} (hbefore : SameButRecords σ₁ σ₂) (h : HouseholdChange sha256 σ₂ σ₃ call body)
    (hafter : SameButRecords σ₃ σ₄) : HouseholdChange sha256 σ₁ σ₄ call body := by
  have hhouseholds := hbefore .households (by decide) (by decide)
  have hpeople := hbefore .people (by decide) (by decide)
  have hmemberships := hbefore .memberships (by decide) (by decide)
  have hinvitations := hbefore .membershipInvitations (by decide) (by decide)
  have hhouseholds' := hafter .households (by decide) (by decide)
  have hpeople' := hafter .people (by decide) (by decide)
  have hmemberships' := hafter .memberships (by decide) (by decide)
  have hinvitations' := hafter .membershipInvitations (by decide) (by decide)
  cases h with
  | created person hnew hnewMembership hh hp hm hi =>
    exact .created person ((hhouseholds _).symm.trans hnew)
      ((hmemberships _).symm.trans hnewMembership)
      ((hh.after_same hhouseholds).then_same hhouseholds')
      ((hp.after_same hpeople).then_same hpeople')
      ((hm.after_same hmemberships).then_same hmemberships')
      ((hinvitations.trans hi).trans hinvitations')
  | invited household hrole hhousehold hnew hh hp hm hi =>
    exact .invited household hrole ((hhouseholds _).symm.trans hhousehold)
      ((hinvitations _).symm.trans hnew)
      ((hh.after_same hhouseholds).then_same hhouseholds') ((hpeople.trans hp).trans hpeople')
      ((hmemberships.trans hm).trans hmemberships')
      ((hi.after_same hinvitations).then_same hinvitations')
  | revoked household invitation hhousehold hinvitation hopen hh hp hm hi =>
    exact .revoked household invitation ((hhouseholds _).symm.trans hhousehold)
      ((hinvitations _).symm.trans hinvitation) hopen
      ((hh.after_same hhouseholds).then_same hhouseholds') ((hpeople.trans hp).trans hpeople')
      ((hmemberships.trans hm).trans hmemberships')
      ((hi.after_same hinvitations).then_same hinvitations')
  | roleUpdated household membership hrole hhousehold hmembership hnotOwner hh hp hm hi =>
    exact .roleUpdated household membership hrole ((hhouseholds _).symm.trans hhousehold)
      ((hmemberships _).symm.trans hmembership) hnotOwner
      ((hh.after_same hhouseholds).then_same hhouseholds') ((hpeople.trans hp).trans hpeople')
      ((hm.after_same hmemberships).then_same hmemberships')
      ((hinvitations.trans hi).trans hinvitations')
  | accepted household invitationId invitation hhousehold hinvitation htoken havailable hversion
      hnewPerson hnewMembership hbody hh hp hm hi =>
    exact .accepted household invitationId invitation ((hhouseholds _).symm.trans hhousehold)
      ((hinvitations _).symm.trans hinvitation) htoken havailable hversion
      ((hpeople _).symm.trans hnewPerson) ((hmemberships _).symm.trans hnewMembership) hbody
      ((hh.after_same hhouseholds).then_same hhouseholds')
      ((hp.after_same hpeople).then_same hpeople')
      ((hm.after_same hmemberships).then_same hmemberships')
      ((hi.after_same hinvitations).then_same hinvitations')
  | other hcall hh hp hm hi =>
    exact .other hcall ((hhouseholds.trans hh).trans hhouseholds')
      ((hpeople.trans hp).trans hpeople') ((hmemberships.trans hm).trans hmemberships')
      ((hinvitations.trans hi).trans hinvitations')

section Calls

variable {sha256 : Sha256} {applicationKek : SymmetricKey} {seen : Vault → Prop} {σ : Vault}
  {ws ws' : List (Write vaultSchema)}

/-- A mutation that leaves the four tables alone changes nothing here. -/
theorem HouseholdChange.of_leaves {call : OnceCall} {body : Json} {mutation : Transaction Json}
    (hcall : call.onMembers = false)
    (hleaves : ∀ t : VaultTable, t = .households ∨ t = .people ∨ t = .memberships ∨
      t = .membershipInvitations → mutation.Leaves t)
    (h : mutation.Executes seen σ ws (.ok body) ws') :
    HouseholdChange sha256 (σ.overlay ws) (σ.overlay ws') call body :=
  .other hcall ((hleaves .households (by decide)).sameRows h)
    ((hleaves .people (by decide)).sameRows h) ((hleaves .memberships (by decide)).sameRows h)
    ((hleaves .membershipInvitations (by decide)).sameRows h)

/-- The mutation of a call makes the change of the call. -/
theorem OnceCall.mutation_change {call : OnceCall} {body : Json} {mutation : Transaction Json}
    (hmutation : (call.spec sha256 applicationKek).mutation = some mutation)
    (hkeyed : Keyed (σ.overlay ws))
    (hearlier : ∀ σ₀, seen σ₀ → Keyed (σ₀.overlay ws) ∧
      InvitationsKept (σ₀.overlay ws) (σ.overlay ws))
    (h : mutation.Executes seen σ ws (.ok body) ws') :
    HouseholdChange sha256 (σ.overlay ws) (σ.overlay ws') call body := by
  cases call with
  | createHousehold account key input generated now =>
    obtain rfl := Option.some.inj hmutation
    exact createHouseholdMutation_executes h
  | createInvitation context membershipId key input invitationId clock now =>
    by_cases hrole : input.role ∈ assignableHouseholdRoles
    · rw [OnceCall.spec, if_pos hrole] at hmutation
      obtain rfl := Option.some.inj hmutation
      exact createInvitationMutation_executes hrole h
    · rw [OnceCall.spec, if_neg hrole] at hmutation
      exact absurd hmutation (by simp [OnceSpec.mutation])
  | revokeInvitation context key input revokedAt now =>
    obtain rfl := Option.some.inj hmutation
    exact revokeInvitationMutation_executes h
  | updateRole context key input now =>
    by_cases hrole : input.role ∈ assignableHouseholdRoles
    · rw [OnceCall.spec, if_pos hrole] at hmutation
      obtain rfl := Option.some.inj hmutation
      exact updateRoleMutation_executes hrole h
    · rw [OnceCall.spec, if_neg hrole] at hmutation
      exact absurd hmutation (by simp [OnceSpec.mutation])
  | acceptInvitation account key input generated acceptedAt now =>
    obtain rfl := Option.some.inj hmutation
    exact acceptInvitationMutation_executes hkeyed hearlier h
  | extractManually context key input generated now =>
    obtain rfl := Option.some.inj hmutation
    refine HouseholdChange.of_leaves rfl (fun t ht => ?_) h
    rcases ht with rfl | rfl | rfl | rfl <;>
      exact manualExtractionMutation_leaves (by decide) (by decide) (by decide) _ _ _
  | startPrivacy context key input generated now =>
    by_cases hperson : input.personId = context.actorId
    · rw [OnceCall.spec, if_pos hperson] at hmutation
      obtain rfl := Option.some.inj hmutation
      refine HouseholdChange.of_leaves rfl (fun t ht => ?_) h
      rcases ht with rfl | rfl | rfl | rfl <;>
        exact startPrivacyMutation_leaves (by decide) (by decide) _ _ _
    · rw [OnceCall.spec, if_neg hperson] at hmutation
      exact absurd hmutation (by simp [OnceSpec.mutation])
  | confirmDeletion context key input generated now =>
    obtain rfl := Option.some.inj hmutation
    refine HouseholdChange.of_leaves rfl (fun t ht => ?_) h
    rcases ht with rfl | rfl | rfl | rfl <;>
      exact confirmDeletionMutation_leaves (by decide) (by decide) (by decide) _ _ _
  | cancelDeletion context key input now =>
    obtain rfl := Option.some.inj hmutation
    refine HouseholdChange.of_leaves rfl (fun t ht => ?_) h
    rcases ht with rfl | rfl | rfl | rfl <;>
      exact cancelDeletionMutation_leaves (by decide) (by decide) (by decide) _ _ _
  | startExport context key exportKey generated now =>
    obtain rfl := Option.some.inj hmutation
    refine HouseholdChange.of_leaves rfl (fun t ht => ?_) h
    rcases ht with rfl | rfl | rfl | rfl <;>
      exact startExportMutation_leaves (by decide) (by decide) _ _ _

/-- A use of a record table replays without writing, or runs its mutation between two
writes of its record. -/
theorem OnceSpec.executes_program {spec : OnceSpec} {answer : Answer Json}
    (hleaves : ∀ mutation, spec.mutation = some mutation →
      mutation.Leaves VaultTable.idempotencyRecords ∧
        mutation.Leaves VaultTable.accountIdempotencyRecords)
    (h : spec.program.Executes seen σ ws (.ok answer) ws') :
    (∃ body, answer = .replayed body ∧ ws' = ws) ∨
    ∃ body mutation first last ws₁, answer = .applied body ∧ spec.mutation = some mutation ∧
      mutation.Executes seen σ (first :: ws) (.ok body) ws₁ ∧ ws' = last :: ws₁ ∧
      (∀ base : Vault, ∀ rest, SameButRecords (base.overlay rest) (base.overlay (first :: rest))) ∧
      (∀ base : Vault, ∀ rest, SameButRecords (base.overlay rest) (base.overlay (last :: rest))) := by
  cases spec with
  | account use =>
    rcases RecordShape.executes_once_ok (hleaves _ rfl).2 h with
      ⟨_, _, body, _, _, _, _, hanswer, hws⟩ | ⟨body, ws₁, _, hmutation, hanswer, hws⟩
    · exact Or.inl ⟨body, hanswer, hws⟩
    · refine Or.inr ⟨body, _, _, _, ws₁, hanswer, rfl, hmutation, hws, ?_, ?_⟩ <;>
        exact fun base rest t _ haccount => sameRows_overlay_cons base _ _ rest haccount
  | tenant use =>
    rcases RecordShape.executes_once_ok (hleaves _ rfl).1 h with
      ⟨_, _, body, _, _, _, _, hanswer, hws⟩ | ⟨body, ws₁, _, hmutation, hanswer, hws⟩
    · exact Or.inl ⟨body, hanswer, hws⟩
    · refine Or.inr ⟨body, _, _, _, ws₁, hanswer, rfl, hmutation, hws, ?_, ?_⟩ <;>
        exact fun base rest t htenant _ => sameRows_overlay_cons base _ _ rest htenant
  | refused message => exact absurd h.1 (by simp)

/-- A committed call has replayed its record, or has made its change. -/
theorem OnceCall.executes_change {call : OnceCall} {answer : Answer Json} (hkeyed : Keyed σ)
    (hearlier : ∀ σ₀, seen σ₀ → Keyed σ₀ ∧ InvitationsKept σ₀ σ)
    (h : (onceProgram sha256 applicationKek call).Executes seen σ [] (.ok answer) ws) :
    (∃ body, answer = .replayed body ∧ ws = []) ∨
    ∃ body, answer = .applied body ∧ HouseholdChange sha256 σ (σ.overlay ws) call body := by
  rw [onceProgram_eq_spec] at h
  rcases OnceSpec.executes_program (fun mutation => OnceCall.mutation_leaves) h with
    ⟨body, hanswer, hws⟩ | ⟨body, mutation, first, last, ws₁, hanswer, hmutation, hexec, rfl,
      hfirst, hlast⟩
  · exact Or.inl ⟨body, hanswer, hws⟩
  · refine Or.inr ⟨body, hanswer, ?_⟩
    have hbefore : SameButRecords σ (σ.overlay [first]) := hfirst σ []
    refine HouseholdChange.congr hbefore (call.mutation_change hmutation (hkeyed.congr hbefore)
      (fun σ₀ hseen => ?_) hexec) (hlast σ ws₁)
    exact ⟨(hearlier σ₀ hseen).1.congr (hfirst σ₀ []),
      (hearlier σ₀ hseen).2.congr (hfirst σ₀ []) hbefore⟩

end Calls

end LegacyVault
