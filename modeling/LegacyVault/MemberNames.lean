import LegacyVault.Envelopes
import LegacyVault.HouseholdRuns
import LegacyVault.SealedFacts

/-!
# The names of members

The runtime seals the display name of a new member under the key of the
household: with the household itself, or when an invitation is accepted, whose
household is looked up in a transaction before. `listMembers` opens the names
again.

The token of an invitation names its household, so whatever invitation is
accepted in the end, it is one of the household that was looked up. `keys` is
the log of the key store; the key of a new household is inserted there by the
transaction that creates the household.
-/

namespace LegacyVault

open JsonText RowTransaction RowTransaction.Program RowTransaction.Protocol Store

/-! ## Members as they are listed -/

/-- `EncryptedHouseholdMember`. -/
structure EncryptedHouseholdMember where
  id : Identifier
  personId : Identifier
  role : Role
  active : Bool
  version : Nat
  displayNameCiphertext : Sealed
  keyVersion : Nat

/-- A member as it is listed. -/
structure HouseholdMember where
  id : Identifier
  role : Role
  active : Bool
  version : Nat
  displayName : String
  deriving DecidableEq

/-- The memberships of a household, in the order of their ids. -/
def householdMemberships (context : TenantContext) (σ : Vault) : List MembershipRow :=
  ((σ.rowsOf .memberships).filter (fun membership : MembershipRow =>
    context.sees membership)).insertionSort (fun a b => a.id ≤ b.id)

/-- A membership with its person, where the tenant sees both. -/
def withPerson (context : TenantContext) (σ : Vault) (membership : MembershipRow) :
    Option EncryptedHouseholdMember :=
  ((σ.get .people membership.personId).filter (fun person : PersonRow =>
    context.sees person)).map (fun person : PersonRow =>
      { id := membership.id
        personId := membership.personId
        role := membership.role
        active := membership.active
        version := membership.version
        displayNameCiphertext := person.displayNameEncrypted
        keyVersion := person.keyVersion })

/-- `listHouseholdMembers`. -/
def listHouseholdMembers (context : TenantContext) (σ : Vault) : List EncryptedHouseholdMember :=
  (householdMemberships context σ).filterMap (withPerson context σ)

/-- A member with the name opened. -/
def openMember (context : TenantContext) (key : ActiveHouseholdKey)
    (member : EncryptedHouseholdMember) : Except String HouseholdMember :=
  if member.keyVersion ≠ key.keyVersion then
    .error "member display-name key version is unavailable"
  else
    match decryptEnvelope member.displayNameCiphertext key.plaintextKey
      (displayNameContext context.organizationId context.householdId member.personId
        member.keyVersion) with
    | some (.data displayName) =>
      .ok ⟨member.id, member.role, member.active, member.version, displayName⟩
    | _ => .error "envelope authentication failed"

/-- `listMembers` of the runtime. -/
def listMembers (context : TenantContext) (key : ActiveHouseholdKey) (σ : Vault) :
    Except String (List HouseholdMember) :=
  (listHouseholdMembers context σ).mapM (openMember context key)

/-- A membership as it is listed under a name. -/
def MembershipRow.listed (membership : MembershipRow) (displayName : String) : HouseholdMember :=
  ⟨membership.id, membership.role, membership.active, membership.version, displayName⟩

/-! ## The calls -/

/-- A transaction that writes no household, person, membership or invitation. -/
structure OutsideMembers where
  transaction : Transaction Unit
  households : transaction.Leaves VaultTable.households
  people : transaction.Leaves VaultTable.people
  memberships : transaction.Leaves VaultTable.memberships
  invitations : transaction.Leaves VaultTable.membershipInvitations

/-- A transaction on households and their members. -/
inductive MembersCall where
  | once (call : OnceCall)
  /-- The runtime looks up an invitation before it is accepted. -/
  | lookup (account : AccountContext) (tokenHash emailHash : String) (now : Instant)
  | other (transaction : OutsideMembers)

/-- What a transaction returns. -/
inductive MembersResult where
  | answer (answer : Answer Json)
  | found (invitation : Option InvitationAcceptanceContext)
  | done

/-- How a call has ended. -/
abbrev MembersEntry := Entry MembersCall RepositoryError MembersResult

/-- The transaction of a call. -/
def membersProgram (sha256 : Sha256) (applicationKek : SymmetricKey) :
    MembersCall → Transaction MembersResult
  | .once call => do
    let answer ← onceProgram sha256 applicationKek call
    pure (.answer answer)
  | .lookup account tokenHash emailHash now => do
    let found ← getMembershipInvitationForAcceptance account tokenHash emailHash now
    pure (.found found)
  | .other outside => do
    outside.transaction
    pure .done

/-- The identifiers of the tenant are UUIDs; all that matters of them is that they hold no
colon. -/
structure TenantContext.Undivided (context : TenantContext) : Prop where
  organizationId : ':' ∉ context.organizationId.toList
  householdId : ':' ∉ context.householdId.toList

section Members

variable {applicationKek : SymmetricKey} {hashtextextended : String → Int}

/-- What the runtime has done before a transaction: an invitation is created by a member of a
tenant, and it is accepted with a name that is sealed under the key of the household that was
looked up. -/
def MembersCall.Prepared (keys : KeyLog applicationKek hashtextextended) (sha256 : Sha256)
    (log : List MembersEntry) : MembersCall → Prop
  | .once (.createInvitation context _ _ _ _ _ _) => context.Undivided
  | .once (.acceptInvitation account _ input generated acceptedAt _) =>
    ReturnedTo keys generated.organizationId generated.householdId
      ⟨generated.keyVersion, generated.plaintextKey⟩ ∧
    ∃ found, found.organizationId = generated.organizationId ∧
      found.householdId = generated.householdId ∧
      ⟨.lookup account (sha256.digest input.token) (invitationEmailHash sha256 input.email)
        acceptedAt, .committed (.found (some found))⟩ ∈ log
  | _ => True

/-- Households and their members as a protocol. -/
abbrev membersProtocol (keys : KeyLog applicationKek hashtextextended) (sha256 : Sha256) :
    Protocol vaultSchema where
  Request := MembersCall
  Error := RepositoryError
  Result := MembersResult
  program := membersProgram sha256 applicationKek
  permitted := MembersCall.Prepared keys sha256

/-! ## New members -/

/-- A member that a call creates, with the name it is given. -/
structure NewMember where
  membershipId : Identifier
  personId : Identifier
  organizationId : Identifier
  householdId : Identifier
  displayName : String
  key : ActiveHouseholdKey
  iv : Nat

/-- The member that a call creates. -/
def OnceCall.newMember : OnceCall → Option NewMember
  | .createHousehold _ _ input generated _ => some
      ⟨generated.membershipId, generated.personId, generated.organizationId,
        generated.householdId, input.ownerDisplayName, ⟨1, generated.plaintextKey⟩,
        generated.displayNameIv⟩
  | .acceptInvitation _ _ input generated _ _ => some
      ⟨generated.membershipId, generated.personId, generated.organizationId,
        generated.householdId, input.displayName, ⟨generated.keyVersion, generated.plaintextKey⟩,
        generated.displayNameIv⟩
  | _ => none

/-- The person of a new member. -/
def NewMember.person (new : NewMember) : PersonRow where
  id := new.personId
  organizationId := new.organizationId
  householdId := new.householdId
  displayNameEncrypted := encryptEnvelope (.data new.displayName) new.key.plaintextKey
    (displayNameContext new.organizationId new.householdId new.personId new.key.keyVersion) new.iv
  keyVersion := new.key.keyVersion
  version := 1

/-- The membership is that of the member. -/
structure NewMember.Has (new : NewMember) (membership : MembershipRow) : Prop where
  id : membership.id = new.membershipId
  organization : membership.organizationId = new.organizationId
  household : membership.householdId = new.householdId
  person : membership.personId = new.personId

/-- The member has its membership and its person. -/
structure NewMember.Stands (new : NewMember) (σ : Vault) : Prop where
  membership : ∃ membership : MembershipRow,
    σ.get .memberships new.membershipId = some membership ∧ new.Has membership
  person : σ.get .people new.personId = some new.person

/-- A call that took effect has created the member. -/
def Joined (log : List MembersEntry) (new : NewMember) : Prop :=
  ∃ call body, ⟨.once call, .committed (.answer (.applied body))⟩ ∈ log ∧
    call.newMember = some new

/-- The digest is that of a token which names the tenant. -/
def TokenNames (sha256 : Sha256) (tokenHash : String) (organizationId householdId : Identifier) :
    Prop :=
  ':' ∉ organizationId.toList ∧ ':' ∉ householdId.toList ∧ ∃ rest,
    tokenHash = sha256.digest (sha256.hmac
      ("membership-invite-token:" ++ organizationId ++ ":" ++ householdId ++ ":" ++ rest))

/-- A token names one tenant. -/
theorem TokenNames.unique {sha256 : Sha256} {tokenHash : String}
    {organizationId householdId organizationId' householdId' : Identifier}
    (h : TokenNames sha256 tokenHash organizationId householdId)
    (h' : TokenNames sha256 tokenHash organizationId' householdId') :
    organizationId = organizationId' ∧ householdId = householdId' := by
  obtain ⟨horganization, hhousehold, rest, htoken⟩ := h
  obtain ⟨horganization', hhousehold', rest', htoken'⟩ := h'
  have htext := sha256.hmacCollisionFree (sha256.collisionFree (htoken.symm.trans htoken'))
  have hcharacters := congrArg String.toList htext
  simp only [String.toList_append, List.append_assoc, List.append_cancel_left_eq] at hcharacters
  obtain ⟨hfirst, hrest⟩ := Envelopes.append_cons_inj horganization horganization' hcharacters
  obtain ⟨hsecond, -⟩ := Envelopes.append_cons_inj hhousehold hhousehold' hrest
  exact ⟨String.toList_injective hfirst, String.toList_injective hsecond⟩

/-! ## What a call does to members -/

/-- What holds of members between transactions. -/
structure MembersState (sha256 : Sha256) (log : List MembersEntry) (σ : Vault) : Prop where
  keyed : Keyed σ
  tokens : ∀ k (invitation : MembershipInvitationRow),
    σ.get .membershipInvitations k = some invitation →
    TokenNames sha256 invitation.tokenHash invitation.organizationId invitation.householdId
  found : ∀ account tokenHash emailHash now found,
    ⟨.lookup account tokenHash emailHash now, .committed (.found (some found))⟩ ∈ log →
    TokenNames sha256 tokenHash found.organizationId found.householdId
  joined : ∀ new, Joined log new → new.Stands σ
  named : ∀ k (membership : MembershipRow), σ.get .memberships k = some membership →
    ∃ new, Joined log new ∧ new.membershipId = k

variable {sha256 : Sha256} {keys : KeyLog applicationKek hashtextextended} {σ σ' : Vault}
  {seen : Vault → Prop} {ws : List (Write vaultSchema)} {log : List MembersEntry}

/-- The token of a new invitation names its tenant. -/
theorem createInvitationWrite_names {context : TenantContext} (hcontext : context.Undivided)
    (membershipId : Identifier) (key : String) (input : CreateInvitationInput)
    (invitationId : Identifier) (now : Instant) :
    TokenNames sha256
      (createInvitationWrite sha256 context membershipId key input invitationId now).tokenHash
      context.organizationId context.householdId := by
  refine ⟨hcontext.organizationId, hcontext.householdId,
    key ++ ":" ++ invitationEmailHash sha256 input.email, ?_⟩
  simp only [createInvitationWrite, String.append_assoc]

/-- A member whose rows are written stands. -/
theorem NewMember.Stands.of_rows {new : NewMember} {membership : MembershipRow}
    (hmembership : σ.get .memberships new.membershipId = some membership)
    (hhas : new.Has membership) (hperson : σ.get .people new.personId = some new.person) :
    new.Stands σ :=
  ⟨⟨membership, hmembership, hhas⟩, hperson⟩

theorem NewMember.Stands.same {new : NewMember} (h : new.Stands σ)
    (hmemberships : SameRows (S := vaultSchema) .memberships σ σ')
    (hpeople : SameRows (S := vaultSchema) .people σ σ') : new.Stands σ' := by
  obtain ⟨membership, hmembership, hhas⟩ := h.membership
  exact .of_rows ((hmemberships _).trans hmembership) hhas ((hpeople _).trans h.person)

/-- A member stands when others are inserted. -/
theorem NewMember.Stands.insert {new : NewMember} (h : new.Stands σ) {k personId : Identifier}
    {membership : MembershipRow} {person : PersonRow} (hfree : σ.get .memberships k = none)
    (hfreePerson : σ.get .people personId = none)
    (hmemberships : Replaces (S := vaultSchema) .memberships k (some membership) σ σ')
    (hpeople : Replaces (S := vaultSchema) .people personId (some person) σ σ') :
    new.Stands σ' := by
  obtain ⟨before, hbefore, hhas⟩ := h.membership
  have hother : new.membershipId ≠ k := by
    intro hsame
    rw [hsame, hfree] at hbefore
    exact absurd hbefore (by simp)
  have hotherPerson : new.personId ≠ personId := by
    intro hsame
    have hperson := h.person
    rw [hsame, hfreePerson] at hperson
    exact absurd hperson (by simp)
  exact .of_rows ((hmemberships.others _ hother).trans hbefore) hhas
    ((hpeople.others _ hotherPerson).trans h.person)

theorem Joined.cons {new : NewMember} (h : Joined log new) (entry : MembersEntry) :
    Joined (entry :: log) new := by
  obtain ⟨call, body, hmem, hnew⟩ := h
  exact ⟨call, body, List.mem_cons_of_mem _ hmem, hnew⟩

/-- A member has joined before, or by the entry. -/
theorem joined_cons {new : NewMember} {entry : MembersEntry} (h : Joined (entry :: log) new) :
    Joined log new ∨ ∃ call body, entry = ⟨.once call, .committed (.answer (.applied body))⟩ ∧
      call.newMember = some new := by
  obtain ⟨call, body, hmem, hnew⟩ := h
  rcases List.mem_cons.mp hmem with rfl | hbefore
  · exact Or.inr ⟨call, body, rfl, hnew⟩
  · exact Or.inl ⟨call, body, hbefore, hnew⟩

/-- An entry that creates no member keeps what holds. -/
theorem MembersState.quiet (h : MembersState sha256 log σ) {entry : MembersEntry}
    (hjoins : ∀ call body, entry ≠ ⟨.once call, .committed (.answer (.applied body))⟩)
    (hfinds : ∀ account tokenHash emailHash now found, entry =
      ⟨.lookup account tokenHash emailHash now, .committed (.found (some found))⟩ →
      TokenNames sha256 tokenHash found.organizationId found.householdId) :
    MembersState sha256 (entry :: log) σ where
  keyed := h.keyed
  tokens := h.tokens
  found := by
    intro account tokenHash emailHash now found hmem
    rcases List.mem_cons.mp hmem with heq | hbefore
    · exact hfinds _ _ _ _ _ heq.symm
    · exact h.found _ _ _ _ _ hbefore
  joined := by
    intro new hjoined
    rcases joined_cons hjoined with hbefore | ⟨call, body, heq, -⟩
    · exact h.joined new hbefore
    · exact absurd heq (hjoins call body)
  named := by
    intro k membership hmembership
    obtain ⟨new, hjoined, hid⟩ := h.named k membership hmembership
    exact ⟨new, hjoined.cons entry, hid⟩

/-- What an applied call has to do to keep what holds. -/
theorem MembersState.applied (h : MembersState sha256 log σ) {call : OnceCall} {body : Json}
    (hkeyed : Keyed σ')
    (htokens : ∀ k (invitation : MembershipInvitationRow),
      σ'.get .membershipInvitations k = some invitation →
      TokenNames sha256 invitation.tokenHash invitation.organizationId invitation.householdId)
    (hstands : ∀ new : NewMember, new.Stands σ → new.Stands σ')
    (hnew : ∀ new, call.newMember = some new → new.Stands σ')
    (hnamed : ∀ k (membership : MembershipRow), σ'.get .memberships k = some membership →
      (∃ before : MembershipRow, σ.get .memberships k = some before) ∨
        ∃ new, call.newMember = some new ∧ new.membershipId = k) :
    MembersState sha256 (⟨.once call, .committed (.answer (.applied body))⟩ :: log) σ' where
  keyed := hkeyed
  tokens := htokens
  found := by
    intro account tokenHash emailHash now found hmem
    rcases List.mem_cons.mp hmem with heq | hbefore
    · exact absurd (Entry.mk.inj heq).1 (by simp)
    · exact h.found _ _ _ _ _ hbefore
  joined := by
    intro new hjoined
    rcases joined_cons hjoined with hbefore | ⟨call', body', heq, hmember⟩
    · exact hstands new (h.joined new hbefore)
    · obtain rfl := MembersCall.once.inj (Entry.mk.inj heq).1
      exact hnew new hmember
  named := by
    intro k membership hmembership
    rcases hnamed k membership hmembership with ⟨before, hbefore⟩ | ⟨new, hmember, hid⟩
    · obtain ⟨new, hjoined, hid⟩ := h.named k before hbefore
      exact ⟨new, hjoined.cons _, hid⟩
    · exact ⟨new, ⟨call, body, List.mem_cons_self, hmember⟩, hid⟩

/-- Invitations keep their tokens when one is replaced by an invitation whose token names its
tenant. -/
theorem tokens_replaced {k : Identifier} {invitation : MembershipInvitationRow}
    (h : MembersState sha256 log σ)
    (hinvitations : Replaces (S := vaultSchema) .membershipInvitations k (some invitation) σ σ')
    (hnames : TokenNames sha256 invitation.tokenHash invitation.organizationId
      invitation.householdId) (k' : Identifier) (row : MembershipInvitationRow)
    (hrow : σ'.get .membershipInvitations k' = some row) :
    TokenNames sha256 row.tokenHash row.organizationId row.householdId := by
  rcases hinvitations.get_cases k' with ⟨rfl, hafter⟩ | ⟨-, hsame⟩
  · obtain rfl := Option.some.inj (hafter.symm.trans hrow)
    exact hnames
  · exact h.tokens k' row (hsame.symm.trans hrow)

/-- A membership that is stored after an insert was stored before, or is the new one. -/
theorem named_inserted {new : NewMember} {membership : MembershipRow}
    (hmemberships : Replaces (S := vaultSchema) .memberships new.membershipId (some membership)
      σ σ') {call : OnceCall} (hmember : call.newMember = some new) (k : Identifier)
    (row : MembershipRow) (hrow : σ'.get .memberships k = some row) :
    (∃ before : MembershipRow, σ.get .memberships k = some before) ∨
      ∃ new, call.newMember = some new ∧ new.membershipId = k := by
  rcases hmemberships.get_cases k with ⟨rfl, -⟩ | ⟨-, hsame⟩
  · exact Or.inr ⟨new, hmember, rfl⟩
  · exact Or.inl ⟨row, hsame.symm.trans hrow⟩

/-- The owner's person is new, and has the name of the owner. -/
def OwnerInserted (applicationKek : SymmetricKey) (σ σ' : Vault) : OnceCall → Prop
  | .createHousehold _ _ input generated _ =>
    σ.get .people generated.personId = none ∧ σ'.get .people generated.personId =
      some (createHouseholdWrite applicationKek input generated).ownerPerson
  | _ => True

/-- The invitation that is accepted is one of the household that was looked up. -/
theorem MembersCall.Prepared.tenant {account : AccountContext} {key : String}
    {input : AcceptInvitationInput} {generated : AcceptInvitationGenerated}
    {acceptedAt now : Instant} {begun : List MembersEntry} (h : MembersState sha256 log σ)
    (hprepared : (MembersCall.once (.acceptInvitation account key input generated acceptedAt
      now)).Prepared keys sha256 begun) (hbegun : begun <:+ log) {k : Identifier}
    {invitation : MembershipInvitationRow}
    (hinvitation : σ.get .membershipInvitations k = some invitation)
    (htoken : invitation.tokenHash = sha256.digest input.token) :
    invitation.organizationId = generated.organizationId ∧
      invitation.householdId = generated.householdId := by
  obtain ⟨-, found, horganization, hhousehold, hfound⟩ := hprepared
  have hnames := h.tokens k invitation hinvitation
  rw [htoken] at hnames
  obtain ⟨hsame, hsame'⟩ := hnames.unique (h.found _ _ _ _ _ (hbegun.subset hfound))
  exact ⟨hsame.trans horganization, hsame'.trans hhousehold⟩

/-- An applied call keeps what holds. -/
theorem MembersState.change (h : MembersState sha256 log σ) {call : OnceCall} {body : Json}
    {begun : List MembersEntry} (hchange : HouseholdChange sha256 σ σ' call body)
    (howner : OwnerInserted applicationKek σ σ' call)
    (hprepared : (MembersCall.once call).Prepared keys sha256 begun) (hbegun : begun <:+ log) :
    MembersState sha256 (⟨.once call, .committed (.answer (.applied body))⟩ :: log) σ' := by
  have hkeyed := hchange.keyed h.keyed
  have hkept : ∀ {k : Identifier} {row : MembershipRow}, σ.get .memberships k = some row →
      (∃ before : MembershipRow, σ.get .memberships k = some before) := fun hrow => ⟨_, hrow⟩
  cases hchange with
  | created person hnew hnewMembership hhouseholds hpeople hmemberships hinvitations =>
    obtain ⟨hfree, hperson⟩ := howner
    refine h.applied hkeyed
      (fun k row hrow => h.tokens k row ((hinvitations k).symm.trans hrow))
      (fun new hstands => hstands.insert hnewMembership hfree hmemberships hpeople) ?_
      (named_inserted hmemberships rfl)
    intro new hmember
    obtain rfl := Option.some.inj hmember
    exact .of_rows hmemberships.row ⟨rfl, rfl, rfl, rfl⟩ hperson
  | @invited context membershipId key input invitationId clock now body household hrole hhousehold
      hnew hhouseholds hpeople hmemberships hinvitations =>
    have hnames : TokenNames sha256 (createInvitationWrite sha256 context membershipId key input
        invitationId clock).tokenHash context.organizationId context.householdId :=
      createInvitationWrite_names hprepared _ _ _ _ _
    exact h.applied hkeyed (tokens_replaced h hinvitations hnames)
      (fun new hstands => hstands.same hmemberships hpeople)
      (fun new hmember => absurd hmember (by simp [OnceCall.newMember]))
      (fun k row hrow => Or.inl (hkept ((hmemberships k).symm.trans hrow)))
  | revoked household invitation hhousehold hinvitation hopen hhouseholds hpeople hmemberships
      hinvitations =>
    exact h.applied hkeyed
      (tokens_replaced h hinvitations (h.tokens _ invitation hinvitation))
      (fun new hstands => hstands.same hmemberships hpeople)
      (fun new hmember => absurd hmember (by simp [OnceCall.newMember]))
      (fun k row hrow => Or.inl (hkept ((hmemberships k).symm.trans hrow)))
  | roleUpdated household membership hrole hhousehold hmembership hnotOwner hhouseholds hpeople
      hmemberships hinvitations =>
    refine h.applied hkeyed
      (fun k row hrow => h.tokens k row ((hinvitations k).symm.trans hrow)) ?_
      (fun new hmember => absurd hmember (by simp [OnceCall.newMember])) ?_
    · intro new hstands
      obtain ⟨before, hbefore, hhas⟩ := hstands.membership
      have hperson := (hpeople _).trans hstands.person
      rcases hmemberships.get_cases new.membershipId with ⟨hsame, hafter⟩ | ⟨-, hsame⟩
      · rw [hsame, hmembership] at hbefore
        obtain rfl := Option.some.inj hbefore
        exact .of_rows hafter ⟨hhas.id, hhas.organization, hhas.household, hhas.person⟩ hperson
      · exact .of_rows (hsame.trans hbefore) hhas hperson
    · intro k row hrow
      rcases hmemberships.get_cases k with ⟨rfl, -⟩ | ⟨-, hsame⟩
      · exact Or.inl ⟨membership, hmembership⟩
      · exact Or.inl ⟨row, hsame.symm.trans hrow⟩
  | @accepted account key input generated acceptedAt now body household invitationId invitation
      hhousehold hinvitation htoken havailable hversion hnewPerson hnewMembership hbody hhouseholds
      hpeople hmemberships hinvitations =>
    obtain ⟨horganization, hhouseholdId⟩ := hprepared.tenant h hbegun hinvitation htoken
    refine h.applied hkeyed
      (tokens_replaced h hinvitations (h.tokens _ invitation hinvitation))
      (fun new hstands => hstands.insert hnewMembership hnewPerson hmemberships hpeople) ?_
      (named_inserted hmemberships rfl)
    intro new hmember
    obtain rfl := Option.some.inj hmember
    refine .of_rows hmemberships.row ⟨rfl, horganization, hhouseholdId, rfl⟩ ?_
    rw [hpeople.row, MembershipInvitationRow.person, horganization, hhouseholdId]
    rfl
  | other hcall hhouseholds hpeople hmemberships hinvitations =>
    refine h.applied hkeyed
      (fun k row hrow => h.tokens k row ((hinvitations k).symm.trans hrow))
      (fun new hstands => hstands.same hmemberships hpeople) (fun new hmember => ?_)
      (fun k row hrow => Or.inl (hkept ((hmemberships k).symm.trans hrow)))
    cases call with
    | createHousehold | acceptInvitation => exact absurd hcall (by simp [OnceCall.onMembers])
    | _ => exact absurd hmember (by simp [OnceCall.newMember])

/-- What holds does not depend on other tables. -/
theorem MembersState.outside (h : MembersState sha256 log σ)
    (hhouseholds : SameRows (S := vaultSchema) .households σ σ')
    (hpeople : SameRows (S := vaultSchema) .people σ σ')
    (hmemberships : SameRows (S := vaultSchema) .memberships σ σ')
    (hinvitations : SameRows (S := vaultSchema) .membershipInvitations σ σ') :
    MembersState sha256 log σ' where
  keyed := ⟨fun k row hrow => h.keyed.households k row ((hhouseholds k).symm.trans hrow),
    fun k row hrow => h.keyed.invitations k row ((hinvitations k).symm.trans hrow)⟩
  tokens := fun k row hrow => h.tokens k row ((hinvitations k).symm.trans hrow)
  found := h.found
  joined := fun new hjoined => (h.joined new hjoined).same hmemberships hpeople
  named := fun k row hrow => h.named k row ((hmemberships k).symm.trans hrow)

/-! ## Over whole runs -/

theorem createHouseholdMutation_person {account : AccountContext} {input : HouseholdWrite}
    {body : Json} {ws' : List (Write vaultSchema)}
    (h : (createHouseholdMutation account input).Executes seen σ ws (.ok body) ws') :
    (σ.overlay ws).get .people input.personId = none ∧
      (σ.overlay ws').get .people input.personId = some input.ownerPerson := by
  obtain ⟨_, ws₁, horganization, h⟩ := executes_bind_ok.mp h
  obtain ⟨-, -, rfl⟩ := executes_insertRow_ok horganization
  obtain ⟨_, ws₂, hhousehold, h⟩ := executes_bind_ok.mp h
  obtain ⟨-, -, rfl⟩ := executes_insertRow_ok hhousehold
  obtain ⟨_, ws₃, hkey, h⟩ := executes_bind_ok.mp (executes_of_requireUnique h)
  obtain ⟨-, -, rfl⟩ := executes_insertRow_ok hkey
  obtain ⟨_, ws₄, hperson, h⟩ := executes_bind_ok.mp h
  obtain ⟨hfree, rfl⟩ := insertPerson_executes hperson
  obtain ⟨_, ws₅, hmembership, h⟩ := executes_bind_ok.mp h
  obtain ⟨-, rfl⟩ := insertMembership_executes hmembership
  obtain ⟨-, rfl⟩ := h
  have hbase : SameRows (S := vaultSchema) .people (σ.overlay ws) (σ.overlay ws) :=
    SameRows.refl (S := vaultSchema) _ _
  constructor
  · exact (((hbase.writeOther (by decide)).writeOther (by decide)).writeOther (by decide)
      _).symm.trans hfree
  · exact ((((hbase.writeOther (by decide)).writeOther (by decide)).writeOther
      (by decide)).write.writeOther (by decide)).row

/-- A household is created with the person of its owner. -/
theorem executes_ownerInserted {call : OnceCall} {body : Json}
    (h : (onceProgram sha256 applicationKek call).Executes seen σ [] (.ok (.applied body)) ws) :
    OwnerInserted applicationKek σ (σ.overlay ws) call := by
  rw [onceProgram_eq_spec] at h
  rcases OnceSpec.executes_program (fun mutation => OnceCall.mutation_leaves) h with
    ⟨_, hanswer, -⟩ | ⟨_, mutation, first, last, ws₁, -, hmutation, hexec, rfl, hfirst, hlast⟩
  · exact absurd hanswer (by simp)
  · cases call with
    | createHousehold account key input generated now =>
      obtain rfl := Option.some.inj hmutation
      obtain ⟨hfree, hperson⟩ := createHouseholdMutation_person hexec
      have hbefore : SameRows (S := vaultSchema) .people σ (σ.overlay [first]) :=
        hfirst σ [] .people (by decide) (by decide)
      have hafter : SameRows (S := vaultSchema) .people (σ.overlay ws₁)
          (σ.overlay (last :: ws₁)) := hlast σ ws₁ .people (by decide) (by decide)
      exact ⟨(hbefore _).symm.trans hfree, (hafter _).trans hperson⟩
    | _ => trivial

/-- There are no households, memberships or invitations. -/
structure NoMembers (init : Vault) : Prop where
  households : ∀ k, init.get .households k = none
  memberships : ∀ k, init.get .memberships k = none
  invitations : ∀ k, init.get .membershipInvitations k = none

/-- What is looked up is an invitation whose token was given. -/
theorem executes_lookup {account : AccountContext} {tokenHash emailHash : String} {now : Instant}
    {found : Option InvitationAcceptanceContext}
    (h : (getMembershipInvitationForAcceptance account tokenHash emailHash now).Executes seen σ []
      (.ok found) ws) :
    ws = [] ∧ ∀ looked, found = some looked → ∃ σ₀ k, ∃ invitation : MembershipInvitationRow,
      seen σ₀ ∧ σ₀.get .membershipInvitations k = some invitation ∧
      invitation.tokenHash = tokenHash ∧ looked.organizationId = invitation.organizationId ∧
      looked.householdId = invitation.householdId := by
  obtain ⟨row, ws₁, ⟨σ₀, hseen, hrow, rfl⟩, hend, rfl⟩ := executes_bind_ok.mp h
  rw [Store.overlay_nil] at hrow
  obtain rfl := Except.ok.inj hrow
  refine ⟨rfl, fun looked hlooked => ?_⟩
  rw [hlooked] at hend
  obtain ⟨invitation, hinvitation, rfl⟩ := Option.map_eq_some_iff.mp (Except.ok.inj hend).symm
  have hfound : (σ₀.rowsOf .membershipInvitations).find?
      (fun invitation : MembershipInvitationRow => invitation.tokenHash == tokenHash) =
      some invitation := (Option.filter_eq_some_iff.mp hinvitation).1
  have hmem := List.mem_of_find?_eq_some hfound
  obtain ⟨k, hstored⟩ :=
    (mem_rowsOf (S := vaultSchema) (t := VaultTable.membershipInvitations)).mp hmem
  have htoken : invitation.tokenHash = tokenHash := by simpa using List.find?_some hfound
  exact ⟨σ₀, k, invitation, hseen, hstored, htoken, rfl, rfl⟩

/-- What holds of members holds in every interleaving. -/
theorem membersState_invariant {init : Vault} (hinit : NoMembers init) :
    (membersProtocol keys sha256).Invariant init (MembersState sha256) HouseholdsKept where
  refl := HouseholdsKept.refl
  trans := HouseholdsKept.trans
  start :=
    { keyed := ⟨fun k _ h => absurd ((hinit.households k).symm.trans h) (by simp),
        fun k _ h => absurd ((hinit.invitations k).symm.trans h) (by simp)⟩
      tokens := fun k _ h => absurd ((hinit.invitations k).symm.trans h) (by simp)
      found := fun _ _ _ _ _ h => absurd h List.not_mem_nil
      joined := fun _ h => absurd h.choose_spec.choose_spec.1 List.not_mem_nil
      named := fun k _ h => absurd ((hinit.memberships k).symm.trans h) (by simp) }
  commit := by
    intro log begun seen σ call answer ws h hprepared hbegun hnow hearlier hexec
    cases call with
    | once call =>
      obtain ⟨onceAnswer, ws₁, honce, hanswer, rfl⟩ := executes_bind_ok.mp hexec
      obtain rfl := Except.ok.inj hanswer
      have hseen : ∀ σ₀, seen σ₀ → Keyed σ₀ ∧ InvitationsKept σ₀ σ := by
        intro σ₀ h₀
        obtain ⟨hkept, log₀, -, -, hstate⟩ := hearlier σ₀ h₀
        exact ⟨hstate.keyed, hkept.invitations⟩
      rcases call.executes_change h.keyed hseen honce with ⟨body, rfl, rfl⟩ | ⟨body, rfl, hchange⟩
      · rw [Store.overlay_nil]
        refine ⟨h.quiet (fun call' body' heq => ?_) (fun _ _ _ _ _ heq => ?_), .refl σ⟩
        · exact absurd (Entry.mk.inj heq).2 (by simp)
        · exact absurd (Entry.mk.inj heq).1 (by simp)
      · exact ⟨h.change hchange (executes_ownerInserted honce) hprepared hbegun, hchange.kept⟩
    | lookup account tokenHash emailHash now =>
      obtain ⟨found, ws₁, hlookup, hanswer, rfl⟩ := executes_bind_ok.mp hexec
      obtain rfl := Except.ok.inj hanswer
      obtain ⟨rfl, hfound⟩ := executes_lookup hlookup
      rw [Store.overlay_nil]
      refine ⟨h.quiet (fun call' body' heq => ?_) (fun _ _ _ _ looked heq => ?_), .refl σ⟩
      · exact absurd (Entry.mk.inj heq).1 (by simp)
      · obtain ⟨hcall, houtcome⟩ := Entry.mk.inj heq
        obtain ⟨rfl, rfl, rfl, rfl⟩ := MembersCall.lookup.inj hcall
        obtain rfl := MembersResult.found.inj (Outcome.committed.inj houtcome)
        obtain ⟨σ₀, k, invitation, h₀, hinvitation, htoken, horganization, hhousehold⟩ :=
          hfound looked rfl
        obtain ⟨-, log₀, -, -, hstate⟩ := hearlier σ₀ h₀
        rw [← htoken, horganization, hhousehold]
        exact hstate.tokens k invitation hinvitation
    | other outside =>
      obtain ⟨_, ws₁, htransaction, hanswer, rfl⟩ := executes_bind_ok.mp hexec
      obtain rfl := Except.ok.inj hanswer
      have hmemberships := outside.memberships.sameRows htransaction
      have hinvitations := outside.invitations.sameRows htransaction
      have hstate := h.outside (outside.households.sameRows htransaction)
        (outside.people.sameRows htransaction) hmemberships hinvitations
      refine ⟨hstate.quiet (fun call' body' heq => ?_) (fun _ _ _ _ _ heq => ?_),
        invitationsKept_of_same hinvitations, fun k row hrow _ => (hmemberships k).trans hrow⟩
      · exact absurd (Entry.mk.inj heq).1 (by simp)
      · exact absurd (Entry.mk.inj heq).1 (by simp)
  rollback := by
    intro log begun seen σ call error ws h _ _ _ _ _
    refine h.quiet (fun call' body' heq => ?_) (fun _ _ _ _ _ heq => ?_)
    · exact absurd (Entry.mk.inj heq).2 (by simp)
    · exact absurd (Entry.mk.inj heq).2 (by simp)
  abort := by
    intro log begun σ call h _ _
    refine h.quiet (fun call' body' heq => ?_) (fun _ _ _ _ _ heq => ?_)
    · exact absurd (Entry.mk.inj heq).2 (by simp)
    · exact absurd (Entry.mk.inj heq).2 (by simp)

/-! ## The key of a new household -/

section Keys

variable {storeInit : KeyRows} {store : (keyProtocol applicationKek hashtextextended).System}

/-- The keys of new households are stored as they were inserted. -/
def KeysCreated (applicationKek : SymmetricKey) (hashtextextended : String → Int)
    (keys : KeyLog applicationKek hashtextextended) (σ : KeyRows) : Prop :=
  ∀ call, ⟨.createHousehold call, .committed none⟩ ∈ keys →
    σ.get .householdKeys call.generated.id = some (newKey applicationKek call)

theorem keysCreated_invariant (hnoKeys : NoKeys storeInit) :
    (keyProtocol applicationKek hashtextextended).Invariant storeInit
      (fun keys σ => KeyState applicationKek hashtextextended keys σ ∧
        KeysCreated applicationKek hashtextextended keys σ) KeysStay := by
  refine (keyState_invariant hnoKeys).and (fun call hmem => absurd hmem List.not_mem_nil) ?_ ?_
  · intro log begun seen σ step answer ws hstate hrows hpermitted hbegun hnow hearlier hexec
      hstate' hstay call hmem
    rcases List.mem_cons.mp hmem with heq | hbefore
    · obtain ⟨rfl, -⟩ := Entry.mk.inj heq
      obtain ⟨_, ws₁, hinsert, hanswer, rfl⟩ := executes_bind_ok.mp hexec
      exact (executes_insertKey (SameRows.refl (S := keySchema) _ σ)
        (SameRows.refl (S := keySchema) _ σ) hinsert).rows.row
    · exact hstay.row (hrows call hbefore)
  · intro log σ step outcome hends hrows call hmem
    rcases List.mem_cons.mp hmem with heq | hbefore
    · exact absurd (Entry.mk.inj heq).2.symm (hends none)
    · exact hrows call hbefore

/-- A key that was inserted with its household is the one that every caller is returned. -/
theorem createdKey_returned (hnoKeys : NoKeys storeInit) (hstore : Reachable storeInit store)
    {call : KeyCall} (hcreated : ⟨.createHousehold call, .committed none⟩ ∈ store.log)
    {key : ActiveHouseholdKey} (hkey : ReturnedTo store.log call.context.organizationId
      call.context.householdId key) : key = ⟨1, call.generated.plaintextKey⟩ := by
  obtain ⟨hstate, hrows⟩ := (keysCreated_invariant hnoKeys).reachable hstore
  obtain ⟨caller, hmem, horganization, hhousehold⟩ := hkey
  obtain ⟨k, row, hrow⟩ := hstate.returned caller key hmem
  have hhouseholds : row.householdId = (newKey applicationKek call).householdId :=
    (TenantContext.sees_iff.mp hrow.sees).2.trans hhousehold
  obtain ⟨-, rfl⟩ := hstate.row_unique hrow.stored (hrows call hcreated) hhouseholds
  have hunwraps := hrow.unwraps
  have hsame : unwrapHouseholdKey applicationKek caller.context
      (newKey applicationKek call).wrappedKey = some call.generated.plaintextKey := by
    have hunwrap : unwrapHouseholdKey applicationKek call.context
        (newKey applicationKek call).wrappedKey = some call.generated.plaintextKey :=
      unwrap_newKey call
    rw [← hunwrap]
    simp only [unwrapHouseholdKey, horganization, hhousehold]
  have hplaintext := Option.some.inj (hunwraps.symm.trans hsame)
  have hversion : 1 = key.keyVersion := hrow.version
  cases key
  exact congrArg₂ ActiveHouseholdKey.mk hversion.symm hplaintext

end Keys

/-! ## Names as they are read back -/

/-- The transaction that creates a household inserts its key in the key store. -/
def KeysInserted (keys : KeyLog applicationKek hashtextextended) (log : List MembersEntry) :
    Prop :=
  ∀ account key input generated now body,
    ⟨.once (.createHousehold account key input generated now),
      .committed (.answer (.applied body))⟩ ∈ log →
    ∃ call : KeyCall, ⟨.createHousehold call, .committed none⟩ ∈ keys ∧
      call.context.organizationId = generated.organizationId ∧
      call.context.householdId = generated.householdId ∧
      call.generated.plaintextKey = generated.plaintextKey

/-- The name was given when the membership was created, and no other name was. -/
structure NameGiven (log : List MembersEntry) (membership : MembershipRow)
    (displayName : String) : Prop where
  given : ∃ new, Joined log new ∧ new.Has membership ∧ new.displayName = displayName
  only : ∀ new, Joined log new → new.membershipId = membership.id →
    new.displayName = displayName

theorem mapM_filterMap_ok {α β γ : Type} {f : α → Option β} {g : β → Except String γ} {r : α → γ}
    {l : List α} (h : ∀ a ∈ l, ∃ b, f a = some b ∧ g b = .ok (r a)) :
    (l.filterMap f).mapM g = .ok (l.map r) := by
  induction l with
  | nil => rfl
  | cons a l ih =>
    obtain ⟨⟨b, hfound, hopened⟩, hrest⟩ := List.forall_mem_cons.mp h
    rw [List.filterMap_cons_some hfound, List.mapM_cons, hopened, ih hrest]
    rfl

section Names

variable {init : Vault} {storeInit : KeyRows}
  {store : (keyProtocol applicationKek hashtextextended).System}
  {s : (membersProtocol store.log sha256).System} {context : TenantContext}
  {key : ActiveHouseholdKey} {new : NewMember} {membership : MembershipRow}

/-- Every name is sealed under the key that callers of the household are returned. -/
theorem Joined.key_returned (hnoKeys : NoKeys storeInit) (hstore : Reachable storeInit store)
    (h : Reachable init s) (hinserted : KeysInserted store.log s.log) (hjoined : Joined s.log new)
    (hkey : ReturnedTo store.log new.organizationId new.householdId key) : new.key = key := by
  obtain ⟨call, body, hmem, hnew⟩ := hjoined
  cases call with
  | createHousehold account idempotencyKey input generated now =>
    obtain rfl := Option.some.inj hnew
    obtain ⟨created, hcreated, horganization, hhousehold, hplaintext⟩ :=
      hinserted _ _ _ _ _ _ hmem
    rw [← horganization, ← hhousehold] at hkey
    rw [createdKey_returned hnoKeys hstore hcreated hkey, hplaintext]
  | acceptInvitation account idempotencyKey input generated acceptedAt now =>
    obtain rfl := Option.some.inj hnew
    obtain ⟨begun, ⟨hreturned, -⟩, -⟩ := h.entry_permitted hmem
    exact householdKey_unique hnoKeys hstore hreturned hkey
  | _ => exact absurd hnew (by simp [OnceCall.newMember])

/-- A membership is listed with the name of its member. -/
theorem openMember_named {σ : Vault} (hsees : context.sees membership = true)
    (hhas : new.Has membership) (hperson : σ.get .people new.personId = some new.person)
    (hkey : new.key = key) :
    ∃ member, withPerson context σ membership = some member ∧
      openMember context key member = .ok (membership.listed new.displayName) := by
  obtain ⟨horganization, hhousehold⟩ := TenantContext.sees_iff.mp hsees
  have horganization' : new.organizationId = context.organizationId :=
    hhas.organization.symm.trans horganization
  have hhousehold' : new.householdId = context.householdId :=
    hhas.household.symm.trans hhousehold
  have hvisible : context.sees new.person = true :=
    TenantContext.sees_iff.mpr ⟨horganization', hhousehold'⟩
  rw [withPerson, hhas.person, hperson, Option.filter_some_pos hvisible]
  refine ⟨_, rfl, ?_⟩
  have hopened : decryptEnvelope new.person.displayNameEncrypted key.plaintextKey
      (displayNameContext context.organizationId context.householdId new.personId
        new.person.keyVersion) = some (.data new.displayName) := by
    rw [NewMember.person, hkey, horganization', hhousehold', decryptEnvelope_encryptEnvelope]
  have hversion : new.person.keyVersion = key.keyVersion :=
    congrArg ActiveHouseholdKey.keyVersion hkey
  simp only [openMember, hversion, ne_eq, not_true_eq_false, if_false]
  rw [← hversion, hopened]
  rfl

/-- Members with one membership have one name. -/
theorem NewMember.Stands.name_unique {σ : Vault} {other : NewMember} (h : other.Stands σ)
    (hmembership : σ.get .memberships new.membershipId = some membership)
    (hperson : σ.get .people new.personId = some new.person) (hhas : new.Has membership)
    (hid : other.membershipId = membership.id) : other.displayName = new.displayName := by
  obtain ⟨⟨membership', hmembership', hhas'⟩, hperson'⟩ := h
  rw [hid, hhas.id, hmembership] at hmembership'
  obtain rfl := Option.some.inj hmembership'
  rw [← hhas'.person, hhas.person, hperson] at hperson'
  have hsealed := congrArg PersonRow.displayNameEncrypted (Option.some.inj hperson')
  simp only [NewMember.person, encryptEnvelope, SymbolicSeal.Term.sealed.injEq,
    SymbolicSeal.Term.data.injEq] at hsealed
  exact hsealed.2.2.2.symm

end Names

end Members

/-! ## A run -/

/-- The key of a household is inserted with it, and then returned. -/
theorem exampleHouseholdKeys :
    ∃ store : (keyProtocol "kek" (fun _ => 0)).System, Reachable Store.empty store ∧
      ⟨.createHousehold ⟨⟨"o1", "h1", "p1"⟩, ⟨"hk1", "dek", 1⟩⟩, .committed none⟩ ∈ store.log ∧
      ReturnedTo store.log "o1" "h1" ⟨1, "dek"⟩ := by
  have hcalls : (keyProtocol "kek" (fun _ => 0)).Sequential [] Store.empty
      [.createHousehold ⟨⟨"o1", "h1", "p1"⟩, ⟨"hk1", "dek", 1⟩⟩,
        .getOrCreate ⟨⟨"o1", "h1", "p1"⟩, ⟨"hk2", "other-key", 2⟩⟩] :=
    ⟨trivial, trivial, trivial⟩
  obtain ⟨store, hstore, hlog, -⟩ := reachable_sequential hcalls
  refine ⟨store, hstore, ?_, ⟨⟨"o1", "h1", "p1"⟩, ⟨"hk2", "other-key", 2⟩⟩, ?_, rfl, rfl⟩
  · rw [hlog]
    exact List.mem_of_getElem? (i := 1) rfl
  · rw [hlog]
    exact List.mem_of_getElem? (i := 0) rfl

/-- The calls of a run: the invitation is looked up before it is accepted. -/
def exampleMembers : List MembersCall :=
  [.once (.createHousehold ⟨"u1"⟩ "k1" ⟨"Family", "Home", "Ada"⟩
      ⟨"o1", "h1", "p1", "m1", "hk1", "dek", 1, 2⟩ 0),
    .once (.createInvitation ⟨"o1", "h1", "p1"⟩ "m1" "k2" ⟨"bob@example.com", .editor, 1⟩ "i1" 0 0),
    .lookup ⟨"u2"⟩ "membership-invite-token:o1:h1:k2:membership-invite-email:bob@example.com"
      "membership-invite-email:bob@example.com" 5,
    .once (.acceptInvitation ⟨"u2"⟩ "k3"
      ⟨"membership-invite-token:o1:h1:k2:membership-invite-email:bob@example.com",
        "bob@example.com", "Bob", 1⟩ ⟨"o1", "h1", "p2", "m2", "dek", 1, 3⟩ 5 5)]

/-- The membership that the acceptance leaves. -/
def exampleAccepted : MembershipRow := ⟨"m2", "o1", "h1", "p2", .editor, true, some "u2", 1⟩

theorem exampleMembers_accepted (keys : KeyLog "kek" (fun _ => 0)) :
    ((membersProtocol keys Sha256.transparent).sequential [] Store.empty exampleMembers).2.get
      .memberships "m2" = some exampleAccepted := by
  have hclosed : ((membersProtocol ([] : KeyLog "kek" (fun _ => 0)) Sha256.transparent).sequential
      [] Store.empty exampleMembers).2.get .memberships "m2" = some exampleAccepted := by
    decide +kernel
  exact hclosed

end LegacyVault
