import LegacyVault.HouseholdRuns
import LegacyVault.MembershipIdentities

/-!
# Tenants

A membership names the organization of its household, and a household stays
in its organization. What an account is told of its households and the tenant
that its requests are resolved to therefore agree, whenever each was read.
-/

namespace LegacyVault

open JsonText RowTransaction RowTransaction.Program RowTransaction.Protocol Store

/-- A row of `listHouseholdsForAccount`. -/
structure HouseholdMembershipSummary where
  id : Identifier
  organizationId : Identifier
  name : String
  version : Nat
  membershipId : Identifier
  personId : Identifier
  role : Role
  deriving DecidableEq

/-- The household of a membership, if it is in the same organization. -/
def MembershipRow.household (membership : MembershipRow) (σ : Vault) : Option HouseholdRow :=
  (σ.get .households membership.householdId).filter (fun household : HouseholdRow =>
    household.organizationId == membership.organizationId)

/-- `listHouseholdsForAccount`. -/
def listHouseholdsForAccount (context : AccountContext) (σ : Vault) :
    List HouseholdMembershipSummary :=
  let rows := ((σ.rowsOf .memberships).filter (fun membership : MembershipRow =>
    membership.authUserId == some context.authUserId && membership.active)).filterMap
      (fun membership => (membership.household σ).map (fun household =>
        (⟨household.id, household.organizationId, household.name, household.version, membership.id,
          membership.personId, membership.role⟩ : HouseholdMembershipSummary)))
  rows.insertionSort (fun a b => a.name < b.name ∨ (a.name = b.name ∧ a.id ≤ b.id))

/-- Households are listed with their organization. -/
theorem mem_listHouseholdsForAccount {context : AccountContext} {σ : Vault}
    {summary : HouseholdMembershipSummary} (hkeyed : Keyed σ)
    (h : summary ∈ listHouseholdsForAccount context σ) :
    ∃ household : HouseholdRow, σ.get .households summary.id = some household ∧
      household.organizationId = summary.organizationId := by
  obtain ⟨membership, -, hsummary⟩ :=
    List.mem_filterMap.mp ((List.perm_insertionSort _ _).mem_iff.mp h)
  obtain ⟨household, hhousehold, rfl⟩ := Option.map_eq_some_iff.mp hsummary
  obtain ⟨hrow, -⟩ := Option.filter_eq_some_iff.mp hhousehold
  refine ⟨household, ?_, rfl⟩
  rw [hkeyed.households _ household hrow]
  exact hrow

/-- An account is resolved to the tenant of one of its memberships. -/
theorem executes_resolveMembership_tenant {authUserId : Identifier}
    {requestedHouseholdId : Option Identifier} {now : Instant}
    {identity : ResolvedMembershipIdentity} {seen : Vault → Prop} {σ : Vault}
    {ws ws' : List (Write vaultSchema)}
    (h : (resolveMembership authUserId requestedHouseholdId now).Executes seen σ ws
      (.ok identity) ws') :
    ∃ (σ₀ : Vault) (membership : MembershipRow), seen σ₀ ∧
      membership ∈ membershipsOf authUserId requestedHouseholdId (σ₀.overlay ws) ∧
      identity.organizationId = membership.organizationId ∧
      identity.householdId = membership.householdId := by
  obtain ⟨rows, ws₁, hrows, h⟩ := executes_bind_ok.mp h
  obtain ⟨σ₀, hseen, hfound, -⟩ := executes_select.mp hrows
  obtain rfl := Except.ok.inj hfound
  split at h
  · exact absurd h.1 (by simp)
  rename_i row others hmatch
  split at h
  · exact absurd h.1 (by simp)
  obtain ⟨grants, ws₂, -, h⟩ := executes_bind_ok.mp h
  obtain ⟨approvals, ws₃, -, h⟩ := executes_bind_ok.mp h
  obtain ⟨released, ws₄, -, hidentity, -⟩ := executes_bind_ok.mp h
  obtain rfl := Except.ok.inj hidentity
  exact ⟨σ₀, row, hseen, hmatch ▸ List.mem_cons_self, rfl, rfl⟩

/-- The memberships of a selected household are in it. -/
theorem householdId_of_membershipsOf {authUserId householdId : Identifier} {σ : Vault}
    {membership : MembershipRow} (h : membership ∈ membershipsOf authUserId (some householdId) σ) :
    membership.householdId = householdId := by
  have hmem := (List.perm_insertionSort _ _).mem_iff.mp (List.mem_of_mem_take h)
  have hcondition := (List.mem_filter.mp hmem).2
  simp only [Option.all_some, Bool.and_eq_true, beq_iff_eq] at hcondition
  exact hcondition.1.2.symm

/-! ## Runs -/

/-- Memberships name the organization of their household. -/
def TenantsSound (σ : Vault) : Prop :=
  ∀ k (membership : MembershipRow), σ.get .memberships k = some membership →
    ∃ household : HouseholdRow, σ.get .households membership.householdId = some household ∧
      household.organizationId = membership.organizationId

/-- The household stays in its organization. -/
def HouseholdRow.Stays (before after : HouseholdRow) : Prop :=
  after.organizationId = before.organizationId

/-- Households stay in their organizations. -/
def TenantsKept (σ σ' : Vault) : Prop :=
  Keeps (S := vaultSchema) .households HouseholdRow.Stays σ σ'

theorem HouseholdRow.Stays.refl (household : HouseholdRow) : household.Stays household := rfl

theorem HouseholdRow.Stays.trans (a b c : HouseholdRow) (h : a.Stays b) (h' : b.Stays c) :
    a.Stays c :=
  Eq.trans h' h

section Change

variable {sha256 : Sha256} {σ σ' : Vault} {call : OnceCall} {body : Json}

/-- Every change leaves households in their organizations. -/
theorem HouseholdChange.tenantsKept (h : HouseholdChange sha256 σ σ' call body) :
    TenantsKept σ σ' := by
  have hraised : ∀ {k : Identifier} {household : HouseholdRow},
      σ.get .households k = some household →
      Replaces (S := vaultSchema) .households k (some household.raised) σ σ' →
      TenantsKept σ σ' := by
    intro k household hhousehold hreplaces
    refine hreplaces.keeps HouseholdRow.Stays.refl (fun before hbefore => ?_)
    obtain rfl := Option.some.inj (hhousehold.symm.trans hbefore)
    rfl
  cases h with
  | created _ hnew _ hhouseholds _ _ _ =>
    refine hhouseholds.keeps HouseholdRow.Stays.refl (fun before hbefore => ?_)
    rw [hnew] at hbefore
    cases hbefore
  | invited household _ hhousehold _ hhouseholds _ _ _ => exact hraised hhousehold hhouseholds
  | revoked household _ hhousehold _ _ hhouseholds _ _ _ => exact hraised hhousehold hhouseholds
  | roleUpdated household _ _ hhousehold _ _ hhouseholds _ _ _ =>
    exact hraised hhousehold hhouseholds
  | accepted household _ _ hhousehold _ _ _ _ _ _ _ hhouseholds _ _ _ =>
    exact hraised hhousehold hhouseholds
  | other _ hhouseholds _ _ _ => exact hhouseholds.keeps HouseholdRow.Stays.refl

/-- The membership names the organization of its household. -/
def SoundMembership (σ : Vault) (membershipId : Identifier) : Prop :=
  ∃ (membership : MembershipRow) (household : HouseholdRow),
    σ.get .memberships membershipId = some membership ∧
    σ.get .households membership.householdId = some household ∧
    household.organizationId = membership.organizationId

/-- Every change leaves memberships in the organizations of their households, where an acceptance
does so for the new one. -/
theorem HouseholdChange.tenantsSound (h : HouseholdChange sha256 σ σ' call body)
    (hsound : TenantsSound σ)
    (haccepted : ∀ account key input generated acceptedAt now,
      call = .acceptInvitation account key input generated acceptedAt now →
      SoundMembership σ' generated.membershipId) : TenantsSound σ' := by
  have hkept := h.tenantsKept
  have hbefore : ∀ {k : Identifier} {membership : MembershipRow},
      σ.get .memberships k = some membership →
      ∃ household : HouseholdRow, σ'.get .households membership.householdId = some household ∧
        household.organizationId = membership.organizationId := by
    intro k membership hrow
    obtain ⟨household, hhousehold, horganization⟩ := hsound k membership hrow
    obtain ⟨after, hafter, hsame⟩ := hkept _ _ hhousehold
    exact ⟨after, hafter, Eq.trans hsame horganization⟩
  intro k membership hrow
  cases h with
  | created _ _ _ hhouseholds _ hmemberships _ =>
    rcases hmemberships.get_cases k with ⟨rfl, hnew⟩ | ⟨-, hold⟩
    · obtain rfl := Option.some.inj (hnew.symm.trans hrow)
      exact ⟨_, hhouseholds.row, rfl⟩
    · exact hbefore (hold.symm.trans hrow)
  | invited _ _ _ _ _ _ hmemberships _ => exact hbefore ((hmemberships k).symm.trans hrow)
  | revoked _ _ _ _ _ _ _ hmemberships _ => exact hbefore ((hmemberships k).symm.trans hrow)
  | roleUpdated _ before _ _ hmembership _ _ _ hmemberships _ =>
    rcases hmemberships.get_cases k with ⟨rfl, hnew⟩ | ⟨-, hold⟩
    · obtain rfl := Option.some.inj (hnew.symm.trans hrow)
      obtain ⟨household, hhousehold, horganization⟩ := hbefore hmembership
      exact ⟨household, hhousehold, horganization⟩
    · exact hbefore (hold.symm.trans hrow)
  | accepted _ _ _ _ _ _ _ _ _ _ _ _ _ hmemberships _ =>
    rcases hmemberships.get_cases k with ⟨rfl, hnew⟩ | ⟨-, hold⟩
    · obtain ⟨found, household, hfound, hhousehold, horganization⟩ :=
        haccepted _ _ _ _ _ _ rfl
      obtain rfl := Option.some.inj (hfound.symm.trans hrow)
      exact ⟨household, hhousehold, horganization⟩
    · exact hbefore (hold.symm.trans hrow)
  | other _ _ _ hmemberships _ => exact hbefore ((hmemberships k).symm.trans hrow)

end Change

section Executes

variable {seen : Vault → Prop} {σ : Vault} {ws ws' : List (Write vaultSchema)}

/-- An acceptance raises the household that its membership names, in the same organization. -/
theorem acceptInvitationMutation_tenant {account : AccountContext} {input : AcceptanceWrite}
    {body : Json}
    (h : (acceptInvitationMutation account input).Executes seen σ ws (.ok body) ws') :
    SoundMembership (σ.overlay ws') input.membershipId := by
  obtain ⟨visible, ws₁, -, h⟩ := executes_bind_ok.mp h
  split at h
  · exact absurd h.1 (by simp)
  rename_i visibleRow hfound
  obtain ⟨locked, ws₂, hlock, h⟩ := executes_bind_ok.mp h
  split at h
  · exact absurd h.1 (by simp)
  rename_i invitation hlocked
  obtain ⟨rfl, -⟩ := Option.filter_eq_some_iff.mp hlocked
  obtain ⟨-, hsees, -⟩ := executes_lockRow_some hlock
  obtain ⟨horganization, -⟩ := TenantContext.sees_iff.mp hsees
  split at h
  · exact absurd h.1 (by simp)
  obtain ⟨_, ws₃, -, h⟩ := executes_bind_ok.mp h
  obtain ⟨_, ws₄, hmembership, h⟩ := executes_bind_ok.mp h
  obtain ⟨-, rfl⟩ := insertMembership_executes hmembership
  obtain ⟨updated, ws₅, hupdate, h⟩ := executes_bind_ok.mp h
  cases updated with
  | none => exact absurd h.1 (by simp)
  | some updated =>
    obtain ⟨_, -, -, rfl⟩ := executes_updateRow_some hupdate
    obtain ⟨raised, ws₆, hraise, h⟩ := executes_bind_ok.mp h
    cases raised with
    | none => exact absurd h.1 (by simp)
    | some raised =>
      obtain ⟨household, hhousehold, hchange, rfl⟩ := executes_updateRow_some hraise
      simp only [Option.ite_none_right_eq_some, Option.some.injEq] at hchange
      obtain ⟨hseen, rfl⟩ := hchange
      obtain ⟨-, rfl⟩ := h
      refine ⟨⟨input.membershipId, invitation.organizationId, invitation.householdId,
        input.personId, invitation.role, true, some account.authUserId, 1⟩,
        { household with version := household.version + 1 }, ?_, ?_, ?_⟩
      · exact (((SameRows.refl (S := vaultSchema) _ (σ.overlay ws₃)).write.writeOther
          (by decide)).writeOther (by decide)).row
      · exact (SameRows.refl (S := vaultSchema) _ (σ.overlay _)).write.row
      · exact (TenantContext.sees_iff.mp hseen).1.trans horganization.symm

/-- An applied acceptance leaves a membership in the organization of its household. -/
theorem acceptMembershipInvitation_tenant {sha256 : Sha256} {applicationKek : SymmetricKey}
    {account : AccountContext} {key : String} {input : AcceptInvitationInput}
    {generated : AcceptInvitationGenerated} {acceptedAt now : Instant} {body : Json}
    (h : (onceProgram sha256 applicationKek
      (.acceptInvitation account key input generated acceptedAt now)).Executes seen σ []
        (.ok (.applied body)) ws') : SoundMembership (σ.overlay ws') generated.membershipId := by
  rcases RecordShape.executes_once_ok (acceptInvitationMutation_leaves (by decide) (by decide)
    (by decide) (by decide) _ _) h with ⟨_, _, _, _, _, _, _, hreplayed, _⟩ |
      ⟨found, ws₁, -, hmutation, -, rfl⟩
  · cases hreplayed
  · obtain ⟨membership, household, hmembership, hhousehold, horganization⟩ :=
      acceptInvitationMutation_tenant hmutation
    refine ⟨membership, household, ?_, ?_, horganization⟩
    · rw [sameRows_overlay_cons σ _ _ ws₁ (by decide)]
      exact hmembership
    · rw [sameRows_overlay_cons σ _ _ ws₁ (by decide)]
      exact hhousehold

end Executes

section Runs

variable {sha256 : Sha256} {applicationKek : SymmetricKey} {asked : OnceCall → Prop}

/-- In every interleaving memberships are in the organizations of their households, which stay. -/
theorem tenants_invariant :
    (onceProtocol sha256 applicationKek asked).Invariant Store.empty
      (fun log σ => HouseholdsSound sha256 log σ ∧ TenantsSound σ)
      (fun σ σ' => HouseholdsKept σ σ' ∧ TenantsKept σ σ') where
  refl := fun σ => ⟨HouseholdsKept.refl σ,
    (SameRows.refl (S := vaultSchema) _ σ).keeps HouseholdRow.Stays.refl⟩
  trans := fun h h' => ⟨h.1.trans h'.1, h.2.trans HouseholdRow.Stays.trans h'.2⟩
  start := ⟨householdsSound_empty, fun _ _ hrow => absurd hrow (by simp)⟩
  commit := by
    intro log begun seen σ call answer ws h hpermitted hbegun hnow hearlier hexec
    obtain ⟨hsound, hkept⟩ := households_invariant.commit h.1 hpermitted hbegun hnow
      (fun σ₀ hseen => by
        obtain ⟨hgrows, log₀, hbegun₀, hlog₀, hheld⟩ := hearlier σ₀ hseen
        exact ⟨hgrows.1, log₀, hbegun₀, hlog₀, hheld.1⟩) hexec
    have hseen : ∀ σ₀, seen σ₀ → Keyed σ₀ ∧ InvitationsKept σ₀ σ := by
      intro σ₀ h₀
      obtain ⟨hgrows, log₀, -, -, hheld⟩ := hearlier σ₀ h₀
      exact ⟨hheld.1.keyed, hgrows.1.invitations⟩
    rcases OnceCall.executes_change h.1.keyed hseen hexec with
      ⟨body, rfl, rfl⟩ | ⟨body, rfl, hchange⟩
    · exact ⟨⟨hsound, h.2⟩, hkept,
        (SameRows.refl (S := vaultSchema) _ σ).keeps HouseholdRow.Stays.refl⟩
    · refine ⟨⟨hsound, hchange.tenantsSound h.2 ?_⟩, hkept, hchange.tenantsKept⟩
      rintro account key input generated acceptedAt now rfl
      exact @acceptMembershipInvitation_tenant _ _ _ _ applicationKek _ _ _ _ _ _ _ hexec
  rollback := fun h hpermitted hbegun hnow hearlier hexec =>
    ⟨households_invariant.rollback h.1 hpermitted hbegun hnow (fun σ₀ hseen => by
      obtain ⟨hgrows, log₀, hbegun₀, hlog₀, hheld⟩ := hearlier σ₀ hseen
      exact ⟨hgrows.1, log₀, hbegun₀, hlog₀, hheld.1⟩) hexec, h.2⟩
  abort := fun h hpermitted hbegun => ⟨households_invariant.abort h.1 hpermitted hbegun, h.2⟩

/-- The account was told of these households before the run came to this state. -/
def Listed (s : (onceProtocol sha256 applicationKek asked).System) (account : AccountContext)
    (households : List HouseholdMembershipSummary) : Prop :=
  ∃ s₀ : (onceProtocol sha256 applicationKek asked).System, Reachable Store.empty s₀ ∧
    Later s₀ s ∧ households = listHouseholdsForAccount account s₀.committed

/-- A request of the account that selects the household was resolved to the tenant before the run
came to this state. -/
def Resolved (s : (onceProtocol sha256 applicationKek asked).System) (account : AccountContext)
    (householdId : Identifier) (context : TenantContext) : Prop :=
  ∃ (s₀ : (onceProtocol sha256 applicationKek asked).System) (now : Instant)
    (identity : ResolvedMembershipIdentity), Reachable Store.empty s₀ ∧ Later s₀ s ∧
    ((resolveMembership account.authUserId (some householdId) now).transact s₀.committed).1 =
      .ok identity ∧ context = identity.context

/-- A listed household names the tenant that requests which select it are resolved to. -/
theorem Listed.tenant {s : (onceProtocol sha256 applicationKek asked).System}
    {account : AccountContext} {households : List HouseholdMembershipSummary}
    (h : Listed s account households) {summary : HouseholdMembershipSummary}
    (hsummary : summary ∈ households) {context : TenantContext}
    (hresolved : Resolved s account summary.id context) :
    context.organizationId = summary.organizationId ∧ context.householdId = summary.id := by
  obtain ⟨s₁, hs₁, hlater₁, rfl⟩ := h
  obtain ⟨s₂, now, identity, hs₂, hlater₂, hidentity, rfl⟩ := hresolved
  obtain ⟨household, hhousehold, horganization⟩ :=
    mem_listHouseholdsForAccount (tenants_invariant.reachable hs₁).1.keyed hsummary
  obtain ⟨ws, hresolve⟩ := executes_of_transact hidentity
  obtain ⟨σ₀, membership, rfl, hmembership, horganization', hhousehold'⟩ :=
    executes_resolveMembership_tenant hresolve
  have hin : membership.householdId = summary.id := householdId_of_membershipsOf hmembership
  obtain ⟨k, hrow⟩ := mem_membershipsOf hmembership
  obtain ⟨found, hfound, hsame⟩ := (tenants_invariant.reachable hs₂).2 k membership hrow
  rw [hin] at hfound
  -- Both stores have the household as the latest one has it.
  obtain ⟨after, hafter, hstays⟩ := (tenants_invariant.later hs₁ hlater₁).2 _ _ hhousehold
  obtain ⟨after', hafter', hstays'⟩ := (tenants_invariant.later hs₂ hlater₂).2 _ _ hfound
  obtain rfl := Option.some.inj (hafter.symm.trans hafter')
  refine ⟨?_, hhousehold'.trans hin⟩
  calc identity.context.organizationId = membership.organizationId := horganization'
    _ = found.organizationId := hsame.symm
    _ = after.organizationId := Eq.symm hstays'
    _ = household.organizationId := hstays
    _ = summary.organizationId := horganization

end Runs

end LegacyVault
