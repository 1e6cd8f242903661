import LegacyVault.HouseholdRuns

/-!
# The life of an invitation

Over every run of the household operations: an invitation is accepted at
most once and never both accepted and revoked, only an account with the
invited e-mail address accepts it, an acceptance makes exactly one person
and one membership, and an acceptance that fails changes nothing.
-/

namespace LegacyVault

open JsonText RowTransaction RowTransaction.Program Store Protocol

/-- What an acceptance finds and leaves: an open invitation to the account's e-mail address,
unexpired and at the expected version; a new person and a new active membership with the
invitation's role for the account; the invitation accepted by the account. -/
def AcceptanceEffect (sha256 : Sha256) (σ σ' : Vault) (account : AccountContext)
    (input : AcceptInvitationInput) (generated : AcceptInvitationGenerated)
    (acceptedAt : Instant) : Prop :=
  ∃ (invitationId : Identifier) (invitation : MembershipInvitationRow),
    σ.get .membershipInvitations invitationId = some invitation ∧
    invitation.acceptedAt = none ∧ invitation.revokedAt = none ∧
    invitation.tokenHash = sha256.digest input.token ∧
    invitation.emailHash = invitationEmailHash sha256 input.email ∧
    acceptedAt < invitation.expiresAt ∧
    invitation.version = input.expectedInvitationVersion ∧
    Replaces (S := vaultSchema) .membershipInvitations invitationId
      (some (invitation.acceptedBy account acceptedAt)) σ σ' ∧
    σ.get .people generated.personId = none ∧
    Replaces (S := vaultSchema) .people generated.personId
      (some (invitation.person (acceptInvitationWrite sha256 input generated acceptedAt))) σ σ' ∧
    σ.get .memberships generated.membershipId = none ∧
    Replaces (S := vaultSchema) .memberships generated.membershipId
      (some ⟨generated.membershipId, invitation.organizationId, invitation.householdId,
        generated.personId, invitation.role, true, some account.authUserId, 1⟩) σ σ'

/-- Between the two stores the invitation becomes an accepted one. -/
def BecomesAccepted (invitationId : Identifier) (σ σ' : Vault) : Prop :=
  ∃ (before after : MembershipInvitationRow),
    σ.get .membershipInvitations invitationId = some before ∧ before.acceptedAt = none ∧
    σ'.get .membershipInvitations invitationId = some after ∧ after.acceptedAt ≠ none

section Lifecycle

variable {sha256 : Sha256} {applicationKek : SymmetricKey} {asked : OnceCall → Prop}

/-- What holds of invitations in a state that a run has reached. -/
structure InvitationLifecycle (s : (onceProtocol sha256 applicationKek asked).System) : Prop where
  /-- No invitation is both accepted and revoked. -/
  exclusive : ∀ (k : Identifier) (invitation : MembershipInvitationRow),
    s.committed.get .membershipInvitations k = some invitation →
    invitation.acceptedAt = none ∨ invitation.revokedAt = none
  /-- An invitation that has become accepted does not become accepted again. -/
  once : ∀ s₁ s₂ s₃ k, Step s s₁ → BecomesAccepted k s.committed s₁.committed →
    Later s₁ s₂ → Step s₂ s₃ → ¬ BecomesAccepted k s₂.committed s₃.committed
  /-- What is accepted or revoked stays exactly as it is. -/
  closed : ∀ s', Later s s' → ∀ (k : Identifier) (invitation : MembershipInvitationRow),
    s.committed.get .membershipInvitations k = some invitation → invitation.Closed →
    s'.committed.get .membershipInvitations k = some invitation
  /-- An accepted invitation was accepted by an account with the invited e-mail address, before
  it expired and at its version then. -/
  accepted : ∀ (k : Identifier) (invitation : MembershipInvitationRow),
    s.committed.get .membershipInvitations k = some invitation → invitation.acceptedAt ≠ none →
    ∃ entry ∈ s.log, Accepts sha256 invitation entry
  /-- An acceptance that takes effect creates one person and one membership. -/
  acceptance : ∀ s', Step s s' → ∀ account key input generated acceptedAt now body,
    s'.log = ⟨.acceptInvitation account key input generated acceptedAt now,
      .committed (.applied body)⟩ :: s.log →
    AcceptanceEffect sha256 s.committed s'.committed account input generated acceptedAt
  /-- Every membership is the one of a creation or of an accepted invitation. -/
  members : ∀ (k : Identifier) (membership : MembershipRow),
    s.committed.get .memberships k = some membership →
    IsCreator s.log k membership ∨ IsInvited s.committed membership
  /-- An acceptance that fails, or that replays, changes no row. -/
  failed : ∀ s', Step s s' → ∀ account key input generated acceptedAt now outcome,
    s'.log = ⟨.acceptInvitation account key input generated acceptedAt now, outcome⟩ :: s.log →
    (∀ body, outcome ≠ .committed (.applied body)) → s'.committed = s.committed

/-- An acceptance in the log has made its change. -/
theorem accepted_step {s s' : (onceProtocol sha256 applicationKek asked).System}
    (h : Reachable Store.empty s) (hstep : Step s s') {call : OnceCall} {answer : Answer Json}
    (hlog : s'.log = ⟨call, .committed answer⟩ :: s.log) :
    (∃ body, answer = .replayed body ∧ s'.committed = s.committed) ∨
    ∃ body, answer = .applied body ∧
      HouseholdChange sha256 s.committed s'.committed call body := by
  obtain ⟨ws, begun, seen, hcommitted, -, -, -, hearlier, hexec⟩ :=
    households_invariant.committed_step h hstep hlog
  have hsound := households_invariant.reachable h
  have hseen : ∀ σ₀, seen σ₀ → Keyed σ₀ ∧ InvitationsKept σ₀ s.committed := by
    intro σ₀ h₀
    obtain ⟨hkept, log₀, -, -, hsound₀⟩ := hearlier σ₀ h₀
    exact ⟨hsound₀.keyed, hkept.invitations⟩
  rw [hcommitted]
  rcases OnceCall.executes_change hsound.keyed hseen hexec with ⟨body, hanswer, rfl⟩ | hchange
  · exact Or.inl ⟨body, hanswer, rfl⟩
  · exact Or.inr hchange

/-- The change of an acceptance is the effect of an acceptance. -/
theorem HouseholdChange.acceptanceEffect {σ σ' : Vault} {account : AccountContext} {key : String}
    {input : AcceptInvitationInput} {generated : AcceptInvitationGenerated}
    {acceptedAt now : Instant} {body : Json}
    (h : HouseholdChange sha256 σ σ'
      (.acceptInvitation account key input generated acceptedAt now) body) :
    AcceptanceEffect sha256 σ σ' account input generated acceptedAt := by
  cases h with
  | accepted _ invitationId invitation _ hinvitation htoken havailable hversion hnewPerson
      hnewMembership _ _ hpeople hmemberships hinvitations =>
    obtain ⟨hopen, hemail, hexpiry⟩ := MembershipInvitationRow.open_of_available havailable
    exact ⟨invitationId, invitation, hinvitation, hopen.1, hopen.2, htoken, hemail, hexpiry,
      hversion, hinvitations, hnewPerson, hpeople, hnewMembership, hmemberships⟩
  | other hcall => exact absurd hcall (by simp [OnceCall.onMembers])

/-- What an accepted or revoked invitation is, it stays. -/
theorem invitation_closed {s s' : (onceProtocol sha256 applicationKek asked).System}
    (h : Reachable Store.empty s) (hlater : Later s s') {k : Identifier}
    {invitation : MembershipInvitationRow}
    (hrow : s.committed.get .membershipInvitations k = some invitation)
    (hclosed : invitation.Closed) :
    s'.committed.get .membershipInvitations k = some invitation := by
  obtain ⟨new, hnew, -, hsame⟩ :=
    (households_invariant.later h hlater).invitations k invitation hrow
  rw [hsame hclosed] at hnew
  exact hnew

/-- Invitations live as they should in every run of the household operations. -/
theorem invitation_lifecycle {s : (onceProtocol sha256 applicationKek asked).System}
    (h : Reachable Store.empty s) : InvitationLifecycle s where
  exclusive := fun k invitation hrow =>
    ((households_invariant.reachable h).invitations k invitation hrow).exclusive
  once := by
    rintro s₁ s₂ s₃ k hstep ⟨_, row, -, -, hrow, haccepted⟩ hlater - ⟨before, _, hbefore, hopen, -⟩
    have hsame := invitation_closed (h.step hstep) hlater hrow (Or.inl haccepted)
    obtain rfl : row = before := Option.some.inj (hsame.symm.trans hbefore)
    exact haccepted hopen
  closed := fun s' hlater k invitation hrow hclosed => invitation_closed h hlater hrow hclosed
  accepted := fun k invitation hrow haccepted =>
    ((households_invariant.reachable h).invitations k invitation hrow).accepted haccepted
  acceptance := by
    intro s' hstep account key input generated acceptedAt now body hlog
    rcases accepted_step h hstep hlog with ⟨_, hanswer, -⟩ | ⟨_, -, hchange⟩
    · exact absurd hanswer (by simp)
    · exact hchange.acceptanceEffect
  members := by
    intro k membership hrow
    have hsound := households_invariant.reachable h
    exact (hsound.memberships k membership hrow).imp id And.right
  failed := by
    intro s' hstep account key input generated acceptedAt now outcome hlog hfailed
    rcases hstep.committed_or_log with hsame | ⟨r, answer, hlog'⟩
    · exact hsame
    · rcases accepted_step h hstep hlog' with ⟨_, -, hsame⟩ | ⟨body, hanswer, -⟩
      · exact hsame
      · have hentry := (List.cons.inj (hlog.symm.trans hlog')).1
        have houtcome := (Entry.mk.inj hentry).2
        rw [hanswer] at houtcome
        exact absurd houtcome (hfailed body)

end Lifecycle

theorem invitation_lifecycle_example :
    ∃ s : (onceProtocol Sha256.transparent "kek" (fun _ => True)).System,
      Reachable Store.empty s ∧
      (s.committed.get .membershipInvitations "i1").map MembershipInvitationRow.acceptedAt =
        some (some 5) ∧
      InvitationLifecycle s := by
  have hpermitted : (onceProtocol Sha256.transparent "kek" (fun _ => True)).Sequential []
      Store.empty exampleHousehold := ⟨trivial, trivial, trivial, trivial, trivial⟩
  obtain ⟨s, hs, -, hcommitted⟩ := reachable_sequential hpermitted
  refine ⟨s, hs, ?_, invitation_lifecycle hs⟩
  rw [hcommitted]
  rfl

end LegacyVault
