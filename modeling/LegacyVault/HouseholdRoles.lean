import LegacyVault.HouseholdRuns

/-!
# Roles never escalate

Over every run of the household operations: a household has the one owner
its creation gave it, nobody gets a support or platform role, an owner's
membership never changes, and the version of a household counts what has
happened to it.
-/

namespace LegacyVault

open JsonText RowTransaction RowTransaction.Program Store Protocol

section Roles

variable {sha256 : Sha256} {applicationKek : SymmetricKey} {asked : OnceCall → Prop}

/-- What holds of roles and versions in a state that a run has reached. -/
structure RolesKept (s : (onceProtocol sha256 applicationKek asked).System) : Prop where
  /-- A household was created once, and its owner is the membership its creation inserted. -/
  owners : ∀ (householdId : Identifier) (household : HouseholdRow),
    s.committed.get .households householdId = some household →
    ∃ entry account generated, s.log.filter (createdIn householdId) = [entry] ∧
      Creates account generated entry ∧ generated.householdId = householdId ∧
      s.committed.get .memberships generated.membershipId =
        some (ownerMembership account generated) ∧
      ∀ (k : Identifier) (membership : MembershipRow),
        s.committed.get .memberships k = some membership →
        membership.householdId = householdId → membership.role = .owner →
        k = generated.membershipId
  /-- Every owner's membership belongs to a household. -/
  housed : ∀ (k : Identifier) (membership : MembershipRow),
    s.committed.get .memberships k = some membership → membership.role = .owner →
    s.committed.get .households membership.householdId ≠ none
  /-- Nobody has a support or platform role. -/
  unprivileged : ∀ (k : Identifier) (membership : MembershipRow),
    s.committed.get .memberships k = some membership →
    membership.role ≠ .supportAgent ∧ membership.role ≠ .platformAdmin
  /-- An owner's membership never changes. -/
  ownersKept : ∀ s', Later s s' → ∀ (k : Identifier) (membership : MembershipRow),
    s.committed.get .memberships k = some membership → membership.role = .owner →
    s'.committed.get .memberships k = some membership
  /-- The version of a household counts the calls that took effect on it. -/
  version : ∀ (householdId : Identifier) (household : HouseholdRow),
    s.committed.get .households householdId = some household →
    household.version = 1 + s.log.countP (raisedVersion householdId)

/-- An entry that created a household is its creation. -/
theorem createdIn_iff {householdId : Identifier} {entry : OnceEntry} :
    createdIn householdId entry = true ↔
      ∃ account generated, Creates account generated entry ∧
        generated.householdId = householdId := by
  constructor
  · intro hcreated
    obtain ⟨request, outcome⟩ := entry
    unfold createdIn at hcreated
    split at hcreated
    · rename_i account key input generated now body hrequest houtcome
      obtain rfl : request = _ := hrequest
      obtain rfl : outcome = _ := houtcome
      exact ⟨account, generated, ⟨key, input, now, body, rfl⟩, beq_iff_eq.mp hcreated⟩
    · exact absurd hcreated (by simp)
  · rintro ⟨account, generated, ⟨key, input, now, body, rfl⟩, rfl⟩
    simp [createdIn]

/-- Roles that can be assigned are neither the owner's nor privileged. -/
theorem role_of_assignable {role : Role} (h : role ∈ assignableHouseholdRoles) :
    role ≠ .owner ∧ role ≠ .supportAgent ∧ role ≠ .platformAdmin := by
  refine ⟨?_, ?_, ?_⟩ <;>
  · rintro rfl
    exact absurd h (by decide)

/-- A sound owner's membership is the one of a creation. -/
theorem MembershipSound.creator {log : List OnceEntry} {σ : Vault} {k : Identifier}
    {membership : MembershipRow} (h : MembershipSound log σ k membership)
    (howner : membership.role = .owner) : IsCreator log k membership := by
  rcases h with hcreator | ⟨hrole, -⟩
  · exact hcreator
  · exact absurd howner (role_of_assignable hrole).1

/-- No run of the household operations escalates a role. -/
theorem no_role_escalation {s : (onceProtocol sha256 applicationKek asked).System}
    (h : Reachable Store.empty s) : RolesKept s where
  owners := by
    intro householdId household hhousehold
    have hsound := households_invariant.reachable h
    have hledger := hsound.ledger householdId
    rw [hhousehold] at hledger
    obtain ⟨entry, hentry⟩ := List.length_eq_one_iff.mp hledger.1
    obtain ⟨hmem, hcreated⟩ := List.mem_filter.mp (hentry ▸ List.mem_singleton_self entry)
    obtain ⟨account, generated, hcreates, hhouse⟩ := createdIn_iff.mp hcreated
    refine ⟨entry, account, generated, hentry, hcreates, hhouse,
      (hsound.creations entry hmem account generated hcreates).1, ?_⟩
    intro k membership hrow hin howner
    obtain ⟨other, hother, account', generated', hcreates', hk, hmembership⟩ :=
      (hsound.memberships k membership hrow).creator howner
    have hsame : other ∈ s.log.filter (createdIn householdId) := by
      refine List.mem_filter.mpr ⟨hother, createdIn_iff.mpr ⟨account', generated', hcreates', ?_⟩⟩
      rw [hmembership] at hin
      exact hin
    rw [hentry] at hsame
    obtain rfl := List.mem_singleton.mp hsame
    obtain ⟨_, _, _, _, heq⟩ := hcreates
    obtain ⟨_, _, _, _, heq'⟩ := hcreates'
    have hcall := (Entry.mk.inj (heq.symm.trans heq')).1
    injection hcall with _ _ _ hgenerated _
    rw [← hk, hgenerated]
  housed := by
    intro k membership hrow howner
    have hsound := households_invariant.reachable h
    obtain ⟨entry, hmem, account, generated, hcreates, -, rfl⟩ :=
      (hsound.memberships k membership hrow).creator howner
    exact (hsound.creations entry hmem account generated hcreates).2
  unprivileged := by
    intro k membership hrow
    have hsound := households_invariant.reachable h
    rcases hsound.memberships k membership hrow with ⟨_, -, account, generated, -, -, rfl⟩ |
      ⟨hrole, -⟩
    · exact ⟨Role.noConfusion, Role.noConfusion⟩
    · exact (role_of_assignable hrole).2
  ownersKept := by
    intro s' hlater
    have hgrows := households_invariant.later h hlater
    exact hgrows.owners
  version := by
    intro householdId household hhousehold
    have hsound := households_invariant.reachable h
    have hledger := hsound.ledger householdId
    rw [hhousehold] at hledger
    exact hledger.2

end Roles

theorem no_role_escalation_example :
    ∃ s : (onceProtocol Sha256.transparent "kek" (fun _ => True)).System,
      Reachable Store.empty s ∧ s.committed.get .households "h1" = some ⟨"h1", "o1", "Home", 4⟩ ∧
      RolesKept s := by
  have hpermitted : (onceProtocol Sha256.transparent "kek" (fun _ => True)).Sequential []
      Store.empty exampleHousehold := ⟨trivial, trivial, trivial, trivial, trivial⟩
  obtain ⟨s, hs, -, hcommitted⟩ := reachable_sequential hpermitted
  refine ⟨s, hs, ?_, no_role_escalation hs⟩
  rw [hcommitted]
  rfl

end LegacyVault
