import LegacyVault.MembershipIdentities
import LegacyVault.RecordedRoutes

/-!
# Emergency routes

The three emergency-access routes as a protocol: an identity is resolved, a
decision or a release reads the request's categories, the policy is asked for
every category, and then come the reservation, the mutation and the
completion, each in a transaction of its own. Clocks read what they like.
-/

namespace LegacyVault

open JsonText RowTransaction RowTransaction.Program Store

/-- What an emergency route is asked to do. -/
inductive EmergencyAction where
  | ask (input : EmergencyInput)
  | decide (requestId : Identifier) (expectedVersion : Nat) (decision : EmergencyDecision)
  | release (requestId : Identifier) (expectedVersion : Nat)

/-- The action as the recorded route. -/
def EmergencyAction.recorded : EmergencyAction → RecordedInput
  | ask input => .createEmergency input
  | decide requestId expectedVersion decision =>
    .decideEmergency requestId expectedVersion decision
  | release requestId expectedVersion => .releaseEmergency requestId expectedVersion

/-- The request an action is about. -/
def EmergencyAction.requestId? : EmergencyAction → Option Identifier
  | ask _ => none
  | decide requestId _ _ | release requestId _ => some requestId

/-- A request to one of the emergency routes. -/
structure EmergencyCall where
  /-- The identity the route has resolved. -/
  identity : AuthenticatedTenantIdentity
  key : String
  action : EmergencyAction
  /-- Reading of the clock when a category is authorized. -/
  authorizedAt : RecordCategory → Instant
  generated : RecordedGenerated
  /-- Database time of the reservation. -/
  reservedAt : Instant

/-- The call as a request to a recorded route. -/
def EmergencyCall.recorded (call : EmergencyCall) : RecordedCall where
  context := call.identity.context
  membershipId := call.identity.membershipId
  key := call.key
  input := call.action.recorded
  generated := call.generated
  reservedAt := call.reservedAt

/-- One transaction of an emergency route. -/
inductive EmergencyStep where
  | resolve (authUserId : Identifier) (requestedHouseholdId : Option Identifier) (now : Instant)
  | readCategories (call : EmergencyCall)
  | reserve (call : EmergencyCall)
  | mutate (call : EmergencyCall)
  | complete (call : EmergencyCall) (body : Json)

/-- Result of one transaction. -/
inductive EmergencyAnswer where
  | identity (identity : ResolvedMembershipIdentity)
  | categories (categories : List RecordCategory)
  | reservation (reservation : Reservation)
  | outcome (body : Json)
  | completed

/-- The log entry of one transaction. -/
abbrev EmergencyEntry := Entry EmergencyStep RepositoryError EmergencyAnswer

/-- The transaction of a step. -/
def emergencyProgram (sha256 : Sha256) : EmergencyStep → Transaction EmergencyAnswer
  | .resolve authUserId requestedHouseholdId now => do
    let identity ← resolveMembership authUserId requestedHouseholdId now
    pure (.identity identity)
  | .readCategories call => do
    let categories ← getEmergencyAccessCategories call.identity.context
      (call.action.requestId?.getD "")
    pure (.categories categories)
  | .reserve call => do
    let reservation ← reserveIdempotency sha256 call.identity.context call.key
      call.action.recorded.shape call.reservedAt
    pure (.reservation reservation)
  | .mutate call => do
    let body ← call.recorded.mutation
    pure (.outcome body)
  | .complete call body => do
    completeIdempotency call.identity.context call.key call.action.recorded.statusCode body
    pure .completed

section Admission

variable (parse : String → Option Int)

/-- The policy allows the call an action on a category. -/
def EmergencyCall.allows (call : EmergencyCall) (action : PermissionAction) (purpose : String)
    (category : RecordCategory) : Prop :=
  requireIdentityAuthorization parse call.identity category action purpose
    (call.authorizedAt category) = true

/-- The delay of a decision is a whole number of hours, from one to seven days. -/
def EmergencyDecision.Valid : EmergencyDecision → Prop
  | deny => True
  | delay hours => 1 ≤ hours ∧ hours ≤ 168

/-- What a route has checked before its reservation. -/
def EmergencyCall.Admitted (call : EmergencyCall) (log : List EmergencyEntry) : Prop :=
  match call.action with
  | .ask input =>
    input.recipientMembershipId = call.identity.membershipId ∧ input.categories ≠ [] ∧
      ∀ category ∈ input.categories, call.allows parse .create "vault.emergency-access.request"
        category
  | .decide _ _ decision => decision.Valid ∧ ∃ categories,
      ⟨.readCategories call, .committed (.categories categories)⟩ ∈ log ∧
      ∀ category ∈ categories, call.allows parse .approve "vault.emergency-access.decide" category
  | .release _ _ => ∃ categories,
      ⟨.readCategories call, .committed (.categories categories)⟩ ∈ log ∧
      ∀ category ∈ categories, call.allows parse .approve "vault.emergency-access.release" category

/-- The identity of a call has been resolved. -/
def EmergencyCall.Resolved (call : EmergencyCall) (log : List EmergencyEntry) : Prop :=
  ∃ authUserId requestedHouseholdId now,
    ⟨.resolve authUserId requestedHouseholdId now,
      .committed (.identity call.identity.toResolvedMembershipIdentity)⟩ ∈ log

/-- An identity is resolved at any time. A route goes on from there: it reads the categories of
its request, reserves once it has checked everything, mutates and completes. -/
def emergencyPermitted (log : List EmergencyEntry) : EmergencyStep → Prop
  | .resolve _ _ _ => True
  | .readCategories call => call.Resolved log ∧ call.action.requestId? ≠ none
  | .reserve call => call.Resolved log ∧ call.Admitted parse log
  | .mutate call => ⟨.reserve call, .committed (.reservation .reserved)⟩ ∈ log
  | .complete call body => ⟨.mutate call, .committed (.outcome body)⟩ ∈ log

/-- The emergency routes as a protocol. -/
abbrev emergencyProtocol (sha256 : Sha256) : Protocol vaultSchema where
  Request := EmergencyStep
  Error := RepositoryError
  Result := EmergencyAnswer
  program := emergencyProgram sha256
  permitted := emergencyPermitted parse

variable {parse}

/-- What a route has checked stays checked. -/
theorem EmergencyCall.Admitted.mono {call : EmergencyCall} {log log' : List EmergencyEntry}
    (h : call.Admitted parse log) (hlog : ∀ entry ∈ log, entry ∈ log') :
    call.Admitted parse log' := by
  unfold EmergencyCall.Admitted at h ⊢
  split at h
  · exact h
  · obtain ⟨hvalid, categories, hmem, hallows⟩ := h
    exact ⟨hvalid, categories, hlog _ hmem, hallows⟩
  · obtain ⟨categories, hmem, hallows⟩ := h
    exact ⟨categories, hlog _ hmem, hallows⟩

/-- A resolved identity stays resolved. -/
theorem EmergencyCall.Resolved.mono {call : EmergencyCall} {log log' : List EmergencyEntry}
    (h : call.Resolved log) (hlog : ∀ entry ∈ log, entry ∈ log') : call.Resolved log' := by
  obtain ⟨authUserId, requestedHouseholdId, now, hmem⟩ := h
  exact ⟨authUserId, requestedHouseholdId, now, hlog _ hmem⟩

end Admission

/-- Transactions other than a mutation write records only. -/
theorem emergencyProgram_leaves {t : VaultTable} (h : t ≠ .idempotencyRecords) (sha256 : Sha256)
    {step : EmergencyStep} (hstep : ∀ call, step ≠ .mutate call) :
    (emergencyProgram sha256 step).Leaves t := by
  cases step with
  | resolve authUserId requestedHouseholdId now =>
    exact writes_bind ((resolveMembership_readOnly authUserId requestedHouseholdId now).leaves t)
      (fun _ => writes_commit _)
  | readCategories call =>
    refine writes_bind (writes_bind (writes_select _) (fun request => ?_))
      (fun _ => writes_commit _)
    cases request
    · exact writes_rollback _
    · exact writes_commit _
  | reserve call =>
    exact writes_bind (reserveIdempotency_leaves h _ _ _ _ _) (fun _ => writes_commit _)
  | mutate call => exact absurd rfl (hstep call)
  | complete call body =>
    exact writes_bind (completeIdempotency_leaves h _ _ _ _) (fun _ => writes_commit _)

section Changes

variable (σ σ' : Vault)

/-- What a mutation does to memberships and requests. The stores a recipient's membership is
looked up in satisfy `seen`. -/
inductive EmergencyChange (seen : Vault → Prop) (call : EmergencyCall) : Prop
  /-- A recipient asks. -/
  | asked (input : EmergencyInput) (haction : call.action = .ask input) (σ₀ : Vault)
      (hseen : seen σ₀) (membership : MembershipRow)
      (hmembership : σ₀.get .memberships input.recipientMembershipId = some membership)
      (hreceives : membership.receivesFor call.identity.context = true)
      (hnew : σ.get .emergencyAccessRequests call.generated.id = none)
      (hmemberships : SameRows (S := vaultSchema) .memberships σ σ')
      (hrequests : Replaces (S := vaultSchema) .emergencyAccessRequests call.generated.id
        (some ((input.write call.identity.context call.generated).row call.identity.context)) σ σ')
  /-- A request is decided. -/
  | decided (requestId : Identifier) (expectedVersion : Nat) (decision : EmergencyDecision)
      (haction : call.action = .decide requestId expectedVersion decision)
      (before after : EmergencyAccessRow)
      (hbefore : σ.get .emergencyAccessRequests requestId = some before)
      (hchange : decideEmergencyRow call.identity.context expectedVersion decision
        call.generated.now before = some after)
      (hmemberships : SameRows (S := vaultSchema) .memberships σ σ')
      (hrequests : Replaces (S := vaultSchema) .emergencyAccessRequests requestId (some after) σ σ')
  /-- A delayed request is released. -/
  | released (requestId : Identifier) (expectedVersion : Nat)
      (haction : call.action = .release requestId expectedVersion)
      (before after : EmergencyAccessRow)
      (hbefore : σ.get .emergencyAccessRequests requestId = some before)
      (hchange : releaseEmergencyRow call.identity.context expectedVersion call.generated.now
        before = some after)
      (hmemberships : SameRows (S := vaultSchema) .memberships σ σ')
      (hrequests : Replaces (S := vaultSchema) .emergencyAccessRequests requestId (some after) σ σ')

variable {σ σ'} {seen : Vault → Prop} {ws : List (Write vaultSchema)}

/-- A committed mutation makes its change. -/
theorem EmergencyCall.executes_mutation {call : EmergencyCall} {body : Json}
    (h : call.recorded.mutation.Executes seen σ [] (.ok body) ws) :
    EmergencyChange σ (σ.overlay ws) seen call := by
  have hsame : SameRows (S := vaultSchema) .emergencyAccessRequests σ (σ.overlay []) :=
    SameRows.refl (S := vaultSchema) _ σ
  have hmemberships : SameRows (S := vaultSchema) .memberships σ (σ.overlay []) :=
    SameRows.refl (S := vaultSchema) _ σ
  have hne : VaultTable.memberships ≠ VaultTable.emergencyAccessRequests := by decide
  cases haction : call.action with
  | ask input =>
    simp only [RecordedCall.mutation, EmergencyCall.recorded, haction,
      EmergencyAction.recorded] at h
    obtain ⟨receipt, ws₁, hcreate, -, hws⟩ := executes_bind_ok.mp h
    obtain ⟨recipient, ws₂, hselect, hcreate⟩ := executes_bind_ok.mp hcreate
    obtain ⟨σ₀, hseen, hfound, hws₂⟩ := executes_select.mp hselect
    cases recipient with
    | false => exact absurd hcreate.1 (by simp)
    | true =>
      obtain ⟨membership, hmembership, hreceives⟩ :=
        (Option.any_eq_true _ _).mp (Except.ok.inj hfound).symm
      obtain ⟨request, ws₃, hinsert, -, hws₁⟩ := executes_bind_ok.mp hcreate
      obtain ⟨hnew, -, hws₃⟩ := executes_insertRow_ok hinsert
      rw [hws₂] at hnew hws₃
      rw [hws, hws₁, hws₃]
      exact .asked input haction σ₀ hseen membership hmembership hreceives hnew
        (hmemberships.writeOther hne) hsame.write
  | decide requestId expectedVersion decision =>
    simp only [RecordedCall.mutation, EmergencyCall.recorded, haction,
      EmergencyAction.recorded] at h
    obtain ⟨receipt, ws₁, hdecide, -, hws⟩ := executes_bind_ok.mp h
    obtain ⟨updated, ws₂, hupdate, hdecide⟩ := executes_bind_ok.mp hdecide
    cases updated with
    | none => exact absurd hdecide.1 (by simp)
    | some after =>
      obtain ⟨-, hws₁⟩ := hdecide
      obtain ⟨before, hbefore, hchange, hws₂⟩ := executes_updateRow_some hupdate
      rw [hws, hws₁, hws₂]
      exact .decided requestId expectedVersion decision haction before after hbefore hchange
        (hmemberships.writeOther hne) hsame.write
  | release requestId expectedVersion =>
    simp only [RecordedCall.mutation, EmergencyCall.recorded, haction,
      EmergencyAction.recorded] at h
    obtain ⟨receipt, ws₁, hrelease, -, hws⟩ := executes_bind_ok.mp h
    obtain ⟨updated, ws₂, hupdate, hrelease⟩ := executes_bind_ok.mp hrelease
    cases updated with
    | none => exact absurd hrelease.1 (by simp)
    | some after =>
      obtain ⟨-, hws₁⟩ := hrelease
      obtain ⟨before, hbefore, hchange, hws₂⟩ := executes_updateRow_some hupdate
      rw [hws, hws₁, hws₂]
      exact .released requestId expectedVersion haction before after hbefore hchange
        (hmemberships.writeOther hne) hsame.write

end Changes

end LegacyVault
