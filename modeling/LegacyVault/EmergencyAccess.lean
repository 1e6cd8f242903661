import LegacyVault.Facts

/-!
# Emergency access requests

A recipient asks for access to categories of records; the request is denied
or delayed, and a delayed request is released once its delay has passed. The
domain states which transitions there are on its own.
-/

namespace LegacyVault

open JsonText RowTransaction RowTransaction.Program

/-- Input of `createEmergencyAccessRequest`. -/
structure EmergencyAccessWrite where
  id : Identifier
  recipientMembershipId : Identifier
  categories : List RecordCategory
  reasonEncrypted : Sealed
  keyVersion : Nat
  requestedAt : Instant
  deriving DecidableEq

/-- The row `createEmergencyAccessRequest` inserts. -/
def EmergencyAccessWrite.row (input : EmergencyAccessWrite) (context : TenantContext) :
    EmergencyAccessRow where
  id := input.id
  organizationId := context.organizationId
  householdId := context.householdId
  requesterId := context.actorId
  recipientMembershipId := input.recipientMembershipId
  categories := input.categories
  reasonEncrypted := input.reasonEncrypted
  keyVersion := input.keyVersion
  status := .requested
  requestedAt := input.requestedAt
  decisionAt := none
  releaseAfter := none
  version := 1

/-- The receipt of a request. -/
def EmergencyAccessRow.receipt (request : EmergencyAccessRow) : StatusReceipt :=
  ⟨request.id, request.status.text, request.version⟩

/-- The membership can receive the acting person's emergency access. -/
def MembershipRow.receivesFor (membership : MembershipRow) (context : TenantContext) : Bool :=
  context.sees membership && membership.personId == context.actorId && membership.active &&
    membership.role == .emergencyRecipient

/-- `createEmergencyAccessRequest`. -/
def createEmergencyAccessRequest (context : TenantContext) (input : EmergencyAccessWrite) :
    Transaction StatusReceipt := do
  let recipient ← select (fun σ : Vault =>
    (σ.get .memberships input.recipientMembershipId).any
      (fun membership : MembershipRow => membership.receivesFor context))
  if recipient then do
    let request : EmergencyAccessRow ← insertRow (S := vaultSchema) .emergencyAccessRequests
      input.id (input.row context) (.uniqueViolation "emergency_access_requests_pkey")
    pure request.receipt
  else failWith "emergency recipient membership is invalid"

/-- Asking for emergency access writes requests only. -/
theorem createEmergencyAccessRequest_leaves {t : VaultTable} (h : t ≠ .emergencyAccessRequests)
    (context : TenantContext) (input : EmergencyAccessWrite) :
    (createEmergencyAccessRequest context input).Leaves t := by
  refine writes_bind (writes_select _) (fun recipient => ?_)
  cases recipient
  · exact writes_rollback _
  · exact writes_bind (writes_insertRow h) (fun _ => writes_commit _)

/-- `getEmergencyAccessCategories`. -/
def getEmergencyAccessCategories (context : TenantContext) (requestId : Identifier) :
    Transaction (List RecordCategory) := do
  let request : Option EmergencyAccessRow ← select (fun σ : Vault =>
    (σ.get .emergencyAccessRequests requestId).filter
      (fun request : EmergencyAccessRow => context.sees request))
  match request with
  | some request => pure request.categories
  | none => failWith "emergency access request is unavailable"

/-- A decision on a request, with the hours of a delay. -/
inductive EmergencyDecision where
  | deny | delay (hours : Nat)
  deriving DecidableEq

/-- The text of a decision. -/
def EmergencyDecision.text : EmergencyDecision → String
  | deny => "deny"
  | delay _ => "delay"

/-- The hours of a delay, zero for a denial. -/
def EmergencyDecision.delayHours : EmergencyDecision → Nat
  | deny => 0
  | delay hours => hours

/-- The status a decision leads to. -/
def EmergencyDecision.status : EmergencyDecision → EmergencyAccessStatus
  | deny => .denied
  | delay _ => .delayed

/-- When a delayed request can be released. -/
def EmergencyDecision.releaseAfter (decisionAt : Instant) : EmergencyDecision → Option Instant
  | deny => none
  | delay hours => some (decisionAt + hours * 60 * 60 * 1000)

/-- The change `decideEmergencyAccess` makes to the row it finds. -/
def decideEmergencyRow (context : TenantContext) (expectedVersion : Nat)
    (decision : EmergencyDecision) (decisionAt : Instant) (request : EmergencyAccessRow) :
    Option EmergencyAccessRow :=
  if context.sees request ∧ request.version = expectedVersion ∧ request.status = .requested then
    some { request with
      status := decision.status
      decisionAt := some decisionAt
      releaseAfter := decision.releaseAfter decisionAt
      version := request.version + 1 }
  else none

/-- `decideEmergencyAccess`. -/
def decideEmergencyAccess (context : TenantContext) (requestId : Identifier)
    (expectedVersion : Nat) (decision : EmergencyDecision) (decisionAt : Instant) :
    Transaction StatusReceipt := do
  let updated : Option EmergencyAccessRow ← updateRow (S := vaultSchema)
    .emergencyAccessRequests requestId
    (decideEmergencyRow context expectedVersion decision decisionAt)
  match updated with
  | some request => pure request.receipt
  | none => failWith "emergency access decision conflict"

/-- A decision writes requests only. -/
theorem decideEmergencyAccess_leaves {t : VaultTable} (h : t ≠ .emergencyAccessRequests)
    (context : TenantContext) (requestId : Identifier) (expectedVersion : Nat)
    (decision : EmergencyDecision) (decisionAt : Instant) :
    (decideEmergencyAccess context requestId expectedVersion decision decisionAt).Leaves t := by
  refine writes_bind (writes_updateRow (fun _ _ _ => h)) (fun updated => ?_)
  cases updated
  · exact writes_rollback _
  · exact writes_commit _

/-- The change `releaseEmergencyAccess` makes to the row it finds. -/
def releaseEmergencyRow (context : TenantContext) (expectedVersion : Nat) (releasedAt : Instant)
    (request : EmergencyAccessRow) : Option EmergencyAccessRow :=
  if context.sees request ∧ request.version = expectedVersion ∧ request.status = .delayed ∧
      request.releaseAfter.any (fun releaseAfter => decide (releaseAfter ≤ releasedAt)) then
    some { request with status := .released, version := request.version + 1 }
  else none

/-- `releaseEmergencyAccess`. -/
def releaseEmergencyAccess (context : TenantContext) (requestId : Identifier)
    (expectedVersion : Nat) (releasedAt : Instant) : Transaction StatusReceipt := do
  let updated : Option EmergencyAccessRow ← updateRow (S := vaultSchema)
    .emergencyAccessRequests requestId (releaseEmergencyRow context expectedVersion releasedAt)
  match updated with
  | some request => pure request.receipt
  | none => failWith "emergency access release conflict or delay active"

/-- A release writes requests only. -/
theorem releaseEmergencyAccess_leaves {t : VaultTable} (h : t ≠ .emergencyAccessRequests)
    (context : TenantContext) (requestId : Identifier) (expectedVersion : Nat)
    (releasedAt : Instant) :
    (releaseEmergencyAccess context requestId expectedVersion releasedAt).Leaves t := by
  refine writes_bind (writes_updateRow (fun _ _ _ => h)) (fun updated => ?_)
  cases updated
  · exact writes_rollback _
  · exact writes_commit _

/-! ## The domain's transitions -/

/-- Statuses that follow a status (`emergencyTransitions`). -/
def emergencyTransitions : EmergencyAccessStatus → List EmergencyAccessStatus
  | .requested => [.approved, .denied, .delayed, .revoked]
  | .approved => [.delayed, .released, .revoked]
  | .denied => []
  | .delayed => [.approved, .denied, .released, .revoked]
  | .released => [.revoked]
  | .revoked => []

/-- `transitionEmergencyAccess`. -/
def transitionEmergencyAccess (request : EmergencyAccessRow) (next : EmergencyAccessStatus)
    (at_ : Instant) : Except String EmergencyAccessRow :=
  if next ∉ emergencyTransitions request.status then
    .error ("invalid emergency access transition: " ++ request.status.text ++ " to " ++ next.text)
  else if next = .released ∧ request.releaseAfter.any (fun releaseAfter => at_ < releaseAfter) then
    .error "emergency access delay has not elapsed"
  else
    .ok { request with status := next, decisionAt := some at_, version := request.version + 1 }

/-- A listed transition is made, provided a release does not come before its time. -/
theorem transitionEmergencyAccess_ok {request : EmergencyAccessRow} {next : EmergencyAccessStatus}
    {at_ : Instant} (hnext : next ∈ emergencyTransitions request.status)
    (hdelay : next = .released →
      request.releaseAfter.any (fun releaseAfter => at_ < releaseAfter) = false) :
    ∃ after, transitionEmergencyAccess request next at_ = .ok after := by
  refine ⟨_, (if_neg (not_not.mpr hnext)).trans (if_neg ?_)⟩
  rintro ⟨hreleased, hearly⟩
  exact absurd hearly (by simp [hdelay hreleased])

/-- A decision is a transition of the domain. -/
theorem decideEmergencyRow_transition {context : TenantContext} {expectedVersion : Nat}
    {decision : EmergencyDecision} {decisionAt : Instant} {before after : EmergencyAccessRow}
    (h : decideEmergencyRow context expectedVersion decision decisionAt before = some after) :
    ∃ next, transitionEmergencyAccess before after.status decisionAt = .ok next := by
  simp only [decideEmergencyRow, Option.ite_none_right_eq_some, Option.some.injEq] at h
  obtain ⟨⟨-, -, hstatus⟩, rfl⟩ := h
  apply transitionEmergencyAccess_ok
  · rw [hstatus]
    cases decision <;> simp [EmergencyDecision.status, emergencyTransitions]
  · intro hreleased
    cases decision <;> simp [EmergencyDecision.status] at hreleased

/-- A release is a transition of the domain. -/
theorem releaseEmergencyRow_transition {context : TenantContext} {expectedVersion : Nat}
    {releasedAt : Instant} {before after : EmergencyAccessRow}
    (h : releaseEmergencyRow context expectedVersion releasedAt before = some after) :
    ∃ next, transitionEmergencyAccess before after.status releasedAt = .ok next := by
  simp only [releaseEmergencyRow, Option.ite_none_right_eq_some, Option.some.injEq] at h
  obtain ⟨⟨-, -, hstatus, hdelay⟩, rfl⟩ := h
  apply transitionEmergencyAccess_ok
  · rw [hstatus]
    simp [emergencyTransitions]
  · intro _
    cases hafter : before.releaseAfter with
    | none => rfl
    | some releaseAfter =>
      rw [hafter] at hdelay
      simpa using hdelay

end LegacyVault
