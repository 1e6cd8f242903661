import LegacyVault.Facts

/-!
# The domain's facts

Facts with their values, and the domain's own rules for confirming and
rejecting them. The repository states the same rules as SQL guards; the two
are compared in the fact lifecycle.
-/

namespace LegacyVault

open JsonText

/-- A fact with its value (`CandidateFact`). -/
structure CandidateFact where
  id : Identifier
  organizationId : Identifier
  householdId : Identifier
  fieldKey : String
  typedValue : Json
  status : FactStatus
  sourceType : SourceType
  sourceId : Identifier
  evidenceIds : List Identifier
  confidence : Option NumberLiteral
  sensitivity : Sensitivity
  confirmedBy : Option Identifier
  confirmedAt : Option Instant
  version : Nat

namespace Domain

/-- The domain's `confirmFact`. A time of `none` is the empty text; an error is the message of
the `DomainInvariantError`. -/
def confirmFact (fact : CandidateFact) (actorId : Identifier) (confirmedAt : Option Instant) :
    Except String CandidateFact :=
  if fact.status ≠ .candidate ∧ fact.status ≠ .disputed then
    .error "only candidate or disputed facts can be confirmed"
  else if fact.evidenceIds.length = 0 ∧ fact.sourceType ≠ .manual then
    .error "non-manual facts require evidence before confirmation"
  else if actorId = "" ∨ confirmedAt = none then
    .error "confirmation actor and time are required"
  else
    .ok { fact with
      status := .confirmed
      confirmedBy := some actorId
      confirmedAt := confirmedAt
      version := fact.version + 1 }

/-- The domain's `rejectFact`. -/
def rejectFact (fact : CandidateFact) : Except String CandidateFact :=
  if fact.status = .confirmed then .error "confirmed facts require a dispute workflow"
  else .ok { fact with status := .rejected, version := fact.version + 1 }

end Domain

/-- The domain's fact of a row, with its opened value. -/
def FactRow.candidateFact (fact : FactRow) (typedValue : Json) : CandidateFact where
  id := fact.id
  organizationId := fact.organizationId
  householdId := fact.householdId
  fieldKey := fact.fieldKey
  typedValue := typedValue
  status := fact.status
  sourceType := fact.sourceType
  sourceId := fact.sourceId
  evidenceIds := fact.evidenceIds
  confidence := fact.confidence
  sensitivity := fact.sensitivity
  confirmedBy := fact.confirmedBy
  confirmedAt := fact.confirmedAt
  version := fact.version

/-- A row the repository confirms, the domain confirms to the same fact. -/
theorem Domain.confirmFact_of_row {context : TenantContext} {expectedVersion : Nat}
    {confirmedAt : Instant} {before after : FactRow} (hactor : context.actorId ≠ "")
    (h : confirmFactRow context expectedVersion confirmedAt before = some after) (value : Json) :
    Domain.confirmFact (before.candidateFact value) context.actorId (some confirmedAt) =
      .ok (after.candidateFact value) := by
  rw [confirmFactRow] at h
  split at h
  case isFalse => exact absurd h (by simp)
  case isTrue hguard =>
    obtain ⟨-, -, hstatus, hevidence⟩ := hguard
    obtain rfl := Option.some.inj h
    have hopen : ¬ ((before.candidateFact value).status ≠ .candidate ∧
        (before.candidateFact value).status ≠ .disputed) :=
      fun hclosed => hstatus.elim hclosed.1 hclosed.2
    have hbacked : ¬ ((before.candidateFact value).evidenceIds.length = 0 ∧
        (before.candidateFact value).sourceType ≠ .manual) :=
      fun hbare => hevidence.elim hbare.2 (fun hpositive => hpositive.ne' hbare.1)
    have hgiven : ¬ (context.actorId = "" ∨ some confirmedAt = none) :=
      fun hmissing => hmissing.elim hactor (by simp)
    unfold Domain.confirmFact
    rw [if_neg hopen, if_neg hbacked, if_neg hgiven]
    rfl

/-- A row the repository rejects, the domain rejects to the same fact. -/
theorem Domain.rejectFact_of_row {context : TenantContext} {expectedVersion : Nat}
    {before after : FactRow} (h : rejectFactRow context expectedVersion before = some after)
    (value : Json) :
    Domain.rejectFact (before.candidateFact value) = .ok (after.candidateFact value) := by
  rw [rejectFactRow] at h
  split at h
  case isFalse => exact absurd h (by simp)
  case isTrue hguard =>
    obtain ⟨-, -, hstatus⟩ := hguard
    obtain rfl := Option.some.inj h
    have hopen : ¬ (before.candidateFact value).status = .confirmed := by
      intro hconfirmed
      exact absurd (hstatus.symm.trans hconfirmed) (by simp)
    rw [Domain.rejectFact, if_neg hopen]
    rfl

end LegacyVault
