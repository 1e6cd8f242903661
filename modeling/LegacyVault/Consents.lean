import LegacyVault.Facts
import LegacyVault.Library.IsoTime
import Mathlib.Data.List.MinMax
import Mathlib.Data.Prod.Lex
import Mathlib.Data.String.Basic

/-!
# Consents

Grants are rows of their own: recording a consent always inserts one, and
withdrawing marks one row at its expected version. The active consent of a
person for a purpose is the latest grant that is not withdrawn.

The order of two identifiers is the one of their text.
-/

namespace LegacyVault

open JsonText RowTransaction RowTransaction.Program IsoTime

/-- Input of `recordConsent`, with the identifier it generates. -/
structure ConsentWrite where
  id : Identifier
  personId : Identifier
  purpose : ConsentPurpose
  policyVersion : String
  grantedAt : Instant
  deriving DecidableEq

/-- The row `recordConsent` inserts. -/
def ConsentWrite.row (input : ConsentWrite) (context : TenantContext) : ConsentRow where
  id := input.id
  organizationId := context.organizationId
  householdId := context.householdId
  personId := input.personId
  purpose := input.purpose
  policyVersion := input.policyVersion
  grantedAt := input.grantedAt
  withdrawnAt := none
  version := 1

/-- `recordConsent`. -/
def recordConsent (context : TenantContext) (input : ConsentWrite) : Transaction ConsentRow :=
  insertRow (S := vaultSchema) .consents input.id (input.row context)
    (.uniqueViolation "consents_pkey")

/-- Recording a consent writes consents only. -/
theorem recordConsent_leaves {t : VaultTable} (h : t ≠ .consents) (context : TenantContext)
    (input : ConsentWrite) : (recordConsent context input).Leaves t :=
  writes_insertRow h

/-- The change `withdrawConsent` makes to the row it finds. -/
def withdrawConsentRow (context : TenantContext) (expectedVersion : Nat) (withdrawnAt : Instant)
    (consent : ConsentRow) : Option ConsentRow :=
  if context.sees consent ∧ consent.version = expectedVersion ∧ consent.withdrawnAt = none then
    some { consent with withdrawnAt := some withdrawnAt, version := consent.version + 1 }
  else none

/-- `withdrawConsent`. -/
def withdrawConsent (context : TenantContext) (consentId : Identifier) (expectedVersion : Nat)
    (withdrawnAt : Instant) : Transaction ConsentRow := do
  let updated : Option ConsentRow ← updateRow (S := vaultSchema) .consents consentId
    (withdrawConsentRow context expectedVersion withdrawnAt)
  match updated with
  | some consent => pure consent
  | none => failWith "consent withdrawal conflict or unavailable"

/-- Withdrawing a consent writes consents only. -/
theorem withdrawConsent_leaves {t : VaultTable} (h : t ≠ .consents) (context : TenantContext)
    (consentId : Identifier) (expectedVersion : Nat) (withdrawnAt : Instant) :
    (withdrawConsent context consentId expectedVersion withdrawnAt).Leaves t := by
  refine writes_bind (writes_updateRow (fun _ _ _ => h)) (fun updated => ?_)
  cases updated
  · exact writes_rollback _
  · exact writes_commit _

/-- The consent is a grant of the person for the purpose that is not withdrawn. -/
def ConsentRow.grants (consent : ConsentRow) (context : TenantContext) (personId : Identifier)
    (purpose : ConsentPurpose) : Bool :=
  context.sees consent && consent.personId == personId && consent.purpose == purpose &&
    consent.withdrawnAt.isNone

/-- Instants in their order, by an instance that evaluates. -/
instance : PartialOrder Instant := Int.instLinearOrder.toPartialOrder

/-- The latest of the person's grants for the purpose. -/
def activeConsent (context : TenantContext) (personId : Identifier) (purpose : ConsentPurpose)
    (σ : Vault) : Option ConsentRow :=
  ((σ.rowsOf .consents).filter (fun consent : ConsentRow =>
    consent.grants context personId purpose)).argmax
      (fun consent : ConsentRow => toLex (consent.grantedAt, consent.id))

/-- Result of `getActiveConsent`. -/
structure ActiveConsent where
  id : Identifier
  policyVersion : String
  version : Nat
  deriving DecidableEq

/-- What `getActiveConsent` returns of a row. -/
def ConsentRow.active (consent : ConsentRow) : ActiveConsent :=
  ⟨consent.id, consent.policyVersion, consent.version⟩

/-- `getActiveConsent`. -/
def getActiveConsent (context : TenantContext) (personId : Identifier)
    (purpose : ConsentPurpose) : Transaction (Option ActiveConsent) :=
  select (fun σ : Vault => (activeConsent context personId purpose σ).map ConsentRow.active)

section ActiveConsent

variable {context : TenantContext} {personId : Identifier} {purpose : ConsentPurpose} {σ : Vault}

/-- The active consent is one of the grants. -/
theorem activeConsent_grants {consent : ConsentRow}
    (h : activeConsent context personId purpose σ = some consent) :
    (∃ id, σ.get .consents id = some consent) ∧
      consent.grants context personId purpose = true := by
  obtain ⟨hmem, hgrants⟩ := List.mem_filter.mp (List.argmax_mem h)
  exact ⟨Store.mem_rowsOf.mp hmem, hgrants⟩

/-- There is no active consent exactly when there is no grant. -/
theorem activeConsent_eq_none :
    activeConsent context personId purpose σ = none ↔
      ∀ id consent, σ.get .consents id = some consent →
        consent.grants context personId purpose = false := by
  rw [activeConsent, List.argmax_eq_none, List.filter_eq_nil_iff]
  constructor
  · intro h id consent hget
    simpa using h consent (Store.mem_rowsOf.mpr ⟨id, hget⟩)
  · intro h consent hmem
    obtain ⟨id, hget⟩ := Store.mem_rowsOf.mp hmem
    simpa using h id consent hget

end ActiveConsent

/-- The receipt of a recorded consent. -/
def ConsentRow.recordedJson (consent : ConsentRow) : Json :=
  .obj [("id", .str consent.id), ("version", .nat consent.version)]

/-- The receipt of a withdrawn consent. -/
def ConsentRow.withdrawnJson (consent : ConsentRow) : Json :=
  .obj [("id", .str consent.id),
    ("withdrawnAt", .str ((consent.withdrawnAt.map toISOString).getD "")),
    ("version", .nat consent.version)]

end LegacyVault
