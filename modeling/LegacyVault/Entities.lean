import LegacyVault.Library.JsonText
import LegacyVault.Library.SymbolicSeal

/-!
# Domain entities

The enumerations and identities shared by the repository, the routes and the
workers, with the texts they are stored and hashed under. Instants are
milliseconds since the epoch. Ciphertexts are symbolic: an envelope opens
under exactly the key and context it was sealed with.

Display names, contact details and other columns that no modelled function
reads are left out of the entities.
-/

namespace LegacyVault

open JsonText SymbolicSeal

/-- Record and account identifiers (`Identifier`). -/
abbrev Identifier := String

/-- Milliseconds since the epoch (`IsoDateTime` and `Date.getTime`). -/
abbrev Instant := Int

/-- Key material, named. -/
abbrev SymmetricKey := String

/-- The context an envelope is bound to (`EncryptionContext`). -/
structure EncryptionContext where
  /-- Organization, or `portable-export`. -/
  organizationId : Identifier
  /-- Household, or `portable-export`. -/
  householdId : Identifier
  /-- The record the plaintext belongs to. -/
  recordId : Identifier
  /-- What the plaintext is. -/
  purpose : String
  /-- Version of the sealing key. -/
  keyVersion : Nat
  deriving DecidableEq

/-- Plaintexts, keys and encrypted envelopes. -/
abbrev Sealed := Term SymmetricKey EncryptionContext String

/-- `encryptEnvelope`, with the random IV as a nonce. -/
def encryptEnvelope (plaintext : Sealed) (key : SymmetricKey) (context : EncryptionContext)
    (iv : Nat) : Sealed :=
  .sealed key context iv plaintext

/-- `decryptEnvelope`: `none` stands for the authentication error. -/
def decryptEnvelope (envelope : Sealed) (key : SymmetricKey) (context : EncryptionContext) :
    Option Sealed :=
  envelope.opened key context

/-- An envelope opens again under its own key and context. -/
@[simp] theorem decryptEnvelope_encryptEnvelope (plaintext : Sealed) (key : SymmetricKey)
    (context : EncryptionContext) (iv : Nat) :
    decryptEnvelope (encryptEnvelope plaintext key context iv) key context = some plaintext := by
  simp [decryptEnvelope, encryptEnvelope, Term.opened]

/-- The identity a tenant transaction runs under (`TenantContext`). -/
structure TenantContext where
  /-- Organization of the household. -/
  organizationId : Identifier
  /-- The household. -/
  householdId : Identifier
  /-- The acting person. -/
  actorId : Identifier
  deriving DecidableEq

/-- The identity an account transaction runs under (`AccountContext`). -/
structure AccountContext where
  /-- The authenticated account. -/
  authUserId : Identifier
  deriving DecidableEq

/-- Membership roles. -/
inductive Role where
  | owner | coOwner | editor | familyHelper | professionalAdvisor | readOnlyViewer
  | emergencyRecipient | supportAgent | platformAdmin
  deriving DecidableEq

/-- The stored text of a role. -/
def Role.text : Role → String
  | owner => "Owner"
  | coOwner => "CoOwner"
  | editor => "Editor"
  | familyHelper => "FamilyHelper"
  | professionalAdvisor => "ProfessionalAdvisor"
  | readOnlyViewer => "ReadOnlyViewer"
  | emergencyRecipient => "EmergencyRecipient"
  | supportAgent => "SupportAgent"
  | platformAdmin => "PlatformAdmin"

theorem Role.text_injective : Function.Injective Role.text := by
  intro a b h
  cases a <;> cases b <;> first | rfl | exact absurd h (by decide)

/-- Actions on records. -/
inductive PermissionAction where
  | read | create | update | delete | «export» | approve
  deriving DecidableEq

/-- Canonical record categories. -/
inductive RecordCategory where
  | contacts | advisers | dependents | pets | assets | liabilities | insurance | property
  | estateDocuments | medicalSummary | digitalAssetLocations | householdInstructions
  | funeralPreferences
  deriving DecidableEq

/-- The stored text of a record category. -/
def RecordCategory.text : RecordCategory → String
  | contacts => "contacts"
  | advisers => "advisers"
  | dependents => "dependents"
  | pets => "pets"
  | assets => "assets"
  | liabilities => "liabilities"
  | insurance => "insurance"
  | property => "property"
  | estateDocuments => "estate-documents"
  | medicalSummary => "medical-summary"
  | digitalAssetLocations => "digital-asset-locations"
  | householdInstructions => "household-instructions"
  | funeralPreferences => "funeral-preferences"

theorem RecordCategory.text_injective : Function.Injective RecordCategory.text := by
  intro a b h
  cases a <;> cases b <;> first | rfl | exact absurd h (by decide)

/-- All record categories in the order the source lists them. -/
def allRecordCategories : List RecordCategory :=
  [.contacts, .advisers, .dependents, .pets, .assets, .liabilities, .insurance, .property,
    .estateDocuments, .medicalSummary, .digitalAssetLocations, .householdInstructions,
    .funeralPreferences]

/-- `fieldKey.split(".", 1)[0]`: the text before the first dot. -/
def fieldKeyPrefix (fieldKey : String) : String :=
  String.ofList (fieldKey.toList.takeWhile (· != '.'))

/-- The canonical category of a field key, when its prefix names one. -/
def recordCategoryFromFieldKey (fieldKey : String) : Option RecordCategory :=
  allRecordCategories.find? (fun category => category.text == fieldKeyPrefix fieldKey)

/-- Status of a fact. -/
inductive FactStatus where
  | candidate | confirmed | rejected | disputed
  deriving DecidableEq

/-- The stored text of a fact status. -/
def FactStatus.text : FactStatus → String
  | candidate => "candidate"
  | confirmed => "confirmed"
  | rejected => "rejected"
  | disputed => "disputed"

/-- Where a fact comes from. -/
inductive SourceType where
  | manual | document | interview | professional
  deriving DecidableEq

/-- The stored text of a source type. -/
def SourceType.text : SourceType → String
  | manual => "manual"
  | document => "document"
  | interview => "interview"
  | professional => "professional"

/-- Sensitivity of a fact. -/
inductive Sensitivity where
  | standard | sensitive | highlySensitive
  deriving DecidableEq

/-- The stored text of a sensitivity. -/
def Sensitivity.text : Sensitivity → String
  | standard => "standard"
  | sensitive => "sensitive"
  | highlySensitive => "highly-sensitive"

/-- Purposes a person can consent to. -/
inductive ConsentPurpose where
  | externalAi | sensitiveData | documentProcessing | transactionalEmail | terms | privacyPolicy
  deriving DecidableEq

/-- The stored text of a consent purpose. -/
def ConsentPurpose.text : ConsentPurpose → String
  | externalAi => "external-ai"
  | sensitiveData => "sensitive-data"
  | documentProcessing => "document-processing"
  | transactionalEmail => "transactional-email"
  | terms => "terms"
  | privacyPolicy => "privacy-policy"

/-- Kinds of reports. -/
inductive ReportKind where
  | lifeInventory | familyEmergencyGuide | executorPreparationPacket
  | beneficiaryReviewChecklist | documentGapReport | householdContinuityGuide | annualReview
  deriving DecidableEq

/-- The stored text of a report kind. -/
def ReportKind.text : ReportKind → String
  | lifeInventory => "life-inventory"
  | familyEmergencyGuide => "family-emergency-guide"
  | executorPreparationPacket => "executor-preparation-packet"
  | beneficiaryReviewChecklist => "beneficiary-review-checklist"
  | documentGapReport => "document-gap-report"
  | householdContinuityGuide => "household-continuity-guide"
  | annualReview => "annual-review"

/-- Kinds of privacy requests. -/
inductive PrivacyRequestKind where
  | access | correction | «export» | deletion | appeal
  deriving DecidableEq

/-- The stored text of a privacy request kind. -/
def PrivacyRequestKind.text : PrivacyRequestKind → String
  | access => "access"
  | correction => "correction"
  | «export» => "export"
  | deletion => "deletion"
  | appeal => "appeal"

theorem PrivacyRequestKind.text_injective : Function.Injective PrivacyRequestKind.text := by
  intro a b h
  cases a <;> cases b <;> first | rfl | exact absurd h (by decide)

/-- Status of a privacy request or of a deletion execution. -/
inductive PrivacyStatus where
  | identityVerification | recoveryPeriod | activeSystem | awaitingReview | awaitingProcessors
  | awaitingBackupExpiry | completed | cancelled | blockedLegalHold | failed
  deriving DecidableEq

/-- The stored text of a privacy status. -/
def PrivacyStatus.text : PrivacyStatus → String
  | identityVerification => "identity-verification"
  | recoveryPeriod => "recovery-period"
  | activeSystem => "active-system"
  | awaitingReview => "awaiting-review"
  | awaitingProcessors => "awaiting-processors"
  | awaitingBackupExpiry => "awaiting-backup-expiry"
  | completed => "completed"
  | cancelled => "cancelled"
  | blockedLegalHold => "blocked-legal-hold"
  | failed => "failed"

/-- Status of an emergency-access request. -/
inductive EmergencyAccessStatus where
  | requested | approved | denied | delayed | released | revoked
  deriving DecidableEq

/-- The stored text of an emergency-access status. -/
def EmergencyAccessStatus.text : EmergencyAccessStatus → String
  | requested => "requested"
  | approved => "approved"
  | denied => "denied"
  | delayed => "delayed"
  | released => "released"
  | revoked => "revoked"

/-- Status of a document. -/
inductive DocumentStatus where
  | pending | quarantined | clean | rejected | deleted
  deriving DecidableEq

/-- The stored text of a document status. -/
def DocumentStatus.text : DocumentStatus → String
  | pending => "pending"
  | quarantined => "quarantined"
  | clean => "clean"
  | rejected => "rejected"
  | deleted => "deleted"

/-- Status of a workflow run. -/
inductive WorkflowStatus where
  | pending | running | blocked | completed | failed
  deriving DecidableEq

/-- The stored text of a workflow status. -/
def WorkflowStatus.text : WorkflowStatus → String
  | pending => "pending"
  | running => "running"
  | blocked => "blocked"
  | completed => "completed"
  | failed => "failed"

/-- Status of a subscription. -/
inductive SubscriptionStatus where
  | inactive | incomplete | incompleteExpired | trialing | active | pastDue | canceled | unpaid
  | paused
  deriving DecidableEq

/-- Status of a refund. -/
inductive RefundStatus where
  | pending | requiresAction | succeeded | failed | canceled
  deriving DecidableEq

end LegacyVault
