import LegacyVault.DomainFacts
import LegacyVault.ReportRequests
import LegacyVault.PortableArchives

/-!
# Reports

A report makes one claim of every fact that is not rejected, and names the
version of each. Its provenance is checked when it is generated, and again
when the stored payload is opened.

Missing categories, notices and review findings are computed by the handler
from the same facts; they are carried along.
-/

namespace LegacyVault

open JsonText RowTransaction IsoTime

/-- Status of a report claim. -/
inductive ClaimStatus where
  | confirmed | missing | disputed
  deriving DecidableEq

/-- The stored text of a claim's status. -/
def ClaimStatus.text : ClaimStatus → String
  | confirmed => "confirmed"
  | missing => "missing"
  | disputed => "disputed"

/-- `ReportClaim`. -/
structure ReportClaim where
  factId : Identifier
  evidenceIds : List Identifier
  fieldKey : String
  renderedValue : String
  status : ClaimStatus
  deriving DecidableEq

/-- A confirmed value in a claim. -/
def renderedValue : Json → String
  | .str text => text
  | value => stringify value

/-- Status of the claim of a fact. -/
def FactStatus.claimStatus : FactStatus → ClaimStatus
  | confirmed => .confirmed
  | disputed => .disputed
  | candidate | rejected => .missing

theorem FactStatus.claimStatus_eq_confirmed {status : FactStatus} :
    status.claimStatus = .confirmed ↔ status = .confirmed := by
  cases status <;> simp [claimStatus]

/-- `createReportClaims`. -/
def createReportClaims (facts : List CandidateFact) : List ReportClaim :=
  facts.map (fun fact =>
    { factId := fact.id
      evidenceIds := fact.evidenceIds
      fieldKey := fact.fieldKey
      renderedValue := if fact.status = .confirmed then renderedValue fact.typedValue else ""
      status := fact.status.claimStatus })

/-- `assertReportProvenance`, on the claims of a report and the facts whose versions it names. -/
def assertReportProvenance : List ReportClaim → List Identifier → Except String Unit
  | [], _ => .ok ()
  | claim :: claims, sourceFacts =>
    if claim.status = .confirmed ∧ claim.evidenceIds.length = 0 then
      .error "confirmed report claim requires evidence"
    else if claim.factId ∉ sourceFacts then
      .error "report claim requires a source fact version"
    else assertReportProvenance claims sourceFacts

/-- Confirmed facts of one field with different values. -/
structure Contradiction where
  fieldKey : String
  factIds : List Identifier

/-- `AnnualReviewFindings`. -/
structure AnnualReviewFindings where
  staleFactIds : List Identifier
  expiringDocumentIds : List Identifier
  contradictions : List Contradiction

/-- The input of `generateReport`. -/
structure ReportInput where
  id : Identifier
  organizationId : Identifier
  householdId : Identifier
  kind : ReportKind
  generatedAt : Instant
  facts : List CandidateFact
  missingCategories : Option (List RecordCategory)
  notices : Option (List String)
  reviewFindings : Option AnnualReviewFindings

/-- `Report`. -/
structure Report where
  id : Identifier
  organizationId : Identifier
  householdId : Identifier
  kind : ReportKind
  generatedAt : Instant
  claims : List ReportClaim
  sourceFactVersions : List (Identifier × Nat)
  missingCategories : Option (List RecordCategory)
  notices : Option (List String)
  reviewFindings : Option AnnualReviewFindings
  version : Nat

/-- `generateReport`. -/
def generateReport (input : ReportInput) : Except String Report := do
  let report : Report :=
    { id := input.id
      organizationId := input.organizationId
      householdId := input.householdId
      kind := input.kind
      generatedAt := input.generatedAt
      claims := createReportClaims input.facts
      sourceFactVersions := input.facts.map (fun fact => (fact.id, fact.version))
      missingCategories := input.missingCategories
      notices := input.notices
      reviewFindings := input.reviewFindings
      version := 1 }
  assertReportProvenance report.claims (report.sourceFactVersions.map Prod.fst)
  pure report

/-! ## The stored payload -/

/-- A claim as a JSON value. -/
def ReportClaim.toJson (claim : ReportClaim) : Json :=
  .obj [("factId", .str claim.factId), ("evidenceIds", .arr (claim.evidenceIds.map Json.str)),
    ("fieldKey", .str claim.fieldKey), ("renderedValue", .str claim.renderedValue),
    ("status", .str claim.status.text)]

/-- Review findings as a JSON value. -/
def AnnualReviewFindings.toJson (findings : AnnualReviewFindings) : Json :=
  .obj [("staleFactIds", .arr (findings.staleFactIds.map Json.str)),
    ("expiringDocumentIds", .arr (findings.expiringDocumentIds.map Json.str)),
    ("contradictions", .arr (findings.contradictions.map (fun contradiction =>
      .obj [("fieldKey", .str contradiction.fieldKey),
        ("factIds", .arr (contradiction.factIds.map Json.str))])))]

/-- A report as a JSON value. Missing members are left out. -/
def Report.toJson (report : Report) : Json :=
  .obj ([("id", .str report.id), ("organizationId", .str report.organizationId),
    ("householdId", .str report.householdId), ("kind", .str report.kind.text),
    ("generatedAt", .str (toISOString report.generatedAt)),
    ("claims", .arr (report.claims.map ReportClaim.toJson)),
    ("sourceFactVersions", .obj (report.sourceFactVersions.map (fun source =>
      (source.1, Json.nat source.2)))),
    ("version", .nat report.version)] ++
    (report.missingCategories.map (fun categories =>
      ("missingCategories", Json.arr (categories.map (fun category =>
        Json.str category.text))))).toList ++
    (report.notices.map (fun notices => ("notices", Json.arr (notices.map Json.str)))).toList ++
    (report.reviewFindings.map (fun findings => ("reviewFindings", findings.toJson))).toList)

/-- The context a report's payload is sealed in. -/
def reportPayloadContext (context : TenantContext) (reportId : Identifier) (kind : ReportKind)
    (keyVersion : Nat) : EncryptionContext :=
  ⟨context.organizationId, context.householdId, reportId, "report-payload:" ++ kind.text,
    keyVersion⟩

/-- The payload of a report, with the random IV of its encryption. -/
def Report.payload (report : Report) (context : TenantContext) (householdKey : SymmetricKey)
    (keyVersion iv : Nat) : Sealed :=
  encryptEnvelope (.data (canonicalReportValue report.toJson)) householdKey
    (reportPayloadContext context report.id report.kind keyVersion) iv

/-- The change `completeReport` makes to the report. -/
def completedReport (context : TenantContext) (workflowId : Identifier) (generatedAt : Instant)
    (payload : Sealed) (keyVersion : Nat) (report : ReportRow) : Option ReportRow :=
  if context.sees report ∧ report.workflowId = some workflowId ∧ report.status = .pending then
    some { report with
      status := .completed
      generatedAt := generatedAt
      payloadEncrypted := some payload
      encryptionKeyVersion := some keyVersion
      version := report.version + 1 }
  else none

/-- A list of texts. -/
def readTexts : Json → Option (List String)
  | .arr items => items.mapM (fun item => match item with
    | .str text => some text
    | _ => none)
  | _ => none

/-- A text member of an object. -/
def readText (name : String) (value : Json) : Option String :=
  match member name value with
  | some (.str text) => some text
  | _ => none

/-- The status of a claim with the given text. -/
def ClaimStatus.ofText (text : String) : Option ClaimStatus :=
  [confirmed, missing, disputed].find? (fun status => status.text == text)

/-- A parsed claim. -/
def readClaim (value : Json) : Option ReportClaim := do
  let factId ← readText "factId" value
  let evidenceIds ← (member "evidenceIds" value).bind readTexts
  let fieldKey ← readText "fieldKey" value
  let renderedValue ← readText "renderedValue" value
  let status ← (readText "status" value).bind ClaimStatus.ofText
  pure ⟨factId, evidenceIds, fieldKey, renderedValue, status⟩

/-- The claims of a parsed report. -/
def readClaims (report : Json) : Option (List ReportClaim) :=
  match member "claims" report with
  | some (.arr items) => items.mapM readClaim
  | _ => none

/-- `getReport` on a completed record: opens the payload, checks that it belongs to the record,
and checks its provenance. -/
def openReport (context : TenantContext) (householdKey : SymmetricKey) (record : ReportRow) :
    Except String Json :=
  match record.payloadEncrypted, record.encryptionKeyVersion with
  | some payload, some (keyVersion + 1) =>
    match decryptEnvelope payload householdKey
      (reportPayloadContext context record.id record.kind (keyVersion + 1)) with
    | some (.data text) =>
      match parse text with
      | some report =>
        if readText "id" report ≠ some record.id ∨
            readText "organizationId" report ≠ some context.organizationId ∨
            readText "householdId" report ≠ some context.householdId ∨
            readText "kind" report ≠ some record.kind.text then
          .error "report payload binding mismatch"
        else
          match readClaims report, member "sourceFactVersions" report with
          | some claims, some versions =>
            (assertReportProvenance claims (memberNames versions)).map (fun _ => report)
          | _, _ => .error "TypeError"
      | none => .error "SyntaxError"
    | _ => .error "envelope authentication failed"
  | _, _ => .error "completed report payload is unavailable"

/-! ## Provenance -/

/-- A report has its provenance when every confirmed claim lists evidence and every claim has a
source. -/
theorem assertReportProvenance_ok_iff {claims : List ReportClaim} {sourceFacts : List Identifier} :
    assertReportProvenance claims sourceFacts = .ok () ↔ ∀ claim ∈ claims,
      (claim.status = .confirmed → claim.evidenceIds ≠ []) ∧ claim.factId ∈ sourceFacts := by
  induction claims with
  | nil => simp [assertReportProvenance]
  | cons claim claims ih =>
    simp only [assertReportProvenance, List.forall_mem_cons, ← ih]
    split
    case isTrue hbare =>
      have hnil : claim.evidenceIds = [] := List.length_eq_zero_iff.mp hbare.2
      simp [hbare.1, hnil]
    case isFalse hbacked =>
      have hevidence : claim.status = .confirmed → claim.evidenceIds ≠ [] :=
        fun hconfirmed hnil => hbacked ⟨hconfirmed, by rw [hnil]; rfl⟩
      by_cases hsource : claim.factId ∈ sourceFacts
      · rw [if_neg (not_not.mpr hsource)]
        exact ⟨fun hrest => ⟨⟨hevidence, hsource⟩, hrest⟩, fun hall => hall.2⟩
      · simp [hsource]

/-- The claims of facts that list evidence where they are confirmed have their provenance. -/
theorem assertReportProvenance_createReportClaims {facts : List CandidateFact} :
    assertReportProvenance (createReportClaims facts)
        ((facts.map (fun fact => (fact.id, fact.version))).map Prod.fst) = .ok () ↔
      ∀ fact ∈ facts, fact.status = .confirmed → fact.evidenceIds ≠ [] := by
  rw [assertReportProvenance_ok_iff]
  constructor
  · intro h fact hmem hconfirmed
    obtain ⟨hevidence, -⟩ := h _ (List.mem_map_of_mem hmem)
    exact hevidence (FactStatus.claimStatus_eq_confirmed.mpr hconfirmed)
  · intro h claim hmem
    obtain ⟨fact, hfact, rfl⟩ := List.mem_map.mp hmem
    have hsource : fact.id ∈ (facts.map (fun fact => (fact.id, fact.version))).map Prod.fst := by
      rw [List.map_map]
      exact List.mem_map_of_mem hfact
    exact ⟨fun hconfirmed => h fact hfact (FactStatus.claimStatus_eq_confirmed.mp hconfirmed),
      hsource⟩

/-- A generated report has the claims and versions of its input, and their provenance. -/
theorem generateReport_ok {input : ReportInput} {report : Report}
    (h : generateReport input = .ok report) :
    report.id = input.id ∧ report.organizationId = input.organizationId ∧
      report.householdId = input.householdId ∧ report.kind = input.kind ∧
      report.claims = createReportClaims input.facts ∧
      report.sourceFactVersions = input.facts.map (fun fact => (fact.id, fact.version)) ∧
      assertReportProvenance report.claims (report.sourceFactVersions.map Prod.fst) = .ok () := by
  rw [generateReport] at h
  generalize hprovenance : assertReportProvenance _ _ = provenance at h
  cases provenance with
  | error message => exact absurd h (by simp [bind, Except.bind])
  | ok done =>
    obtain rfl := Except.ok.inj h
    exact ⟨rfl, rfl, rfl, rfl, rfl, rfl, hprovenance⟩

/-- A report lists the missing categories and the findings it was given. -/
theorem generateReport_lists {input : ReportInput} {report : Report}
    (h : generateReport input = .ok report) :
    report.missingCategories = input.missingCategories ∧
      report.reviewFindings = input.reviewFindings := by
  rw [generateReport] at h
  generalize assertReportProvenance _ _ = provenance at h
  cases provenance with
  | error message => exact absurd h (by simp [bind, Except.bind])
  | ok done =>
    obtain rfl := Except.ok.inj h
    exact ⟨rfl, rfl⟩

/-- A report is generated exactly when every confirmed fact lists evidence. -/
theorem generateReport_isOk_iff {input : ReportInput} :
    (∃ report, generateReport input = .ok report) ↔
      ∀ fact ∈ input.facts, fact.status = .confirmed → fact.evidenceIds ≠ [] := by
  rw [← assertReportProvenance_createReportClaims]
  constructor
  · rintro ⟨report, h⟩
    obtain ⟨-, -, -, -, hclaims, hversions, hprovenance⟩ := generateReport_ok h
    rw [← hclaims, ← hversions]
    exact hprovenance
  · intro hprovenance
    simp only [generateReport, hprovenance]
    exact ⟨_, rfl⟩

/-! ## Reading a payload back -/

theorem readTexts_texts (texts : List String) :
    readTexts (.arr (texts.map Json.str)) = some texts := by
  rw [readTexts]
  induction texts with
  | nil => rfl
  | cons text texts ih =>
    rw [List.map_cons, List.mapM_cons, ih]
    rfl

theorem canonicalize_texts (texts : List String) :
    canonicalize id (.arr (texts.map Json.str)) = .arr (texts.map Json.str) := by
  rw [canonicalize, canonicalizeItems_eq_map, List.map_map]
  congr 1

theorem ClaimStatus.ofText_text (status : ClaimStatus) :
    ClaimStatus.ofText status.text = some status := by
  cases status <;> decide

/-- A text member is read from the canonical form of an object. -/
theorem readText_canonicalize {value : Json} {name text : String}
    (hnames : (memberNames value).Nodup) (h : member name value = some (.str text)) :
    readText name (canonicalize id value) = some text := by
  rw [readText, member_canonicalize_of hnames h, canonicalize]
  rfl

/-- A claim is read back from its canonical form. -/
theorem readClaim_canonicalize (claim : ReportClaim) :
    readClaim (canonicalize id claim.toJson) = some claim := by
  have hnames : (memberNames claim.toJson).Nodup := by simp [ReportClaim.toJson, memberNames]
  have hitems : member "evidenceIds" claim.toJson = some (.arr (claim.evidenceIds.map Json.str)) :=
    rfl
  have hevidence : (member "evidenceIds" (canonicalize id claim.toJson)).bind readTexts =
      some claim.evidenceIds := by
    rw [member_canonicalize_of hnames hitems, canonicalize_texts, Option.bind_some, readTexts_texts]
  have hfactId : readText "factId" (canonicalize id claim.toJson) = some claim.factId :=
    readText_canonicalize hnames rfl
  have hfieldKey : readText "fieldKey" (canonicalize id claim.toJson) = some claim.fieldKey :=
    readText_canonicalize hnames rfl
  have hvalue : readText "renderedValue" (canonicalize id claim.toJson) =
      some claim.renderedValue := readText_canonicalize hnames rfl
  have hstatus : readText "status" (canonicalize id claim.toJson) = some claim.status.text :=
    readText_canonicalize hnames rfl
  simp [readClaim, hfactId, hevidence, hfieldKey, hvalue, hstatus, ClaimStatus.ofText_text]

/-- The claims of a report are read back from their canonical forms. -/
theorem mapM_readClaim (claims : List ReportClaim) :
    ((claims.map ReportClaim.toJson).map (canonicalize id)).mapM readClaim = some claims := by
  induction claims with
  | nil => rfl
  | cons claim claims ih =>
    rw [List.map_cons, List.map_cons, List.mapM_cons, readClaim_canonicalize, ih]
    rfl

theorem Report.memberNames_nodup (report : Report) : (memberNames report.toJson).Nodup := by
  rw [Report.toJson, memberNames]
  cases report.missingCategories <;> cases report.notices <;> cases report.reviewFindings <;> simp

/-- The provenance check depends on which sources there are only. -/
theorem assertReportProvenance_congr {claims : List ReportClaim} {sources sources' : List Identifier}
    (h : ∀ source, source ∈ sources ↔ source ∈ sources') :
    assertReportProvenance claims sources = assertReportProvenance claims sources' := by
  induction claims with
  | nil => rfl
  | cons claim claims ih => simp only [assertReportProvenance, h, ih]

/-- The claims of a report are read back from its canonical form. -/
theorem readClaims_canonicalize (report : Report) :
    readClaims (canonicalize id report.toJson) = some report.claims := by
  have hclaims : member "claims" report.toJson =
      some (.arr (report.claims.map ReportClaim.toJson)) := rfl
  rw [readClaims, member_canonicalize_of report.memberNames_nodup hclaims, canonicalize,
    canonicalizeItems_eq_map]
  exact mapM_readClaim report.claims

/-- The sources of a report are read back from its canonical form, in another order. -/
theorem member_sources_canonicalize (report : Report) :
    ∃ versions, member "sourceFactVersions" (canonicalize id report.toJson) = some versions ∧
      ∀ source, source ∈ memberNames versions ↔ source ∈ report.sourceFactVersions.map Prod.fst := by
  have hversions : member "sourceFactVersions" report.toJson = some (.obj
      (report.sourceFactVersions.map (fun source => (source.1, Json.nat source.2)))) := rfl
  refine ⟨_, member_canonicalize_of report.memberNames_nodup hversions, fun source => ?_⟩
  rw [mem_memberNames_canonicalize, List.map_map]
  rfl

/-- A stored report opens, and its provenance is checked as it was when it was generated. -/
theorem openReport_payload {context : TenantContext} {householdKey : SymmetricKey} {report : Report}
    {record stored : ReportRow} {workflowId : Identifier} {generatedAt : Instant} {keyVersion iv : Nat}
    (hid : report.id = record.id) (horganization : report.organizationId = context.organizationId)
    (hhousehold : report.householdId = context.householdId) (hkind : report.kind = record.kind)
    (hkeyVersion : keyVersion ≠ 0) (hstored : completedReport context workflowId generatedAt
      (report.payload context householdKey keyVersion iv) keyVersion record = some stored) :
    openReport context householdKey stored =
      (assertReportProvenance report.claims (report.sourceFactVersions.map Prod.fst)).map
        (fun _ => canonicalize id report.toJson) := by
  rw [completedReport] at hstored
  split at hstored
  case isFalse => exact absurd hstored (by simp)
  case isTrue hpending =>
    obtain rfl := Option.some.inj hstored
    obtain ⟨version, rfl⟩ := Nat.exists_eq_succ_of_ne_zero hkeyVersion
    have hopened : decryptEnvelope (report.payload context householdKey (version + 1) iv) householdKey
        (reportPayloadContext context record.id record.kind (version + 1)) =
        some (.data (canonicalReportValue report.toJson)) := by
      rw [← hid, ← hkind, Report.payload, decryptEnvelope_encryptEnvelope]
    have hreadId : readText "id" (canonicalize id report.toJson) = some report.id :=
      readText_canonicalize report.memberNames_nodup rfl
    have hreadOrganization : readText "organizationId" (canonicalize id report.toJson) =
        some report.organizationId := readText_canonicalize report.memberNames_nodup rfl
    have hreadHousehold : readText "householdId" (canonicalize id report.toJson) =
        some report.householdId := readText_canonicalize report.memberNames_nodup rfl
    have hreadKind : readText "kind" (canonicalize id report.toJson) = some report.kind.text :=
      readText_canonicalize report.memberNames_nodup rfl
    obtain ⟨versions, hversions, hsources⟩ := member_sources_canonicalize report
    simp only [openReport, hopened, canonicalReportValue, stableStringify, parse_stringify]
    rw [if_neg ?_]
    · simp only [readClaims_canonicalize report, hversions]
      rw [assertReportProvenance_congr hsources]
    · rw [hreadId, hreadOrganization, hreadHousehold, hreadKind, hid, horganization, hhousehold,
        hkind]
      simp

end LegacyVault
