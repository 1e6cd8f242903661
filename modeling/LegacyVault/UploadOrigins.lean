import LegacyVault.DocumentObjects

/-!
# Where documents come from

Every document is as the start of an upload has inserted it, up to the
columns that later steps write. A start that finds the record of an earlier
one returns the document of that one, which was started with the same input.
-/

namespace LegacyVault

open JsonText RowTransaction RowTransaction.Program RowTransaction.Protocol Store

/-! ## What a step makes of a document -/

/-- A document as a step leaves it, by what the step has made of it. -/
inductive DocumentRow.Comes (σ : Vault) (k : Identifier) (row : DocumentRow) : DocumentStep → Prop
  /-- It was there, and has its status, its checksum and its deletion from before. -/
  | kept {step : DocumentStep} (before : DocumentRow) (hbefore : σ.get .documents k = some before)
      (hkept : before.Kept row) (hstatus : row.status = before.status)
      (hdeleted : row.originalDeletedAt = before.originalDeletedAt) :
      Comes σ k row step
  /-- Its upload is started. -/
  | started {call : UploadStartCall} (hid : k = call.generated.id)
      (hrow : row = pendingDocument call.context call.input call.generated) :
      Comes σ k row (.startUpload call)
  /-- Its upload is completed. -/
  | uploaded {call : UploadCompletionCall} (before : DocumentRow)
      (hbefore : σ.get .documents k = some before) (hkept : before.Kept row)
      (hid : k = call.input.documentId) (hstatus : row.status = .quarantined)
      (hchecksum : row.ciphertextSha256 = some call.input.ciphertextSha256)
      (hdeleted : row.originalDeletedAt = before.originalDeletedAt) :
      Comes σ k row (.completeUpload call)
  /-- Its scan is completed. -/
  | scanned {delivery : Delivery} {document : DocumentProcessingInput} {outcome : ScanOutcome}
      (before : DocumentRow) (hbefore : σ.get .documents k = some before)
      (hkept : before.Kept row) (hid : k = document.id) (hquarantined : before.status = .quarantined)
      (hstatus : row.status = outcome.status)
      (hdeleted : row.originalDeletedAt = before.originalDeletedAt) :
      Comes σ k row (.completeScan delivery document outcome)
  /-- The deletion of its original is completed. -/
  | deleted {delivery : Delivery} {document : DocumentProcessingInput} (before : DocumentRow)
      (hbefore : σ.get .documents k = some before) (hkept : before.Kept row)
      (hid : k = document.id) (hstatus : row.status = before.status) :
      Comes σ k row (.completeDeletion delivery document)

section Changes

variable {context : TenantContext} {before after : DocumentRow}

theorem quarantinedDocument_after {input : UploadCompletionInput} {uploadedAt : Instant}
    (h : quarantinedDocument context input uploadedAt before = some after) :
    after.status = .quarantined ∧ after.ciphertextSha256 = some input.ciphertextSha256 ∧
      after.originalDeletedAt = before.originalDeletedAt := by
  unfold quarantinedDocument at h
  split at h
  · obtain rfl := Option.some.inj h
    exact ⟨rfl, rfl, rfl⟩
  · exact absurd h (by simp)

theorem scannedDocument_after {documentVersion : Nat} {outcome : ScanOutcome}
    {processedAt : Instant}
    (h : scannedDocument context documentVersion outcome processedAt before = some after) :
    before.status = .quarantined ∧ after.status = outcome.status ∧
      after.originalDeletedAt = before.originalDeletedAt := by
  unfold scannedDocument at h
  split at h
  · rename_i hguard
    obtain rfl := Option.some.inj h
    exact ⟨hguard.2.1, rfl, rfl⟩
  · exact absurd h (by simp)

theorem failedDocument_after {errorClass : String}
    (h : failedDocument context errorClass before = some after) :
    after.status = before.status ∧ after.originalDeletedAt = before.originalDeletedAt := by
  unfold failedDocument at h
  split at h
  · obtain rfl := Option.some.inj h
    exact ⟨rfl, rfl⟩
  · exact absurd h (by simp)

theorem originalDeletedDocument_status {deletedAt : Instant}
    (h : originalDeletedDocument context deletedAt before = some after) :
    after.status = before.status := by
  unfold originalDeletedDocument at h
  split at h
  · obtain rfl := Option.some.inj h
    rfl
  · exact absurd h (by simp)

end Changes

/-- Every document after a committed step comes from one before it, or from the step. -/
theorem DocumentEffect.comes {sha256 : Sha256} {seen : Vault → Prop} {σ σ' : Vault}
    {step : DocumentStep} {answer : DocumentAnswer}
    (h : DocumentEffect sha256 seen σ σ' step answer) {k : Identifier} {row : DocumentRow}
    (hrow : σ'.get .documents k = some row) : row.Comes σ k step := by
  have hsame : SameRows (S := vaultSchema) .documents σ σ' → row.Comes σ k step :=
    fun hrows => .kept row ((hrows k).symm.trans hrow) (.refl row) rfl rfl
  have hupdated : ∀ {k' : Identifier} {change : DocumentRow → Option DocumentRow},
      Updates .documents k' change σ σ' →
      (∀ before, σ.get .documents k = some before → k = k' → change before = some row →
        row.Comes σ k step) → row.Comes σ k step := by
    rintro k' change ⟨before, after, hbefore, hafter, hreplaces⟩ hcomes
    rcases hreplaces.get_cases k with ⟨rfl, hnew⟩ | ⟨-, hold⟩
    · obtain rfl := Option.some.inj (hnew.symm.trans hrow)
      exact hcomes before hbefore rfl hafter
    · exact .kept row (hold.symm.trans hrow) (.refl row) rfl rfl
  cases h.change with
  | started _ _ _ hreplaces =>
    rcases hreplaces.get_cases k with ⟨rfl, hinserted⟩ | ⟨-, hold⟩
    · exact .started rfl (Option.some.inj (hinserted.symm.trans hrow)).symm
    · exact .kept row (hold.symm.trans hrow) (.refl row) rfl rfl
  | uploaded hdocument _ _ =>
    refine hupdated hdocument (fun before hbefore hid hafter => ?_)
    obtain ⟨hstatus, hchecksum, hdeleted⟩ := quarantinedDocument_after hafter
    exact .uploaded before hbefore (quarantinedDocument_kept hafter) hid hstatus hchecksum hdeleted
  | extracted _ _ _ _ _ _ => exact hsame (h.same _ (by simp [DocumentStep.tables]))
  | scanned hdocument _ =>
    refine hupdated hdocument (fun before hbefore hid hafter => ?_)
    obtain ⟨hquarantined, hstatus, hdeleted⟩ := scannedDocument_after hafter
    exact .scanned before hbefore (scannedDocument_kept hafter) hid hquarantined hstatus hdeleted
  | recognized _ _ _ _ => exact hsame (h.same _ (by simp [DocumentStep.tables]))
  | originalDeleted hdocument _ =>
    rcases hdocument with hupdates | ⟨hrows, -⟩
    · exact hupdated hupdates (fun before hbefore hid hafter =>
        .deleted before hbefore (originalDeletedDocument_kept hafter) hid
          (originalDeletedDocument_status hafter))
    · exact hsame hrows
  | failed hdocument _ =>
    rcases hdocument with hupdates | ⟨hrows, -⟩
    · refine hupdated hupdates (fun before hbefore _ hafter => ?_)
      obtain ⟨hstatus, hdeleted⟩ := failedDocument_after hafter
      exact .kept before hbefore (failedDocument_kept hafter) hstatus hdeleted
    · exact hsame hrows
  | other hdocuments _ _ _ _ _ _ _ => exact hsame hdocuments

/-! ## Records -/

/-- The response of an upload start. -/
def startedBody (documentId : Identifier) : Json :=
  .obj [("document", .obj [("id", .str documentId)])]

theorem uploadedDocumentId_startedBody (documentId : Identifier) :
    uploadedDocumentId (startedBody documentId) = some documentId := rfl

/-- Inputs of one shape ask for the same document. -/
theorem DocumentUploadInput.eq_of_shape {a b : DocumentUploadInput} (h : a.shape = b.shape) :
    a.originalSha256 = b.originalSha256 ∧ a.mediaType = b.mediaType := by
  simp only [DocumentUploadInput.shape, Json.obj.injEq, List.cons.injEq, Prod.mk.injEq,
    Json.str.injEq, true_and] at h
  exact ⟨h.1, h.2.1⟩

theorem UploadCompletionInput.shape_ne (a : UploadCompletionInput) (b : DocumentUploadInput) :
    a.shape ≠ b.shape := by
  simp [UploadCompletionInput.shape, DocumentUploadInput.shape]

theorem ManualExtractionInput.shape_ne (a : ManualExtractionInput) (b : DocumentUploadInput) :
    a.shape ≠ b.shape := by
  simp [ManualExtractionInput.shape, DocumentUploadInput.shape]

/-- The record that a step writes; a started upload leaves its document beside it. -/
def WritesRecord (sha256 : Sha256) (σ' : Vault) (record : IdempotencyRow) : DocumentStep → Prop
  | .startUpload call => record.requestHash = sha256.ofJson call.input.shape ∧
      record.response.map StoredResponse.responseBody = some (startedBody call.generated.id) ∧
      σ'.get .documents call.generated.id =
        some (pendingDocument call.context call.input call.generated)
  | .completeUpload call => record.requestHash = sha256.ofJson call.input.shape
  | .extract call => record.requestHash = sha256.ofJson call.input.shape
  | _ => False

section Records

variable {sha256 : Sha256} {seen : Vault → Prop} {σ : Vault} {ws ws' : List (Write vaultSchema)}

/-- A tenant operation leaves the records of other requests alone. -/
theorem records_of_withTenantRecord {context : TenantContext} {key requestHash : String}
    {now : Instant} {statusCode : Nat} {errors : RecordErrors} {mutation : Transaction Json}
    {answer : Answer Json} (hleaves : mutation.Leaves VaultTable.idempotencyRecords)
    (h : (withTenantRecord context key requestHash now statusCode errors mutation).Executes
      seen σ [] (.ok answer) ws') {k : Identifier × Identifier × String} {record : IdempotencyRow}
    (hrecord : (σ.overlay ws').get .idempotencyRecords k = some record) :
    σ.get .idempotencyRecords k = some record ∨ (record.requestHash = requestHash ∧
      record.response.map StoredResponse.responseBody = some answer.body) := by
  rcases RecordShape.executes_once_ok hleaves h with
    ⟨_, _, body, _, _, _, _, -, rfl⟩ | ⟨body, ws₁, -, hmutation, rfl, rfl⟩
  · exact Or.inl hrecord
  · have hreserved : Replaces (S := vaultSchema) .idempotencyRecords (context.recordKey key)
        (some (reservedRecord context key requestHash now)) σ (σ.overlay ws₁) :=
      (SameRows.refl (S := vaultSchema) _ σ).write.then_same (hleaves.sameRows hmutation)
    rcases hreserved.rewrite.get_cases k with ⟨rfl, hnew⟩ | ⟨-, hold⟩
    · obtain rfl := Option.some.inj (hnew.symm.trans hrecord)
      exact Or.inr ⟨rfl, rfl⟩
    · exact Or.inl (hold.symm.trans hrecord)

/-- The mutation of an upload start inserts its document and names it. -/
theorem executes_startUploadMutation {context : TenantContext} {input : DocumentUploadInput}
    {generated : DocumentUploadGenerated} {body : Json}
    (h : (startUploadMutation context input generated).Executes seen σ ws (.ok body) ws') :
    body = startedBody generated.id ∧ ∀ base : Vault,
      (base.overlay ws').get .documents generated.id =
        some (pendingDocument context input generated) := by
  obtain ⟨_, ws₁, -, hrest⟩ := executes_bind_ok.mp h
  obtain ⟨_, ws₂, hinsert, hresult, rfl⟩ := executes_bind_ok.mp hrest
  obtain ⟨-, -, rfl⟩ := executes_insertRow_ok hinsert
  exact ⟨Except.ok.inj hresult,
    fun base => (SameRows.refl (S := vaultSchema) _ (base.overlay ws₁)).write.row⟩

/-- An upload start reads the document of its response last. -/
theorem executes_startUpload_bind {call : UploadStartCall} {answer : DocumentAnswer}
    (h : (documentProgram sha256 (.startUpload call)).Executes seen σ [] (.ok answer) ws') :
    ∃ (stored : Answer Json) (document : DocumentRow) (documentId : Identifier),
      (withTenantRecord call.context call.key (sha256.ofJson call.input.shape) call.now 201
        startUploadErrors (startUploadMutation call.context call.input call.generated)).Executes
          seen σ [] (.ok stored) ws' ∧
      uploadedDocumentId stored.body = some documentId ∧
      (getPendingDocumentUpload call.context documentId).Executes seen σ ws' (.ok document) ws' ∧
      answer = .document document := by
  obtain ⟨document, ws₁, hstart, hanswer, rfl⟩ := executes_bind_ok.mp h
  obtain ⟨stored, ws₂, hstored, hpending⟩ := executes_bind_ok.mp hstart
  split at hpending
  · rename_i documentId hnamed
    obtain rfl : ws' = ws₂ := (getPendingDocumentUpload_readOnly _ _).executes hpending
    exact ⟨stored, document, documentId, hstored, hnamed, hpending, Except.ok.inj hanswer⟩
  · exact absurd hpending.1 (by simp)

/-- A committed step writes no record but its own. -/
theorem documentProgram_records {step : DocumentStep} {answer : DocumentAnswer}
    (h : (documentProgram sha256 step).Executes seen σ [] (.ok answer) ws')
    {k : Identifier × Identifier × String} {record : IdempotencyRow}
    (hrecord : (σ.overlay ws').get .idempotencyRecords k = some record) :
    σ.get .idempotencyRecords k = some record ∨
      WritesRecord sha256 (σ.overlay ws') record step := by
  by_cases htables : VaultTable.idempotencyRecords ∈ step.tables
  · cases step with
    | startUpload call =>
      obtain ⟨stored, document, documentId, hstored, -, -, -⟩ := executes_startUpload_bind h
      rcases executes_withTenantRecord (startUploadMutation_leaves (by decide) (by decide) _ _ _)
        hstored with ⟨_, -, rfl⟩ | ⟨body, reserved, completed, ws₁, rfl, hmutation, rfl⟩
      · exact Or.inl hrecord
      · obtain ⟨rfl, hinserted⟩ := executes_startUploadMutation hmutation
        rcases records_of_withTenantRecord
          (startUploadMutation_leaves (by decide) (by decide) _ _ _) hstored hrecord with
          hold | ⟨hhash, hresponse⟩
        · exact Or.inl hold
        · refine Or.inr ⟨hhash, hresponse, ?_⟩
          rw [sameRows_overlay_cons σ _ _ ws₁ (by decide)]
          exact hinserted σ
    | completeUpload call =>
      obtain ⟨stored, ws₁, hstored, -, rfl⟩ := executes_bind_ok.mp h
      exact (records_of_withTenantRecord (completeUploadMutation_leaves (by decide) (by decide)
        _ _ _ _) hstored hrecord).imp_right And.left
    | extract call =>
      obtain ⟨stored, ws₁, hstored, -, rfl⟩ := executes_bind_ok.mp h
      exact (records_of_withTenantRecord (manualExtractionMutation_leaves (by decide) (by decide)
        (by decide) _ _ _) hstored hrecord).imp_right And.left
    | _ => exact absurd htables (by simp [DocumentStep.tables])
  · exact Or.inl (((documentProgram_leaves sha256 htables).sameRows h k).symm.trans hrecord)

/-- The response of an upload start names the document it returns, which is pending. It comes from
the record of an earlier start, or from the document that is inserted. -/
theorem executes_startUpload {call : UploadStartCall} {answer : DocumentAnswer}
    (h : (documentProgram sha256 (.startUpload call)).Executes seen σ [] (.ok answer) ws') :
    ∃ document : DocumentRow, answer = .document document ∧
      document.pendingIn call.context = true ∧
      ((∃ (σ₀ σ₁ : Vault) (record : IdempotencyRow) (body : Json) (documentId : Identifier),
          ws' = [] ∧ seen σ₀ ∧ seen σ₁ ∧ σ₁.get .documents documentId = some document ∧
          σ₀.get .idempotencyRecords (call.context.recordKey call.key) = some record ∧
          record.requestHash = sha256.ofJson call.input.shape ∧
          record.response.map StoredResponse.responseBody = some body ∧
          uploadedDocumentId body = some documentId) ∨
        (document = pendingDocument call.context call.input call.generated ∧
          (σ.overlay ws').get .documents call.generated.id = some document)) := by
  obtain ⟨stored, document, documentId, hstored, hnamed, hpending, hanswer⟩ :=
    executes_startUpload_bind h
  obtain ⟨σ₁, hseen₁, hrow, hpendingIn⟩ := executes_getPendingDocumentUpload hpending
  refine ⟨document, hanswer, hpendingIn, ?_⟩
  rcases RecordShape.executes_once_ok (startUploadMutation_leaves (by decide) (by decide) _ _ _)
    hstored with ⟨σ₀, record, body, hseen₀, hrecord, hhash, hbody, rfl, rfl⟩ |
      ⟨body, ws₁, -, hmutation, rfl, rfl⟩
  · exact Or.inl ⟨σ₀, σ₁, record, body, documentId, rfl, hseen₀, hseen₁, hrow, hrecord, hhash,
      hbody, hnamed⟩
  · obtain ⟨rfl, hinserted⟩ := executes_startUploadMutation hmutation
    obtain rfl : call.generated.id = documentId := Option.some.inj hnamed
    rw [sameRows_overlay_cons σ₁ _ _ ws₁ (by decide), hinserted σ₁] at hrow
    obtain rfl := Option.some.inj hrow
    refine Or.inr ⟨rfl, ?_⟩
    rw [sameRows_overlay_cons σ _ _ ws₁ (by decide), hinserted σ]

end Records

/-! ## The origins of documents -/

/-- The vault has no record of an upload start. -/
def NoUploadRecords (sha256 : Sha256) (init : Vault) : Prop :=
  ∀ k (record : IdempotencyRow), init.get .idempotencyRecords k = some record →
    ∀ input : DocumentUploadInput, record.requestHash ≠ sha256.ofJson input.shape

theorem noUploadRecords_empty (sha256 : Sha256) : NoUploadRecords sha256 Store.empty :=
  fun _ _ hrow => absurd hrow (by simp)

/-- The document was returned to the start of an upload. -/
structure Started (σ : Vault) (call : UploadStartCall) (document : DocumentRow) : Prop where
  pending : document.pendingIn call.context = true
  found : ∃ row : DocumentRow, σ.get .documents document.id = some row ∧ document.Kept row
  originalSha256 : document.originalSha256 = call.input.originalSha256
  mediaType : document.mediaType = call.input.mediaType

theorem Started.later {σ σ' : Vault} {call : UploadStartCall} {document : DocumentRow}
    (h : Started σ call document) (hkept : DocumentsKept σ σ') : Started σ' call document := by
  obtain ⟨row, hrow, hkeptRow⟩ := h.found
  obtain ⟨row', hrow', hkeptRow'⟩ := hkept.documents _ _ hrow
  exact ⟨h.pending, ⟨row', hrow', hkeptRow.trans _ _ _ hkeptRow'⟩, h.originalSha256, h.mediaType⟩

/-- Where documents come from, and which of them upload starts return. -/
structure UploadOrigins (sha256 : Sha256) (log : List DocumentEntry) (σ : Vault) : Prop where
  inserted : ∀ k (row : DocumentRow), σ.get .documents k = some row →
    ∃ call answer, (⟨.startUpload call, .committed answer⟩ : DocumentEntry) ∈ log ∧
      call.generated.id = k ∧
      (pendingDocument call.context call.input call.generated).Kept row
  recorded : ∀ k (record : IdempotencyRow), σ.get .idempotencyRecords k = some record →
    ∀ input : DocumentUploadInput, record.requestHash = sha256.ofJson input.shape →
    ∀ body, record.response.map StoredResponse.responseBody = some body →
    ∀ documentId, uploadedDocumentId body = some documentId →
      ∃ row : DocumentRow, σ.get .documents documentId = some row ∧
        row.originalSha256 = input.originalSha256 ∧ row.mediaType = input.mediaType
  started : ∀ call document, (⟨.startUpload call, .committed (.document document)⟩ :
    DocumentEntry) ∈ log → Started σ call document

/-- A session that did not commit starts nothing. -/
theorem UploadOrigins.ended {sha256 : Sha256} {log : List DocumentEntry} {σ : Vault}
    {step : DocumentStep} {outcome : Outcome RepositoryError DocumentAnswer}
    (houtcome : ∀ a, outcome ≠ .committed a) (h : UploadOrigins sha256 log σ) :
    UploadOrigins sha256 (⟨step, outcome⟩ :: log) σ := by
  refine ⟨fun k row hrow => ?_, h.recorded, fun call document hmem => ?_⟩
  · obtain ⟨call, answer, hmem, hid, hkept⟩ := h.inserted k row hrow
    exact ⟨call, answer, List.mem_cons_of_mem _ hmem, hid, hkept⟩
  · rcases List.mem_cons.mp hmem with heq | hmem
    · exact absurd (Entry.mk.inj heq).2.symm (houtcome _)
    · exact h.started call document hmem

section Invariant

variable {sha256 : Sha256} {log begun : List DocumentEntry} {σ : Vault} {seen : Vault → Prop}
  {step : DocumentStep} {answer : DocumentAnswer} {ws : List (Write vaultSchema)}

/-- A committed step inserts a document only when it starts its upload. -/
theorem UploadOrigins.inserted_step (h : UploadOrigins sha256 log σ)
    (heffect : DocumentEffect sha256 seen σ (σ.overlay ws) step answer) (k : Identifier)
    (row : DocumentRow) (hrow : (σ.overlay ws).get .documents k = some row) :
    ∃ call answer', (⟨.startUpload call, .committed answer'⟩ : DocumentEntry) ∈
      (⟨step, .committed answer⟩ :: log : List DocumentEntry) ∧ call.generated.id = k ∧
      (pendingDocument call.context call.input call.generated).Kept row := by
  rcases heffect.document_origin hrow with
    ⟨before, hbefore, hkeptRow⟩ | ⟨call, rfl, rfl, rfl, -, -⟩
  · obtain ⟨call, answer', hmem, hid, hkept⟩ := h.inserted k before hbefore
    exact ⟨call, answer', List.mem_cons_of_mem _ hmem, hid, hkept.trans _ _ _ hkeptRow⟩
  · exact ⟨call, answer, List.mem_cons_self, rfl, .refl _⟩

/-- A record of an upload start names a document of its input. -/
theorem UploadOrigins.recorded_step (h : UploadOrigins sha256 log σ)
    (hkept : DocumentsKept σ (σ.overlay ws))
    (hexec : (documentProgram sha256 step).Executes seen σ [] (.ok answer) ws)
    {k : Identifier × Identifier × String} {record : IdempotencyRow}
    (hrecord : (σ.overlay ws).get .idempotencyRecords k = some record)
    {input : DocumentUploadInput} (hhash : record.requestHash = sha256.ofJson input.shape)
    {body : Json} (hbody : record.response.map StoredResponse.responseBody = some body)
    {documentId : Identifier} (hnamed : uploadedDocumentId body = some documentId) :
    ∃ row : DocumentRow, (σ.overlay ws).get .documents documentId = some row ∧
      row.originalSha256 = input.originalSha256 ∧ row.mediaType = input.mediaType := by
  rcases documentProgram_records hexec hrecord with hold | hwritten
  · obtain ⟨row, hrow, horiginal, hmedia⟩ := h.recorded k record hold input hhash body hbody _ hnamed
    obtain ⟨row', hrow', hkeptRow⟩ := hkept.documents _ _ hrow
    exact ⟨row', hrow', (hkeptRow.column DocumentRow.originalSha256 (fun _ => rfl)).trans horiginal,
      (hkeptRow.column DocumentRow.mediaType (fun _ => rfl)).trans hmedia⟩
  · cases step with
    | startUpload call =>
      obtain ⟨hhash', hbody', hrow⟩ := hwritten
      obtain rfl := Option.some.inj (hbody.symm.trans hbody')
      obtain rfl : call.generated.id = documentId := Option.some.inj hnamed
      obtain ⟨horiginal, hmedia⟩ :=
        DocumentUploadInput.eq_of_shape (sha256.ofJson_inj.mp (hhash'.symm.trans hhash))
      exact ⟨_, hrow, horiginal, hmedia⟩
    | completeUpload call =>
      exact absurd (sha256.ofJson_inj.mp (hwritten.symm.trans hhash)) (call.input.shape_ne input)
    | extract call =>
      exact absurd (sha256.ofJson_inj.mp (hwritten.symm.trans hhash)) (call.input.shape_ne input)
    | _ => exact absurd hwritten id

/-- An upload start returns a document of its input. -/
theorem UploadOrigins.started_step (hkeys : DocumentKeys (σ.overlay ws))
    (hkept : DocumentsKept σ (σ.overlay ws))
    (hearlier : ∀ σ₀, seen σ₀ → DocumentsKept σ₀ σ ∧ DocumentKeys σ₀ ∧
      ∃ log₀, UploadOrigins sha256 log₀ σ₀) {call : UploadStartCall} {document : DocumentRow}
    (hexec : (documentProgram sha256 (.startUpload call)).Executes seen σ []
      (.ok (.document document)) ws) : Started (σ.overlay ws) call document := by
  obtain ⟨found, hanswer, hpending, hcases⟩ := executes_startUpload hexec
  obtain rfl := DocumentAnswer.document.inj hanswer
  rcases hcases with ⟨σ₀, σ₁, record, body, documentId, rfl, hseen₀, hseen₁, hrow, hrecord, hhash,
    hbody, hnamed⟩ | ⟨rfl, hrow⟩
  · obtain ⟨hkept₀, hkeys₀, log₀, horigins⟩ := hearlier σ₀ hseen₀
    obtain ⟨hkept₁, hkeys₁, -⟩ := hearlier σ₁ hseen₁
    obtain ⟨row₀, hrow₀, horiginal, hmedia⟩ :=
      horigins.recorded _ record hrecord call.input hhash body hbody documentId hnamed
    -- Both rows are that of the document as the latest store has it.
    obtain ⟨row, hlater, hkeptRow₀⟩ := (hkept₀.trans hkept).documents _ _ hrow₀
    obtain ⟨row', hlater', hkeptRow⟩ := (hkept₁.trans hkept).documents _ _ hrow
    obtain rfl := Option.some.inj (hlater.symm.trans hlater')
    have hid : document.id = documentId := hkeys₁.documents _ _ hrow
    refine ⟨hpending, ⟨row, ?_, hkeptRow⟩, ?_, ?_⟩
    · rw [hid]
      exact hlater
    · rw [← horiginal, ← hkeptRow.column DocumentRow.originalSha256 (fun _ => rfl)]
      exact hkeptRow₀.column DocumentRow.originalSha256 (fun _ => rfl)
    · rw [← hmedia, ← hkeptRow.column DocumentRow.mediaType (fun _ => rfl)]
      exact hkeptRow₀.column DocumentRow.mediaType (fun _ => rfl)
  · exact ⟨hpending, ⟨_, hrow, .refl _⟩, rfl, rfl⟩

end Invariant

/-- Documents come from the starts of their uploads, in every interleaving. -/
theorem uploadOrigins_invariant (sha256 : Sha256) {init : Vault} (hinit : NoDocuments init)
    (hnone : NoUploadRecords sha256 init) :
    (documentProtocol sha256).Invariant init
      (fun log σ => DocumentRecords log σ ∧ UploadOrigins sha256 log σ) DocumentsKept := by
  refine (documentRecords_invariant sha256 hinit).and ?_ ?_ (fun houtcome h => h.ended houtcome)
  · refine ⟨fun k row hrow => ?_, fun k record hrecord input hhash => ?_, fun _ _ hmem => ?_⟩
    · exact absurd (hrow.symm.trans (hinit.documents k)) (by simp)
    · exact absurd hhash (hnone k record hrecord input)
    · exact absurd hmem List.not_mem_nil
  · intro log begun seen σ step answer ws hrecords h hpermitted hbegun hnow hearlier hexec
      hrecords' hkept
    have heffect : DocumentEffect sha256 seen σ (σ.overlay ws) step answer :=
      documentProgram_effect hexec
    refine ⟨h.inserted_step heffect, fun k record hrecord input hhash body hbody documentId =>
      h.recorded_step hkept hexec hrecord hhash hbody, fun call document hmem => ?_⟩
    rcases List.mem_cons.mp hmem with heq | hmem
    · obtain ⟨rfl, houtcome⟩ := Entry.mk.inj heq
      obtain rfl : .document document = answer := Outcome.committed.inj houtcome
      refine UploadOrigins.started_step hrecords'.keys hkept (fun σ₀ hseen => ?_) hexec
      obtain ⟨hgrows, log₀, -, -, hheld, horigins⟩ := hearlier σ₀ hseen
      exact ⟨hgrows, hheld.keys, log₀, horigins⟩
    · exact (h.started call document hmem).later hkept

end LegacyVault
