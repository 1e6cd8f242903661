import LegacyVault.DocumentHandlers

/-!
# What the document steps change

For every step of a document's life: which tables it may write, and for each
step that writes documents, workflows, derivatives, evidence or facts, which
rows it found and how they stand afterwards.

A completion updates the rows it finds at its lock. The deletion of an
original and the record of a failure may also find a row they do not apply
to, at some earlier moment.
-/

namespace LegacyVault

open JsonText RowTransaction RowTransaction.Program Store

/-- Tables a step may write. -/
def DocumentStep.tables : DocumentStep → List VaultTable
  | .startUpload _ => [.idempotencyRecords, .documentObjectKeys, .documents]
  | .completeUpload _ => [.idempotencyRecords, .documents, .workflowRuns]
  | .extract _ => [.idempotencyRecords, .evidence, .facts, .workflowRuns]
  | .completeScan _ _ _ | .completeDeletion _ _ | .recordFailure _ _ _ =>
    [.documents, .workflowRuns]
  | .completeOcr _ _ _ => [.documentDerivatives, .workflowRuns]
  | .upload _ _ _ _ | .markClean _ _ _ | .putDerivative _ _ _ | .deleteOriginal _ _ => [.objects]
  | .pendingForUrl _ | .pendingForCompletion _ | .assertStored _ _ | .read _ | .fetch _ _
  | .material _ | .checkStatus _ _ | .download _ _ => []

section Leaves

variable {t : VaultTable}

theorem withTenantRecord_leaves (h : t ≠ .idempotencyRecords) {context : TenantContext}
    {key requestHash : String} {now : Instant} {statusCode : Nat} {errors : RecordErrors}
    {mutation : Transaction Json} (hmutation : mutation.Leaves t) :
    (withTenantRecord context key requestHash now statusCode errors mutation).Leaves t :=
  OnceUse.program_leaves h hmutation

theorem getDocumentProcessingInput_readOnly (context : TenantContext) (workflowId : Identifier) :
    (getDocumentProcessingInput context workflowId).ReadOnly := by
  refine writes_bind (writes_select _) (fun found => ?_)
  cases found
  · exact writes_rollback _
  · exact writes_commit _

theorem completeDocumentScan_leaves (hdocuments : t ≠ .documents) (hworkflows : t ≠ .workflowRuns)
    (context : TenantContext) (document : DocumentProcessingInput) (outcome : ScanOutcome)
    (processedAt : Instant) :
    (completeDocumentScan context document outcome processedAt).Leaves t := by
  refine writes_bind (writes_updateRow (fun _ _ _ => hdocuments)) (fun updated => ?_)
  cases updated
  · exact writes_rollback _
  refine writes_bind (writes_updateRow (fun _ _ _ => hworkflows)) (fun advanced => ?_)
  cases advanced
  · exact writes_rollback _
  · exact writes_commit _

theorem recordDocumentScanFailure_leaves (hdocuments : t ≠ .documents)
    (hworkflows : t ≠ .workflowRuns) (context : TenantContext)
    (documentId workflowId : Identifier) (errorClass : String) :
    (recordDocumentScanFailure context documentId workflowId errorClass).Leaves t :=
  writes_bind (writes_updateRow (fun _ _ _ => hdocuments)) (fun _ =>
    writes_bind (writes_updateRow (fun _ _ _ => hworkflows)) (fun _ => writes_commit _))

theorem completeDocumentOcr_leaves (hderivatives : t ≠ .documentDerivatives)
    (hworkflows : t ≠ .workflowRuns) (context : TenantContext)
    (document : DocumentProcessingInput) (ciphertextSha256 : String) (createdAt : Instant) :
    (completeDocumentOcr context document ciphertextSha256 createdAt).Leaves t := by
  refine writes_bind (writes_insertOrIgnore hderivatives) (fun _ => ?_)
  refine writes_bind (writes_select _) (fun recorded => ?_)
  cases recorded
  · exact writes_rollback _
  refine writes_bind (writes_select _) (fun deleteOriginal => ?_)
  refine writes_bind (writes_updateRow (fun _ _ _ => hworkflows)) (fun advanced => ?_)
  cases advanced
  · exact writes_rollback _
  · exact writes_commit _

theorem completeDocumentOriginalDeletion_leaves (hdocuments : t ≠ .documents)
    (hworkflows : t ≠ .workflowRuns) (context : TenantContext)
    (documentId workflowId : Identifier) (deletedAt : Instant) :
    (completeDocumentOriginalDeletion context documentId workflowId deletedAt).Leaves t := by
  refine writes_bind (writes_updateRow (fun _ _ _ => hdocuments)) (fun _ => ?_)
  refine writes_bind (writes_updateRow (fun _ _ _ => hworkflows)) (fun advanced => ?_)
  cases advanced with
  | some _ => exact writes_commit _
  | none =>
    refine writes_bind (writes_select _) (fun completed => ?_)
    cases completed
    · exact writes_rollback _
    · exact writes_commit _

/-- A step writes its tables only. -/
theorem documentProgram_leaves (sha256 : Sha256) {step : DocumentStep} (h : t ∉ step.tables) :
    (documentProgram sha256 step).Leaves t := by
  have hthen : ∀ {α : Type} {p : Transaction α} {f : α → DocumentAnswer}, p.Leaves t →
      (p >>= fun a => pure (f a)).Leaves t :=
    fun hp => writes_bind hp (fun _ => writes_commit _)
  cases step with
  | startUpload call =>
    simp only [DocumentStep.tables, List.mem_cons, List.not_mem_nil, or_false, not_or] at h
    refine hthen (writes_bind (withTenantRecord_leaves h.1
      (startUploadMutation_leaves h.2.1 h.2.2 _ _ _)) (fun answer => ?_))
    split
    · exact (getPendingDocumentUpload_readOnly _ _).leaves t
    · exact writes_rollback _
  | pendingForUrl call => exact hthen ((getPendingDocumentUpload_readOnly _ _).leaves t)
  | upload call document ciphertext at_ =>
    exact hthen (putObject_leaves (fun ht => h (by simp [DocumentStep.tables, ht])) _ _)
  | pendingForCompletion call => exact hthen ((getPendingDocumentUpload_readOnly _ _).leaves t)
  | assertStored call document => exact hthen ((assertStoredChecksum_readOnly _ _ _).leaves t)
  | completeUpload call =>
    simp only [DocumentStep.tables, List.mem_cons, List.not_mem_nil, or_false, not_or] at h
    exact hthen (withTenantRecord_leaves h.1 (completeUploadMutation_leaves h.2.1 h.2.2 _ _ _ _))
  | extract call =>
    simp only [DocumentStep.tables, List.mem_cons, List.not_mem_nil, or_false, not_or] at h
    exact hthen (withTenantRecord_leaves h.1
      (manualExtractionMutation_leaves h.2.1 h.2.2.1 h.2.2.2 _ _ _))
  | read delivery => exact hthen ((getDocumentProcessingInput_readOnly _ _).leaves t)
  | fetch delivery document => exact hthen ((getCiphertext_readOnly _).leaves t)
  | markClean delivery document bytes =>
    exact hthen (markClean_leaves (fun ht => h (by simp [DocumentStep.tables, ht])) _)
  | completeScan delivery document outcome =>
    simp only [DocumentStep.tables, List.mem_cons, List.not_mem_nil, or_false, not_or] at h
    exact hthen (completeDocumentScan_leaves h.1 h.2 _ _ _ _)
  | putDerivative delivery document derivative =>
    exact hthen (putObject_leaves (fun ht => h (by simp [DocumentStep.tables, ht])) _ _)
  | completeOcr delivery document derivative =>
    simp only [DocumentStep.tables, List.mem_cons, List.not_mem_nil, or_false, not_or] at h
    exact hthen (completeDocumentOcr_leaves h.1 h.2 _ _ _ _)
  | deleteOriginal delivery document =>
    exact hthen (deleteObject_leaves (fun ht => h (by simp [DocumentStep.tables, ht])) _)
  | completeDeletion delivery document =>
    simp only [DocumentStep.tables, List.mem_cons, List.not_mem_nil, or_false, not_or] at h
    exact hthen (completeDocumentOriginalDeletion_leaves h.1 h.2 _ _ _ _)
  | recordFailure delivery document errorClass =>
    simp only [DocumentStep.tables, List.mem_cons, List.not_mem_nil, or_false, not_or] at h
    exact hthen (recordDocumentScanFailure_leaves h.1 h.2 _ _ _ _)
  | material call => exact hthen (writes_select _)
  | checkStatus call material => exact hthen ((objectStatus_readOnly _).leaves t)
  | download call material =>
    refine writes_bind ((getCiphertext_readOnly _).leaves t) (fun ciphertext => ?_)
    split
    · exact writes_commit _
    · exact writes_rollback _

end Leaves

/-- The evidence an extraction inserts. -/
def ExtractionCall.evidence (call : ExtractionCall) : List (Identifier × EvidenceRow) :=
  (call.input.writes call.context call.generated).map (fun candidate =>
    (candidate.evidenceId,
      candidate.evidence call.context call.input.documentId call.generated.capturedAt))

/-- The facts an extraction inserts. -/
def ExtractionCall.facts (call : ExtractionCall) : List (Identifier × FactRow) :=
  (call.input.writes call.context call.generated).map (fun candidate =>
    (candidate.id, candidate.fact call.context call.input.documentId))

/-- The step can find the stored response of an earlier call. -/
def DocumentStep.replays : DocumentStep → Bool
  | .startUpload _ | .completeUpload _ | .extract _ => true
  | _ => false

/-- The tables of documents. -/
def documentTables : List VaultTable :=
  [.documents, .documentObjectKeys, .workflowRuns, .documentDerivatives, .evidence, .facts]

/-- A row is replaced by its change, or it does not apply to some row that was seen. -/
def UpdatesOrNot (t : VaultTable) (k : t.Key) (change : t.Row → Option t.Row)
    (seen : Vault → Prop) (σ σ' : Vault) : Prop :=
  (∃ before after, σ.get t k = some before ∧ change before = some after ∧
      Replaces (S := vaultSchema) t k (some after) σ σ') ∨
    (SameRows (S := vaultSchema) t σ σ' ∧ ∃ σ₀, seen σ₀ ∧ (σ₀.get t k).bind change = none)

/-- A row is replaced by its change. -/
def Updates (t : VaultTable) (k : t.Key) (change : t.Row → Option t.Row) (σ σ' : Vault) : Prop :=
  ∃ before after, σ.get t k = some before ∧ change before = some after ∧
    Replaces (S := vaultSchema) t k (some after) σ σ'

section Updates

variable {t : VaultTable} {k : t.Key} {change : t.Row → Option t.Row} {seen : Vault → Prop}
  {σ σ' σ'' : Vault} {ws ws' : List (Write vaultSchema)}

theorem Updates.then_same (h : Updates t k change σ σ')
    (hsame : SameRows (S := vaultSchema) t σ' σ'') : Updates t k change σ σ'' := by
  obtain ⟨before, after, hbefore, hchange, hreplaces⟩ := h
  exact ⟨before, after, hbefore, hchange, hreplaces.then_same hsame⟩

theorem UpdatesOrNot.then_same (h : UpdatesOrNot t k change seen σ σ')
    (hsame : SameRows (S := vaultSchema) t σ' σ'') : UpdatesOrNot t k change seen σ σ'' := by
  rcases h with ⟨before, after, hbefore, hchange, hreplaces⟩ | ⟨hrows, hnone⟩
  · exact Or.inl ⟨before, after, hbefore, hchange, hreplaces.then_same hsame⟩
  · exact Or.inr ⟨hrows.trans hsame, hnone⟩

/-- An update that returns a row has updated it. -/
theorem Updates.of_executes {row : t.Row} (hsame : SameRows (S := vaultSchema) t σ (σ.overlay ws))
    (h : (updateRow t k change : Transaction _).Executes seen σ ws (.ok (some row)) ws') :
    Updates t k change σ (σ.overlay ws') := by
  obtain ⟨before, hbefore, hchange, hws⟩ := executes_updateRow_some h
  rw [hws]
  exact ⟨before, row, (hsame k).symm.trans hbefore, hchange, hsame.write⟩

/-- An update has updated its row, or has found none that it applies to. -/
theorem UpdatesOrNot.of_executes {updated : Option t.Row}
    (hsame : ∀ base : Vault, SameRows (S := vaultSchema) t base (base.overlay ws))
    (h : (updateRow t k change : Transaction _).Executes seen σ ws (.ok updated) ws') :
    UpdatesOrNot t k change seen σ (σ.overlay ws') := by
  rcases executes_updateRow.mp h with ⟨before, after, hbefore, hchange, -, hws⟩ |
    ⟨σ₀, hseen, hnone, -, hws⟩
  · rw [hws]
    exact Or.inl ⟨before, after, (hsame σ k).symm.trans hbefore, hchange, (hsame σ).write⟩
  · rw [hws]
    rw [hsame σ₀ k] at hnone
    exact Or.inr ⟨hsame σ, σ₀, hseen, hnone⟩

end Updates

section Change

variable (sha256 : Sha256) (seen : Vault → Prop) (σ σ' : Vault)

/-- What a step does to documents, workflows, derivatives, evidence and facts. -/
inductive DocumentChange : DocumentStep → DocumentAnswer → Prop
  /-- A pending document is inserted. -/
  | started {call : UploadStartCall} {answer : DocumentAnswer}
      (hnew : σ.get .documents call.generated.id = none)
      (hnewKey : σ.get .documentObjectKeys call.generated.objectKey = none)
      (hkeys : Replaces (S := vaultSchema) .documentObjectKeys call.generated.objectKey
        (some call.generated.id) σ σ')
      (hdocuments : Replaces (S := vaultSchema) .documents call.generated.id
        (some (pendingDocument call.context call.input call.generated)) σ σ') :
      DocumentChange (.startUpload call) answer
  /-- A pending document is quarantined, and its workflow inserted. -/
  | uploaded {call : UploadCompletionCall} {body : Json}
      (hdocuments : Updates .documents call.input.documentId
        (quarantinedDocument call.context call.input call.uploadedAt) σ σ')
      (hnew : σ.get .workflowRuns call.workflowId = none)
      (hworkflows : Replaces (S := vaultSchema) .workflowRuns call.workflowId
        (some (documentWorkflow call.context call.input.documentId call.workflowId)) σ σ') :
      DocumentChange (.completeUpload call) (.answer (.applied body))
  /-- Evidence and facts are inserted, and the workflow is completed. -/
  | extracted {call : ExtractionCall} {body : Json} (workflow : WorkflowRow)
      (hworkflow : σ.get .workflowRuns call.input.workflowId = some workflow)
      (hawaits : workflow.awaitsClassification call.context call.input = true)
      (hworkflows : Updates .workflowRuns call.input.workflowId
        (extractedWorkflowRow call.context call.input) σ σ')
      (hevidence : Inserts (S := vaultSchema) .evidence call.evidence σ σ')
      (hfacts : Inserts (S := vaultSchema) .facts call.facts σ σ') :
      DocumentChange (.extract call) (.answer (.applied body))
  /-- A scan is completed. -/
  | scanned {delivery : Delivery} {document : DocumentProcessingInput} {outcome : ScanOutcome}
      {answer : DocumentAnswer}
      (hdocuments : Updates .documents document.id
        (scannedDocument delivery.context document.version outcome delivery.now) σ σ')
      (hworkflows : Updates .workflowRuns document.workflowId
        (scannedWorkflow delivery.context document.workflowVersion outcome) σ σ') :
      DocumentChange (.completeScan delivery document outcome) answer
  /-- An OCR run is completed: its derivative is inserted, or it was there. -/
  | recognized {delivery : Delivery} {document : DocumentProcessingInput} {derivative : Sealed}
      {answer : DocumentAnswer} (σ₀ : Vault) (hseen : seen σ₀)
      (hderivatives : (σ.get .documentDerivatives (document.id, searchablePdf) = none ∧
          Replaces (S := vaultSchema) .documentDerivatives (document.id, searchablePdf)
            (some (ocrDerivative delivery.context document (sha256.ofCiphertext derivative)
              delivery.now)) σ σ') ∨
        (SameRows (S := vaultSchema) .documentDerivatives σ σ' ∧
          ∃ (σ₁ : Vault) (row : DocumentDerivativeRow), seen σ₁ ∧
            σ₁.get .documentDerivatives (document.id, searchablePdf) = some row ∧
            row.matchesOcr delivery.context document (sha256.ofCiphertext derivative) = true))
      (hworkflows : Updates .workflowRuns document.workflowId
        (recognizedWorkflow delivery.context document.workflowVersion
          ((σ₀.get .documents document.id).any (fun row : DocumentRow =>
            delivery.context.sees row && row.deleteOriginalAfterProcessing))) σ σ') :
      DocumentChange (.completeOcr delivery document derivative) answer
  /-- The deletion of an original is completed. -/
  | originalDeleted {delivery : Delivery} {document : DocumentProcessingInput}
      {answer : DocumentAnswer}
      (hdocuments : UpdatesOrNot .documents document.id
        (originalDeletedDocument delivery.context delivery.now) seen σ σ')
      (hworkflows : Updates .workflowRuns document.workflowId
          (originalDeletedWorkflow delivery.context) σ σ' ∨
        (SameRows (S := vaultSchema) .workflowRuns σ σ' ∧
          ∃ (σ₀ : Vault) (workflow : WorkflowRow), seen σ₀ ∧
            σ₀.get .workflowRuns document.workflowId = some workflow ∧
            "delete-original" ∈ workflow.completedSteps)) :
      DocumentChange (.completeDeletion delivery document) answer
  /-- A failure is recorded. -/
  | failed {delivery : Delivery} {document : DocumentProcessingInput} {errorClass : String}
      {answer : DocumentAnswer}
      (hdocuments : UpdatesOrNot .documents document.id
        (failedDocument delivery.context errorClass) seen σ σ')
      (hworkflows : UpdatesOrNot .workflowRuns document.workflowId
        (failedWorkflow delivery.context errorClass) seen σ σ') :
      DocumentChange (.recordFailure delivery document errorClass) answer
  /-- Another step, or the replay of a stored response. -/
  | other {step : DocumentStep} {answer : DocumentAnswer}
      (hdocuments : SameRows (S := vaultSchema) .documents σ σ')
      (hkeys : SameRows (S := vaultSchema) .documentObjectKeys σ σ')
      (hworkflows : SameRows (S := vaultSchema) .workflowRuns σ σ')
      (hderivatives : SameRows (S := vaultSchema) .documentDerivatives σ σ')
      (hevidence : SameRows (S := vaultSchema) .evidence σ σ')
      (hfacts : SameRows (S := vaultSchema) .facts σ σ')
      (hreplayed : ∀ body, answer ≠ .answer (.applied body))
      (hstep : step.replays = true ∨ ∀ t ∈ documentTables, t ∉ step.tables) :
      DocumentChange step answer

end Change

section Executes

variable {sha256 : Sha256} {seen : Vault → Prop} {σ : Vault} {ws ws' : List (Write vaultSchema)}

/-- A step that leaves the tables alone. -/
theorem DocumentChange.of_tables {step : DocumentStep} {answer : DocumentAnswer}
    (htables : ∀ t ∈ documentTables, t ∉ step.tables)
    (hreplayed : ∀ body, answer ≠ .answer (.applied body))
    (h : (documentProgram sha256 step).Executes seen σ [] (.ok answer) ws') :
    DocumentChange sha256 seen σ (σ.overlay ws') step answer := by
  have hsame : ∀ t ∈ documentTables, SameRows (S := vaultSchema) t σ (σ.overlay ws') :=
    fun t ht => (documentProgram_leaves sha256 (htables t ht)).sameRows h
  exact .other (hsame _ (by decide)) (hsame _ (by decide)) (hsame _ (by decide))
    (hsame _ (by decide)) (hsame _ (by decide)) (hsame _ (by decide)) hreplayed (Or.inr htables)

/-- A replay changes nothing. -/
theorem DocumentChange.replayed {step : DocumentStep} {answer : DocumentAnswer}
    (hstep : step.replays = true) (hreplayed : ∀ body, answer ≠ .answer (.applied body)) :
    DocumentChange sha256 seen σ (σ.overlay []) step answer :=
  .other (SameRows.refl (S := vaultSchema) _ σ) (SameRows.refl (S := vaultSchema) _ σ)
    (SameRows.refl (S := vaultSchema) _ σ) (SameRows.refl (S := vaultSchema) _ σ)
    (SameRows.refl (S := vaultSchema) _ σ) (SameRows.refl (S := vaultSchema) _ σ) hreplayed
    (Or.inl hstep)

/-- A record writes to its own table only. -/
theorem sameRows_idempotencyRecord {t : VaultTable} (h : t ≠ .idempotencyRecords)
    (k : Identifier × Identifier × String) (record : Option IdempotencyRow) (base : Vault) :
    SameRows (S := vaultSchema) t base
      (base.overlay [⟨VaultTable.idempotencyRecords, k, record⟩]) :=
  sameRows_write (S := vaultSchema) base h

theorem documentChange_startUpload {call : UploadStartCall} {answer : DocumentAnswer}
    (h : (documentProgram sha256 (.startUpload call)).Executes seen σ [] (.ok answer) ws') :
    DocumentChange sha256 seen σ (σ.overlay ws') (.startUpload call) answer := by
  obtain ⟨document, ws₁, hstart, hanswer, hws⟩ := executes_bind_ok.mp h
  obtain ⟨stored, ws₂, hrecord, hpending⟩ := executes_bind_ok.mp hstart
  have hread : ws₁ = ws₂ := by
    split at hpending
    · exact (getPendingDocumentUpload_readOnly _ _).executes hpending
    · exact absurd hpending.1 (by simp)
  rw [hws, hread]
  rcases executes_withTenantRecord (startUploadMutation_leaves (by decide) (by decide) _ _ _)
    hrecord with ⟨body, -, hws₂⟩ | ⟨body, reserved, completed, ws₃, -, hmutation, hws₂⟩
  · rw [hws₂]
    refine .replayed rfl (fun body hbody => ?_)
    rw [hbody] at hanswer
    exact absurd hanswer (by simp)
  · obtain ⟨objectKey, ws₄, hkey, hrest⟩ := executes_bind_ok.mp hmutation
    obtain ⟨hnewKey, -, hws₄⟩ := executes_insertRow_ok hkey
    obtain ⟨inserted, ws₅, hinsert, -, hws₃⟩ := executes_bind_ok.mp hrest
    obtain ⟨hnew, -, hws₅⟩ := executes_insertRow_ok hinsert
    have hkeys : SameRows (S := vaultSchema) .documentObjectKeys σ
        (σ.overlay [⟨.idempotencyRecords, call.context.recordKey call.key, some reserved⟩]) :=
      sameRows_idempotencyRecord (by decide) _ _ σ
    have hdocuments : SameRows (S := vaultSchema) .documents σ (σ.overlay ws₄) := by
      rw [hws₄]
      exact (sameRows_idempotencyRecord (by decide) _ _ σ).writeOther (by decide)
    rw [hws₂, hws₃, hws₅]
    refine .started ((hdocuments _).symm.trans hnew) ((hkeys _).symm.trans hnewKey) ?_
      (hdocuments.write.writeOther (by decide))
    rw [hws₄]
    exact (hkeys.write.writeOther (by decide)).writeOther (by decide)

theorem documentChange_completeUpload {call : UploadCompletionCall} {answer : DocumentAnswer}
    (h : (documentProgram sha256 (.completeUpload call)).Executes seen σ [] (.ok answer) ws') :
    DocumentChange sha256 seen σ (σ.overlay ws') (.completeUpload call) answer := by
  obtain ⟨stored, ws₁, hrecord, hanswer, hws⟩ := executes_bind_ok.mp h
  obtain rfl := Except.ok.inj hanswer
  rw [hws]
  rcases executes_withTenantRecord (completeUploadMutation_leaves (by decide) (by decide) _ _ _ _)
    hrecord with ⟨body, hstored, hws₁⟩ | ⟨body, reserved, completed, ws₂, hstored, hmutation, hws₁⟩
  · rw [hws₁, hstored]
    exact .replayed rfl (by simp)
  · obtain ⟨updated, ws₃, hupdate, hrest⟩ := executes_bind_ok.mp hmutation
    cases updated with
    | none => exact absurd hrest.1 (by simp)
    | some document =>
      obtain ⟨inserted, ws₄, hinsert, -, hws₂⟩ :=
        executes_bind_ok.mp (executes_of_requireUnique hrest)
      obtain ⟨hnew, -, hws₄⟩ := executes_insertRow_ok hinsert
      have hdocuments : Updates .documents call.input.documentId
          (quarantinedDocument call.context call.input call.uploadedAt) σ (σ.overlay ws₃) :=
        Updates.of_executes (sameRows_idempotencyRecord (by decide) _ _ σ) hupdate
      have hworkflows : SameRows (S := vaultSchema) .workflowRuns σ (σ.overlay ws₃) :=
        (sameRows_idempotencyRecord (by decide) _ _ σ).trans
          (Leaves.sameRows (writes_updateRow (fun _ _ _ => by decide)) hupdate)
      rw [hws₁, hws₂, hws₄, hstored]
      refine .uploaded (hdocuments.then_same ?_) ((hworkflows _).symm.trans hnew)
        (hworkflows.write.writeOther (by decide))
      exact ((SameRows.refl (S := vaultSchema) .documents _).writeOther (by decide)).writeOther
        (by decide)

/-- The candidates of an extraction are inserted one after the other. -/
theorem executes_insertCandidates {context : TenantContext} {documentId : Identifier}
    {capturedAt : Instant} {candidates : List ManualCandidateWrite} {facts : List FactRow}
    (h : (forEach candidates (insertCandidate context documentId capturedAt)).Executes seen σ ws
      (.ok facts) ws') :
    Inserts (S := vaultSchema) .evidence (candidates.map (fun candidate =>
        (candidate.evidenceId, candidate.evidence context documentId capturedAt)))
      (σ.overlay ws) (σ.overlay ws') ∧
    Inserts (S := vaultSchema) .facts (candidates.map (fun candidate =>
        (candidate.id, candidate.fact context documentId))) (σ.overlay ws) (σ.overlay ws') := by
  induction candidates generalizing ws facts with
  | nil =>
    obtain ⟨-, rfl⟩ := h
    exact ⟨(SameRows.refl (S := vaultSchema) _ _).inserts,
      (SameRows.refl (S := vaultSchema) _ _).inserts⟩
  | cons candidate candidates ih =>
    obtain ⟨fact, ws₁, hfirst, hrest⟩ := executes_bind_ok.mp h
    obtain ⟨rest, ws₂, hlater, -, rfl⟩ := executes_bind_ok.mp hrest
    obtain ⟨evidence, ws₃, hevidence, hfact⟩ := executes_bind_ok.mp hfirst
    obtain ⟨hnewEvidence, -, hws₃⟩ := executes_insertRow_ok hevidence
    obtain ⟨hnewFact, -, hws₁⟩ := executes_insertRow_ok hfact
    obtain ⟨hevidences, hfacts⟩ := ih hlater
    subst hws₁ hws₃
    have hother : SameRows (S := vaultSchema) .facts (σ.overlay ws) (σ.overlay
        (⟨VaultTable.evidence, candidate.evidenceId,
          some (candidate.evidence context documentId capturedAt)⟩ :: ws)) :=
      (SameRows.refl (S := vaultSchema) _ _).writeOther (by decide)
    have hinserted : Replaces (S := vaultSchema) .evidence candidate.evidenceId
        (some (candidate.evidence context documentId capturedAt)) (σ.overlay ws) (σ.overlay
          (⟨VaultTable.facts, candidate.id, some (candidate.fact context documentId)⟩ ::
            ⟨VaultTable.evidence, candidate.evidenceId,
              some (candidate.evidence context documentId capturedAt)⟩ :: ws)) :=
      (SameRows.refl (S := vaultSchema) _ _).write.writeOther (by decide)
    exact ⟨hevidences.after hnewEvidence hinserted,
      hfacts.after ((hother _).symm.trans hnewFact) hother.write⟩

theorem documentChange_extract {call : ExtractionCall} {answer : DocumentAnswer}
    (h : (documentProgram sha256 (.extract call)).Executes seen σ [] (.ok answer) ws') :
    DocumentChange sha256 seen σ (σ.overlay ws') (.extract call) answer := by
  obtain ⟨stored, ws₁, hrecord, hanswer, hws⟩ := executes_bind_ok.mp h
  obtain rfl := Except.ok.inj hanswer
  rw [hws]
  rcases executes_withTenantRecord
    (manualExtractionMutation_leaves (by decide) (by decide) (by decide) _ _ _) hrecord with
    ⟨body, hstored, hws₁⟩ | ⟨body, reserved, completed, ws₂, hstored, hmutation, hws₁⟩
  · rw [hws₁, hstored]
    exact .replayed rfl (by simp)
  · obtain ⟨document, ws₃, hselect, hlocking⟩ := executes_bind_ok.mp hmutation
    obtain ⟨-, -, -, hws₃⟩ := executes_select.mp hselect
    have hreserved : ∀ t : VaultTable, t ≠ .idempotencyRecords →
        SameRows (S := vaultSchema) t σ (σ.overlay ws₃) := by
      intro t ht
      rw [hws₃]
      exact sameRows_idempotencyRecord ht _ _ σ
    cases document with
    | none => exact absurd hlocking.1 (by simp)
    | some document =>
      obtain ⟨locked, ws₄, hlock, hinserting⟩ := executes_bind_ok.mp hlocking
      cases locked with
      | none => exact absurd hinserting.1 (by simp)
      | some workflow =>
        obtain ⟨facts, ws₅, hfacts, hcompleting⟩ := executes_bind_ok.mp hinserting
        obtain ⟨updated, ws₆, hupdate, hdone⟩ := executes_bind_ok.mp hcompleting
        cases updated with
        | none => exact absurd hdone.1 (by simp)
        | some after =>
          obtain ⟨hworkflow, hawaits, hws₄⟩ := executes_lockRow_some hlock
          obtain ⟨before, hbefore, hchange, hws₆⟩ := executes_updateRow_some hupdate
          have hinsertions : SameRows (S := vaultSchema) .workflowRuns (σ.overlay ws₄)
              (σ.overlay ws₅) :=
            Leaves.sameRows (writes_forEach (fun candidate => writes_bind
              (writes_insertRow (by decide)) (fun _ => writes_insertRow (by decide)))) hfacts
          have hworkflows : Replaces (S := vaultSchema) .workflowRuns call.input.workflowId
              (some workflow) σ (σ.overlay ws₅) := by
            rw [hws₄] at hinsertions
            exact (hreserved .workflowRuns (by decide)).write.then_same hinsertions
          obtain rfl : before = workflow :=
            Option.some.inj (hbefore.symm.trans hworkflows.row)
          have hfound : σ.get .workflowRuns call.input.workflowId = some before :=
            (hreserved .workflowRuns (by decide) _).symm.trans hworkflow
          obtain ⟨hevidence, hfacts⟩ := executes_insertCandidates hfacts
          have hbefore₄ : ∀ t : VaultTable, t ≠ .idempotencyRecords → t ≠ .workflowRuns →
              SameRows (S := vaultSchema) t σ (σ.overlay ws₄) := by
            intro t ht hne
            rw [hws₄]
            exact (hreserved t ht).writeOther hne
          have hafter₅ : ∀ t : VaultTable, t ≠ .idempotencyRecords → t ≠ .workflowRuns →
              SameRows (S := vaultSchema) t (σ.overlay ws₅) (σ.overlay ws₁) := by
            intro t ht hne
            rw [hws₁, hdone.2, hws₆]
            exact ((SameRows.refl (S := vaultSchema) t _).writeOther hne).writeOther ht
          rw [hstored]
          refine .extracted before hfound hawaits ⟨before, after, hfound, hchange, ?_⟩
            ((hevidence.after_same (hbefore₄ _ (by decide) (by decide))).then_same
              (hafter₅ _ (by decide) (by decide)))
            ((hfacts.after_same (hbefore₄ _ (by decide) (by decide))).then_same
              (hafter₅ _ (by decide) (by decide)))
          rw [hws₁, hdone.2, hws₆]
          exact hworkflows.rewrite.writeOther (by decide)

theorem documentChange_completeScan {delivery : Delivery} {document : DocumentProcessingInput}
    {outcome : ScanOutcome} {answer : DocumentAnswer}
    (h : (documentProgram sha256 (.completeScan delivery document outcome)).Executes seen σ []
      (.ok answer) ws') :
    DocumentChange sha256 seen σ (σ.overlay ws') (.completeScan delivery document outcome)
      answer := by
  obtain ⟨u, ws₁, hscan, -, hws⟩ := executes_bind_ok.mp h
  obtain ⟨updated, ws₂, hdocument, hadvancing⟩ := executes_bind_ok.mp hscan
  cases updated with
  | none => exact absurd hadvancing.1 (by simp)
  | some row =>
    obtain ⟨advanced, ws₃, hworkflow, hdone⟩ := executes_bind_ok.mp hadvancing
    cases advanced with
    | none => exact absurd hdone.1 (by simp)
    | some workflow =>
      rw [hws, hdone.2]
      have hupdated : Updates .documents document.id
          (scannedDocument delivery.context document.version outcome delivery.now) σ
          (σ.overlay ws₂) :=
        Updates.of_executes (SameRows.refl (S := vaultSchema) _ σ) hdocument
      have hworkflows : SameRows (S := vaultSchema) .workflowRuns σ (σ.overlay ws₂) :=
        Leaves.sameRows (writes_updateRow (fun _ _ _ => by decide)) hdocument
      have hdocuments : SameRows (S := vaultSchema) .documents (σ.overlay ws₂) (σ.overlay ws₃) :=
        Leaves.sameRows (writes_updateRow (fun _ _ _ => by decide)) hworkflow
      exact .scanned (hupdated.then_same hdocuments) (Updates.of_executes hworkflows hworkflow)

theorem documentChange_completeOcr {delivery : Delivery} {document : DocumentProcessingInput}
    {derivative : Sealed} {answer : DocumentAnswer}
    (h : (documentProgram sha256 (.completeOcr delivery document derivative)).Executes seen σ []
      (.ok answer) ws') :
    DocumentChange sha256 seen σ (σ.overlay ws') (.completeOcr delivery document derivative)
      answer := by
  obtain ⟨u, ws₁, hocr, -, hws⟩ := executes_bind_ok.mp h
  obtain ⟨inserted, ws₂, hinsert, hrecording⟩ := executes_bind_ok.mp hocr
  obtain ⟨recorded, ws₃, hselect, hflagging⟩ := executes_bind_ok.mp hrecording
  obtain ⟨σ₁, hseen₁, hrecorded, hws₃⟩ := executes_select.mp hselect
  cases recorded with
  | false => exact absurd hflagging.1 (by simp)
  | true =>
    obtain ⟨deleteOriginal, ws₄, hflag, hadvancing⟩ := executes_bind_ok.mp hflagging
    obtain ⟨σ₀, hseen₀, hdeleteOriginal, hws₄⟩ := executes_select.mp hflag
    obtain ⟨advanced, ws₅, hworkflow, hdone⟩ := executes_bind_ok.mp hadvancing
    cases advanced with
    | none => exact absurd hdone.1 (by simp)
    | some workflow =>
      rw [hws, hdone.2]
      rw [hws₄, hws₃] at hworkflow
      have hleaves : ∀ t : VaultTable, t ≠ .documentDerivatives → ∀ base : Vault,
          SameRows (S := vaultSchema) t base (base.overlay ws₂) :=
        fun t ht base k => Leaves.executes (writes_insertOrIgnore ht) hinsert k base
      have hderivatives : SameRows (S := vaultSchema) .documentDerivatives (σ.overlay ws₂)
          (σ.overlay ws₅) :=
        Leaves.sameRows (writes_updateRow (fun _ _ _ => by decide)) hworkflow
      have hflagged : deleteOriginal = (σ₀.get .documents document.id).any
          (fun row : DocumentRow =>
            delivery.context.sees row && row.deleteOriginalAfterProcessing) := by
        rw [← hleaves .documents (by decide) σ₀ document.id, ← hws₃]
        exact Except.ok.inj hdeleteOriginal
      subst hflagged
      refine .recognized σ₀ hseen₀ ?_
        (Updates.of_executes (hleaves .workflowRuns (by decide) σ) hworkflow)
      rcases executes_insertOrIgnore.mp hinsert with ⟨hnone, -, hws₂⟩ |
        ⟨σ₂, old, -, -, -, hws₂⟩
      · refine Or.inl ⟨hnone, ?_⟩
        rw [hws₂] at hderivatives
        exact (SameRows.refl (S := vaultSchema) _ σ).write.then_same hderivatives
      · rw [hws₂] at hderivatives hrecorded
        obtain ⟨row, hrow, hmatches⟩ :=
          (Option.any_eq_true _ _).mp (Except.ok.inj hrecorded).symm
        exact Or.inr ⟨hderivatives, σ₁, row, hseen₁, hrow, hmatches⟩

theorem documentChange_completeDeletion {delivery : Delivery} {document : DocumentProcessingInput}
    {answer : DocumentAnswer}
    (h : (documentProgram sha256 (.completeDeletion delivery document)).Executes seen σ []
      (.ok answer) ws') :
    DocumentChange sha256 seen σ (σ.overlay ws') (.completeDeletion delivery document) answer := by
  obtain ⟨u, ws₁, hdeletion, -, hws⟩ := executes_bind_ok.mp h
  obtain ⟨updated, ws₂, hdocument, hadvancing⟩ := executes_bind_ok.mp hdeletion
  obtain ⟨advanced, ws₃, hworkflow, hcompleting⟩ := executes_bind_ok.mp hadvancing
  have hupdated : UpdatesOrNot .documents document.id
      (originalDeletedDocument delivery.context delivery.now) seen σ (σ.overlay ws₂) :=
    UpdatesOrNot.of_executes (fun base => SameRows.refl (S := vaultSchema) _ base) hdocument
  have hworkflows : ∀ base : Vault,
      SameRows (S := vaultSchema) .workflowRuns base (base.overlay ws₂) :=
    fun base k => Leaves.executes (writes_updateRow (fun _ _ _ => by decide)) hdocument k base
  have hdocuments : SameRows (S := vaultSchema) .documents (σ.overlay ws₂) (σ.overlay ws₃) :=
    Leaves.sameRows (writes_updateRow (fun _ _ _ => by decide)) hworkflow
  cases advanced with
  | some workflow =>
    rw [hws, hcompleting.2]
    exact .originalDeleted (hupdated.then_same hdocuments)
      (Or.inl (Updates.of_executes (hworkflows σ) hworkflow))
  | none =>
    obtain ⟨completed, ws₄, hselect, hdone⟩ := executes_bind_ok.mp hcompleting
    obtain ⟨σ₀, hseen, hcompleted, hws₄⟩ := executes_select.mp hselect
    have hkept : ws₃ = ws₂ := by
      rcases executes_updateRow.mp hworkflow with ⟨_, _, _, _, hout, _⟩ | ⟨_, _, _, _, hws₃⟩
      · exact absurd hout (by simp)
      · exact hws₃
    cases completed with
    | false => exact absurd hdone.1 (by simp)
    | true =>
      obtain ⟨workflow, hfound, hstep⟩ :=
        (Option.any_eq_true _ _).mp (Except.ok.inj hcompleted).symm
      rw [hkept, hworkflows σ₀ document.workflowId] at hfound
      rw [hws, hdone.2, hws₄]
      refine .originalDeleted (hupdated.then_same hdocuments)
        (Or.inr ⟨?_, σ₀, workflow, hseen, hfound, ?_⟩)
      · rw [hkept]
        exact hworkflows σ
      · exact List.contains_iff_mem.mp (Bool.and_eq_true_iff.mp hstep).2

theorem documentChange_recordFailure {delivery : Delivery} {document : DocumentProcessingInput}
    {errorClass : String} {answer : DocumentAnswer}
    (h : (documentProgram sha256 (.recordFailure delivery document errorClass)).Executes seen σ []
      (.ok answer) ws') :
    DocumentChange sha256 seen σ (σ.overlay ws') (.recordFailure delivery document errorClass)
      answer := by
  obtain ⟨u, ws₁, hfailure, -, hws⟩ := executes_bind_ok.mp h
  obtain ⟨updated, ws₂, hdocument, hfailing⟩ := executes_bind_ok.mp hfailure
  obtain ⟨failed, ws₃, hworkflow, -, hws₁⟩ := executes_bind_ok.mp hfailing
  have hupdated : UpdatesOrNot .documents document.id
      (failedDocument delivery.context errorClass) seen σ (σ.overlay ws₂) :=
    UpdatesOrNot.of_executes (fun base => SameRows.refl (S := vaultSchema) _ base) hdocument
  have hworkflows : ∀ base : Vault,
      SameRows (S := vaultSchema) .workflowRuns base (base.overlay ws₂) :=
    fun base k => Leaves.executes (writes_updateRow (fun _ _ _ => by decide)) hdocument k base
  have hdocuments : SameRows (S := vaultSchema) .documents (σ.overlay ws₂) (σ.overlay ws₃) :=
    Leaves.sameRows (writes_updateRow (fun _ _ _ => by decide)) hworkflow
  rw [hws, hws₁]
  exact .failed (hupdated.then_same hdocuments) (UpdatesOrNot.of_executes hworkflows hworkflow)

/-- A committed step makes its change. -/
theorem documentProgram_change {step : DocumentStep} {answer : DocumentAnswer}
    (h : (documentProgram sha256 step).Executes seen σ [] (.ok answer) ws') :
    DocumentChange sha256 seen σ (σ.overlay ws') step answer := by
  have hanswer : ∀ {α : Type} {p : Transaction α} {f : α → DocumentAnswer},
      (p >>= fun a => pure (f a)).Executes seen σ [] (.ok answer) ws' →
      (∀ a body, f a ≠ .answer (.applied body)) → ∀ body, answer ≠ .answer (.applied body) := by
    intro α p f hexec hf body
    obtain ⟨a, ws₁, -, hresult, -⟩ := executes_bind_ok.mp hexec
    rw [Except.ok.inj hresult]
    exact hf a body
  cases step with
  | startUpload call => exact documentChange_startUpload h
  | completeUpload call => exact documentChange_completeUpload h
  | extract call => exact documentChange_extract h
  | completeScan delivery document outcome => exact documentChange_completeScan h
  | completeOcr delivery document derivative => exact documentChange_completeOcr h
  | completeDeletion delivery document => exact documentChange_completeDeletion h
  | recordFailure delivery document errorClass => exact documentChange_recordFailure h
  | download call material =>
    refine .of_tables (by simp [documentTables, DocumentStep.tables]) (fun body hbody => ?_) h
    obtain ⟨ciphertext, ws₁, -, hcontent⟩ := executes_bind_ok.mp h
    rw [hbody] at hcontent
    split at hcontent
    · exact absurd hcontent.1 (by simp)
    · exact absurd hcontent.1 (by simp)
  | _ => exact .of_tables (by simp [documentTables, DocumentStep.tables]) (hanswer h (by simp)) h

/-- What a committed step does: its change, and nothing to the tables it does not write. -/
structure DocumentEffect (sha256 : Sha256) (seen : Vault → Prop) (σ σ' : Vault)
    (step : DocumentStep) (answer : DocumentAnswer) : Prop where
  change : DocumentChange sha256 seen σ σ' step answer
  same : ∀ t, t ∉ step.tables → SameRows (S := vaultSchema) t σ σ'

theorem documentProgram_effect {step : DocumentStep} {answer : DocumentAnswer}
    (h : (documentProgram sha256 step).Executes seen σ [] (.ok answer) ws') :
    DocumentEffect sha256 seen σ (σ.overlay ws') step answer :=
  ⟨documentProgram_change h, fun _ ht => (documentProgram_leaves sha256 ht).sameRows h⟩

end Executes

end LegacyVault
