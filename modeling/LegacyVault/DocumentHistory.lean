import LegacyVault.DocumentChanges

/-!
# What documents keep

Documents and their workflows are never deleted, and most of their columns
are written once. What a handler has read of a document is therefore still
so, up to the columns that later steps write.
-/

namespace LegacyVault

open JsonText RowTransaction RowTransaction.Program RowTransaction.Protocol Store

/-! ## Rows -/

/-- A document with only the columns that are written when it is inserted. -/
def DocumentRow.fixed (document : DocumentRow) : DocumentRow :=
  { document with
    status := .pending
    ciphertextSha256 := none
    uploadedAt := none
    processedAt := none
    lastErrorClass := none
    originalDeletedAt := none
    version := 0 }

/-- A document as a later state has it. -/
structure DocumentRow.Kept (before after : DocumentRow) : Prop where
  fixed : after.fixed = before.fixed
  /-- The checksum of an upload is written once. -/
  uploaded : before.status ≠ .pending →
    after.status ≠ .pending ∧ after.ciphertextSha256 = before.ciphertextSha256
  /-- The verdict of the scan is written once. -/
  scanned : before.status = .clean ∨ before.status = .rejected → after.status = before.status
  originalDeletedAt : ∀ at_, before.originalDeletedAt = some at_ →
    after.originalDeletedAt = some at_
  version : before.version ≤ after.version

/-- A workflow with only the columns that are written when it is inserted. -/
def WorkflowRow.fixed (workflow : WorkflowRow) : WorkflowRow :=
  { workflow with
    status := .pending
    completedSteps := []
    nextStep := none
    lastErrorClass := none
    version := 0 }

/-- A workflow as a later state has it. -/
structure WorkflowRow.Kept (before after : WorkflowRow) : Prop where
  fixed : after.fixed = before.fixed
  completedSteps : ∀ step ∈ before.completedSteps, step ∈ after.completedSteps
  version : before.version ≤ after.version

/-- The workflow processes a document. -/
def WorkflowRow.Concerns (workflow : WorkflowRow) (documentId : Identifier) : Prop :=
  workflow.subjectType = some "Document" ∧ workflow.subjectId = some documentId

theorem DocumentRow.Kept.refl (document : DocumentRow) : document.Kept document :=
  ⟨rfl, fun h => ⟨h, rfl⟩, fun _ => rfl, fun _ h => h, le_rfl⟩

theorem DocumentRow.Kept.trans (a b c : DocumentRow) (h : a.Kept b) (h' : b.Kept c) :
    a.Kept c where
  fixed := h'.fixed.trans h.fixed
  uploaded := by
    intro hstatus
    obtain ⟨hbetween, hfirst⟩ := h.uploaded hstatus
    obtain ⟨hafter, hsecond⟩ := h'.uploaded hbetween
    exact ⟨hafter, hsecond.trans hfirst⟩
  scanned := by
    intro hstatus
    have hbetween := h.scanned hstatus
    rw [← hbetween] at hstatus
    exact (h'.scanned hstatus).trans hbetween
  originalDeletedAt := fun at_ hat => h'.originalDeletedAt at_ (h.originalDeletedAt at_ hat)
  version := h.version.trans h'.version

theorem WorkflowRow.Kept.refl (workflow : WorkflowRow) : workflow.Kept workflow :=
  ⟨rfl, fun _ h => h, le_rfl⟩

theorem WorkflowRow.Kept.trans (a b c : WorkflowRow) (h : a.Kept b) (h' : b.Kept c) : a.Kept c :=
  ⟨h'.fixed.trans h.fixed, fun step hstep => h'.completedSteps step (h.completedSteps step hstep),
    h.version.trans h'.version⟩

/-- A column that is written once stays. -/
theorem DocumentRow.Kept.column {α : Type} {before after : DocumentRow} (h : before.Kept after)
    (column : DocumentRow → α) (hfixed : ∀ document : DocumentRow,
      column document.fixed = column document) : column after = column before := by
  rw [← hfixed after, h.fixed, hfixed]

/-- A column that is written once stays. -/
theorem WorkflowRow.Kept.column {α : Type} {before after : WorkflowRow} (h : before.Kept after)
    (column : WorkflowRow → α) (hfixed : ∀ workflow : WorkflowRow,
      column workflow.fixed = column workflow) : column after = column before := by
  rw [← hfixed after, h.fixed, hfixed]

theorem DocumentRow.Kept.id {before after : DocumentRow} (h : before.Kept after) :
    after.id = before.id := h.column DocumentRow.id (fun _ => rfl)

theorem DocumentRow.Kept.flag {before after : DocumentRow} (h : before.Kept after) :
    after.deleteOriginalAfterProcessing = before.deleteOriginalAfterProcessing :=
  h.column DocumentRow.deleteOriginalAfterProcessing (fun _ => rfl)

theorem DocumentRow.Kept.sees {before after : DocumentRow} (h : before.Kept after)
    (context : TenantContext) : context.sees after = context.sees before := by
  have horganization : after.organizationId = before.organizationId :=
    h.column DocumentRow.organizationId (fun _ => rfl)
  have hhousehold : after.householdId = before.householdId :=
    h.column DocumentRow.householdId (fun _ => rfl)
  simp only [TenantContext.sees, TenantRow.organizationOf, TenantRow.householdOf, horganization,
    hhousehold]

theorem WorkflowRow.Kept.id {before after : WorkflowRow} (h : before.Kept after) :
    after.id = before.id := h.column WorkflowRow.id (fun _ => rfl)

theorem WorkflowRow.Kept.concerns {before after : WorkflowRow} (h : before.Kept after)
    (documentId : Identifier) : after.Concerns documentId ↔ before.Concerns documentId := by
  have htype : after.subjectType = before.subjectType := h.column WorkflowRow.subjectType (fun _ => rfl)
  have hsubject : after.subjectId = before.subjectId := h.column WorkflowRow.subjectId (fun _ => rfl)
  rw [WorkflowRow.Concerns, WorkflowRow.Concerns, htype, hsubject]

theorem WorkflowRow.Kept.sees {before after : WorkflowRow} (h : before.Kept after)
    (context : TenantContext) : context.sees after = context.sees before := by
  have horganization : after.organizationId = before.organizationId :=
    h.column WorkflowRow.organizationId (fun _ => rfl)
  have hhousehold : after.householdId = before.householdId :=
    h.column WorkflowRow.householdId (fun _ => rfl)
  simp only [TenantContext.sees, TenantRow.organizationOf, TenantRow.householdOf, horganization,
    hhousehold]

section Changes

variable {context : TenantContext}

theorem quarantinedDocument_kept {input : UploadCompletionInput} {uploadedAt : Instant}
    {before after : DocumentRow}
    (h : quarantinedDocument context input uploadedAt before = some after) :
    before.Kept after := by
  unfold quarantinedDocument at h
  split at h
  · rename_i hguard
    obtain rfl := Option.some.inj h
    refine ⟨rfl, fun hstatus => absurd hguard.2.1 hstatus, fun hstatus => ?_, fun _ hat => hat,
      Nat.le_succ _⟩
    rw [hguard.2.1] at hstatus
    exact absurd hstatus (by decide)
  · exact absurd h (by simp)

theorem scannedDocument_kept {documentVersion : Nat} {outcome : ScanOutcome}
    {processedAt : Instant} {before after : DocumentRow}
    (h : scannedDocument context documentVersion outcome processedAt before = some after) :
    before.Kept after := by
  unfold scannedDocument at h
  split at h
  · rename_i hguard
    obtain rfl := Option.some.inj h
    refine ⟨rfl, fun _ => ⟨by cases outcome <;> exact DocumentStatus.noConfusion, rfl⟩,
      fun hstatus => ?_, fun _ hat => hat, Nat.le_succ _⟩
    rw [hguard.2.1] at hstatus
    exact absurd hstatus (by decide)
  · exact absurd h (by simp)

theorem failedDocument_kept {errorClass : String} {before after : DocumentRow}
    (h : failedDocument context errorClass before = some after) : before.Kept after := by
  unfold failedDocument at h
  split at h
  · obtain rfl := Option.some.inj h
    exact ⟨rfl, fun hstatus => ⟨hstatus, rfl⟩, fun _ => rfl, fun _ hat => hat, Nat.le_succ _⟩
  · exact absurd h (by simp)

theorem originalDeletedDocument_kept {deletedAt : Instant} {before after : DocumentRow}
    (h : originalDeletedDocument context deletedAt before = some after) : before.Kept after := by
  unfold originalDeletedDocument at h
  split at h
  · obtain rfl := Option.some.inj h
    refine ⟨rfl, fun hstatus => ⟨hstatus, rfl⟩, fun _ => rfl, fun at_ hat => ?_, ?_⟩
    · simp [hat]
    · simp only
      split
      · exact Nat.le_succ _
      · exact le_rfl
  · exact absurd h (by simp)

theorem mem_withStep {step : String} {completedSteps : List String} {other : String}
    (h : other ∈ completedSteps) : other ∈ withStep step completedSteps := by
  unfold withStep
  split
  · exact h
  · exact List.mem_append_left _ h

theorem mem_withStep_self {step : String} {completedSteps : List String} :
    step ∈ withStep step completedSteps := by
  unfold withStep
  split
  · assumption
  · exact List.mem_append_right _ List.mem_cons_self

theorem scannedWorkflow_kept {workflowVersion : Nat} {outcome : ScanOutcome}
    {before after : WorkflowRow}
    (h : scannedWorkflow context workflowVersion outcome before = some after) :
    before.Kept after := by
  unfold scannedWorkflow at h
  split at h
  · obtain rfl := Option.some.inj h
    exact ⟨rfl, fun _ => mem_withStep, Nat.le_succ _⟩
  · exact absurd h (by simp)

theorem failedWorkflow_kept {errorClass : String} {before after : WorkflowRow}
    (h : failedWorkflow context errorClass before = some after) : before.Kept after := by
  unfold failedWorkflow at h
  split at h
  · obtain rfl := Option.some.inj h
    exact ⟨rfl, fun _ hstep => hstep, Nat.le_succ _⟩
  · exact absurd h (by simp)

theorem recognizedWorkflow_kept {workflowVersion : Nat} {deleteOriginal : Bool}
    {before after : WorkflowRow}
    (h : recognizedWorkflow context workflowVersion deleteOriginal before = some after) :
    before.Kept after := by
  unfold recognizedWorkflow at h
  split at h
  · obtain rfl := Option.some.inj h
    exact ⟨rfl, fun _ => mem_withStep, Nat.le_succ _⟩
  · exact absurd h (by simp)

theorem originalDeletedWorkflow_kept {before after : WorkflowRow}
    (h : originalDeletedWorkflow context before = some after) : before.Kept after := by
  unfold originalDeletedWorkflow at h
  split at h
  · obtain rfl := Option.some.inj h
    exact ⟨rfl, fun _ => mem_withStep, Nat.le_succ _⟩
  · exact absurd h (by simp)

theorem extractedWorkflowRow_kept {input : ManualExtractionInput} {before after : WorkflowRow}
    (h : extractedWorkflowRow context input before = some after) : before.Kept after := by
  unfold extractedWorkflowRow at h
  split at h
  · obtain rfl := Option.some.inj h
    exact ⟨rfl, fun _ hstep => List.mem_append_left _ hstep, Nat.le_succ _⟩
  · exact absurd h (by simp)

end Changes

/-! ## Stores -/

/-- Documents, workflows, derivatives and object keys stay. -/
structure DocumentsKept (σ σ' : Vault) : Prop where
  documents : Keeps (S := vaultSchema) .documents DocumentRow.Kept σ σ'
  workflows : Keeps (S := vaultSchema) .workflowRuns WorkflowRow.Kept σ σ'
  derivatives : Keeps (S := vaultSchema) .documentDerivatives Eq σ σ'
  objectKeys : Keeps (S := vaultSchema) .documentObjectKeys Eq σ σ'

theorem DocumentsKept.refl (σ : Vault) : DocumentsKept σ σ :=
  ⟨(SameRows.refl (S := vaultSchema) _ σ).keeps DocumentRow.Kept.refl,
    (SameRows.refl (S := vaultSchema) _ σ).keeps WorkflowRow.Kept.refl,
    (SameRows.refl (S := vaultSchema) _ σ).keeps (fun _ => rfl),
    (SameRows.refl (S := vaultSchema) _ σ).keeps (fun _ => rfl)⟩

theorem DocumentsKept.trans {σ₁ σ₂ σ₃ : Vault} (h : DocumentsKept σ₁ σ₂)
    (h' : DocumentsKept σ₂ σ₃) : DocumentsKept σ₁ σ₃ :=
  ⟨h.documents.trans DocumentRow.Kept.trans h'.documents,
    h.workflows.trans WorkflowRow.Kept.trans h'.workflows,
    h.derivatives.trans (fun _ _ _ hab hbc => hab.trans hbc) h'.derivatives,
    h.objectKeys.trans (fun _ _ _ hab hbc => hab.trans hbc) h'.objectKeys⟩

section Keeps

variable {t : VaultTable} {k : t.Key} {change : t.Row → Option t.Row} {seen : Vault → Prop}
  {σ σ' : Vault} {kept : t.Row → t.Row → Prop}

theorem Updates.keeps (hrefl : ∀ row, kept row row)
    (hkept : ∀ before after, change before = some after → kept before after)
    (h : Updates t k change σ σ') : Keeps (S := vaultSchema) t kept σ σ' := by
  obtain ⟨before, after, hbefore, hchange, hreplaces⟩ := h
  refine hreplaces.keeps hrefl (fun row hrow => ?_)
  obtain rfl := Option.some.inj (hbefore.symm.trans hrow)
  exact hkept _ _ hchange

theorem UpdatesOrNot.keeps (hrefl : ∀ row, kept row row)
    (hkept : ∀ before after, change before = some after → kept before after)
    (h : UpdatesOrNot t k change seen σ σ') : Keeps (S := vaultSchema) t kept σ σ' := by
  rcases h with hupdates | ⟨hsame, -⟩
  · exact Updates.keeps hrefl hkept hupdates
  · exact hsame.keeps hrefl

end Keeps

/-- Every committed step keeps documents, workflows, derivatives and object keys. -/
theorem DocumentEffect.kept {sha256 : Sha256} {seen : Vault → Prop} {σ σ' : Vault}
    {step : DocumentStep} {answer : DocumentAnswer}
    (h : DocumentEffect sha256 seen σ σ' step answer) : DocumentsKept σ σ' := by
  have hsame : ∀ t, t ∉ step.tables → SameRows (S := vaultSchema) t σ σ' := h.same
  have hdocuments : VaultTable.documents ∉ step.tables →
      Keeps (S := vaultSchema) .documents DocumentRow.Kept σ σ' :=
    fun ht => (hsame _ ht).keeps DocumentRow.Kept.refl
  have hworkflows : VaultTable.workflowRuns ∉ step.tables →
      Keeps (S := vaultSchema) .workflowRuns WorkflowRow.Kept σ σ' :=
    fun ht => (hsame _ ht).keeps WorkflowRow.Kept.refl
  have hderivatives : VaultTable.documentDerivatives ∉ step.tables →
      Keeps (S := vaultSchema) .documentDerivatives Eq σ σ' :=
    fun ht => (hsame _ ht).keeps (fun _ => rfl)
  have hkeys : VaultTable.documentObjectKeys ∉ step.tables →
      Keeps (S := vaultSchema) .documentObjectKeys Eq σ σ' :=
    fun ht => (hsame _ ht).keeps (fun _ => rfl)
  cases h.change with
  | started hnew hnewKey hreplacesKey hreplaces =>
    refine ⟨hreplaces.keeps DocumentRow.Kept.refl (fun before hbefore => ?_),
      hworkflows (by simp [DocumentStep.tables]), hderivatives (by simp [DocumentStep.tables]),
      hreplacesKey.keeps (fun _ => rfl) (fun before hbefore => ?_)⟩
    · exact absurd (hbefore.symm.trans hnew) (by simp)
    · exact absurd (hbefore.symm.trans hnewKey) (by simp)
  | uploaded hdocument hnew hworkflow =>
    refine ⟨hdocument.keeps DocumentRow.Kept.refl (fun _ _ => quarantinedDocument_kept),
      hworkflow.keeps WorkflowRow.Kept.refl (fun before hbefore => ?_),
      hderivatives (by simp [DocumentStep.tables]), hkeys (by simp [DocumentStep.tables])⟩
    exact absurd (hbefore.symm.trans hnew) (by simp)
  | extracted workflow hfound hawaits hworkflow hevidence hfacts =>
    exact ⟨hdocuments (by simp [DocumentStep.tables]),
      hworkflow.keeps WorkflowRow.Kept.refl (fun _ _ => extractedWorkflowRow_kept),
      hderivatives (by simp [DocumentStep.tables]), hkeys (by simp [DocumentStep.tables])⟩
  | scanned hdocument hworkflow =>
    exact ⟨hdocument.keeps DocumentRow.Kept.refl (fun _ _ => scannedDocument_kept),
      hworkflow.keeps WorkflowRow.Kept.refl (fun _ _ => scannedWorkflow_kept),
      hderivatives (by simp [DocumentStep.tables]), hkeys (by simp [DocumentStep.tables])⟩
  | recognized σ₀ hseen hderivative hworkflow =>
    refine ⟨hdocuments (by simp [DocumentStep.tables]),
      hworkflow.keeps WorkflowRow.Kept.refl (fun _ _ => recognizedWorkflow_kept), ?_,
      hkeys (by simp [DocumentStep.tables])⟩
    rcases hderivative with ⟨hnone, hreplaces⟩ | ⟨hrows, -⟩
    · exact hreplaces.keeps (fun _ => rfl)
        (fun before hbefore => absurd (hbefore.symm.trans hnone) (by simp))
    · exact hrows.keeps (fun _ => rfl)
  | originalDeleted hdocument hworkflow =>
    refine ⟨hdocument.keeps DocumentRow.Kept.refl (fun _ _ => originalDeletedDocument_kept), ?_,
      hderivatives (by simp [DocumentStep.tables]), hkeys (by simp [DocumentStep.tables])⟩
    rcases hworkflow with hupdates | ⟨hrows, -⟩
    · exact hupdates.keeps WorkflowRow.Kept.refl (fun _ _ => originalDeletedWorkflow_kept)
    · exact hrows.keeps WorkflowRow.Kept.refl
  | failed hdocument hworkflow =>
    exact ⟨hdocument.keeps DocumentRow.Kept.refl (fun _ _ => failedDocument_kept),
      hworkflow.keeps WorkflowRow.Kept.refl (fun _ _ => failedWorkflow_kept),
      hderivatives (by simp [DocumentStep.tables]), hkeys (by simp [DocumentStep.tables])⟩
  | other hdocuments hkeys hworkflows hderivatives _ _ _ _ =>
    exact ⟨hdocuments.keeps DocumentRow.Kept.refl, hworkflows.keeps WorkflowRow.Kept.refl,
      hderivatives.keeps (fun _ => rfl), hkeys.keeps (fun _ => rfl)⟩

/-! ## Reads -/

/-- A vault in which no document has been uploaded. -/
structure NoDocuments (init : Vault) : Prop where
  documents : ∀ k, init.get .documents k = none
  objectKeys : ∀ key, init.get .documentObjectKeys key = none
  derivatives : ∀ k, init.get .documentDerivatives k = none
  workflows : ∀ w workflow, init.get .workflowRuns w = some workflow →
    workflow.id = w ∧ workflow.subjectType ≠ some "Document"
  evidence : ∀ e row, init.get .evidence e = some row → row.sourceType ≠ .document
  facts : ∀ f row, init.get .facts f = some row → row.sourceType ≠ .document

theorem noDocuments_empty : NoDocuments Store.empty :=
  ⟨fun _ => rfl, fun _ => rfl, fun _ => rfl, fun _ _ h => absurd h (by simp),
    fun _ _ h => absurd h (by simp), fun _ _ h => absurd h (by simp)⟩

/-- Documents and workflows carry their keys. -/
structure DocumentKeys (σ : Vault) : Prop where
  documents : ∀ k document, σ.get .documents k = some document → document.id = k
  workflows : ∀ w workflow, σ.get .workflowRuns w = some workflow → workflow.id = w

/-- What a handler has read was so, and the rows have been kept since. -/
structure ReadOf (σ : Vault) (context : TenantContext) (document : DocumentProcessingInput)
    (row : DocumentRow) (workflow : WorkflowRow) : Prop where
  found : σ.get .documents document.id = some row
  foundWorkflow : σ.get .workflowRuns document.workflowId = some workflow
  read : ∃ (row₀ : DocumentRow) (workflow₀ : WorkflowRow) (wrappedDataKey : Sealed),
    row₀.wrappedDataKey = some wrappedDataKey ∧
    document = processingInput row₀ workflow₀ wrappedDataKey ∧ row₀.Kept row ∧
    workflow₀.Kept workflow
  concerns : workflow.Concerns document.id
  seesRow : context.sees row = true
  seesWorkflow : context.sees workflow = true

/-- A selected processing input comes from a document and its workflow. -/
theorem processingInputOf_eq_some {context : TenantContext} {workflowId : Identifier} {σ : Vault}
    {document : DocumentProcessingInput} (hkeys : DocumentKeys σ)
    (h : processingInputOf context workflowId σ = some document) :
    ∃ row workflow, ReadOf σ context document row workflow ∧
      document.nextStep = workflow.nextStep ∧ document.status = row.status := by
  obtain ⟨workflow, hworkflow, hdocument⟩ := Option.bind_eq_some_iff.mp h
  obtain ⟨row, hrow, hwrapped⟩ := Option.bind_eq_some_iff.mp hdocument
  obtain ⟨wrappedDataKey, hkey, hinput⟩ := Option.bind_eq_some_iff.mp hwrapped
  obtain ⟨hget, hseesWorkflow⟩ := Option.filter_eq_some_iff.mp hworkflow
  obtain ⟨hfound, hseesRow⟩ := Option.filter_eq_some_iff.mp hrow
  have hworkflowId : workflow.id = workflowId := hkeys.workflows _ _ hget
  unfold WorkflowRow.document at hfound
  split at hfound
  · rename_i htype
    obtain ⟨documentId, hsubject, hstored⟩ := Option.bind_eq_some_iff.mp hfound
    have hdocumentId : row.id = documentId := hkeys.documents _ _ hstored
    subst hworkflowId hdocumentId
    obtain rfl := Option.some.inj hinput
    exact ⟨row, workflow, ⟨hstored, hget, ⟨row, workflow, wrappedDataKey, hkey, rfl,
      .refl row, .refl workflow⟩, ⟨htype, hsubject⟩, hseesRow, hseesWorkflow⟩, rfl, rfl⟩
  · exact absurd hfound (by simp)

/-- A read stays one while rows are kept. -/
theorem ReadOf.later {σ σ' : Vault} {context : TenantContext} {document : DocumentProcessingInput}
    {row : DocumentRow} {workflow : WorkflowRow} (h : ReadOf σ context document row workflow)
    (hkept : DocumentsKept σ σ') :
    ∃ row' workflow', ReadOf σ' context document row' workflow' ∧ row.Kept row' ∧
      workflow.Kept workflow' := by
  obtain ⟨row', hrow', hkeptRow⟩ := hkept.documents _ _ h.found
  obtain ⟨workflow', hworkflow', hkeptWorkflow⟩ := hkept.workflows _ _ h.foundWorkflow
  obtain ⟨row₀, workflow₀, wrappedDataKey, hkey, hinput, hrow₀, hworkflow₀⟩ := h.read
  refine ⟨row', workflow', ⟨hrow', hworkflow', ⟨row₀, workflow₀, wrappedDataKey, hkey, hinput,
    hrow₀.trans _ _ _ hkeptRow, hworkflow₀.trans _ _ _ hkeptWorkflow⟩, ?_, ?_, ?_⟩, hkeptRow,
    hkeptWorkflow⟩
  · exact (hkeptWorkflow.concerns _).mpr h.concerns
  · exact (hkeptRow.sees context).trans h.seesRow
  · exact (hkeptWorkflow.sees context).trans h.seesWorkflow

/-- The delivery of a handler's step, and the document it has read. -/
def DocumentStep.processes : DocumentStep → Option (Delivery × DocumentProcessingInput)
  | .fetch delivery document | .markClean delivery document _ | .completeScan delivery document _
  | .putDerivative delivery document _ | .completeOcr delivery document _
  | .deleteOriginal delivery document | .completeDeletion delivery document
  | .recordFailure delivery document _ => some (delivery, document)
  | .startUpload _ | .pendingForUrl _ | .upload _ _ _ _ | .pendingForCompletion _
  | .assertStored _ _ | .completeUpload _ | .extract _ | .read _ | .material _
  | .checkStatus _ _ | .download _ _ => none

/-- What is recorded of documents, and what has been read of them. -/
structure DocumentRecords (log : List DocumentEntry) (σ : Vault) : Prop where
  keys : DocumentKeys σ
  reads : ∀ delivery document, HasRead log delivery document →
    ∃ row workflow, ReadOf σ delivery.context document row workflow
  /-- Every step of a handler follows its read. -/
  processes : ∀ entry ∈ log, ∀ delivery document,
    entry.request.processes = some (delivery, document) → HasRead log delivery document

/-- Every committed step keeps the keys of documents and workflows. -/
theorem DocumentEffect.keys {sha256 : Sha256} {seen : Vault → Prop} {σ σ' : Vault}
    {step : DocumentStep} {answer : DocumentAnswer}
    (h : DocumentEffect sha256 seen σ σ' step answer) (hkeys : DocumentKeys σ) :
    DocumentKeys σ' := by
  have hdocuments : SameRows (S := vaultSchema) .documents σ σ' →
      ∀ k document, σ'.get .documents k = some document → document.id = k :=
    fun hsame k document hrow => hkeys.documents k document ((hsame k).symm.trans hrow)
  have hworkflows : SameRows (S := vaultSchema) .workflowRuns σ σ' →
      ∀ w workflow, σ'.get .workflowRuns w = some workflow → workflow.id = w :=
    fun hsame w workflow hrow => hkeys.workflows w workflow ((hsame w).symm.trans hrow)
  have hupdatedDocuments : ∀ {k : Identifier} {change : DocumentRow → Option DocumentRow},
      (∀ before after, change before = some after → before.Kept after) →
      Updates .documents k change σ σ' →
      ∀ k document, σ'.get .documents k = some document → document.id = k := by
    intro k change hchange hupdates k' document hrow
    obtain ⟨before, after, hbefore, hafter, hreplaces⟩ := hupdates
    rcases hreplaces.get_cases k' with ⟨rfl, hnew⟩ | ⟨-, hold⟩
    · obtain rfl := Option.some.inj (hnew.symm.trans hrow)
      exact (hchange _ _ hafter).id.trans (hkeys.documents _ _ hbefore)
    · exact hkeys.documents _ _ (hold.symm.trans hrow)
  have hupdatedWorkflows : ∀ {w : Identifier} {change : WorkflowRow → Option WorkflowRow},
      (∀ before after, change before = some after → before.Kept after) →
      Updates .workflowRuns w change σ σ' →
      ∀ w workflow, σ'.get .workflowRuns w = some workflow → workflow.id = w := by
    intro w change hchange hupdates w' workflow hrow
    obtain ⟨before, after, hbefore, hafter, hreplaces⟩ := hupdates
    rcases hreplaces.get_cases w' with ⟨rfl, hnew⟩ | ⟨-, hold⟩
    · obtain rfl := Option.some.inj (hnew.symm.trans hrow)
      exact (hchange _ _ hafter).id.trans (hkeys.workflows _ _ hbefore)
    · exact hkeys.workflows _ _ (hold.symm.trans hrow)
  cases h.change with
  | started hnew _ _ hreplaces =>
    refine ⟨fun k document hrow => ?_, hworkflows (h.same _ (by simp [DocumentStep.tables]))⟩
    rcases hreplaces.get_cases k with ⟨rfl, hinserted⟩ | ⟨-, hold⟩
    · obtain rfl := Option.some.inj (hinserted.symm.trans hrow)
      rfl
    · exact hkeys.documents _ _ (hold.symm.trans hrow)
  | uploaded hdocument hnew hreplaces =>
    refine ⟨hupdatedDocuments (fun _ _ => quarantinedDocument_kept) hdocument,
      fun w workflow hrow => ?_⟩
    rcases hreplaces.get_cases w with ⟨rfl, hinserted⟩ | ⟨-, hold⟩
    · obtain rfl := Option.some.inj (hinserted.symm.trans hrow)
      rfl
    · exact hkeys.workflows _ _ (hold.symm.trans hrow)
  | extracted _ _ _ hworkflow _ _ =>
    exact ⟨hdocuments (h.same _ (by simp [DocumentStep.tables])),
      hupdatedWorkflows (fun _ _ => extractedWorkflowRow_kept) hworkflow⟩
  | scanned hdocument hworkflow =>
    exact ⟨hupdatedDocuments (fun _ _ => scannedDocument_kept) hdocument,
      hupdatedWorkflows (fun _ _ => scannedWorkflow_kept) hworkflow⟩
  | recognized _ _ _ hworkflow =>
    exact ⟨hdocuments (h.same _ (by simp [DocumentStep.tables])),
      hupdatedWorkflows (fun _ _ => recognizedWorkflow_kept) hworkflow⟩
  | originalDeleted hdocument hworkflow =>
    constructor
    · rcases hdocument with hupdates | ⟨hsame, -⟩
      · exact hupdatedDocuments (fun _ _ => originalDeletedDocument_kept) hupdates
      · exact hdocuments hsame
    · rcases hworkflow with hupdates | ⟨hsame, -⟩
      · exact hupdatedWorkflows (fun _ _ => originalDeletedWorkflow_kept) hupdates
      · exact hworkflows hsame
  | failed hdocument hworkflow =>
    constructor
    · rcases hdocument with hupdates | ⟨hsame, -⟩
      · exact hupdatedDocuments (fun _ _ => failedDocument_kept) hupdates
      · exact hdocuments hsame
    · rcases hworkflow with hupdates | ⟨hsame, -⟩
      · exact hupdatedWorkflows (fun _ _ => failedWorkflow_kept) hupdates
      · exact hworkflows hsame
  | other hsameDocuments _ hsameWorkflows _ _ _ _ _ =>
    exact ⟨hdocuments hsameDocuments, hworkflows hsameWorkflows⟩

/-- A new entry that is no read leaves the reads as they are. -/
theorem HasRead.of_cons {log : List DocumentEntry} {entry : DocumentEntry} {delivery : Delivery}
    {document : DocumentProcessingInput} (h : HasRead (entry :: log) delivery document) :
    entry = ⟨.read delivery, .committed (.input document)⟩ ∨ HasRead log delivery document := by
  rcases List.mem_cons.mp h with heq | hmem
  · exact Or.inl heq.symm
  · exact Or.inr hmem

/-- A committed read comes from a store that was seen. -/
theorem executes_read (sha256 : Sha256) {delivery : Delivery} {answer : DocumentAnswer}
    {seen : Vault → Prop} {σ : Vault} {ws' : List (Write vaultSchema)}
    (h : (documentProgram sha256 (.read delivery)).Executes seen σ [] (.ok answer) ws') :
    ∃ σ₀ document, seen σ₀ ∧ answer = .input document ∧
      processingInputOf delivery.context delivery.workflowId σ₀ = some document := by
  obtain ⟨document, ws₁, hread, hanswer, -⟩ := executes_bind_ok.mp h
  obtain ⟨found, ws₂, hselect, hfound⟩ := executes_bind_ok.mp hread
  obtain ⟨σ₀, hseen, hselected, -⟩ := executes_select.mp hselect
  cases found with
  | none => exact absurd hfound.1 (by simp)
  | some input =>
    obtain rfl := Except.ok.inj hfound.1
    exact ⟨σ₀, document, hseen, Except.ok.inj hanswer, (Except.ok.inj hselected).symm⟩

theorem HasRead.mono {log log' : List DocumentEntry} (hlog : ∀ entry ∈ log, entry ∈ log')
    {delivery : Delivery} {document : DocumentProcessingInput}
    (h : HasRead log delivery document) : HasRead log' delivery document :=
  hlog _ h

/-- A permitted step of a handler follows its read. -/
theorem hasRead_of_permitted {sha256 : Sha256} {begun log : List DocumentEntry}
    {step : DocumentStep} (hbegun : begun <:+ log)
    (hprocesses : ∀ entry ∈ log, ∀ delivery document,
      entry.request.processes = some (delivery, document) → HasRead log delivery document)
    (hpermitted : documentPermitted sha256 begun step) {delivery : Delivery}
    {document : DocumentProcessingInput} (hstep : step.processes = some (delivery, document)) :
    HasRead log delivery document := by
  have hmono : ∀ {delivery : Delivery} {document : DocumentProcessingInput},
      HasRead begun delivery document → HasRead log delivery document :=
    HasRead.mono hbegun.subset
  have hopened : ∀ {delivery : Delivery} {document : DocumentProcessingInput} {bytes : String},
      Opened sha256 begun delivery document bytes → HasRead log delivery document := by
    rintro delivery document bytes ⟨ciphertext, hfetched, -⟩
    exact hprocesses _ (hbegun.subset hfetched) _ _ rfl
  cases step with
  | fetch delivery₁ document₁ =>
    obtain ⟨rfl, rfl⟩ := Prod.mk.inj (Option.some.inj hstep)
    exact hmono hpermitted.1
  | markClean delivery₁ document₁ bytes =>
    obtain ⟨rfl, rfl⟩ := Prod.mk.inj (Option.some.inj hstep)
    exact hopened hpermitted.2.1
  | completeScan delivery₁ document₁ outcome =>
    obtain ⟨rfl, rfl⟩ := Prod.mk.inj (Option.some.inj hstep)
    cases outcome with
    | clean =>
      obtain ⟨bytes, hmarked⟩ := hpermitted
      exact hprocesses _ (hbegun.subset hmarked) _ _ rfl
    | rejected =>
      obtain ⟨bytes, hscanned⟩ := hpermitted
      exact hopened hscanned.2.1
  | putDerivative delivery₁ document₁ derivative =>
    obtain ⟨rfl, rfl⟩ := Prod.mk.inj (Option.some.inj hstep)
    obtain ⟨-, bytes, hbytes, -⟩ := hpermitted
    exact hopened hbytes
  | completeOcr delivery₁ document₁ derivative =>
    obtain ⟨rfl, rfl⟩ := Prod.mk.inj (Option.some.inj hstep)
    exact hprocesses _ (hbegun.subset hpermitted) _ _ rfl
  | deleteOriginal delivery₁ document₁ =>
    obtain ⟨rfl, rfl⟩ := Prod.mk.inj (Option.some.inj hstep)
    rcases hpermitted.2 with ⟨hread, -⟩ | ⟨-, derivative, hcompleted⟩
    · exact hmono hread
    · exact hprocesses _ (hbegun.subset hcompleted) _ _ rfl
  | completeDeletion delivery₁ document₁ =>
    obtain ⟨rfl, rfl⟩ := Prod.mk.inj (Option.some.inj hstep)
    exact hprocesses _ (hbegun.subset hpermitted) _ _ rfl
  | recordFailure delivery₁ document₁ errorClass =>
    obtain ⟨rfl, rfl⟩ := Prod.mk.inj (Option.some.inj hstep)
    exact hmono hpermitted.1
  | _ => exact absurd hstep (by simp [DocumentStep.processes])

/-- What a permitted step of a handler has read, in any store since it began. -/
theorem DocumentRecords.readOf {sha256 : Sha256} {begun log : List DocumentEntry} {σ : Vault}
    {step : DocumentStep} (h : DocumentRecords log σ) (hbegun : begun <:+ log)
    (hpermitted : documentPermitted sha256 begun step) {delivery : Delivery}
    {document : DocumentProcessingInput} (hstep : step.processes = some (delivery, document)) :
    ∃ row workflow, ReadOf σ delivery.context document row workflow :=
  h.reads delivery document (hasRead_of_permitted hbegun h.processes hpermitted hstep)

/-- Documents are recorded, and what has been read of them has been kept. -/
theorem documentRecords_invariant (sha256 : Sha256) {init : Vault} (hinit : NoDocuments init) :
    (documentProtocol sha256).Invariant init DocumentRecords DocumentsKept := by
  have hprocesses : ∀ {log begun : List DocumentEntry} {σ : Vault} {step : DocumentStep}
      (outcome : Outcome RepositoryError DocumentAnswer), DocumentRecords log σ →
      documentPermitted sha256 begun step → begun <:+ log →
      ∀ entry ∈ (⟨step, outcome⟩ :: log : List DocumentEntry), ∀ delivery document,
        entry.request.processes = some (delivery, document) →
        HasRead (⟨step, outcome⟩ :: log) delivery document := by
    intro log begun σ step outcome h hpermitted hbegun entry hmem delivery document hstep
    have hread : HasRead log delivery document := by
      rcases List.mem_cons.mp hmem with rfl | hmem
      · exact hasRead_of_permitted hbegun h.processes hpermitted hstep
      · exact h.processes entry hmem delivery document hstep
    exact hread.mono (fun _ => List.mem_cons_of_mem _)
  have hends : ∀ {log begun : List DocumentEntry} {σ : Vault} {step : DocumentStep}
      (outcome : Outcome RepositoryError DocumentAnswer), (∀ a, outcome ≠ .committed a) →
      DocumentRecords log σ → documentPermitted sha256 begun step → begun <:+ log →
      DocumentRecords (⟨step, outcome⟩ :: log) σ := by
    intro log begun σ step outcome houtcome h hpermitted hbegun
    refine ⟨h.keys, fun delivery document hread => ?_, hprocesses outcome h hpermitted hbegun⟩
    rcases hread.of_cons with heq | hread
    · exact absurd (Entry.mk.inj heq).2 (houtcome _)
    · exact h.reads delivery document hread
  exact {
    refl := DocumentsKept.refl
    trans := DocumentsKept.trans
    start := by
      refine ⟨⟨fun k document hrow => ?_,
        fun w workflow hrow => (hinit.workflows w workflow hrow).1⟩,
        fun delivery document hread => absurd hread (by simp [HasRead]),
        fun entry hmem => absurd hmem (by simp)⟩
      exact absurd (hrow.symm.trans (hinit.documents k)) (by simp)
    commit := by
      intro log begun seen σ step answer ws h hpermitted hbegun hnow hearlier hexec
      have heffect := documentProgram_effect hexec
      refine ⟨⟨heffect.keys h.keys, fun delivery document hread => ?_,
        hprocesses _ h hpermitted hbegun⟩, heffect.kept⟩
      rcases hread.of_cons with heq | hread
      · obtain ⟨rfl, houtcome⟩ := Entry.mk.inj heq
        obtain ⟨σ₀, input, hseen, hanswer, hinput⟩ := executes_read sha256 hexec
        obtain rfl : answer = .input document := Outcome.committed.inj houtcome
        obtain rfl := DocumentAnswer.input.inj hanswer
        obtain ⟨hgrows, log₀, -, -, hheld⟩ := hearlier σ₀ hseen
        obtain ⟨row, workflow, hreadOf, -, -⟩ := processingInputOf_eq_some hheld.keys hinput
        obtain ⟨row', workflow', hlater, -, -⟩ := hreadOf.later (hgrows.trans heffect.kept)
        exact ⟨row', workflow', hlater⟩
      · obtain ⟨row, workflow, hreadOf⟩ := h.reads delivery document hread
        obtain ⟨row', workflow', hlater, -, -⟩ := hreadOf.later heffect.kept
        exact ⟨row', workflow', hlater⟩
    rollback := fun h hpermitted hbegun _ _ _ => hends _ (by simp) h hpermitted hbegun
    abort := fun h hpermitted hbegun => hends _ (by simp) h hpermitted hbegun }

end LegacyVault
