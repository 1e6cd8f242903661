import LegacyVault.DocumentHistory

/-!
# The document pipeline

What the columns of a document, its workflow and its derivative say together
is one of eight stages. Every step of the protocol moves a document from one
stage to a next one or leaves it where it is, whatever runs beside it; a
recorded failure leaves it where it is.

Evidence and facts of an extraction appear with the stage that completes the
workflow. Facts are not confirmed, rejected or disputed here.
-/

namespace LegacyVault

open JsonText RowTransaction RowTransaction.Program RowTransaction.Protocol Store

/-- How far a document has come. -/
inductive DocumentStage where
  /-- There is no such document. -/
  | absent
  | uploading | scanning | rejected | recognizing | deleting | classifying | extracted
  deriving DecidableEq

namespace DocumentStage

/-- The status of the document, if there is one. -/
def documentStatus : DocumentStage → Option DocumentStatus
  | absent => none
  | uploading => some .pending
  | scanning => some .quarantined
  | rejected => some .rejected
  | recognizing | deleting | classifying | extracted => some .clean

/-- The document has a workflow. -/
def hasWorkflow : DocumentStage → Bool
  | absent | uploading => false
  | scanning | rejected | recognizing | deleting | classifying | extracted => true

/-- The next step of the workflow. -/
def nextStep : DocumentStage → Option String
  | scanning => some "scan"
  | recognizing => some "ocr"
  | deleting => some "delete-original"
  | classifying => some "classification"
  | absent | uploading | rejected | extracted => none

/-- The completed steps of the workflow, by whether the original is to be deleted. -/
def completedSteps (deleteOriginal : Bool) : DocumentStage → List String
  | absent | uploading | scanning => []
  | rejected | recognizing => ["scan"]
  | deleting => ["scan", "ocr"]
  | classifying => if deleteOriginal then ["scan", "ocr", "delete-original"] else ["scan", "ocr"]
  | extracted =>
    if deleteOriginal then
      ["scan", "ocr", "delete-original", "classification", "manual-extraction"]
    else ["scan", "ocr", "classification", "manual-extraction"]

/-- A derivative is recorded. -/
def isRecognized : DocumentStage → Bool
  | deleting | classifying | extracted => true
  | absent | uploading | scanning | rejected | recognizing => false

/-- The deletion of the original is recorded. -/
def isOriginalDeleted (deleteOriginal : Bool) : DocumentStage → Bool
  | classifying | extracted => deleteOriginal
  | absent | uploading | scanning | rejected | recognizing | deleting => false

/-- How many extractions were applied. -/
def extractions : DocumentStage → Nat
  | extracted => 1
  | absent | uploading | scanning | rejected | recognizing | deleting | classifying => 0

end DocumentStage

/-- The extractions of a document that were applied, latest first. -/
def extractionsOf (documentId : Identifier) (log : List DocumentEntry) : List ExtractionCall :=
  log.filterMap (fun entry =>
    match entry with
    | ⟨.extract call, .committed (.answer (.applied _))⟩ =>
      if call.input.documentId = documentId then some call else none
    | _ => none)

/-- Evidence that was taken from a document. -/
def EvidenceRow.FromDocument (evidence : EvidenceRow) (documentId : Identifier) : Prop :=
  evidence.sourceType = .document ∧ evidence.sourceId = documentId

/-- A fact that was taken from a document. -/
def FactRow.FromDocument (fact : FactRow) (documentId : Identifier) : Prop :=
  fact.sourceType = .document ∧ fact.sourceId = documentId

/-- The original of the document is to be deleted after processing. -/
def deletesOriginal (document : Option DocumentRow) : Bool :=
  document.any (fun document => document.deleteOriginalAfterProcessing)

section Parts

variable (log : List DocumentEntry) (σ : Vault) (k : Identifier) (stage : DocumentStage)

/-- The document's columns at a stage. -/
structure DocumentAt (document : Option DocumentRow) : Prop where
  status : document.map DocumentRow.status = stage.documentStatus
  originalDeleted : document.any (fun document => document.originalDeletedAt.isSome) =
    stage.isOriginalDeleted (deletesOriginal document)
  deletes : stage = .deleting → deletesOriginal document = true

/-- The workflow's columns at a stage. -/
structure WorkflowRow.At (workflow : WorkflowRow) (deleteOriginal : Bool) : Prop where
  nextStep : workflow.nextStep = stage.nextStep
  completedSteps : workflow.completedSteps = stage.completedSteps deleteOriginal
  status : workflow.status = .completed ↔ stage.nextStep = none

/-- A document has no workflow or exactly one, as its stage says. -/
structure WorkflowAt : Prop where
  none : stage.hasWorkflow = false →
    ∀ w workflow, σ.get .workflowRuns w = some workflow → ¬ workflow.Concerns k
  one : stage.hasWorkflow = true → ∃ w workflow, σ.get .workflowRuns w = some workflow ∧
    workflow.Concerns k ∧ workflow.At stage (deletesOriginal (σ.get .documents k)) ∧
    ∀ w' workflow', σ.get .workflowRuns w' = some workflow' → workflow'.Concerns k → w' = w

/-- The evidence and the facts of a document are those of its extractions. -/
structure ExtractionAt : Prop where
  count : (extractionsOf k log).length = stage.extractions
  evidence : ∀ e row, (σ.get .evidence e = some row ∧ row.FromDocument k) ↔
    ∃ call ∈ extractionsOf k log, (e, row) ∈ call.evidence
  facts : ∀ f row, (σ.get .facts f = some row ∧ row.FromDocument k) ↔
    ∃ call ∈ extractionsOf k log, (f, row) ∈ call.facts

/-- Everything that is recorded of a document agrees on its stage. -/
structure AtStage : Prop where
  document : DocumentAt stage (σ.get .documents k)
  derivative : (σ.get .documentDerivatives (k, searchablePdf)).isSome = stage.isRecognized
  workflow : WorkflowAt σ k stage
  extraction : ExtractionAt log σ k stage

end Parts

section Frame

variable {log log' : List DocumentEntry} {σ σ' : Vault} {k : Identifier}
  {stage stage' : DocumentStage}

/-- Steps that leave a document's rows alone leave it at its stage. -/
theorem WorkflowAt.frame (h : WorkflowAt σ k stage)
    (hdocument : σ'.get .documents k = σ.get .documents k)
    (hworkflows : ∀ w workflow, workflow.Concerns k →
      (σ'.get .workflowRuns w = some workflow ↔ σ.get .workflowRuns w = some workflow)) :
    WorkflowAt σ' k stage where
  none := by
    intro hstage w workflow hworkflow hconcerns
    exact h.none hstage w workflow ((hworkflows w workflow hconcerns).mp hworkflow) hconcerns
  one := by
    intro hstage
    obtain ⟨w, workflow, hworkflow, hconcerns, hat, honly⟩ := h.one hstage
    rw [hdocument]
    refine ⟨w, workflow, (hworkflows w workflow hconcerns).mpr hworkflow, hconcerns, hat,
      fun w' workflow' hworkflow' hconcerns' => ?_⟩
    exact honly w' workflow' ((hworkflows w' workflow' hconcerns').mp hworkflow') hconcerns'

theorem ExtractionAt.frame (h : ExtractionAt log σ k stage)
    (hstage : stage'.extractions = stage.extractions)
    (hlog : extractionsOf k log' = extractionsOf k log)
    (hevidence : ∀ e row, row.FromDocument k →
      (σ'.get .evidence e = some row ↔ σ.get .evidence e = some row))
    (hfacts : ∀ f row, row.FromDocument k →
      (σ'.get .facts f = some row ↔ σ.get .facts f = some row)) :
    ExtractionAt log' σ' k stage' where
  count := by rw [hlog, hstage, h.count]
  evidence := by
    intro e row
    rw [hlog, ← h.evidence e row]
    exact and_congr_left (fun hfrom => hevidence e row hfrom)
  facts := by
    intro f row
    rw [hlog, ← h.facts f row]
    exact and_congr_left (fun hfrom => hfacts f row hfrom)

/-- The evidence and facts of a document whose tables are left alone. -/
theorem ExtractionAt.same (h : ExtractionAt log σ k stage)
    (hstage : stage'.extractions = stage.extractions)
    (hlog : extractionsOf k log' = extractionsOf k log)
    (hevidence : SameRows (S := vaultSchema) .evidence σ σ')
    (hfacts : SameRows (S := vaultSchema) .facts σ σ') : ExtractionAt log' σ' k stage' :=
  h.frame hstage hlog (fun e row _ => by rw [hevidence e]) (fun f row _ => by rw [hfacts f])

/-- A document whose status, flag and deletion are as before is at its stage. -/
theorem DocumentAt.same {document document' : Option DocumentRow} (h : DocumentAt stage document)
    (hstatus : document'.map DocumentRow.status = document.map DocumentRow.status)
    (hdeleted : document'.any (fun document => document.originalDeletedAt.isSome) =
      document.any (fun document => document.originalDeletedAt.isSome))
    (hflag : deletesOriginal document' = deletesOriginal document) : DocumentAt stage document' :=
  ⟨hstatus.trans h.status, by rw [hdeleted, hflag, h.originalDeleted],
    fun hstage => hflag.trans (h.deletes hstage)⟩

/-- The workflow of a document that has one. -/
theorem WorkflowAt.of_row (h : WorkflowAt σ k stage) {w : Identifier} {workflow : WorkflowRow}
    (hworkflow : σ.get .workflowRuns w = some workflow) (hconcerns : workflow.Concerns k) :
    stage.hasWorkflow = true ∧ workflow.At stage (deletesOriginal (σ.get .documents k)) ∧
      ∀ w' workflow', σ.get .workflowRuns w' = some workflow' → workflow'.Concerns k → w' = w := by
  cases hstage : stage.hasWorkflow with
  | false => exact absurd hconcerns (h.none hstage w workflow hworkflow)
  | true =>
    obtain ⟨w₁, workflow₁, hworkflow₁, -, hat, honly⟩ := h.one hstage
    obtain rfl : w = w₁ := honly w workflow hworkflow hconcerns
    obtain rfl := Option.some.inj (hworkflow.symm.trans hworkflow₁)
    exact ⟨rfl, hat, honly⟩

/-- The workflow of a document moves with it. -/
theorem WorkflowAt.move (h : WorkflowAt σ k stage) {w : Identifier} {before after : WorkflowRow}
    (hbefore : σ.get .workflowRuns w = some before) (hconcerns : before.Concerns k)
    (hkept : before.Kept after)
    (hreplaces : Replaces (S := vaultSchema) .workflowRuns w (some after) σ σ')
    (hstage : stage'.hasWorkflow = true)
    (hat : after.At stage' (deletesOriginal (σ'.get .documents k))) : WorkflowAt σ' k stage' where
  none := fun hno => absurd (hstage.symm.trans hno) (by simp)
  one := by
    intro _
    obtain ⟨-, -, honly⟩ := h.of_row hbefore hconcerns
    refine ⟨w, after, hreplaces.row, (hkept.concerns k).mpr hconcerns, hat,
      fun w' workflow' hworkflow' hconcerns' => ?_⟩
    rcases hreplaces.get_cases w' with ⟨rfl, -⟩ | ⟨-, hold⟩
    · rfl
    · exact honly w' workflow' (hold.symm.trans hworkflow') hconcerns'

/-- Replacing the workflow of one document leaves those of the others alone. -/
theorem workflows_of_replaces {w : Identifier} {before after : WorkflowRow} {k' : Identifier}
    (hbefore : σ.get .workflowRuns w = some before) (hconcerns : before.Concerns k)
    (hkept : before.Kept after)
    (hreplaces : Replaces (S := vaultSchema) .workflowRuns w (some after) σ σ') (hk : k' ≠ k)
    (w' : Identifier) (workflow : WorkflowRow) (hworkflow : workflow.Concerns k') :
    σ'.get .workflowRuns w' = some workflow ↔ σ.get .workflowRuns w' = some workflow := by
  have hother : ¬ before.Concerns k' := fun hsame =>
    hk (Option.some.inj (hsame.2.symm.trans hconcerns.2))
  rcases hreplaces.get_cases w' with ⟨rfl, hnew⟩ | ⟨-, hold⟩
  · constructor
    · intro hget
      obtain rfl := Option.some.inj (hnew.symm.trans hget)
      exact absurd ((hkept.concerns k').mp hworkflow) hother
    · intro hget
      obtain rfl := Option.some.inj (hbefore.symm.trans hget)
      exact absurd hworkflow hother
  · rw [hold]

end Frame

section Steps

variable {log : List DocumentEntry} {σ σ' : Vault}

theorem extractionsOf_cons_other {k : Identifier} {entry : DocumentEntry}
    (h : ∀ call body, entry ≠ ⟨.extract call, .committed (.answer (.applied body))⟩) :
    extractionsOf k (entry :: log) = extractionsOf k log := by
  unfold extractionsOf
  rw [List.filterMap_cons]
  split
  · rfl
  · rename_i call hsome
    split at hsome
    · exact absurd rfl (h _ _)
    · exact absurd hsome (by simp)

theorem extractionsOf_cons_extract {k : Identifier} {call : ExtractionCall} {body : Json} :
    extractionsOf k (⟨.extract call, .committed (.answer (.applied body))⟩ :: log) =
      if call.input.documentId = k then call :: extractionsOf k log else extractionsOf k log := by
  by_cases hk : call.input.documentId = k
  · simp [extractionsOf, hk]
  · simp [extractionsOf, hk]

/-- Steps that leave a document's rows alone leave it at its stage. -/
theorem AtStage.frame {log' : List DocumentEntry} {k : Identifier} {stage : DocumentStage}
    (h : AtStage log σ k stage) (hdocument : σ'.get .documents k = σ.get .documents k)
    (hderivative : σ'.get .documentDerivatives (k, searchablePdf) =
      σ.get .documentDerivatives (k, searchablePdf))
    (hworkflows : ∀ w workflow, workflow.Concerns k →
      (σ'.get .workflowRuns w = some workflow ↔ σ.get .workflowRuns w = some workflow))
    (hextraction : ExtractionAt log' σ' k stage) : AtStage log' σ' k stage where
  document := by
    rw [hdocument]
    exact h.document
  derivative := by rw [hderivative, h.derivative]
  workflow := h.workflow.frame hdocument hworkflows
  extraction := hextraction

/-- Every document is at some stage. -/
def AllStaged (log : List DocumentEntry) (σ : Vault) : Prop := ∀ k, ∃ stage, AtStage log σ k stage

/-- A step that moves one document and leaves the others alone. -/
theorem AllStaged.move {log' : List DocumentEntry} (h : AllStaged log σ) (k : Identifier)
    (hdocuments : ∀ k', k' ≠ k → σ'.get .documents k' = σ.get .documents k')
    (hderivatives : ∀ k', k' ≠ k → σ'.get .documentDerivatives (k', searchablePdf) =
      σ.get .documentDerivatives (k', searchablePdf))
    (hworkflows : ∀ k', k' ≠ k → ∀ w workflow, workflow.Concerns k' →
      (σ'.get .workflowRuns w = some workflow ↔ σ.get .workflowRuns w = some workflow))
    (hextractions : ∀ k', k' ≠ k → ∀ stage, ExtractionAt log σ k' stage →
      ExtractionAt log' σ' k' stage)
    (hmoved : ∀ stage, AtStage log σ k stage → ∃ stage', AtStage log' σ' k stage') :
    AllStaged log' σ' := by
  intro k'
  obtain ⟨stage, hat⟩ := h k'
  by_cases hk : k' = k
  · subst hk
    exact hmoved stage hat
  · exact ⟨stage, hat.frame (hdocuments k' hk) (hderivatives k' hk) (hworkflows k' hk)
      (hextractions k' hk stage hat.extraction)⟩

theorem DocumentStage.eq_of_documentStatus {stage : DocumentStage} :
    (stage.documentStatus = none → stage = .absent) ∧
    (stage.documentStatus = some .pending → stage = .uploading) ∧
    (stage.documentStatus = some .quarantined → stage = .scanning) := by
  cases stage <;> simp [documentStatus]

theorem DocumentStage.eq_of_nextStep {stage : DocumentStage} :
    (stage.nextStep = some "scan" → stage = .scanning) ∧
    (stage.nextStep = some "ocr" → stage = .recognizing) ∧
    (stage.nextStep = some "delete-original" → stage = .deleting) ∧
    (stage.nextStep = some "classification" → stage = .classifying) := by
  cases stage <;> simp [nextStep]

/-- Starting an upload takes a document from absent to uploading. -/
theorem staged_started {call : UploadStartCall} {answer : DocumentAnswer}
    (h : AllStaged log σ) (hnew : σ.get .documents call.generated.id = none)
    (hreplaces : Replaces (S := vaultSchema) .documents call.generated.id
      (some (pendingDocument call.context call.input call.generated)) σ σ')
    (hsame : ∀ t, t ∉ (DocumentStep.startUpload call).tables →
      SameRows (S := vaultSchema) t σ σ') :
    AllStaged (⟨.startUpload call, .committed answer⟩ :: log) σ' := by
  have hworkflows := hsame .workflowRuns (by simp [DocumentStep.tables])
  have hderivatives := hsame .documentDerivatives (by simp [DocumentStep.tables])
  have hlog : ∀ k, extractionsOf k (⟨.startUpload call, .committed answer⟩ :: log) =
      extractionsOf k log := fun k => extractionsOf_cons_other (by simp)
  have hextractions : ∀ {k : Identifier} {stage stage' : DocumentStage},
      ExtractionAt log σ k stage → stage'.extractions = stage.extractions →
      ExtractionAt (⟨.startUpload call, .committed answer⟩ :: log) σ' k stage' :=
    fun hat hstage => hat.same hstage (hlog _)
      (hsame .evidence (by simp [DocumentStep.tables]))
      (hsame .facts (by simp [DocumentStep.tables]))
  refine h.move call.generated.id hreplaces.others (fun k _ => hderivatives _)
    (fun k _ w workflow _ => by rw [hworkflows w]) (fun k _ stage hat => hextractions hat rfl) ?_
  intro stage hat
  have hstatus := hat.document.status
  rw [hnew] at hstatus
  obtain rfl := DocumentStage.eq_of_documentStatus.1 hstatus.symm
  refine ⟨.uploading, ⟨?_, ?_, ?_, hextractions hat.extraction rfl⟩⟩
  · rw [hreplaces.row]
    exact ⟨rfl, rfl, fun hstage => DocumentStage.noConfusion hstage⟩
  · rw [hderivatives]
    exact hat.derivative
  · refine ⟨fun _ w workflow hworkflow => ?_, fun hstage => absurd hstage (by simp
      [DocumentStage.hasWorkflow])⟩
    exact hat.workflow.none rfl w workflow ((hworkflows w).symm.trans hworkflow)

/-- Completing an upload takes a document from uploading to scanning. -/
theorem staged_uploaded {call : UploadCompletionCall} {answer : DocumentAnswer}
    (h : AllStaged log σ)
    (hupdates : Updates .documents call.input.documentId
      (quarantinedDocument call.context call.input call.uploadedAt) σ σ')
    (hnew : σ.get .workflowRuns call.workflowId = none)
    (hworkflow : Replaces (S := vaultSchema) .workflowRuns call.workflowId
      (some (documentWorkflow call.context call.input.documentId call.workflowId)) σ σ')
    (hsame : ∀ t, t ∉ (DocumentStep.completeUpload call).tables →
      SameRows (S := vaultSchema) t σ σ') :
    AllStaged (⟨.completeUpload call, .committed answer⟩ :: log) σ' := by
  obtain ⟨before, after, hbefore, hchange, hreplaces⟩ := hupdates
  have hderivatives := hsame .documentDerivatives (by simp [DocumentStep.tables])
  have hlog : ∀ k, extractionsOf k (⟨.completeUpload call, .committed answer⟩ :: log) =
      extractionsOf k log := fun k => extractionsOf_cons_other (by simp)
  have hextractions : ∀ {k : Identifier} {stage stage' : DocumentStage},
      ExtractionAt log σ k stage → stage'.extractions = stage.extractions →
      ExtractionAt (⟨.completeUpload call, .committed answer⟩ :: log) σ' k stage' :=
    fun hat hstage => hat.same hstage (hlog _)
      (hsame .evidence (by simp [DocumentStep.tables]))
      (hsame .facts (by simp [DocumentStep.tables]))
  refine h.move call.input.documentId hreplaces.others (fun k _ => hderivatives _)
    (fun k hk w workflow hconcerns => ?_) (fun k _ stage hat => hextractions hat rfl) ?_
  · rcases hworkflow.get_cases w with ⟨rfl, hrow⟩ | ⟨-, hold⟩
    · have hother : some (documentWorkflow call.context call.input.documentId call.workflowId) ≠
          some workflow := by
        intro heq
        obtain rfl := Option.some.inj heq
        exact hk (Option.some.inj hconcerns.2).symm
      rw [hrow, hnew]
      exact ⟨fun heq => absurd heq hother, fun heq => absurd heq (by simp)⟩
    · rw [hold]
  intro stage hat
  unfold quarantinedDocument at hchange
  split at hchange
  · rename_i hguard
    obtain rfl := Option.some.inj hchange
    have hstatus := hat.document.status
    rw [hbefore, Option.map_some, hguard.2.1] at hstatus
    obtain rfl := DocumentStage.eq_of_documentStatus.2.1 hstatus.symm
    have hdeleted := hat.document.originalDeleted
    rw [hbefore] at hdeleted
    refine ⟨.scanning, ⟨?_, ?_, ?_, hextractions hat.extraction rfl⟩⟩
    · rw [hreplaces.row]
      exact ⟨rfl, hdeleted, fun hstage => DocumentStage.noConfusion hstage⟩
    · rw [hderivatives]
      exact hat.derivative
    · refine ⟨fun hstage => absurd hstage (by simp [DocumentStage.hasWorkflow]), fun _ =>
        ⟨call.workflowId, _, hworkflow.row, ⟨rfl, rfl⟩, ⟨rfl, rfl, ?_⟩,
          fun w workflow hget hconcerns => ?_⟩⟩
      · simp [documentWorkflow, DocumentStage.nextStep]
      · rcases hworkflow.get_cases w with ⟨rfl, -⟩ | ⟨-, hold⟩
        · rfl
        · exact absurd hconcerns (hat.workflow.none rfl w workflow (hold.symm.trans hget))
  · exact absurd hchange (by simp)

/-- Completing a scan takes a document from scanning to recognizing, or rejects it. -/
theorem staged_scanned {delivery : Delivery} {document : DocumentProcessingInput}
    {outcome : ScanOutcome} {answer : DocumentAnswer} (h : AllStaged log σ)
    {row : DocumentRow} {workflow : WorkflowRow}
    (hread : ReadOf σ delivery.context document row workflow)
    (hdocument : Updates .documents document.id
      (scannedDocument delivery.context document.version outcome delivery.now) σ σ')
    (hworkflow : Updates .workflowRuns document.workflowId
      (scannedWorkflow delivery.context document.workflowVersion outcome) σ σ')
    (hsame : ∀ t, t ∉ (DocumentStep.completeScan delivery document outcome).tables →
      SameRows (S := vaultSchema) t σ σ') :
    AllStaged (⟨.completeScan delivery document outcome, .committed answer⟩ :: log) σ' := by
  obtain ⟨before, after, hbefore, hchange, hreplaces⟩ := hdocument
  obtain ⟨workflow₀, workflow', hworkflow₀, hadvance, hadvanced⟩ := hworkflow
  obtain rfl := Option.some.inj (hworkflow₀.symm.trans hread.foundWorkflow)
  have hkept := scannedWorkflow_kept hadvance
  have hderivatives := hsame .documentDerivatives (by simp [DocumentStep.tables])
  have hextractions : ∀ {k : Identifier} {stage stage' : DocumentStage},
      ExtractionAt log σ k stage → stage'.extractions = stage.extractions →
      ExtractionAt (⟨.completeScan delivery document outcome, .committed answer⟩ :: log) σ' k
        stage' :=
    fun hat hstage => hat.same hstage (extractionsOf_cons_other (by simp))
      (hsame .evidence (by simp [DocumentStep.tables]))
      (hsame .facts (by simp [DocumentStep.tables]))
  refine h.move document.id hreplaces.others (fun k _ => hderivatives _)
    (fun k hk => workflows_of_replaces hworkflow₀ hread.concerns hkept hadvanced hk)
    (fun k _ stage hat => hextractions hat rfl) ?_
  intro stage hat
  obtain ⟨-, hworkflowAt, -⟩ := hat.workflow.of_row hworkflow₀ hread.concerns
  have hstatus := hat.document.status
  have hdeleted := hat.document.originalDeleted
  rw [hbefore] at hstatus hdeleted hworkflowAt
  unfold scannedDocument at hchange
  split at hchange
  · rename_i hguard
    obtain rfl := Option.some.inj hchange
    rw [Option.map_some, hguard.2.1] at hstatus
    obtain rfl := DocumentStage.eq_of_documentStatus.2.2 hstatus.symm
    unfold scannedWorkflow at hadvance
    split at hadvance
    · obtain rfl := Option.some.inj hadvance
      have hsteps : withStep "scan" workflow₀.completedSteps = ["scan"] := by
        rw [hworkflowAt.completedSteps]
        simp [DocumentStage.completedSteps, withStep]
      cases outcome with
      | clean =>
        refine ⟨.recognizing, ⟨?_, ?_, ?_, hextractions hat.extraction rfl⟩⟩
        · rw [hreplaces.row]
          exact ⟨rfl, hdeleted, fun hstage => DocumentStage.noConfusion hstage⟩
        · rw [hderivatives]
          exact hat.derivative
        · refine hat.workflow.move hworkflow₀ hread.concerns hkept hadvanced rfl
            ⟨rfl, hsteps, ?_⟩
          simp [DocumentStage.nextStep]
      | rejected =>
        refine ⟨.rejected, ⟨?_, ?_, ?_, hextractions hat.extraction rfl⟩⟩
        · rw [hreplaces.row]
          exact ⟨rfl, hdeleted, fun hstage => DocumentStage.noConfusion hstage⟩
        · rw [hderivatives]
          exact hat.derivative
        · refine hat.workflow.move hworkflow₀ hread.concerns hkept hadvanced rfl
            ⟨rfl, hsteps, ?_⟩
          simp [DocumentStage.nextStep]
    · exact absurd hadvance (by simp)
  · exact absurd hchange (by simp)

/-- The stage that follows an OCR run. -/
def stageAfterOcr (deleteOriginal : Bool) : DocumentStage :=
  if deleteOriginal then .deleting else .classifying

/-- Completing an OCR run takes a document from recognizing to the stage its flag asks for. -/
theorem staged_recognized {delivery : Delivery} {document : DocumentProcessingInput}
    {derivative : Sealed} {answer : DocumentAnswer} {deleteOriginal : Bool} (h : AllStaged log σ)
    {row : DocumentRow} {workflow : WorkflowRow}
    (hread : ReadOf σ delivery.context document row workflow)
    (hflag : deleteOriginal = row.deleteOriginalAfterProcessing)
    (hderivative : (σ'.get .documentDerivatives (document.id, searchablePdf)).isSome = true)
    (hderivatives : ∀ k, k ≠ document.id → σ'.get .documentDerivatives (k, searchablePdf) =
      σ.get .documentDerivatives (k, searchablePdf))
    (hworkflow : Updates .workflowRuns document.workflowId
      (recognizedWorkflow delivery.context document.workflowVersion deleteOriginal) σ σ')
    (hsame : ∀ t, t ∉ (DocumentStep.completeOcr delivery document derivative).tables →
      SameRows (S := vaultSchema) t σ σ') :
    AllStaged (⟨.completeOcr delivery document derivative, .committed answer⟩ :: log) σ' := by
  obtain ⟨workflow₀, workflow', hworkflow₀, hadvance, hadvanced⟩ := hworkflow
  obtain rfl := Option.some.inj (hworkflow₀.symm.trans hread.foundWorkflow)
  have hkept := recognizedWorkflow_kept hadvance
  have hdocuments := hsame .documents (by simp [DocumentStep.tables])
  have hextractions : ∀ {k : Identifier} {stage stage' : DocumentStage},
      ExtractionAt log σ k stage → stage'.extractions = stage.extractions →
      ExtractionAt (⟨.completeOcr delivery document derivative, .committed answer⟩ :: log) σ' k
        stage' :=
    fun hat hstage => hat.same hstage (extractionsOf_cons_other (by simp))
      (hsame .evidence (by simp [DocumentStep.tables]))
      (hsame .facts (by simp [DocumentStep.tables]))
  refine h.move document.id (fun k _ => hdocuments k) hderivatives
    (fun k hk => workflows_of_replaces hworkflow₀ hread.concerns hkept hadvanced hk)
    (fun k _ stage hat => hextractions hat rfl) ?_
  intro stage hat
  obtain ⟨-, hworkflowAt, -⟩ := hat.workflow.of_row hworkflow₀ hread.concerns
  have hdocumentAt := hat.document
  rw [hread.found] at hworkflowAt hdocumentAt
  unfold recognizedWorkflow at hadvance
  split at hadvance
  · rename_i hguard
    obtain rfl := Option.some.inj hadvance
    obtain rfl := DocumentStage.eq_of_nextStep.2.1 (hworkflowAt.nextStep.symm.trans hguard.2.2)
    have hsteps : withStep "ocr" workflow₀.completedSteps = ["scan", "ocr"] := by
      rw [hworkflowAt.completedSteps]
      simp [DocumentStage.completedSteps, withStep]
    have hdeletes : deletesOriginal (some row) = deleteOriginal := hflag.symm
    refine ⟨stageAfterOcr deleteOriginal, ⟨?_, ?_, ?_, ?_⟩⟩
    · rw [hdocuments, hread.found]
      refine ⟨?_, ?_, ?_⟩
      · rw [hdocumentAt.status]
        cases deleteOriginal <;> rfl
      · rw [hdocumentAt.originalDeleted, hdeletes]
        cases deleteOriginal <;> rfl
      · rw [hdeletes]
        cases deleteOriginal
        · exact fun hstage => DocumentStage.noConfusion hstage
        · exact fun _ => rfl
    · rw [hderivative]
      cases deleteOriginal <;> rfl
    · refine hat.workflow.move hworkflow₀ hread.concerns hkept hadvanced
        (by cases deleteOriginal <;> rfl) ?_
      rw [hdocuments, hread.found, hdeletes]
      refine ⟨by cases deleteOriginal <;> rfl, hsteps.trans (by cases deleteOriginal <;> rfl), ?_⟩
      cases deleteOriginal <;> simp [stageAfterOcr, DocumentStage.nextStep]
    · refine hextractions hat.extraction ?_
      cases deleteOriginal <;> rfl
  · exact absurd hadvance (by simp)

/-- The deletion is among the completed steps of documents whose deletion is recorded. -/
theorem DocumentStage.isOriginalDeleted_of_mem {stage : DocumentStage} {deleteOriginal : Bool}
    (h : "delete-original" ∈ stage.completedSteps deleteOriginal) :
    stage.isOriginalDeleted deleteOriginal = true := by
  cases stage <;> cases deleteOriginal <;> simp [completedSteps, isOriginalDeleted] at h ⊢

/-- The change of a recorded deletion. -/
theorem originalDeletedDocument_after {context : TenantContext} {deletedAt : Instant}
    {before after : DocumentRow}
    (h : originalDeletedDocument context deletedAt before = some after) :
    before.deleteOriginalAfterProcessing = true ∧ after.status = before.status ∧
      after.originalDeletedAt.isSome = true := by
  unfold originalDeletedDocument at h
  split at h
  · rename_i hguard
    obtain rfl := Option.some.inj h
    exact ⟨hguard.2, rfl, rfl⟩
  · exact absurd h (by simp)

/-- Completing a deletion takes a document from deleting to classifying, or repeats a deletion that
is recorded. -/
theorem staged_originalDeleted {delivery : Delivery} {document : DocumentProcessingInput}
    {answer : DocumentAnswer} (h : AllStaged log σ) {row : DocumentRow} {workflow : WorkflowRow}
    (hread : ReadOf σ delivery.context document row workflow)
    (hdocument : Updates .documents document.id
        (originalDeletedDocument delivery.context delivery.now) σ σ' ∨
      (SameRows (S := vaultSchema) .documents σ σ' ∧ row.deleteOriginalAfterProcessing = false))
    (hworkflow : Updates .workflowRuns document.workflowId
        (originalDeletedWorkflow delivery.context) σ σ' ∨
      (SameRows (S := vaultSchema) .workflowRuns σ σ' ∧
        "delete-original" ∈ workflow.completedSteps))
    (hsame : ∀ t, t ∉ (DocumentStep.completeDeletion delivery document).tables →
      SameRows (S := vaultSchema) t σ σ') :
    AllStaged (⟨.completeDeletion delivery document, .committed answer⟩ :: log) σ' := by
  have hderivatives := hsame .documentDerivatives (by simp [DocumentStep.tables])
  have hextractions : ∀ {k : Identifier} {stage stage' : DocumentStage},
      ExtractionAt log σ k stage → stage'.extractions = stage.extractions →
      ExtractionAt (⟨.completeDeletion delivery document, .committed answer⟩ :: log) σ' k
        stage' :=
    fun hat hstage => hat.same hstage (extractionsOf_cons_other (by simp))
      (hsame .evidence (by simp [DocumentStep.tables]))
      (hsame .facts (by simp [DocumentStep.tables]))
  have hothers : ∀ k, k ≠ document.id → σ'.get .documents k = σ.get .documents k := by
    intro k hk
    rcases hdocument with ⟨before, after, -, -, hreplaces⟩ | ⟨hrows, -⟩
    · exact hreplaces.others k hk
    · exact hrows k
  -- The document afterwards: its status is as before, and a flagged one is deleted.
  have hafter : ∃ row', σ'.get .documents document.id = some row' ∧ row'.status = row.status ∧
      row'.deleteOriginalAfterProcessing = row.deleteOriginalAfterProcessing ∧
      (row.deleteOriginalAfterProcessing = true → row'.originalDeletedAt.isSome = true) := by
    rcases hdocument with ⟨before, after, hbefore, hchange, hreplaces⟩ | ⟨hrows, hunflagged⟩
    · obtain rfl := Option.some.inj (hbefore.symm.trans hread.found)
      obtain ⟨-, hstatus, hdeleted⟩ := originalDeletedDocument_after hchange
      exact ⟨after, hreplaces.row, hstatus, (originalDeletedDocument_kept hchange).flag,
        fun _ => hdeleted⟩
    · refine ⟨row, (hrows _).trans hread.found, rfl, rfl, fun hflagged => ?_⟩
      exact absurd (hflagged.symm.trans hunflagged) (by simp)
  obtain ⟨row', hrow', hstatus, hflag, hdeletes⟩ := hafter
  have hworkflows : ∀ k, k ≠ document.id → ∀ w other, other.Concerns k →
      (σ'.get .workflowRuns w = some other ↔ σ.get .workflowRuns w = some other) := by
    intro k hk w other hother
    rcases hworkflow with ⟨before, after, hbefore, hadvance, hadvanced⟩ | ⟨hrows, -⟩
    · obtain rfl := Option.some.inj (hbefore.symm.trans hread.foundWorkflow)
      exact workflows_of_replaces hbefore hread.concerns (originalDeletedWorkflow_kept hadvance)
        hadvanced hk w other hother
    · rw [hrows w]
  refine h.move document.id hothers (fun k _ => hderivatives _) hworkflows
    (fun k _ stage hat => hextractions hat rfl) ?_
  intro stage hat
  obtain ⟨-, hworkflowAt, -⟩ := hat.workflow.of_row hread.foundWorkflow hread.concerns
  have hdocumentAt := hat.document
  rw [hread.found] at hworkflowAt hdocumentAt
  have hsameFlag : deletesOriginal (some row') = deletesOriginal (some row) := hflag
  rcases hworkflow with ⟨before, after, hbefore, hadvance, hadvanced⟩ | ⟨hrows, hmem⟩
  · obtain rfl := Option.some.inj (hbefore.symm.trans hread.foundWorkflow)
    have hkept := originalDeletedWorkflow_kept hadvance
    unfold originalDeletedWorkflow at hadvance
    split at hadvance
    · rename_i hguard
      obtain rfl := Option.some.inj hadvance
      obtain rfl := DocumentStage.eq_of_nextStep.2.2.1
        (hworkflowAt.nextStep.symm.trans hguard.2)
      have hflagged : deletesOriginal (some row) = true := hdocumentAt.deletes rfl
      have hsteps : withStep "delete-original" before.completedSteps =
          ["scan", "ocr", "delete-original"] := by
        rw [hworkflowAt.completedSteps]
        simp [DocumentStage.completedSteps, withStep]
      refine ⟨.classifying, ⟨?_, ?_, ?_, hextractions hat.extraction rfl⟩⟩
      · rw [hrow']
        refine ⟨?_, ?_, fun hstage => DocumentStage.noConfusion hstage⟩
        · have hclean : some row.status = some DocumentStatus.clean := hdocumentAt.status
          rw [Option.map_some, hstatus, hclean]
          rfl
        · rw [hsameFlag, hflagged]
          exact hdeletes hflagged
      · rw [hderivatives]
        exact hat.derivative
      · refine hat.workflow.move hbefore hread.concerns hkept hadvanced rfl ?_
        rw [hrow', hsameFlag, hflagged]
        refine ⟨rfl, hsteps, ?_⟩
        simp [DocumentStage.nextStep]
    · exact absurd hadvance (by simp)
  · have hdeleted : stage.isOriginalDeleted (deletesOriginal (some row)) = true := by
      rw [hworkflowAt.completedSteps] at hmem
      exact DocumentStage.isOriginalDeleted_of_mem hmem
    have hflagged : row.deleteOriginalAfterProcessing = true := by
      have hflag' : deletesOriginal (some row) = row.deleteOriginalAfterProcessing := rfl
      cases hvalue : row.deleteOriginalAfterProcessing with
      | true => rfl
      | false =>
        rw [hflag', hvalue] at hdeleted
        cases stage <;> simp [DocumentStage.isOriginalDeleted] at hdeleted
    refine ⟨stage, ⟨?_, ?_, ?_, hextractions hat.extraction rfl⟩⟩
    · rw [hrow']
      refine hdocumentAt.same (by simp [hstatus]) ?_ hsameFlag
      rw [hdocumentAt.originalDeleted, hdeleted]
      exact hdeletes hflagged
    · rw [hderivatives]
      exact hat.derivative
    · refine ⟨fun hstage w other hother => ?_, fun hstage => ?_⟩
      · exact hat.workflow.none hstage w other ((hrows w).symm.trans hother)
      · obtain ⟨w, other, hother, hconcerns, hotherAt, honly⟩ := hat.workflow.one hstage
        rw [hread.found] at hotherAt
        rw [hrow', hsameFlag]
        exact ⟨w, other, (hrows w).trans hother, hconcerns, hotherAt, fun w' workflow' hget =>
          honly w' workflow' ((hrows w').symm.trans hget)⟩

/-- The record of a failure leaves every document at its stage. -/
theorem staged_failed {delivery : Delivery} {document : DocumentProcessingInput}
    {errorClass : String} {answer : DocumentAnswer} (h : AllStaged log σ) {row : DocumentRow}
    {workflow : WorkflowRow} (hread : ReadOf σ delivery.context document row workflow)
    (hdocument : Updates .documents document.id (failedDocument delivery.context errorClass) σ σ' ∨
      SameRows (S := vaultSchema) .documents σ σ')
    (hworkflow : Updates .workflowRuns document.workflowId
        (failedWorkflow delivery.context errorClass) σ σ' ∨
      SameRows (S := vaultSchema) .workflowRuns σ σ')
    (hsame : ∀ t, t ∉ (DocumentStep.recordFailure delivery document errorClass).tables →
      SameRows (S := vaultSchema) t σ σ') :
    AllStaged (⟨.recordFailure delivery document errorClass, .committed answer⟩ :: log) σ' := by
  have hderivatives := hsame .documentDerivatives (by simp [DocumentStep.tables])
  have hextractions : ∀ {k : Identifier} {stage : DocumentStage},
      ExtractionAt log σ k stage →
      ExtractionAt (⟨.recordFailure delivery document errorClass, .committed answer⟩ :: log) σ' k
        stage :=
    fun hat => hat.same rfl (extractionsOf_cons_other (by simp))
      (hsame .evidence (by simp [DocumentStep.tables]))
      (hsame .facts (by simp [DocumentStep.tables]))
  have hothers : ∀ k, k ≠ document.id → σ'.get .documents k = σ.get .documents k := by
    intro k hk
    rcases hdocument with ⟨before, after, -, -, hreplaces⟩ | hrows
    · exact hreplaces.others k hk
    · exact hrows k
  have hworkflows : ∀ k, k ≠ document.id → ∀ w other, other.Concerns k →
      (σ'.get .workflowRuns w = some other ↔ σ.get .workflowRuns w = some other) := by
    intro k hk w other hother
    rcases hworkflow with ⟨before, after, hbefore, hfail, hfailed⟩ | hrows
    · obtain rfl := Option.some.inj (hbefore.symm.trans hread.foundWorkflow)
      exact workflows_of_replaces hbefore hread.concerns (failedWorkflow_kept hfail) hfailed hk w
        other hother
    · rw [hrows w]
  refine h.move document.id hothers (fun k _ => hderivatives _) hworkflows
    (fun k _ stage hat => hextractions hat) ?_
  intro stage hat
  have hdocumentAt : DocumentAt stage (σ'.get .documents document.id) ∧
      deletesOriginal (σ'.get .documents document.id) =
        deletesOriginal (σ.get .documents document.id) := by
    rcases hdocument with ⟨before, after, hbefore, hfail, hreplaces⟩ | hrows
    · have hflag := (failedDocument_kept hfail).flag
      unfold failedDocument at hfail
      split at hfail
      · obtain rfl := Option.some.inj hfail
        rw [hreplaces.row, hbefore]
        have hbeforeAt := hat.document
        rw [hbefore] at hbeforeAt
        exact ⟨hbeforeAt.same rfl rfl rfl, rfl⟩
      · exact absurd hfail (by simp)
    · rw [hrows]
      exact ⟨hat.document, rfl⟩
  refine ⟨stage, ⟨hdocumentAt.1, ?_, ?_, hextractions hat.extraction⟩⟩
  · rw [hderivatives]
    exact hat.derivative
  rcases hworkflow with ⟨before, after, hbefore, hfail, hfailed⟩ | hrows
  · obtain rfl := Option.some.inj (hbefore.symm.trans hread.foundWorkflow)
    obtain ⟨hstage, hworkflowAt, -⟩ := hat.workflow.of_row hbefore hread.concerns
    refine hat.workflow.move hbefore hread.concerns (failedWorkflow_kept hfail) hfailed hstage ?_
    rw [hdocumentAt.2]
    unfold failedWorkflow at hfail
    split at hfail
    · rename_i hguard
      obtain rfl := Option.some.inj hfail
      refine ⟨hworkflowAt.nextStep, hworkflowAt.completedSteps, ?_⟩
      rw [← hworkflowAt.status]
      exact iff_of_false WorkflowStatus.noConfusion hguard.2
    · exact absurd hfail (by simp)
  · refine ⟨fun hstage w other hother => ?_, fun hstage => ?_⟩
    · exact hat.workflow.none hstage w other ((hrows w).symm.trans hother)
    · obtain ⟨w, other, hother, hconcerns, hotherAt, honly⟩ := hat.workflow.one hstage
      rw [hdocumentAt.2]
      exact ⟨w, other, (hrows w).trans hother, hconcerns, hotherAt, fun w' workflow' hget =>
        honly w' workflow' ((hrows w').symm.trans hget)⟩

theorem ExtractionCall.fromDocument_evidence {call : ExtractionCall} {e : Identifier}
    {row : EvidenceRow} (h : (e, row) ∈ call.evidence) :
    row.FromDocument call.input.documentId := by
  obtain ⟨candidate, -, heq⟩ := List.mem_map.mp h
  obtain ⟨-, rfl⟩ := Prod.mk.inj heq
  exact ⟨rfl, rfl⟩

theorem ExtractionCall.fromDocument_fact {call : ExtractionCall} {f : Identifier} {row : FactRow}
    (h : (f, row) ∈ call.facts) : row.FromDocument call.input.documentId := by
  obtain ⟨candidate, -, heq⟩ := List.mem_map.mp h
  obtain ⟨-, rfl⟩ := Prod.mk.inj heq
  exact ⟨rfl, rfl⟩

/-- A manual extraction takes a document from classifying to extracted. -/
theorem staged_extracted {call : ExtractionCall} {body : Json} (h : AllStaged log σ)
    {workflow : WorkflowRow}
    (hfound : σ.get .workflowRuns call.input.workflowId = some workflow)
    (hawaits : workflow.awaitsClassification call.context call.input = true)
    (hworkflow : Updates .workflowRuns call.input.workflowId
      (extractedWorkflowRow call.context call.input) σ σ')
    (hevidence : Inserts (S := vaultSchema) .evidence call.evidence σ σ')
    (hfacts : Inserts (S := vaultSchema) .facts call.facts σ σ')
    (hsame : ∀ t, t ∉ (DocumentStep.extract call).tables → SameRows (S := vaultSchema) t σ σ') :
    AllStaged (⟨.extract call, .committed (.answer (.applied body))⟩ :: log) σ' := by
  obtain ⟨before, after, hbefore, hadvance, hadvanced⟩ := hworkflow
  obtain rfl := Option.some.inj (hbefore.symm.trans hfound)
  have hkept := extractedWorkflowRow_kept hadvance
  have hdocuments := hsame .documents (by simp [DocumentStep.tables])
  have hderivatives := hsame .documentDerivatives (by simp [DocumentStep.tables])
  simp only [WorkflowRow.awaitsClassification, Bool.and_eq_true, beq_iff_eq] at hawaits
  obtain ⟨⟨⟨⟨-, htype⟩, hsubject⟩, hnext⟩, -⟩ := hawaits
  have hconcerns : before.Concerns call.input.documentId := ⟨htype, hsubject⟩
  refine h.move call.input.documentId (fun k _ => hdocuments k) (fun k _ => hderivatives _)
    (fun k hk => workflows_of_replaces hbefore hconcerns hkept hadvanced hk) ?_ ?_
  · intro k hk stage hat
    refine hat.frame rfl ?_ (fun e row hfrom => ?_) (fun f row hfrom => ?_)
    · rw [extractionsOf_cons_extract, if_neg (Ne.symm hk)]
    · rw [hevidence.get_iff]
      refine or_iff_left (fun hmem => hk ?_)
      exact hfrom.2.symm.trans (ExtractionCall.fromDocument_evidence hmem).2
    · rw [hfacts.get_iff]
      refine or_iff_left (fun hmem => hk ?_)
      exact hfrom.2.symm.trans (ExtractionCall.fromDocument_fact hmem).2
  intro stage hat
  obtain ⟨-, hworkflowAt, -⟩ := hat.workflow.of_row hbefore hconcerns
  obtain rfl := DocumentStage.eq_of_nextStep.2.2.2 (hworkflowAt.nextStep.symm.trans hnext)
  have hnone : extractionsOf call.input.documentId log = [] :=
    List.eq_nil_of_length_eq_zero hat.extraction.count
  have hone : extractionsOf call.input.documentId
      (⟨.extract call, .committed (.answer (.applied body))⟩ :: log) = [call] := by
    rw [extractionsOf_cons_extract, if_pos rfl, hnone]
  have hnoEvidence := hat.extraction.evidence
  have hnoFacts := hat.extraction.facts
  simp only [hnone, List.not_mem_nil, false_and, exists_false, iff_false] at hnoEvidence hnoFacts
  refine ⟨.extracted, ⟨?_, ?_, ?_, ⟨?_, fun e row => ?_, fun f row => ?_⟩⟩⟩
  · rw [hdocuments]
    exact ⟨hat.document.status, hat.document.originalDeleted,
      fun hstage => DocumentStage.noConfusion hstage⟩
  · rw [hderivatives]
    exact hat.derivative
  · refine hat.workflow.move hbefore hconcerns hkept hadvanced rfl ?_
    rw [hdocuments]
    unfold extractedWorkflowRow at hadvance
    split at hadvance
    · obtain rfl := Option.some.inj hadvance
      refine ⟨rfl, ?_, by simp [DocumentStage.nextStep]⟩
      rw [hworkflowAt.completedSteps]
      cases deletesOriginal (σ.get .documents call.input.documentId) <;> rfl
    · exact absurd hadvance (by simp)
  · rw [hone]
    rfl
  · rw [hone, hevidence.get_iff]
    simp only [List.mem_singleton, exists_eq_left]
    constructor
    · rintro ⟨hget | hmem, hfrom⟩
      · exact absurd ⟨hget, hfrom⟩ (hnoEvidence e row)
      · exact hmem
    · exact fun hmem => ⟨Or.inr hmem, ExtractionCall.fromDocument_evidence hmem⟩
  · rw [hone, hfacts.get_iff]
    simp only [List.mem_singleton, exists_eq_left]
    constructor
    · rintro ⟨hget | hmem, hfrom⟩
      · exact absurd ⟨hget, hfrom⟩ (hnoFacts f row)
      · exact hmem
    · exact fun hmem => ⟨Or.inr hmem, ExtractionCall.fromDocument_fact hmem⟩

/-- A step that leaves the tables alone leaves every document at its stage. -/
theorem staged_other {entry : DocumentEntry} (h : AllStaged log σ)
    (hentry : ∀ call body, entry ≠ ⟨.extract call, .committed (.answer (.applied body))⟩)
    (hdocuments : SameRows (S := vaultSchema) .documents σ σ')
    (hworkflows : SameRows (S := vaultSchema) .workflowRuns σ σ')
    (hderivatives : SameRows (S := vaultSchema) .documentDerivatives σ σ')
    (hevidence : SameRows (S := vaultSchema) .evidence σ σ')
    (hfacts : SameRows (S := vaultSchema) .facts σ σ') : AllStaged (entry :: log) σ' := by
  intro k
  obtain ⟨stage, hat⟩ := h k
  exact ⟨stage, hat.frame (hdocuments k) (hderivatives _)
    (fun w workflow _ => by rw [hworkflows w])
    (hat.extraction.same rfl (extractionsOf_cons_other hentry) hevidence hfacts)⟩

end Steps

/-- The derivative of a document's OCR run is recorded. -/
def HasDerivative (σ : Vault) (documentId : Identifier) : Prop :=
  (σ.get .documentDerivatives (documentId, searchablePdf)).isSome = true

theorem HasDerivative.later {σ σ' : Vault} {documentId : Identifier}
    (h : HasDerivative σ documentId) (hkept : DocumentsKept σ σ') :
    HasDerivative σ' documentId := by
  obtain ⟨row, hrow⟩ := Option.isSome_iff_exists.mp h
  obtain ⟨row', hrow', -⟩ := hkept.derivatives _ _ hrow
  exact Option.isSome_iff_exists.mpr ⟨row', hrow'⟩

/-- Every document is at some stage, and what leads to a deletion has left a derivative. -/
structure DocumentsStaged (log : List DocumentEntry) (σ : Vault) : Prop where
  staged : AllStaged log σ
  deleting : ∀ delivery document, HasRead log delivery document →
    document.nextStep = some "delete-original" → HasDerivative σ document.id
  recognized : ∀ delivery document derivative,
    Done log (.completeOcr delivery document derivative) → HasDerivative σ document.id

section Invariant

variable {sha256 : Sha256} {log begun : List DocumentEntry} {σ σ' : Vault} {seen : Vault → Prop}
  {step : DocumentStep} {answer : DocumentAnswer}

/-- What was seen held of documents, and has been kept. -/
abbrev SeenDocuments (begun log : List DocumentEntry) (σ : Vault) (seen : Vault → Prop) : Prop :=
  ∀ σ₀, seen σ₀ → DocumentsKept σ₀ σ ∧ ∃ log₀, begun <:+ log₀ ∧ log₀ <:+ log ∧
    DocumentRecords log₀ σ₀ ∧ DocumentsStaged log₀ σ₀

/-- A store that was seen has the rows of a permitted step's read. -/
theorem SeenDocuments.readOf (h : SeenDocuments begun log σ seen)
    (hpermitted : documentPermitted sha256 begun step) {delivery : Delivery}
    {document : DocumentProcessingInput} (hstep : step.processes = some (delivery, document))
    {row : DocumentRow} {workflow : WorkflowRow}
    (hread : ReadOf σ delivery.context document row workflow) {σ₀ : Vault} (hseen : seen σ₀) :
    ∃ row₀ workflow₀, ReadOf σ₀ delivery.context document row₀ workflow₀ ∧ row₀.Kept row ∧
      workflow₀.Kept workflow := by
  obtain ⟨hkept, log₀, hbegun, -, hrecords, -⟩ := h σ₀ hseen
  obtain ⟨row₀, workflow₀, hread₀⟩ := hrecords.readOf hbegun hpermitted hstep
  obtain ⟨row₁, hrow₁, hkeptRow⟩ := hkept.documents _ _ hread₀.found
  obtain ⟨workflow₁, hworkflow₁, hkeptWorkflow⟩ := hkept.workflows _ _ hread₀.foundWorkflow
  obtain rfl := Option.some.inj (hrow₁.symm.trans hread.found)
  obtain rfl := Option.some.inj (hworkflow₁.symm.trans hread.foundWorkflow)
  exact ⟨row₀, workflow₀, hread₀, hkeptRow, hkeptWorkflow⟩

/-- A derivative that was inserted, or was found, is recorded. -/
theorem hasDerivative_of_recognized (hearlier : SeenDocuments begun log σ seen)
    (hkept : DocumentsKept σ σ') {delivery : Delivery} {document : DocumentProcessingInput}
    {derivative : Sealed}
    (h : DocumentChange sha256 seen σ σ' (.completeOcr delivery document derivative) answer) :
    HasDerivative σ' document.id := by
  cases h with
  | recognized σ₀ hseen hderivative hworkflow =>
    rcases hderivative with ⟨-, hreplaces⟩ | ⟨-, σ₁, row, hseen₁, hrow, -⟩
    · exact Option.isSome_iff_exists.mpr ⟨_, hreplaces.row⟩
    · have hfound : HasDerivative σ₁ document.id := Option.isSome_iff_exists.mpr ⟨row, hrow⟩
      exact hfound.later ((hearlier σ₁ hseen₁).1.trans hkept)
  | other _ _ _ _ _ _ _ hstep =>
    rcases hstep with hreplays | htables
    · exact absurd hreplays (by simp [DocumentStep.replays])
    · exact absurd (htables .workflowRuns (by decide)) (by simp [DocumentStep.tables])

/-- Every committed step leaves every document at some stage. -/
theorem DocumentEffect.staged (hrecords : DocumentRecords log σ) (hstaged : AllStaged log σ)
    (hearlier : SeenDocuments begun log σ seen) (hbegun : begun <:+ log)
    (hpermitted : documentPermitted sha256 begun step)
    (h : DocumentEffect sha256 seen σ σ' step answer) :
    AllStaged (⟨step, .committed answer⟩ :: log) σ' := by
  have hsame := h.same
  have hkept := h.kept
  cases h.change with
  | started hnew _ _ hreplaces => exact staged_started hstaged hnew hreplaces hsame
  | uploaded hdocument hnew hworkflow =>
    exact staged_uploaded hstaged hdocument hnew hworkflow hsame
  | extracted workflow hfound hawaits hworkflow hevidence hfacts =>
    exact staged_extracted hstaged hfound hawaits hworkflow hevidence hfacts hsame
  | scanned hdocument hworkflow =>
    obtain ⟨row, workflow, hread⟩ := hrecords.readOf hbegun hpermitted rfl
    exact staged_scanned hstaged hread hdocument hworkflow hsame
  | @recognized delivery document derivative answer σ₀ hseen hderivative hworkflow =>
    obtain ⟨row, workflow, hread⟩ := hrecords.readOf hbegun hpermitted rfl
    obtain ⟨row₀, workflow₀, hread₀, hrow₀, -⟩ := hearlier.readOf hpermitted rfl hread hseen
    have hflag : (σ₀.get .documents document.id).any (fun row : DocumentRow =>
        delivery.context.sees row && row.deleteOriginalAfterProcessing) =
          row.deleteOriginalAfterProcessing := by
      rw [hread₀.found, Option.any_some, hread₀.seesRow, Bool.true_and, hrow₀.flag]
    refine staged_recognized hstaged hread hflag
      (hasDerivative_of_recognized hearlier hkept h.change) (fun k hk => ?_) hworkflow hsame
    rcases hderivative with ⟨-, hreplaces⟩ | ⟨hrows, -⟩
    · exact hreplaces.others _ (fun heq => hk (congrArg Prod.fst heq))
    · exact hrows _
  | @originalDeleted delivery document answer hdocument hworkflow =>
    obtain ⟨row, workflow, hread⟩ := hrecords.readOf hbegun hpermitted rfl
    refine staged_originalDeleted hstaged hread ?_ ?_ hsame
    · rcases hdocument with hupdates | ⟨hrows, σ₀, hseen, hnone⟩
      · exact Or.inl hupdates
      · obtain ⟨row₀, workflow₀, hread₀, hrow₀, -⟩ := hearlier.readOf hpermitted rfl hread hseen
        refine Or.inr ⟨hrows, ?_⟩
        rw [hread₀.found, Option.bind_some] at hnone
        unfold originalDeletedDocument at hnone
        split at hnone
        · exact absurd hnone (by simp)
        · rename_i hguard
          rw [hrow₀.flag]
          exact Bool.eq_false_iff.mpr (fun hflag => hguard ⟨hread₀.seesRow, hflag⟩)
    · rcases hworkflow with hupdates | ⟨hrows, σ₀, found, hseen, hfound, hmem⟩
      · exact Or.inl hupdates
      · obtain ⟨row₀, workflow₀, hread₀, -, hworkflow₀⟩ :=
          hearlier.readOf hpermitted rfl hread hseen
        obtain rfl := Option.some.inj (hfound.symm.trans hread₀.foundWorkflow)
        exact Or.inr ⟨hrows, hworkflow₀.completedSteps _ hmem⟩
  | failed hdocument hworkflow =>
    obtain ⟨row, workflow, hread⟩ := hrecords.readOf hbegun hpermitted rfl
    exact staged_failed hstaged hread (hdocument.imp_right And.left)
      (hworkflow.imp_right And.left) hsame
  | other hdocuments _ hworkflows hderivatives hevidence hfacts hreplayed _ =>
    refine staged_other hstaged (fun call body heq => ?_) hdocuments hworkflows hderivatives
      hevidence hfacts
    exact hreplayed body (Outcome.committed.inj (Entry.mk.inj heq).2)

/-- Entries that are no commits leave the stages as they are. -/
theorem DocumentsStaged.ended {outcome : Outcome RepositoryError DocumentAnswer}
    (houtcome : ∀ a, outcome ≠ .committed a) (h : DocumentsStaged log σ) :
    DocumentsStaged (⟨step, outcome⟩ :: log) σ where
  staged := staged_other h.staged (fun call body heq => houtcome _ (Entry.mk.inj heq).2)
    (SameRows.refl (S := vaultSchema) _ σ) (SameRows.refl (S := vaultSchema) _ σ)
    (SameRows.refl (S := vaultSchema) _ σ) (SameRows.refl (S := vaultSchema) _ σ)
    (SameRows.refl (S := vaultSchema) _ σ)
  deleting := by
    intro delivery document hread hnext
    rcases hread.of_cons with heq | hread
    · exact absurd (Entry.mk.inj heq).2 (houtcome _)
    · exact h.deleting delivery document hread hnext
  recognized := by
    intro delivery document derivative hdone
    rcases List.mem_cons.mp hdone with heq | hmem
    · exact absurd (Entry.mk.inj heq).2.symm (houtcome _)
    · exact h.recognized delivery document derivative hmem

/-- A vault without documents has all of them absent. -/
theorem DocumentsStaged.start {init : Vault} (hinit : NoDocuments init) :
    DocumentsStaged [] init := by
  refine ⟨fun k => ⟨.absent, ⟨?_, ?_, ?_, ⟨rfl, fun e row => ?_, fun f row => ?_⟩⟩⟩,
    fun delivery document hread => absurd hread (by simp [HasRead]),
    fun delivery document derivative hdone => absurd hdone (by simp [Done])⟩
  · rw [hinit.documents]
    exact ⟨rfl, rfl, fun hstage => DocumentStage.noConfusion hstage⟩
  · rw [hinit.derivatives]
    rfl
  · refine ⟨fun _ w workflow hworkflow hconcerns => ?_, fun hstage => ?_⟩
    · exact (hinit.workflows w workflow hworkflow).2 hconcerns.1
    · exact absurd hstage (by simp [DocumentStage.hasWorkflow])
  · simp only [extractionsOf, List.filterMap_nil, List.not_mem_nil, false_and, exists_false,
      iff_false]
    exact fun hrow => hinit.evidence e row hrow.1 hrow.2.1
  · simp only [extractionsOf, List.filterMap_nil, List.not_mem_nil, false_and, exists_false,
      iff_false]
    exact fun hrow => hinit.facts f row hrow.1 hrow.2.1

/-- Documents move from stage to stage in every interleaving. -/
theorem documentsStaged_invariant (sha256 : Sha256) {init : Vault} (hinit : NoDocuments init) :
    (documentProtocol sha256).Invariant init
      (fun log σ => DocumentRecords log σ ∧ DocumentsStaged log σ) DocumentsKept := by
  refine (documentRecords_invariant sha256 hinit).and (.start hinit) ?_
    (fun houtcome h => h.ended houtcome)
  intro log begun seen σ step answer ws hrecords hstaged hpermitted hbegun hnow hearlier hexec
    hrecords' hkept
  have heffect : DocumentEffect sha256 seen σ (σ.overlay ws) step answer :=
    documentProgram_effect hexec
  refine ⟨heffect.staged hrecords hstaged.staged hearlier hbegun hpermitted,
    fun delivery document hread hnext => ?_, fun delivery document derivative hdone => ?_⟩
  · rcases hread.of_cons with heq | hread
    · obtain ⟨rfl, houtcome⟩ := Entry.mk.inj heq
      obtain ⟨σ₀, input, hseen, hanswer, hinput⟩ := executes_read sha256 hexec
      obtain rfl : answer = .input document := Outcome.committed.inj houtcome
      obtain rfl := DocumentAnswer.input.inj hanswer
      obtain ⟨hgrows, log₀, -, -, hrecords₀, hstaged₀⟩ := hearlier σ₀ hseen
      obtain ⟨row, workflow, hreadOf, hnextStep, -⟩ :=
        processingInputOf_eq_some hrecords₀.keys hinput
      obtain ⟨stage, hat⟩ := hstaged₀.staged document.id
      obtain ⟨-, hworkflowAt, -⟩ := hat.workflow.of_row hreadOf.foundWorkflow hreadOf.concerns
      obtain rfl := DocumentStage.eq_of_nextStep.2.2.1
        (hworkflowAt.nextStep.symm.trans (hnextStep.symm.trans hnext))
      have hderivative : HasDerivative σ₀ document.id := hat.derivative
      exact hderivative.later (hgrows.trans hkept)
    · exact (hstaged.deleting delivery document hread hnext).later hkept
  · rcases List.mem_cons.mp hdone with heq | hmem
    · obtain ⟨rfl, houtcome⟩ := Entry.mk.inj heq
      exact hasDerivative_of_recognized hearlier hkept heffect.change
    · exact (hstaged.recognized delivery document derivative hmem).later hkept

end Invariant

/-! ## The pipeline -/

/-- What a workflow's columns say of its document. -/
structure WorkflowAgrees (σ : Vault) (documentId : Identifier) (document : DocumentRow)
    (workflow : WorkflowRow) : Prop where
  quarantined : document.status = .quarantined →
    workflow.nextStep = some "scan" ∧ workflow.completedSteps = []
  rejected : document.status = .rejected →
    workflow.status = .completed ∧ workflow.completedSteps = ["scan"]
  clean : document.status = .clean → "scan" ∈ workflow.completedSteps
  /-- The next step lies beyond `ocr`. -/
  beyondOcr : document.status ≠ .rejected → workflow.nextStep ≠ some "scan" →
    workflow.nextStep ≠ some "ocr" →
      "ocr" ∈ workflow.completedSteps ∧ HasDerivative σ documentId
  originalDeleted : document.originalDeletedAt ≠ none →
    document.deleteOriginalAfterProcessing = true ∧ HasDerivative σ documentId ∧
      "delete-original" ∈ workflow.completedSteps
  classified : document.deleteOriginalAfterProcessing = true →
    workflow.nextStep = some "classification" ∨ "classification" ∈ workflow.completedSteps →
      document.originalDeletedAt ≠ none
  completed : workflow.status = .completed ↔ workflow.nextStep = none
  completedSteps : workflow.completedSteps.Nodup

/-- What holds of a document in the pipeline. -/
structure DocumentPipeline (log : List DocumentEntry) (σ : Vault) (documentId : Identifier)
    (document : DocumentRow) : Prop where
  pending : document.status = .pending →
    ∀ w workflow, σ.get .workflowRuns w = some workflow → ¬ workflow.Concerns documentId
  one : document.status ≠ .pending →
    ∃! w, ∃ workflow, σ.get .workflowRuns w = some workflow ∧ workflow.Concerns documentId
  workflow : ∀ w workflow, σ.get .workflowRuns w = some workflow → workflow.Concerns documentId →
    WorkflowAgrees σ documentId document workflow
  pendingOriginal : document.status = .pending → document.originalDeletedAt = none
  /-- An extraction completes the workflow, once. -/
  extraction : ((∃ w workflow, σ.get .workflowRuns w = some workflow ∧
      workflow.Concerns documentId ∧ workflow.status = .completed ∧
      "manual-extraction" ∈ workflow.completedSteps) ∧
        ∃ call, extractionsOf documentId log = [call]) ∨
    ((∀ w workflow, σ.get .workflowRuns w = some workflow → workflow.Concerns documentId →
      "manual-extraction" ∉ workflow.completedSteps) ∧ extractionsOf documentId log = [])
  evidence : ∀ e row, (σ.get .evidence e = some row ∧ row.FromDocument documentId) ↔
    ∃ call ∈ extractionsOf documentId log, (e, row) ∈ call.evidence
  facts : ∀ f row, (σ.get .facts f = some row ∧ row.FromDocument documentId) ↔
    ∃ call ∈ extractionsOf documentId log, (f, row) ∈ call.facts

namespace DocumentStage

variable {stage : DocumentStage} {deleteOriginal : Bool}

/-- Beyond `ocr` the OCR run is completed and its derivative recorded. -/
theorem beyondOcr (hworkflow : stage.hasWorkflow = true)
    (hrejected : stage.documentStatus ≠ some .rejected) (hscan : stage.nextStep ≠ some "scan")
    (hocr : stage.nextStep ≠ some "ocr") :
    "ocr" ∈ stage.completedSteps deleteOriginal ∧ stage.isRecognized = true := by
  cases stage <;> cases deleteOriginal <;>
    simp [hasWorkflow, documentStatus, nextStep, completedSteps, isRecognized] at *

/-- A recorded deletion was asked for and follows the OCR run. -/
theorem originalDeleted (h : stage.isOriginalDeleted deleteOriginal = true) :
    deleteOriginal = true ∧ stage.isRecognized = true ∧
      "delete-original" ∈ stage.completedSteps deleteOriginal := by
  cases stage <;> cases deleteOriginal <;>
    simp [isOriginalDeleted, isRecognized, completedSteps] at *

/-- A flagged document is classified only after its deletion is recorded. -/
theorem classified (hflag : deleteOriginal = true)
    (h : stage.nextStep = some "classification" ∨
      "classification" ∈ stage.completedSteps deleteOriginal) :
    stage.isOriginalDeleted deleteOriginal = true := by
  subst hflag
  cases stage <;> simp [nextStep, completedSteps, isOriginalDeleted] at *

/-- No step is completed twice. -/
theorem completedSteps_nodup (stage : DocumentStage) (deleteOriginal : Bool) :
    (stage.completedSteps deleteOriginal).Nodup := by
  cases stage <;> cases deleteOriginal <;> simp [completedSteps]

end DocumentStage

/-- A workflow at the stage of its document agrees with it. -/
theorem WorkflowRow.At.agrees {σ : Vault} {documentId : Identifier} {document : DocumentRow}
    {workflow : WorkflowRow} {stage : DocumentStage} (hworkflow : stage.hasWorkflow = true)
    (hdocument : DocumentAt stage (some document))
    (hderivative : (σ.get .documentDerivatives (documentId, searchablePdf)).isSome =
      stage.isRecognized)
    (h : workflow.At stage document.deleteOriginalAfterProcessing) :
    WorkflowAgrees σ documentId document workflow := by
  have hstatus : some document.status = stage.documentStatus := hdocument.status
  have hdeleted : document.originalDeletedAt.isSome =
      stage.isOriginalDeleted document.deleteOriginalAfterProcessing := hdocument.originalDeleted
  have hsome : document.originalDeletedAt ≠ none ↔ document.originalDeletedAt.isSome = true :=
    Option.isSome_iff_ne_none.symm
  constructor
  · intro hquarantined
    rw [hquarantined] at hstatus
    obtain rfl := DocumentStage.eq_of_documentStatus.2.2 hstatus.symm
    exact ⟨h.nextStep, h.completedSteps⟩
  · intro hrejected
    rw [hrejected] at hstatus
    rw [h.status, h.completedSteps]
    cases stage <;> simp [DocumentStage.documentStatus] at hstatus
    exact ⟨rfl, rfl⟩
  · intro hclean
    rw [hclean] at hstatus
    rw [h.completedSteps]
    cases stage <;> cases document.deleteOriginalAfterProcessing <;>
      simp [DocumentStage.documentStatus, DocumentStage.completedSteps] at hstatus ⊢
  · intro hrejected hscan hocr
    rw [h.nextStep] at hscan hocr
    rw [h.completedSteps, HasDerivative, hderivative]
    refine DocumentStage.beyondOcr hworkflow (fun heq => hrejected ?_) hscan hocr
    exact Option.some.inj (hstatus.trans heq)
  · intro hnone
    rw [hsome, hdeleted] at hnone
    rw [h.completedSteps, HasDerivative, hderivative]
    exact DocumentStage.originalDeleted hnone
  · intro hflag hclassification
    rw [h.nextStep, h.completedSteps] at hclassification
    rw [hsome, hdeleted]
    exact DocumentStage.classified hflag hclassification
  · rw [h.status, h.nextStep]
  · rw [h.completedSteps]
    exact stage.completedSteps_nodup _

/-- A document at a stage is where the pipeline has it. -/
theorem AtStage.pipeline {log : List DocumentEntry} {σ : Vault} {k : Identifier}
    {document : DocumentRow} {stage : DocumentStage} (h : AtStage log σ k stage)
    (hrow : σ.get .documents k = some document) : DocumentPipeline log σ k document := by
  have hdocument := h.document
  rw [hrow] at hdocument
  have hstatus : some document.status = stage.documentStatus := hdocument.status
  have hdeleted : document.originalDeletedAt.isSome =
      stage.isOriginalDeleted document.deleteOriginalAfterProcessing := hdocument.originalDeleted
  have hat : ∀ w workflow, σ.get .workflowRuns w = some workflow → workflow.Concerns k →
      stage.hasWorkflow = true ∧ workflow.At stage document.deleteOriginalAfterProcessing := by
    intro w workflow hworkflow hconcerns
    obtain ⟨hstage, hworkflowAt, -⟩ := h.workflow.of_row hworkflow hconcerns
    rw [hrow] at hworkflowAt
    exact ⟨hstage, hworkflowAt⟩
  refine ⟨?_, ?_, ?_, ?_, ?_, h.extraction.evidence, h.extraction.facts⟩
  · intro hpending
    rw [hpending] at hstatus
    obtain rfl := DocumentStage.eq_of_documentStatus.2.1 hstatus.symm
    exact h.workflow.none rfl
  · intro hpending
    have hstage : stage.hasWorkflow = true := by
      cases stage <;> simp [DocumentStage.documentStatus, DocumentStage.hasWorkflow] at hstatus ⊢
      exact hpending hstatus
    obtain ⟨w, workflow, hworkflow, hconcerns, -, honly⟩ := h.workflow.one hstage
    refine ⟨w, ⟨workflow, hworkflow, hconcerns⟩, ?_⟩
    rintro w' ⟨workflow', hworkflow', hconcerns'⟩
    exact honly w' workflow' hworkflow' hconcerns'
  · intro w workflow hworkflow hconcerns
    obtain ⟨hstage, hworkflowAt⟩ := hat w workflow hworkflow hconcerns
    exact hworkflowAt.agrees hstage hdocument h.derivative
  · intro hpending
    rw [hpending] at hstatus
    obtain rfl := DocumentStage.eq_of_documentStatus.2.1 hstatus.symm
    exact Option.not_isSome_iff_eq_none.mp (by simp [hdeleted, DocumentStage.isOriginalDeleted])
  · have hcount := h.extraction.count
    by_cases hstage : stage = .extracted
    · subst hstage
      obtain ⟨w, workflow, hworkflow, hconcerns, hworkflowAt, -⟩ := h.workflow.one rfl
      refine Or.inl ⟨⟨w, workflow, hworkflow, hconcerns, hworkflowAt.status.mpr rfl, ?_⟩,
        List.length_eq_one_iff.mp hcount⟩
      rw [hworkflowAt.completedSteps]
      cases deletesOriginal (σ.get .documents k) <;> simp [DocumentStage.completedSteps]
    · have hzero : stage.extractions = 0 := by
        cases stage <;> first | rfl | exact absurd rfl hstage
      refine Or.inr ⟨fun w workflow hworkflow hconcerns => ?_,
        List.eq_nil_of_length_eq_zero (hcount.trans hzero)⟩
      obtain ⟨-, hworkflowAt⟩ := hat w workflow hworkflow hconcerns
      rw [hworkflowAt.completedSteps]
      cases stage <;> cases document.deleteOriginalAfterProcessing <;>
        simp [DocumentStage.completedSteps] at hstage ⊢

/-! ## A run -/

/-- A tenant. -/
def exampleUploader : TenantContext := ⟨"o1", "h1", "p1"⟩

/-- The bytes of an original. -/
def exampleBytes : String := "%PDF-1.4"

/-- The upload of a document whose original is to be deleted. -/
def exampleUpload : UploadStartCall where
  context := exampleUploader
  key := "start-key"
  input := ⟨exampleBytes, "application/pdf", 100, none, "v1", true⟩
  generated := ⟨"d1", "k1", "data-key", "household-key", 1, 0⟩
  now := 0

/-- The document as it waits for its upload. -/
def examplePending : DocumentRow :=
  pendingDocument exampleUploader exampleUpload.input exampleUpload.generated

/-- The ciphertext of the original. -/
def exampleCiphertext : Sealed :=
  encryptEnvelope (.data exampleBytes) "data-key" (documentOriginalContext exampleUploader "d1" 1) 1

/-- A URL for the ciphertext. -/
def exampleUrl : UploadUrlCall :=
  ⟨exampleUploader, "d1", 1, Sha256.transparent.ofCiphertext exampleCiphertext, 0⟩

/-- The completion of the upload. -/
def exampleCompletion : UploadCompletionCall where
  context := exampleUploader
  key := "complete-key"
  input := ⟨"d1", 1, Sha256.transparent.ofCiphertext exampleCiphertext⟩
  workflowId := "w1"
  uploadedAt := 1
  now := 1

/-- A delivery that finds every original clean. -/
def exampleDelivery (handler : DocumentHandler) : Delivery where
  handler := handler
  context := exampleUploader
  workflowId := "w1"
  householdKey := "household-key"
  scansClean := fun _ => true
  extractSearchablePdf := id
  iv := 2
  now := 2

/-- The document as the scan reads it. -/
def exampleQuarantined : DocumentProcessingInput where
  id := "d1"
  objectKey := "quarantine/k1"
  originalSha256 := exampleBytes
  mediaType := "application/pdf"
  status := .quarantined
  encryptionKeyVersion := 1
  wrappedDataKey := encryptEnvelope (.key "data-key") "household-key"
    (documentKeyContext exampleUploader "d1" 1) 0
  maximumBytes := 100
  version := 2
  deleteOriginalAfterProcessing := true
  originalDeletedAt := none
  workflowId := "w1"
  workflowStatus := .pending
  workflowVersion := 1
  nextStep := some "scan"

/-- The document as the OCR run reads it. -/
def exampleClean : DocumentProcessingInput :=
  { exampleQuarantined with
    status := .clean
    version := 3
    workflowStatus := .running
    workflowVersion := 2
    nextStep := some "ocr" }

/-- The ciphertext of the derivative. -/
def exampleDerivative : Sealed :=
  encryptEnvelope (.data exampleBytes) "data-key"
    ⟨"o1", "h1", "d1", "document-searchable-pdf", 1⟩ 2

/-- The extraction of one candidate. -/
def exampleExtraction : ExtractionCall where
  context := exampleUploader
  key := "extract-key"
  input := ⟨"d1", "w1", 4, [⟨"asset.bank", .str "First Bank", "page 1", .standard, none⟩]⟩
  generated := ⟨"household-key", 1, 3, fun _ => ⟨"f1", "e1", 4⟩⟩
  now := 3

/-- From the upload to the clean document. -/
def exampleScanned : List DocumentStep :=
  [.startUpload exampleUpload, .pendingForUrl exampleUrl,
    .upload exampleUrl examplePending exampleCiphertext 0,
    .pendingForCompletion exampleCompletion, .assertStored exampleCompletion examplePending,
    .completeUpload exampleCompletion, .read (exampleDelivery .scan),
    .fetch (exampleDelivery .scan) exampleQuarantined,
    .markClean (exampleDelivery .scan) exampleQuarantined exampleBytes,
    .completeScan (exampleDelivery .scan) exampleQuarantined .clean]

/-- From the clean document to the deletion of its original. -/
def exampleRecognized : List DocumentStep :=
  [.read (exampleDelivery .ocr), .fetch (exampleDelivery .ocr) exampleClean,
    .putDerivative (exampleDelivery .ocr) exampleClean exampleDerivative,
    .completeOcr (exampleDelivery .ocr) exampleClean exampleDerivative,
    .deleteOriginal (exampleDelivery .ocr) exampleClean,
    .completeDeletion (exampleDelivery .ocr) exampleClean]

set_option maxRecDepth 100000 in
theorem exampleProcessed_permitted : (documentProtocol Sha256.transparent).Sequential [] Store.empty
    (exampleScanned ++ exampleRecognized ++ [.extract exampleExtraction]) := by
  have hfirst : ∀ {entry : DocumentEntry} {log : List DocumentEntry}, entry ∈ entry :: log :=
    List.mem_cons_self
  exact ⟨trivial, trivial, ⟨hfirst, rfl, rfl, by decide⟩, trivial, ⟨hfirst, rfl⟩,
    ⟨examplePending, hfirst⟩, trivial, ⟨hfirst, rfl⟩,
    ⟨rfl, ⟨exampleCiphertext, hfirst, rfl⟩, rfl, rfl⟩, ⟨exampleBytes, hfirst⟩, trivial,
    ⟨hfirst, rfl⟩, ⟨rfl, exampleBytes, ⟨exampleCiphertext, hfirst, rfl⟩, rfl⟩, hfirst,
    ⟨rfl, Or.inr ⟨rfl, exampleDerivative, hfirst⟩⟩, hfirst, trivial, trivial⟩

/-- In every interleaving every document is where the pipeline has it, and an original is deleted
only after the derivative of its OCR run is recorded. -/
theorem documentPipeline_holds (sha256 : Sha256) {init : Vault} (hinit : NoDocuments init)
    {s : (documentProtocol sha256).System} (h : Reachable init s) :
    (∀ k document, s.committed.get .documents k = some document →
      DocumentPipeline s.log s.committed k document) ∧
    ∀ delivery document, documentPermitted sha256 s.log (.deleteOriginal delivery document) →
      HasDerivative s.committed document.id := by
  obtain ⟨hrecords, hstaged⟩ := (documentsStaged_invariant sha256 hinit).reachable h
  constructor
  · intro k document hrow
    obtain ⟨stage, hat⟩ := hstaged.staged k
    exact hat.pipeline hrow
  · intro delivery document hpermitted
    rcases hpermitted.2 with ⟨hread, hnext⟩ | ⟨-, derivative, hcompleted⟩
    · exact hstaged.deleting delivery document hread hnext
    · exact hstaged.recognized delivery document derivative hcompleted

set_option maxRecDepth 100000 in
theorem documentPipeline_holds_example :
    ∃ (s : (documentProtocol Sha256.transparent).System) (document : DocumentRow),
      Reachable Store.empty s ∧ s.committed.get .documents "d1" = some document ∧
      document.originalDeletedAt = some 2 ∧ s.log.length = 17 ∧
      DocumentPipeline s.log s.committed "d1" document := by
  obtain ⟨s, hs, hlog, hcommitted⟩ := reachable_sequential exampleProcessed_permitted
  have hrow : s.committed.get .documents "d1" = some { examplePending with
      status := .clean
      ciphertextSha256 := some (Sha256.transparent.ofCiphertext exampleCiphertext)
      uploadedAt := some 1
      processedAt := some 2
      originalDeletedAt := some 2
      version := 4 } := by
    rw [hcommitted]
    rfl
  have hlength : s.log.length = 17 := by
    rw [hlog]
    rfl
  exact ⟨s, _, hs, hrow, rfl, hlength,
    (documentPipeline_holds Sha256.transparent noDocuments_empty hs).1 "d1" _ hrow⟩

end LegacyVault
