import LegacyVault.DocumentObjects

/-!
# Stored originals

The original of a document stays in the object store from its upload until a
handler deletes it. A document leaves `pending` only when its original is
stored, and with the checksum of a ciphertext.
-/

namespace LegacyVault

open JsonText RowTransaction RowTransaction.Program RowTransaction.Protocol Store

section Objects

variable (log : List DocumentEntry) (σ : Vault) (objectKey : String)

/-- The client has put an object under the key. -/
def Uploaded : Prop :=
  ∃ call document ciphertext at_ answer, (⟨.upload call document ciphertext at_,
    .committed answer⟩ : DocumentEntry) ∈ log ∧ document.objectKey = objectKey

/-- A handler has deleted the object under the key. -/
def Deleted : Prop :=
  ∃ delivery document answer, (⟨.deleteOriginal delivery document, .committed answer⟩ :
    DocumentEntry) ∈ log ∧ document.objectKey = objectKey

/-- An object is under the key, or was until a handler deleted it. -/
def Stored : Prop := (∃ object : StoredObject, σ.get .objects objectKey = some object) ∨
  Deleted log objectKey

end Objects

/-- The vault has no originals. -/
def NoOriginals (init : Vault) : Prop :=
  ∀ objectKey, IsQuarantineKey objectKey → init.get .objects objectKey = none

theorem noOriginals_empty : NoOriginals Store.empty := fun _ _ => rfl

/-- Where the originals are. -/
structure StoredOriginals (log : List DocumentEntry) (σ : Vault) : Prop where
  uploads : ∀ objectKey, Uploaded log objectKey → Stored log σ objectKey
  origins : ∀ objectKey (object : StoredObject), IsQuarantineKey objectKey →
    σ.get .objects objectKey = some object → Uploaded log objectKey
  asserted : ∀ call document answer, (⟨.assertStored call document, .committed answer⟩ :
    DocumentEntry) ∈ log → Stored log σ document.objectKey
  documents : ∀ k (row : DocumentRow), σ.get .documents k = some row → row.status ≠ .pending →
    Stored log σ row.objectKey
  metadata : ∀ k (row : DocumentRow), σ.get .documents k = some row →
    row.wrappedDataKey.isSome = true ∧ (row.status ≠ .pending → row.ciphertextSha256.isSome = true)
  deletions : ∀ delivery document answer, (⟨.completeDeletion delivery document,
    .committed answer⟩ : DocumentEntry) ∈ log → ∃ workflow : WorkflowRow,
      σ.get .workflowRuns document.workflowId = some workflow ∧ workflow.Concerns document.id ∧
      "delete-original" ∈ workflow.completedSteps

theorem Uploaded.later {log log' : List DocumentEntry} {objectKey : String}
    (h : Uploaded log objectKey) (hlog : ∀ entry ∈ log, entry ∈ log') :
    Uploaded log' objectKey := by
  obtain ⟨call, document, ciphertext, at_, answer, hmem, hkey⟩ := h
  exact ⟨call, document, ciphertext, at_, answer, hlog _ hmem, hkey⟩

theorem Deleted.later {log log' : List DocumentEntry} {objectKey : String}
    (h : Deleted log objectKey) (hlog : ∀ entry ∈ log, entry ∈ log') : Deleted log' objectKey := by
  obtain ⟨delivery, document, answer, hmem, hkey⟩ := h
  exact ⟨delivery, document, answer, hlog _ hmem, hkey⟩

section Steps

variable {log : List DocumentEntry} {σ σ' : Vault} {step : DocumentStep} {answer : DocumentAnswer}

/-- What is stored stays stored, or is deleted by the step. -/
theorem Stored.stays {objectKey : String} (h : Stored log σ objectKey)
    (hchange : ObjectChange σ σ' step) :
    Stored (⟨step, .committed answer⟩ :: log) σ' objectKey := by
  rcases h with ⟨object, hobject⟩ | hdeleted
  · cases hchange with
    | @uploaded call document _ _ hobjects =>
      rcases hobjects.get_cases objectKey with ⟨-, hnew⟩ | ⟨-, hold⟩
      · exact Or.inl ⟨_, hnew⟩
      · exact Or.inl ⟨object, hold.trans hobject⟩
    | marked before _ hobjects =>
      rcases hobjects.get_cases objectKey with ⟨-, hnew⟩ | ⟨-, hold⟩
      · exact Or.inl ⟨_, hnew⟩
      · exact Or.inl ⟨object, hold.trans hobject⟩
    | derived hobjects =>
      rcases hobjects.get_cases objectKey with ⟨-, hnew⟩ | ⟨-, hold⟩
      · exact Or.inl ⟨_, hnew⟩
      · exact Or.inl ⟨object, hold.trans hobject⟩
    | @deleted delivery document hobjects =>
      rcases hobjects with hreplaces | hsame
      · rcases hreplaces.get_cases objectKey with ⟨heq, -⟩ | ⟨-, hold⟩
        · exact Or.inr ⟨delivery, document, answer, List.mem_cons_self, heq.symm⟩
        · exact Or.inl ⟨object, hold.trans hobject⟩
      · exact Or.inl ⟨object, (hsame _).trans hobject⟩
    | other hobjects _ => exact Or.inl ⟨object, (hobjects _).trans hobject⟩
  · exact Or.inr (hdeleted.later (fun _ => List.mem_cons_of_mem _))

/-- An original after a committed step was there before, or the step is its upload. -/
theorem ObjectChange.original_origin (hchange : ObjectChange σ σ' step) {objectKey : String}
    {object : StoredObject} (hquarantine : IsQuarantineKey objectKey)
    (hobject : σ'.get .objects objectKey = some object) :
    (∃ before : StoredObject, σ.get .objects objectKey = some before) ∨
      ∃ call document ciphertext at_, step = .upload call document ciphertext at_ ∧
        document.objectKey = objectKey := by
  cases hchange with
  | @uploaded call document ciphertext at_ hobjects =>
    rcases hobjects.get_cases objectKey with ⟨heq, -⟩ | ⟨-, hold⟩
    · exact Or.inr ⟨call, document, ciphertext, at_, rfl, heq.symm⟩
    · exact Or.inl ⟨object, hold.symm.trans hobject⟩
  | marked before hbefore hobjects =>
    rcases hobjects.get_cases objectKey with ⟨rfl, -⟩ | ⟨-, hold⟩
    · exact Or.inl ⟨before, hbefore⟩
    · exact Or.inl ⟨object, hold.symm.trans hobject⟩
  | derived hobjects =>
    rcases hobjects.get_cases objectKey with ⟨heq, -⟩ | ⟨-, hold⟩
    · exact absurd heq.symm (hquarantine.ne_derivative _)
    · exact Or.inl ⟨object, hold.symm.trans hobject⟩
  | deleted hobjects =>
    rcases hobjects with hreplaces | hsame
    · rcases hreplaces.get_cases objectKey with ⟨-, hnew⟩ | ⟨-, hold⟩
      · exact absurd (hnew.symm.trans hobject) (by simp)
      · exact Or.inl ⟨object, hold.symm.trans hobject⟩
    · exact Or.inl ⟨object, (hsame _).symm.trans hobject⟩
  | other hobjects _ => exact Or.inl ⟨object, (hobjects _).symm.trans hobject⟩

/-- A document that is not pending was not pending before, or the step has completed its upload. -/
theorem DocumentEffect.uploaded_origin {sha256 : Sha256} {seen : Vault → Prop}
    (h : DocumentEffect sha256 seen σ σ' step answer) {k : Identifier} {row : DocumentRow}
    (hrow : σ'.get .documents k = some row) (hstatus : row.status ≠ .pending) :
    (∃ before : DocumentRow, σ.get .documents k = some before ∧ before.status ≠ .pending ∧
        before.Kept row) ∨
      ∃ call, step = .completeUpload call ∧ call.input.documentId = k ∧
        row.ciphertextSha256 = some call.input.ciphertextSha256 := by
  have hsame : SameRows (S := vaultSchema) .documents σ σ' →
      ∃ before : DocumentRow, σ.get .documents k = some before ∧ before.status ≠ .pending ∧
        before.Kept row :=
    fun hrows => ⟨row, (hrows k).symm.trans hrow, hstatus, .refl row⟩
  have hupdated : ∀ {k' : Identifier} {change : DocumentRow → Option DocumentRow},
      (∀ before after, change before = some after → before.Kept after ∧
        (after.status ≠ .pending → before.status ≠ .pending)) →
      Updates .documents k' change σ σ' →
      ∃ before : DocumentRow, σ.get .documents k = some before ∧ before.status ≠ .pending ∧
        before.Kept row := by
    rintro k' change hchange ⟨before, after, hbefore, hafter, hreplaces⟩
    rcases hreplaces.get_cases k with ⟨rfl, hnew⟩ | ⟨-, hold⟩
    · obtain rfl := Option.some.inj (hnew.symm.trans hrow)
      obtain ⟨hkept, hpending⟩ := hchange before after hafter
      exact ⟨before, hbefore, hpending hstatus, hkept⟩
    · exact ⟨row, hold.symm.trans hrow, hstatus, .refl row⟩
  have hscanned : ∀ {context : TenantContext} {version : Nat} {outcome : ScanOutcome}
      {at_ : Instant} (before after : DocumentRow),
      scannedDocument context version outcome at_ before = some after → before.Kept after ∧
        (after.status ≠ .pending → before.status ≠ .pending) := by
    intro context version outcome at_ before after hafter
    refine ⟨scannedDocument_kept hafter, fun _ => ?_⟩
    unfold scannedDocument at hafter
    split at hafter
    · rename_i hguard
      rw [hguard.2.1]
      exact DocumentStatus.noConfusion
    · exact absurd hafter (by simp)
  have hfailed : ∀ {context : TenantContext} {errorClass : String} (before after : DocumentRow),
      failedDocument context errorClass before = some after → before.Kept after ∧
        (after.status ≠ .pending → before.status ≠ .pending) := by
    intro context errorClass before after hafter
    refine ⟨failedDocument_kept hafter, fun hnot => ?_⟩
    unfold failedDocument at hafter
    split at hafter
    · obtain rfl := Option.some.inj hafter
      exact hnot
    · exact absurd hafter (by simp)
  have hdeleted : ∀ {context : TenantContext} {at_ : Instant} (before after : DocumentRow),
      originalDeletedDocument context at_ before = some after → before.Kept after ∧
        (after.status ≠ .pending → before.status ≠ .pending) := by
    intro context at_ before after hafter
    refine ⟨originalDeletedDocument_kept hafter, fun hnot => ?_⟩
    unfold originalDeletedDocument at hafter
    split at hafter
    · obtain rfl := Option.some.inj hafter
      exact hnot
    · exact absurd hafter (by simp)
  cases h.change with
  | started _ _ _ hreplaces =>
    rcases hreplaces.get_cases k with ⟨rfl, hinserted⟩ | ⟨-, hold⟩
    · obtain rfl := Option.some.inj (hinserted.symm.trans hrow)
      exact absurd rfl hstatus
    · exact Or.inl ⟨row, hold.symm.trans hrow, hstatus, .refl row⟩
  | @uploaded call body hdocument _ _ =>
    obtain ⟨before, after, hbefore, hafter, hreplaces⟩ := hdocument
    rcases hreplaces.get_cases k with ⟨rfl, hnew⟩ | ⟨-, hold⟩
    · obtain rfl := Option.some.inj (hnew.symm.trans hrow)
      refine Or.inr ⟨call, rfl, rfl, ?_⟩
      unfold quarantinedDocument at hafter
      split at hafter
      · obtain rfl := Option.some.inj hafter
        rfl
      · exact absurd hafter (by simp)
    · exact Or.inl ⟨row, hold.symm.trans hrow, hstatus, .refl row⟩
  | extracted _ _ _ _ _ _ => exact Or.inl (hsame (h.same _ (by simp [DocumentStep.tables])))
  | scanned hdocument _ => exact Or.inl (hupdated hscanned hdocument)
  | recognized _ _ _ _ => exact Or.inl (hsame (h.same _ (by simp [DocumentStep.tables])))
  | originalDeleted hdocument _ =>
    rcases hdocument with hupdates | ⟨hrows, -⟩
    · exact Or.inl (hupdated hdeleted hupdates)
    · exact Or.inl (hsame hrows)
  | failed hdocument _ =>
    rcases hdocument with hupdates | ⟨hrows, -⟩
    · exact Or.inl (hupdated hfailed hupdates)
    · exact Or.inl (hsame hrows)
  | other hdocuments _ _ _ _ _ _ _ => exact Or.inl (hsame hdocuments)

end Steps

/-- A session that did not commit stores and deletes nothing. -/
theorem StoredOriginals.ended {log : List DocumentEntry} {σ : Vault} {step : DocumentStep}
    {outcome : Outcome RepositoryError DocumentAnswer} (houtcome : ∀ a, outcome ≠ .committed a)
    (h : StoredOriginals log σ) : StoredOriginals (⟨step, outcome⟩ :: log) σ := by
  have hbefore : ∀ {step' : DocumentStep} {answer : DocumentAnswer},
      (⟨step', .committed answer⟩ : DocumentEntry) ∈ ⟨step, outcome⟩ :: log →
      (⟨step', .committed answer⟩ : DocumentEntry) ∈ log := by
    intro step' answer hmem
    rcases List.mem_cons.mp hmem with heq | hmem
    · exact absurd (Entry.mk.inj heq).2.symm (houtcome answer)
    · exact hmem
  have hstored : ∀ {objectKey : String}, Stored log σ objectKey →
      Stored (⟨step, outcome⟩ :: log) σ objectKey :=
    fun hstored => hstored.imp_right (fun hdeleted =>
      hdeleted.later (fun _ => List.mem_cons_of_mem _))
  refine ⟨fun objectKey huploaded => ?_, fun objectKey object hquarantine hobject => ?_,
    fun call document answer hmem => hstored (h.asserted call document answer (hbefore hmem)),
    fun k row hrow hstatus => hstored (h.documents k row hrow hstatus), h.metadata,
    fun delivery document answer hmem => h.deletions delivery document answer (hbefore hmem)⟩
  · obtain ⟨call, document, ciphertext, at_, answer, hmem, hkey⟩ := huploaded
    exact hstored (h.uploads objectKey
      ⟨call, document, ciphertext, at_, answer, hbefore hmem, hkey⟩)
  · exact (h.origins objectKey object hquarantine hobject).later (fun _ => List.mem_cons_of_mem _)

/-- Originals are stored from their upload to their deletion, in every interleaving. -/
theorem storedOriginals_invariant (sha256 : Sha256) {init : Vault} (hinit : NoDocuments init)
    (hnone : NoOriginals init) :
    (documentProtocol sha256).Invariant init
      (fun log σ => (DocumentRecords log σ ∧ DocumentObjects log σ) ∧ StoredOriginals log σ)
      DocumentsKept := by
  refine (documentObjects_invariant sha256 hinit).and ?_ ?_ (fun houtcome h => h.ended houtcome)
  · refine ⟨?_, fun objectKey object hquarantine hobject => ?_, fun _ _ _ hmem => ?_,
      fun k row hrow => ?_, fun k row hrow => ?_, fun _ _ _ hmem => ?_⟩
    · rintro objectKey ⟨call, document, ciphertext, at_, answer, hmem, -⟩
      exact absurd hmem (by simp)
    · exact absurd (hobject.symm.trans (hnone objectKey hquarantine)) (by simp)
    · exact absurd hmem (by simp)
    · exact absurd (hrow.symm.trans (hinit.documents k)) (by simp)
    · exact absurd (hrow.symm.trans (hinit.documents k)) (by simp)
    · exact absurd hmem (by simp)
  · intro log begun seen σ step answer ws hinv h hpermitted hbegun hnow hearlier hexec hinv' hkept
    have heffect : DocumentEffect sha256 seen σ (σ.overlay ws) step answer :=
      documentProgram_effect hexec
    have hobjects : ObjectChange σ (σ.overlay ws) step := documentProgram_objects hexec
    have hpermitted : documentPermitted sha256 begun step := hpermitted
    have hlog : ∀ entry ∈ log, entry ∈ (⟨step, .committed answer⟩ :: log : List DocumentEntry) :=
      fun _ => List.mem_cons_of_mem _
    have hstored : ∀ {objectKey : String}, Stored log σ objectKey →
        Stored (⟨step, .committed answer⟩ :: log) (σ.overlay ws) objectKey :=
      fun hbefore => Stored.stays hbefore hobjects
    refine ⟨?_, fun objectKey object hquarantine hobject => ?_,
      fun call document answer' hmem => ?_, fun k row hrow hstatus => ?_, fun k row hrow => ?_,
      fun delivery document answer' hmem => ?_⟩
    · rintro objectKey ⟨call, document, ciphertext, at_, answer', hmem, hkey⟩
      rcases List.mem_cons.mp hmem with heq | hmem
      · obtain ⟨rfl, -⟩ := Entry.mk.inj heq
        cases hobjects with
        | uploaded hreplaces =>
          rw [← hkey]
          exact Or.inl ⟨_, hreplaces.row⟩
        | other _ hstep => exact absurd hstep (by simp [DocumentStep.tables])
      · exact hstored (h.uploads objectKey
          ⟨call, document, ciphertext, at_, answer', hmem, hkey⟩)
    · rcases hobjects.original_origin hquarantine hobject with
        ⟨before, hbefore⟩ | ⟨call, document, ciphertext, at_, rfl, hkey⟩
      · exact (h.origins objectKey before hquarantine hbefore).later hlog
      · exact ⟨call, document, ciphertext, at_, answer, List.mem_cons_self, hkey⟩
    · rcases List.mem_cons.mp hmem with heq | hmem
      · obtain ⟨rfl, -⟩ := Entry.mk.inj heq
        have howns : OwnsOriginal σ call.input.documentId document.objectKey :=
          hinv.2.original_of_permitted hinv.1 hbegun hpermitted rfl
        obtain ⟨u, ws₁, hassert, -, -⟩ := executes_bind_ok.mp hexec
        obtain ⟨σ₀, object, hseen, hobject, -⟩ := executes_assertStoredChecksum hassert
        obtain ⟨-, log₀, -, hlog₀, hinv₀, h₀⟩ := hearlier σ₀ hseen
        have huploaded : Uploaded log₀ document.objectKey :=
          h₀.origins _ object (hinv.2.isQuarantineKey howns) hobject
        exact hstored (h.uploads _ (huploaded.later hlog₀.subset))
      · exact hstored (h.asserted call document answer' hmem)
    · rcases heffect.uploaded_origin hrow hstatus with
        ⟨before, hbefore, hpending, hkeptRow⟩ | ⟨call, rfl, rfl, -⟩
      · rw [hkeptRow.column DocumentRow.objectKey (fun _ => rfl)]
        exact hstored (h.documents k before hbefore hpending)
      · obtain ⟨document, hasserted⟩ := hpermitted
        have hmem := hbegun.subset hasserted
        obtain ⟨row', hrow', hkey⟩ :=
          (hinv.2.originals _ _ hmem _ _ rfl).later hkept
        obtain rfl := Option.some.inj (hrow'.symm.trans hrow)
        rw [hkey]
        exact hstored (h.asserted call document _ hmem)
    · rcases heffect.document_origin hrow with
        ⟨before, hbefore, hkeptRow⟩ | ⟨call, rfl, rfl, rfl, -, -⟩
      · obtain ⟨hkey, -⟩ := h.metadata k before hbefore
        refine ⟨?_, fun hstatus => ?_⟩
        · rw [hkeptRow.column DocumentRow.wrappedDataKey (fun _ => rfl)]
          exact hkey
        · rcases heffect.uploaded_origin hrow hstatus with
            ⟨before', hbefore', hpending, hkeptRow'⟩ | ⟨call, -, -, hchecksum⟩
          · rw [(hkeptRow'.uploaded hpending).2]
            exact (h.metadata k before' hbefore').2 hpending
          · rw [hchecksum]
            rfl
      · exact ⟨rfl, fun hstatus => absurd rfl hstatus⟩
    · rcases List.mem_cons.mp hmem with heq | hmem
      · obtain ⟨rfl, -⟩ := Entry.mk.inj heq
        obtain ⟨row, workflow, hread⟩ := hinv.1.readOf hbegun hpermitted rfl
        obtain ⟨workflow', hworkflow', hkeptWorkflow⟩ :=
          hkept.workflows _ _ hread.foundWorkflow
        refine ⟨workflow', hworkflow', (hkeptWorkflow.concerns _).mpr hread.concerns, ?_⟩
        cases heffect.change with
        | originalDeleted _ hworkflow =>
          rcases hworkflow with ⟨before, after, hbefore, hafter, hreplaces⟩ |
            ⟨-, σ₀, found, hseen, hfound, hstep⟩
          · obtain rfl := Option.some.inj (hreplaces.row.symm.trans hworkflow')
            unfold originalDeletedWorkflow at hafter
            split at hafter
            · obtain rfl := Option.some.inj hafter
              exact mem_withStep_self
            · exact absurd hafter (by simp)
          · obtain ⟨found', hfound', hkeptFound⟩ :=
              ((hearlier σ₀ hseen).1.trans hkept).workflows _ _ hfound
            obtain rfl := Option.some.inj (hfound'.symm.trans hworkflow')
            exact hkeptFound.completedSteps _ hstep
        | other _ _ _ _ _ _ _ hstep =>
          rcases hstep with hreplays | htables
          · exact absurd hreplays (by simp [DocumentStep.replays])
          · exact absurd (htables .workflowRuns (by decide)) (by simp [DocumentStep.tables])
      · obtain ⟨workflow, hworkflow, hconcerns, hstep⟩ := h.deletions delivery document answer' hmem
        obtain ⟨workflow', hworkflow', hkeptWorkflow⟩ := hkept.workflows _ _ hworkflow
        exact ⟨workflow', hworkflow', (hkeptWorkflow.concerns _).mpr hconcerns,
          hkeptWorkflow.completedSteps _ hstep⟩

end LegacyVault
