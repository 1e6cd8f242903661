import LegacyVault.DocumentPipeline
import LegacyVault.StoredOriginals
import LegacyVault.UploadOrigins

/-!
# The contents of originals

Which ciphertexts the client has put under the key of an original, and how
the later steps depend on them: the object is one of them, the recorded
checksum is that of one of them, and a tag survives as long as nothing is put
after it. A document is clean or rejected by the verdict of a scan.
-/

namespace LegacyVault

open JsonText RowTransaction RowTransaction.Program RowTransaction.Protocol Store

/-- The ciphertexts the client has put under a key, latest first. -/
def ciphertextsOf (objectKey : String) (log : List DocumentEntry) : List Sealed :=
  log.filterMap (fun entry =>
    match entry with
    | ⟨.upload _ document ciphertext _, .committed _⟩ =>
      if document.objectKey = objectKey then some ciphertext else none
    | _ => none)

section Ciphertexts

variable {log log' : List DocumentEntry} {objectKey : String}

theorem mem_ciphertextsOf {ciphertext : Sealed} :
    ciphertext ∈ ciphertextsOf objectKey log ↔ ∃ call document at_ answer,
      (⟨.upload call document ciphertext at_, .committed answer⟩ : DocumentEntry) ∈ log ∧
      document.objectKey = objectKey := by
  rw [ciphertextsOf, List.mem_filterMap]
  constructor
  · rintro ⟨entry, hmem, hentry⟩
    split at hentry
    · rename_i call document found at_ answer
      split at hentry
      · rename_i hkey
        obtain rfl := Option.some.inj hentry
        exact ⟨call, document, at_, answer, hmem, hkey⟩
      · exact absurd hentry (by simp)
    · exact absurd hentry (by simp)
  · rintro ⟨call, document, at_, answer, hmem, hkey⟩
    exact ⟨_, hmem, if_pos hkey⟩

theorem mem_ciphertextsOf_mono (hlog : ∀ entry ∈ log, entry ∈ log') {ciphertext : Sealed}
    (h : ciphertext ∈ ciphertextsOf objectKey log) : ciphertext ∈ ciphertextsOf objectKey log' := by
  obtain ⟨call, document, at_, answer, hmem, hkey⟩ := mem_ciphertextsOf.mp h
  exact mem_ciphertextsOf.mpr ⟨call, document, at_, answer, hlog _ hmem, hkey⟩

theorem ciphertextsOf_cons_upload {call : UploadUrlCall} {document : DocumentRow}
    {ciphertext : Sealed} {at_ : Instant} {answer : DocumentAnswer}
    (hkey : document.objectKey = objectKey) :
    ciphertextsOf objectKey (⟨.upload call document ciphertext at_, .committed answer⟩ :: log) =
      ciphertext :: ciphertextsOf objectKey log :=
  List.filterMap_cons_some (if_pos hkey)

/-- An earlier log has some of the ciphertexts. -/
theorem ciphertextsOf_suffix (hlog : log <:+ log') :
    ciphertextsOf objectKey log <:+ ciphertextsOf objectKey log' :=
  hlog.filterMap _

end Ciphertexts

/-- An original after a committed step is the object from before, or what the step has put. -/
theorem ObjectChange.object_origin {σ σ' : Vault} {step : DocumentStep}
    (hchange : ObjectChange σ σ' step) {objectKey : String} {object : StoredObject}
    (hquarantine : IsQuarantineKey objectKey)
    (hobject : σ'.get .objects objectKey = some object) :
    (∃ before : StoredObject, σ.get .objects objectKey = some before ∧
        object.ciphertext = before.ciphertext ∧
        (object.status = before.status ∨ object.status = .clean)) ∨
      ∃ call document ciphertext at_, step = .upload call document ciphertext at_ ∧
        document.objectKey = objectKey ∧ object.ciphertext = ciphertext := by
  have hold : σ'.get .objects objectKey = σ.get .objects objectKey →
      ∃ before : StoredObject, σ.get .objects objectKey = some before ∧
        object.ciphertext = before.ciphertext ∧
        (object.status = before.status ∨ object.status = .clean) :=
    fun hrow => ⟨object, hrow.symm.trans hobject, rfl, Or.inl rfl⟩
  cases hchange with
  | @uploaded call document ciphertext at_ hobjects =>
    rcases hobjects.get_cases objectKey with ⟨heq, hnew⟩ | ⟨-, hrow⟩
    · obtain rfl := Option.some.inj (hnew.symm.trans hobject)
      exact Or.inr ⟨call, document, ciphertext, at_, rfl, heq.symm, rfl⟩
    · exact Or.inl (hold hrow)
  | marked before hbefore hobjects =>
    rcases hobjects.get_cases objectKey with ⟨rfl, hnew⟩ | ⟨-, hrow⟩
    · obtain rfl := Option.some.inj (hnew.symm.trans hobject)
      exact Or.inl ⟨before, hbefore, rfl, Or.inr rfl⟩
    · exact Or.inl (hold hrow)
  | derived hobjects =>
    rcases hobjects.get_cases objectKey with ⟨heq, -⟩ | ⟨-, hrow⟩
    · exact absurd heq.symm (hquarantine.ne_derivative _)
    · exact Or.inl (hold hrow)
  | deleted hobjects =>
    rcases hobjects with hreplaces | hsame
    · rcases hreplaces.get_cases objectKey with ⟨-, hnew⟩ | ⟨-, hrow⟩
      · exact absurd (hnew.symm.trans hobject) (by simp)
      · exact Or.inl (hold hrow)
    · exact Or.inl (hold (hsame _))
  | other hobjects _ => exact Or.inl (hold (hobjects _))

/-- A committed step that marks an original clean has found it. -/
theorem ObjectChange.marked_found {σ σ' : Vault} {delivery : Delivery}
    {document : DocumentProcessingInput} {bytes : String}
    (h : ObjectChange σ σ' (.markClean delivery document bytes)) :
    ∃ object : StoredObject, σ.get .objects document.objectKey = some object ∧
      σ'.get .objects document.objectKey = some { object with status := .clean } := by
  cases h with
  | marked object hobject hobjects => exact ⟨object, hobject, hobjects.row⟩
  | other _ hstep => exact absurd hstep (by simp [DocumentStep.tables])

theorem Opened.mono {sha256 : Sha256} {log log' : List DocumentEntry}
    (hlog : ∀ entry ∈ log, entry ∈ log') {delivery : Delivery}
    {document : DocumentProcessingInput} {bytes : String}
    (h : Opened sha256 log delivery document bytes) : Opened sha256 log' delivery document bytes := by
  obtain ⟨ciphertext, hfetched, hopens⟩ := h
  exact ⟨ciphertext, hlog _ hfetched, hopens⟩

theorem Scanned.mono {sha256 : Sha256} {log log' : List DocumentEntry}
    (hlog : ∀ entry ∈ log, entry ∈ log') {delivery : Delivery}
    {document : DocumentProcessingInput} {bytes : String} {clean : Bool}
    (h : Scanned sha256 log delivery document bytes clean) :
    Scanned sha256 log' delivery document bytes clean :=
  ⟨h.1, h.2.1.mono hlog, h.2.2⟩

/-- A document that a scan handler leaves alone, or has scanned. -/
def DocumentProcessingInput.isScanned (document : DocumentProcessingInput) : Prop :=
  document.status = .clean ∨ document.status = .rejected ∨ document.nextStep ≠ some "scan"

/-- The scan of the document has come to a verdict. -/
def ScanSettled (σ : Vault) (documentId : Identifier) : Prop :=
  ∃ row : DocumentRow, σ.get .documents documentId = some row ∧
    (row.status = .clean ∨ row.status = .rejected)

theorem ScanSettled.later {σ σ' : Vault} {documentId : Identifier} (h : ScanSettled σ documentId)
    (hkept : DocumentsKept σ σ') : ScanSettled σ' documentId := by
  obtain ⟨row, hrow, hstatus⟩ := h
  obtain ⟨row', hrow', hkeptRow⟩ := hkept.documents _ _ hrow
  have hsame := hkeptRow.scanned hstatus
  rw [← hsame] at hstatus
  exact ⟨row', hrow', hstatus⟩

/-- What the contents of originals say of their objects, checksums, tags and verdicts. -/
structure DocumentContents (sha256 : Sha256) (log : List DocumentEntry) (σ : Vault) : Prop where
  objects : ∀ objectKey (object : StoredObject), IsQuarantineKey objectKey →
    σ.get .objects objectKey = some object → object.ciphertext ∈ ciphertextsOf objectKey log
  asserted : ∀ call document answer, (⟨.assertStored call document, .committed answer⟩ :
    DocumentEntry) ∈ log → ∃ ciphertext ∈ ciphertextsOf document.objectKey log,
      sha256.ofCiphertext ciphertext = call.input.ciphertextSha256
  checksums : ∀ k (row : DocumentRow), σ.get .documents k = some row → row.status ≠ .pending →
    ∃ ciphertext ∈ ciphertextsOf row.objectKey log,
      row.ciphertextSha256 = some (sha256.ofCiphertext ciphertext)
  /-- A tag stays while the original is the only ciphertext under its key. -/
  marked : ∀ delivery document bytes answer, (⟨.markClean delivery document bytes,
    .committed answer⟩ : DocumentEntry) ∈ log → ciphertextsOf document.objectKey log ≠ [] ∧
      ((ciphertextsOf document.objectKey log).length ≤ 1 → ∀ object : StoredObject,
        σ.get .objects document.objectKey = some object → object.status = .clean)
  clean : ∀ k (row : DocumentRow), σ.get .documents k = some row → row.status = .clean →
    ∃ delivery document bytes, Done log (.markClean delivery document bytes) ∧
      document.objectKey = row.objectKey
  rejected : ∀ k (row : DocumentRow), σ.get .documents k = some row → row.status = .rejected →
    ∃ delivery document bytes, Scanned sha256 log delivery document bytes false ∧ document.id = k
  verdicts : ∀ delivery document outcome answer, (⟨.completeScan delivery document outcome,
    .committed answer⟩ : DocumentEntry) ∈ log → ScanSettled σ document.id
  reads : ∀ delivery document, HasRead log delivery document → document.isScanned →
    ScanSettled σ document.id
  deletions : ∀ k (row : DocumentRow), σ.get .documents k = some row →
    row.originalDeletedAt ≠ none → Deleted log row.objectKey

section Steps

variable {sha256 : Sha256} {log begun : List DocumentEntry} {σ σ' : Vault} {seen : Vault → Prop}
  {step : DocumentStep} {answer : DocumentAnswer}

theorem DocumentContents.objects_step (h : DocumentContents sha256 log σ)
    (hchange : ObjectChange σ σ' step) (objectKey : String) (object : StoredObject)
    (hquarantine : IsQuarantineKey objectKey)
    (hobject : σ'.get .objects objectKey = some object) :
    object.ciphertext ∈ ciphertextsOf objectKey (⟨step, .committed answer⟩ :: log) := by
  rcases hchange.object_origin hquarantine hobject with
    ⟨before, hbefore, hciphertext, -⟩ | ⟨call, document, ciphertext, at_, rfl, hkey, rfl⟩
  · rw [hciphertext]
    exact mem_ciphertextsOf_mono (fun _ => List.mem_cons_of_mem _)
      (h.objects objectKey before hquarantine hbefore)
  · rw [ciphertextsOf_cons_upload hkey]
    exact List.mem_cons_self

/-- A document's checksum is that of a ciphertext, whatever the step. -/
theorem DocumentContents.checksums_step (h : DocumentContents sha256 log σ)
    (hobjects : DocumentObjects log σ) (hbegun : begun <:+ log) (hkept : DocumentsKept σ σ')
    (hpermitted : documentPermitted sha256 begun step) {k : Identifier} {row : DocumentRow}
    (hrow : σ'.get .documents k = some row) (hcomes : row.Comes σ k step)
    (hstatus : row.status ≠ .pending) :
    ∃ ciphertext ∈ ciphertextsOf row.objectKey log,
      row.ciphertextSha256 = some (sha256.ofCiphertext ciphertext) := by
  have hbefore : ∀ before : DocumentRow, σ.get .documents k = some before → before.Kept row →
      before.status ≠ .pending → ∃ ciphertext ∈ ciphertextsOf row.objectKey log,
        row.ciphertextSha256 = some (sha256.ofCiphertext ciphertext) := by
    intro before hbefore hkeptRow hpending
    rw [hkeptRow.column DocumentRow.objectKey (fun _ => rfl), (hkeptRow.uploaded hpending).2]
    exact h.checksums k before hbefore hpending
  cases hcomes with
  | kept before hrow₀ hkeptRow hsame _ =>
    rw [hsame] at hstatus
    exact hbefore before hrow₀ hkeptRow hstatus
  | started _ hpending =>
    rw [hpending] at hstatus
    exact absurd rfl hstatus
  | @uploaded call before _ _ hid _ hchecksum _ =>
    obtain ⟨document, hasserted⟩ := hpermitted
    have hmem := hbegun.subset hasserted
    obtain ⟨row', hrow', hkey⟩ := (hobjects.originals _ _ hmem _ _ rfl).later hkept
    rw [← hid] at hrow'
    obtain rfl := Option.some.inj (hrow'.symm.trans hrow)
    obtain ⟨ciphertext, hciphertext, hsame⟩ := h.asserted call document _ hmem
    rw [hkey, hchecksum, ← hsame]
    exact ⟨ciphertext, hciphertext, rfl⟩
  | scanned before hrow₀ hkeptRow _ hquarantined _ _ =>
    refine hbefore before hrow₀ hkeptRow ?_
    rw [hquarantined]
    exact DocumentStatus.noConfusion
  | deleted before hrow₀ hkeptRow _ hsame =>
    rw [hsame] at hstatus
    exact hbefore before hrow₀ hkeptRow hstatus

/-- A tag is set on an original that is there, and only a PUT takes it away. -/
theorem DocumentContents.marked_step (h : DocumentContents sha256 log σ)
    (hobjects : DocumentObjects (⟨step, .committed answer⟩ :: log) σ')
    (hchange : ObjectChange σ σ' step) {delivery : Delivery} {document : DocumentProcessingInput}
    {bytes : String} {answer' : DocumentAnswer}
    (hmem : (⟨.markClean delivery document bytes, .committed answer'⟩ : DocumentEntry) ∈
      (⟨step, .committed answer⟩ :: log : List DocumentEntry)) :
    ciphertextsOf document.objectKey (⟨step, .committed answer⟩ :: log) ≠ [] ∧
      ((ciphertextsOf document.objectKey (⟨step, .committed answer⟩ :: log)).length ≤ 1 →
        ∀ object : StoredObject, σ'.get .objects document.objectKey = some object →
          object.status = .clean) := by
  have hquarantine : IsQuarantineKey document.objectKey :=
    hobjects.isQuarantineKey (hobjects.originals _ _ hmem document.id document.objectKey rfl)
  rcases List.mem_cons.mp hmem with heq | hmem
  · obtain ⟨rfl, -⟩ := Entry.mk.inj heq
    obtain ⟨object, hobject, hmarked⟩ := hchange.marked_found
    refine ⟨List.ne_nil_of_mem (mem_ciphertextsOf_mono (fun _ => List.mem_cons_of_mem _)
      (h.objects _ object hquarantine hobject)), fun _ object' hobject' => ?_⟩
    obtain rfl := Option.some.inj (hmarked.symm.trans hobject')
    rfl
  · obtain ⟨hput, hclean⟩ := h.marked delivery document bytes answer' hmem
    obtain ⟨ciphertext, hciphertext⟩ := List.exists_mem_of_ne_nil _ hput
    refine ⟨List.ne_nil_of_mem (mem_ciphertextsOf_mono (fun _ => List.mem_cons_of_mem _)
      hciphertext), fun hone object hobject => ?_⟩
    rcases hchange.object_origin hquarantine hobject with
      ⟨before, hbefore, -, hstatus⟩ | ⟨call, document', ciphertext', at_, rfl, hkey, -⟩
    · rcases hstatus with hsame | hclean'
      · rw [hsame]
        have hsuffix : ciphertextsOf document.objectKey log <:+
            ciphertextsOf document.objectKey (⟨step, .committed answer⟩ :: log) :=
          ciphertextsOf_suffix (List.suffix_cons _ _)
        exact hclean (hsuffix.length_le.trans hone) before hbefore
      · exact hclean'
    · rw [ciphertextsOf_cons_upload hkey, List.length_cons] at hone
      have hpositive := List.length_pos_of_mem hciphertext
      omega

/-- A clean document was found clean before, or by the step's delivery. -/
theorem DocumentContents.clean_step (h : DocumentContents sha256 log σ)
    (hobjects : DocumentObjects log σ) (hbegun : begun <:+ log) (hkept : DocumentsKept σ σ')
    (hpermitted : documentPermitted sha256 begun step) {k : Identifier} {row : DocumentRow}
    (hrow : σ'.get .documents k = some row) (hcomes : row.Comes σ k step)
    (hstatus : row.status = .clean) :
    ∃ delivery document bytes, Done log (.markClean delivery document bytes) ∧
      document.objectKey = row.objectKey := by
  have hbefore : ∀ before : DocumentRow, σ.get .documents k = some before → before.Kept row →
      row.status = before.status → ∃ delivery document bytes,
        Done log (.markClean delivery document bytes) ∧ document.objectKey = row.objectKey := by
    intro before hbefore hkeptRow hsame
    rw [hkeptRow.column DocumentRow.objectKey (fun _ => rfl)]
    exact h.clean k before hbefore (hsame.symm.trans hstatus)
  cases hcomes with
  | kept before hrow₀ hkeptRow hsame _ => exact hbefore before hrow₀ hkeptRow hsame
  | started _ hpending =>
    rw [hpending] at hstatus
    exact absurd hstatus nofun
  | uploaded before _ _ _ hquarantined _ _ => exact absurd (hquarantined.symm.trans hstatus) (by simp)
  | @scanned delivery document outcome before _ _ hid _ hverdict _ =>
    cases outcome with
    | clean =>
      obtain ⟨bytes, hmarked⟩ := hpermitted
      have hmem := hbegun.subset hmarked
      obtain ⟨row', hrow', hkey⟩ := (hobjects.originals _ _ hmem _ _ rfl).later hkept
      rw [← hid] at hrow'
      obtain rfl := Option.some.inj (hrow'.symm.trans hrow)
      exact ⟨delivery, document, bytes, hmem, hkey.symm⟩
    | rejected => exact absurd (hverdict.symm.trans hstatus) nofun
  | deleted before hrow₀ hkeptRow _ hsame => exact hbefore before hrow₀ hkeptRow hsame

/-- A rejected document was rejected before, or by the step's delivery. -/
theorem DocumentContents.rejected_step (h : DocumentContents sha256 log σ) (hbegun : begun <:+ log)
    (hpermitted : documentPermitted sha256 begun step) {k : Identifier} {row : DocumentRow}
    (hcomes : row.Comes σ k step) (hstatus : row.status = .rejected) :
    ∃ delivery document bytes, Scanned sha256 log delivery document bytes false ∧
      document.id = k := by
  cases hcomes with
  | kept before hrow₀ _ hsame _ => exact h.rejected k before hrow₀ (hsame.symm.trans hstatus)
  | started _ hpending =>
    rw [hpending] at hstatus
    exact absurd hstatus nofun
  | uploaded before _ _ _ hquarantined _ _ => exact absurd (hquarantined.symm.trans hstatus) (by simp)
  | @scanned delivery document outcome before _ _ hid _ hverdict _ =>
    cases outcome with
    | clean => exact absurd (hverdict.symm.trans hstatus) nofun
    | rejected =>
      obtain ⟨bytes, hscanned⟩ := hpermitted
      exact ⟨delivery, document, bytes, hscanned.mono hbegun.subset, hid.symm⟩
  | deleted before hrow₀ _ _ hsame => exact h.rejected k before hrow₀ (hsame.symm.trans hstatus)

/-- A completed scan has come to a verdict. -/
theorem settled_of_completeScan {delivery : Delivery} {document : DocumentProcessingInput}
    {outcome : ScanOutcome}
    (h : DocumentChange sha256 seen σ σ' (.completeScan delivery document outcome) answer) :
    ScanSettled σ' document.id := by
  cases h with
  | scanned hdocument _ =>
    obtain ⟨before, after, -, hafter, hreplaces⟩ := hdocument
    obtain ⟨-, hstatus, -⟩ := scannedDocument_after hafter
    refine ⟨after, hreplaces.row, ?_⟩
    rw [hstatus]
    cases outcome
    · exact Or.inl rfl
    · exact Or.inr rfl
  | other _ _ _ _ _ _ _ hstep =>
    rcases hstep with hreplays | htables
    · exact absurd hreplays nofun
    · exact absurd (htables .workflowRuns (by decide)) (by simp [DocumentStep.tables])

/-- A document whose workflow is past the scan has come to a verdict. -/
theorem settled_of_read {documentId : Identifier} {row : DocumentRow} {workflow : WorkflowRow}
    {stage : DocumentStage} (hrow : σ.get .documents documentId = some row)
    (hworkflow : σ.get .workflowRuns workflow.id = some workflow)
    (hconcerns : workflow.Concerns documentId) (hat : AtStage log σ documentId stage)
    (hnext : workflow.nextStep ≠ some "scan") : row.status = .clean ∨ row.status = .rejected := by
  obtain ⟨hstage, hworkflowAt, -⟩ := hat.workflow.of_row hworkflow hconcerns
  have hstatus : some row.status = stage.documentStatus := by
    rw [← hat.document.status, hrow]
    rfl
  rw [hworkflowAt.nextStep] at hnext
  cases stage <;>
    simp [DocumentStage.documentStatus, DocumentStage.nextStep, DocumentStage.hasWorkflow]
      at hstatus hnext hstage ⊢ <;> simp [hstatus]

/-- The deletion of an original precedes its record. -/
theorem DocumentContents.deletions_step (h : DocumentContents sha256 log σ)
    (hobjects : DocumentObjects log σ) (hbegun : begun <:+ log) (hkept : DocumentsKept σ σ')
    (hpermitted : documentPermitted sha256 begun step) {k : Identifier} {row : DocumentRow}
    (hrow : σ'.get .documents k = some row) (hcomes : row.Comes σ k step)
    (hdeletedAt : row.originalDeletedAt ≠ none) : Deleted log row.objectKey := by
  have hbefore : ∀ before : DocumentRow, σ.get .documents k = some before → before.Kept row →
      row.originalDeletedAt = before.originalDeletedAt → Deleted log row.objectKey := by
    intro before hbefore hkeptRow hsame
    rw [hkeptRow.column DocumentRow.objectKey (fun _ => rfl)]
    rw [hsame] at hdeletedAt
    exact h.deletions k before hbefore hdeletedAt
  cases hcomes with
  | kept before hrow₀ hkeptRow _ hsame => exact hbefore before hrow₀ hkeptRow hsame
  | started _ hpending =>
    rw [hpending] at hdeletedAt
    exact absurd rfl hdeletedAt
  | uploaded before hrow₀ hkeptRow _ _ _ hsame => exact hbefore before hrow₀ hkeptRow hsame
  | scanned before hrow₀ hkeptRow _ _ _ hsame => exact hbefore before hrow₀ hkeptRow hsame
  | @deleted delivery document before _ _ hid _ =>
    have hmem := hbegun.subset hpermitted
    obtain ⟨row', hrow', hkey⟩ := (hobjects.originals _ _ hmem _ _ rfl).later hkept
    rw [← hid] at hrow'
    obtain rfl := Option.some.inj (hrow'.symm.trans hrow)
    exact ⟨delivery, document, _, hmem, hkey.symm⟩

end Steps

/-- A session that did not commit leaves the contents as they are. -/
theorem DocumentContents.ended {sha256 : Sha256} {log : List DocumentEntry} {σ : Vault}
    {step : DocumentStep} {outcome : Outcome RepositoryError DocumentAnswer}
    (houtcome : ∀ a, outcome ≠ .committed a) (h : DocumentContents sha256 log σ) :
    DocumentContents sha256 (⟨step, outcome⟩ :: log) σ := by
  have hlog : ∀ entry ∈ log, entry ∈ (⟨step, outcome⟩ :: log : List DocumentEntry) :=
    fun _ => List.mem_cons_of_mem _
  have hbefore : ∀ {step' : DocumentStep} {answer : DocumentAnswer},
      (⟨step', .committed answer⟩ : DocumentEntry) ∈ ⟨step, outcome⟩ :: log →
      (⟨step', .committed answer⟩ : DocumentEntry) ∈ log := by
    intro step' answer hmem
    rcases List.mem_cons.mp hmem with heq | hmem
    · exact absurd (Entry.mk.inj heq).2.symm (houtcome answer)
    · exact hmem
  have hciphertexts : ∀ objectKey,
      ciphertextsOf objectKey (⟨step, outcome⟩ :: log) = ciphertextsOf objectKey log := by
    intro objectKey
    refine List.filterMap_cons_none ?_
    split
    · rename_i heq
      exact absurd (Entry.mk.inj heq).2 (houtcome _)
    · rfl
  refine ⟨fun objectKey object hquarantine hobject => ?_, fun call document answer hmem => ?_,
    fun k row hrow hstatus => ?_, fun delivery document bytes answer hmem => ?_,
    fun k row hrow hstatus => ?_, fun k row hrow hstatus => ?_,
    fun delivery document verdict answer hmem => h.verdicts _ _ verdict answer (hbefore hmem),
    fun delivery document hread hscanned => h.reads delivery document (hbefore hread) hscanned,
    fun k row hrow hdeletedAt => (h.deletions k row hrow hdeletedAt).later hlog⟩
  · rw [hciphertexts]
    exact h.objects objectKey object hquarantine hobject
  · rw [hciphertexts]
    exact h.asserted call document answer (hbefore hmem)
  · rw [hciphertexts]
    exact h.checksums k row hrow hstatus
  · rw [hciphertexts]
    exact h.marked delivery document bytes answer (hbefore hmem)
  · obtain ⟨delivery, document, bytes, hmarked, hkey⟩ := h.clean k row hrow hstatus
    exact ⟨delivery, document, bytes, hlog _ hmarked, hkey⟩
  · obtain ⟨delivery, document, bytes, hscanned, hid⟩ := h.rejected k row hrow hstatus
    exact ⟨delivery, document, bytes, hscanned.mono hlog, hid⟩

/-- The contents of originals say this in every interleaving. -/
theorem documentContents_invariant (sha256 : Sha256) {init : Vault} (hinit : NoDocuments init)
    (hnone : NoOriginals init) :
    (documentProtocol sha256).Invariant init
      (fun log σ => ((DocumentRecords log σ ∧ DocumentsStaged log σ) ∧
        (DocumentRecords log σ ∧ DocumentObjects log σ)) ∧ DocumentContents sha256 log σ)
      DocumentsKept := by
  refine ((documentsStaged_invariant sha256 hinit).both (documentObjects_invariant sha256 hinit)).and
    ?_ ?_ (fun houtcome h => h.ended houtcome)
  · have hnothing : ∀ k (row : DocumentRow), init.get .documents k ≠ some row :=
      fun k row hrow => absurd (hrow.symm.trans (hinit.documents k)) (by simp)
    refine ⟨fun objectKey object hquarantine hobject => ?_, fun _ _ _ hmem => ?_,
      fun k row hrow => absurd hrow (hnothing k row), fun _ _ _ _ hmem => ?_,
      fun k row hrow => absurd hrow (hnothing k row), fun k row hrow => absurd hrow (hnothing k row),
      fun _ _ _ _ hmem => ?_, fun _ _ hread => ?_, fun k row hrow => absurd hrow (hnothing k row)⟩
    · exact absurd (hobject.symm.trans (hnone objectKey hquarantine)) (by simp)
    · exact absurd hmem List.not_mem_nil
    · exact absurd hmem List.not_mem_nil
    · exact absurd hmem List.not_mem_nil
    · exact absurd hread List.not_mem_nil
  · intro log begun seen σ step answer ws hinv h hpermitted hbegun hnow hearlier hexec hinv' hkept
    have hpermitted : documentPermitted sha256 begun step := hpermitted
    have heffect : DocumentEffect sha256 seen σ (σ.overlay ws) step answer :=
      documentProgram_effect hexec
    have hchange : ObjectChange σ (σ.overlay ws) step := documentProgram_objects hexec
    have hobjects : DocumentObjects log σ := hinv.2.2
    have hlog : ∀ entry ∈ log, entry ∈ (⟨step, .committed answer⟩ :: log : List DocumentEntry) :=
      fun _ => List.mem_cons_of_mem _
    refine ⟨h.objects_step hchange, fun call document answer' hmem => ?_,
      fun k row hrow hstatus => ?_,
      fun delivery document bytes answer' hmem => h.marked_step hinv'.2.2 hchange hmem,
      fun k row hrow hstatus => ?_, fun k row hrow hstatus => ?_,
      fun delivery document outcome answer' hmem => ?_, fun delivery document hread hscanned => ?_,
      fun k row hrow hdeletedAt => ?_⟩
    · rcases List.mem_cons.mp hmem with heq | hmem
      · obtain ⟨rfl, -⟩ := Entry.mk.inj heq
        have howns : OwnsOriginal σ call.input.documentId document.objectKey :=
          hobjects.original_of_permitted hinv.2.1 hbegun hpermitted rfl
        obtain ⟨u, ws₁, hassert, -, -⟩ := executes_bind_ok.mp hexec
        obtain ⟨σ₀, object, hseen, hobject, hchecksum⟩ := executes_assertStoredChecksum hassert
        obtain ⟨-, log₀, -, hlog₀, -, h₀⟩ := hearlier σ₀ hseen
        have hput : object.ciphertext ∈ ciphertextsOf document.objectKey log₀ :=
          h₀.objects _ object (hobjects.isQuarantineKey howns) hobject
        exact ⟨object.ciphertext, mem_ciphertextsOf_mono (fun _ hmem => hlog _ (hlog₀.subset hmem))
          hput, hchecksum⟩
      · obtain ⟨ciphertext, hput, hchecksum⟩ := h.asserted call document answer' hmem
        exact ⟨ciphertext, mem_ciphertextsOf_mono hlog hput, hchecksum⟩
    · obtain ⟨ciphertext, hput, hchecksum⟩ :=
        h.checksums_step hobjects hbegun hkept hpermitted hrow (heffect.comes hrow) hstatus
      exact ⟨ciphertext, mem_ciphertextsOf_mono hlog hput, hchecksum⟩
    · obtain ⟨delivery, document, bytes, hmarked, hkey⟩ :=
        h.clean_step hobjects hbegun hkept hpermitted hrow (heffect.comes hrow) hstatus
      exact ⟨delivery, document, bytes, hlog _ hmarked, hkey⟩
    · obtain ⟨delivery, document, bytes, hscanned, hid⟩ :=
        h.rejected_step hbegun hpermitted (heffect.comes hrow) hstatus
      exact ⟨delivery, document, bytes, hscanned.mono hlog, hid⟩
    · rcases List.mem_cons.mp hmem with heq | hmem
      · obtain ⟨rfl, -⟩ := Entry.mk.inj heq
        exact settled_of_completeScan heffect.change
      · exact (h.verdicts delivery document outcome answer' hmem).later hkept
    · rcases hread.of_cons with heq | hread
      · obtain ⟨rfl, houtcome⟩ := Entry.mk.inj heq
        obtain ⟨σ₀, input, hseen, hanswer, hinput⟩ := executes_read sha256 hexec
        obtain rfl : answer = .input document := Outcome.committed.inj houtcome
        obtain rfl := DocumentAnswer.input.inj hanswer
        obtain ⟨hgrows, log₀, -, -, ⟨⟨hrecords₀, hstaged₀⟩, -⟩, -⟩ := hearlier σ₀ hseen
        obtain ⟨row, workflow, hreadOf, hnext, hstatus⟩ :=
          processingInputOf_eq_some hrecords₀.keys hinput
        have hsettled : ScanSettled σ₀ document.id := by
          refine ⟨row, hreadOf.found, ?_⟩
          rcases hscanned with hclean | hrejected | hpast
          · exact Or.inl (hstatus.symm.trans hclean)
          · exact Or.inr (hstatus.symm.trans hrejected)
          · obtain ⟨stage, hat⟩ := hstaged₀.staged document.id
            have hid : workflow.id = document.workflowId :=
              hrecords₀.keys.workflows _ _ hreadOf.foundWorkflow
            refine settled_of_read hreadOf.found ?_ hreadOf.concerns hat (hnext ▸ hpast)
            rw [hid]
            exact hreadOf.foundWorkflow
        exact hsettled.later (hgrows.trans hkept)
      · exact (h.reads delivery document hread hscanned).later hkept
    · exact (h.deletions_step hobjects hbegun hkept hpermitted hrow (heffect.comes hrow)
        hdeletedAt).later hlog

end LegacyVault
