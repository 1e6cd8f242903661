import LegacyVault.DocumentHistory

/-!
# The objects of documents

What the steps of a document's life do to the object store. An original lies
under a key that its document alone has, and a derivative under a key of its
own, so that a step reaches the objects of no other document.
-/

namespace LegacyVault

open JsonText RowTransaction RowTransaction.Program RowTransaction.Protocol Store

/-! ## What a step does to the objects -/

/-- What a step does to the object store. -/
inductive ObjectChange (σ σ' : Vault) : DocumentStep → Prop
  /-- A PUT of the client. -/
  | uploaded {call : UploadUrlCall} {document : DocumentRow} {ciphertext : Sealed} {at_ : Instant}
      (hobjects : Replaces (S := vaultSchema) .objects document.objectKey
        (some ⟨ciphertext, .quarantined⟩) σ σ') :
      ObjectChange σ σ' (.upload call document ciphertext at_)
  /-- An original is tagged. -/
  | marked {delivery : Delivery} {document : DocumentProcessingInput} {bytes : String}
      (object : StoredObject) (hobject : σ.get .objects document.objectKey = some object)
      (hobjects : Replaces (S := vaultSchema) .objects document.objectKey
        (some { object with status := .clean }) σ σ') :
      ObjectChange σ σ' (.markClean delivery document bytes)
  /-- A derivative is stored. -/
  | derived {delivery : Delivery} {document : DocumentProcessingInput} {derivative : Sealed}
      (hobjects : Replaces (S := vaultSchema) .objects (derivativeObjectKey document.id)
        (some ⟨derivative, .clean⟩) σ σ') :
      ObjectChange σ σ' (.putDerivative delivery document derivative)
  /-- An original is deleted, or was not there. -/
  | deleted {delivery : Delivery} {document : DocumentProcessingInput}
      (hobjects : Replaces (S := vaultSchema) .objects document.objectKey none σ σ' ∨
        SameRows (S := vaultSchema) .objects σ σ') :
      ObjectChange σ σ' (.deleteOriginal delivery document)
  /-- Another step. -/
  | other {step : DocumentStep} (hobjects : SameRows (S := vaultSchema) .objects σ σ')
      (hstep : VaultTable.objects ∉ step.tables) : ObjectChange σ σ' step

/-- A committed step makes its change to the objects. -/
theorem documentProgram_objects {sha256 : Sha256} {seen : Vault → Prop} {σ : Vault}
    {ws : List (Write vaultSchema)} {step : DocumentStep} {answer : DocumentAnswer}
    (h : (documentProgram sha256 step).Executes seen σ [] (.ok answer) ws) :
    ObjectChange σ (σ.overlay ws) step := by
  have hwritten : ∀ (objectKey : String) (object : Option StoredObject),
      Replaces (S := vaultSchema) .objects objectKey object σ
        (σ.overlay [⟨VaultTable.objects, objectKey, object⟩]) :=
    fun _ _ => replaces_write (S := vaultSchema) σ
  by_cases hobjects : VaultTable.objects ∈ step.tables
  · cases step with
    | upload call document ciphertext at_ =>
      obtain ⟨u, ws₁, hput, -, hws⟩ := executes_bind_ok.mp h
      rw [hws, executes_putObject hput]
      exact .uploaded (hwritten _ _)
    | markClean delivery document bytes =>
      obtain ⟨u, ws₁, hmark, -, hws⟩ := executes_bind_ok.mp h
      obtain ⟨object, hobject, hws₁⟩ := executes_markClean hmark
      rw [hws, hws₁]
      exact .marked object hobject (hwritten _ _)
    | putDerivative delivery document derivative =>
      obtain ⟨u, ws₁, hput, -, hws⟩ := executes_bind_ok.mp h
      rw [hws, executes_putObject hput]
      exact .derived (hwritten _ _)
    | deleteOriginal delivery document =>
      obtain ⟨u, ws₁, hdelete, -, hws⟩ := executes_bind_ok.mp h
      rcases executes_deleteObject hdelete with hws₁ | hws₁
      · rw [hws, hws₁]
        exact .deleted (Or.inl (hwritten _ _))
      · rw [hws, hws₁]
        exact .deleted (Or.inr (SameRows.refl (S := vaultSchema) _ σ))
    | _ => exact absurd hobjects (by simp [DocumentStep.tables])
  · exact .other ((documentProgram_leaves sha256 hobjects).sameRows h) hobjects

/-! ## Whose object it is -/

/-- The object key of an original. -/
def IsQuarantineKey (objectKey : String) : Prop := ∃ objectId, objectKey = "quarantine/" ++ objectId

/-- An original is not a derivative. -/
theorem IsQuarantineKey.ne_derivative {objectKey : String} (h : IsQuarantineKey objectKey)
    (documentId : Identifier) : derivativeObjectKey documentId ≠ objectKey := by
  obtain ⟨objectId, rfl⟩ := h
  intro heq
  have hcodes := congrArg String.toList heq
  simp [derivativeObjectKey] at hcodes

/-- The document has its original under the key. -/
def OwnsOriginal (σ : Vault) (documentId : Identifier) (objectKey : String) : Prop :=
  ∃ row : DocumentRow, σ.get .documents documentId = some row ∧ row.objectKey = objectKey

theorem OwnsOriginal.later {σ σ' : Vault} {documentId : Identifier} {objectKey : String}
    (h : OwnsOriginal σ documentId objectKey) (hkept : DocumentsKept σ σ') :
    OwnsOriginal σ' documentId objectKey := by
  obtain ⟨row, hrow, hkey⟩ := h
  obtain ⟨row', hrow', hkeptRow⟩ := hkept.documents _ _ hrow
  exact ⟨row', hrow', (hkeptRow.column DocumentRow.objectKey (fun _ => rfl)).trans hkey⟩

/-- A document that was read has its original under the key that was read. -/
theorem ReadOf.owns {σ : Vault} {context : TenantContext} {document : DocumentProcessingInput}
    {row : DocumentRow} {workflow : WorkflowRow} (h : ReadOf σ context document row workflow) :
    OwnsOriginal σ document.id document.objectKey := by
  obtain ⟨row₀, workflow₀, wrappedDataKey, -, hinput, hrow₀, -⟩ := h.read
  refine ⟨row, h.found, (hrow₀.column DocumentRow.objectKey (fun _ => rfl)).trans ?_⟩
  rw [hinput]
  rfl

/-- The document whose original a step works on, and the key of the original. -/
def DocumentStep.original : DocumentStep → Option (Identifier × String)
  | .upload call document _ _ => some (call.documentId, document.objectKey)
  | .assertStored call document => some (call.input.documentId, document.objectKey)
  | .fetch _ document | .markClean _ document _ | .deleteOriginal _ document =>
    some (document.id, document.objectKey)
  | .startUpload _ | .pendingForUrl _ | .pendingForCompletion _ | .completeUpload _ | .extract _
  | .read _ | .completeScan _ _ _ | .putDerivative _ _ _ | .completeOcr _ _ _
  | .completeDeletion _ _ | .recordFailure _ _ _ | .material _ | .checkStatus _ _
  | .download _ _ => none

/-- Every original has one document, and the steps that work on it know whose it is. -/
structure DocumentObjects (log : List DocumentEntry) (σ : Vault) : Prop where
  keys : ∀ k (row : DocumentRow), σ.get .documents k = some row →
    σ.get .documentObjectKeys row.objectKey = some k
  quarantine : ∀ k (row : DocumentRow), σ.get .documents k = some row →
    IsQuarantineKey row.objectKey
  pending : ∀ call document, (⟨.pendingForUrl call, .committed (.document document)⟩ :
    DocumentEntry) ∈ log → OwnsOriginal σ call.documentId document.objectKey
  completing : ∀ call document, (⟨.pendingForCompletion call, .committed (.document document)⟩ :
    DocumentEntry) ∈ log → OwnsOriginal σ call.input.documentId document.objectKey
  originals : ∀ step answer, (⟨step, .committed answer⟩ : DocumentEntry) ∈ log →
    ∀ k objectKey, step.original = some (k, objectKey) → OwnsOriginal σ k objectKey

/-- A key has one owner. -/
theorem DocumentObjects.owner {log : List DocumentEntry} {σ : Vault} (h : DocumentObjects log σ)
    {k k' : Identifier} {objectKey : String} (howns : OwnsOriginal σ k objectKey)
    (howns' : OwnsOriginal σ k' objectKey) : k = k' := by
  obtain ⟨row, hrow, rfl⟩ := howns
  obtain ⟨row', hrow', hkey⟩ := howns'
  have hk := h.keys k row hrow
  have hk' := h.keys k' row' hrow'
  rw [hkey] at hk'
  exact Option.some.inj (hk.symm.trans hk')

theorem DocumentObjects.isQuarantineKey {log : List DocumentEntry} {σ : Vault}
    (h : DocumentObjects log σ) {k : Identifier} {objectKey : String}
    (howns : OwnsOriginal σ k objectKey) : IsQuarantineKey objectKey := by
  obtain ⟨row, hrow, rfl⟩ := howns
  exact h.quarantine k row hrow

/-- A pending document is read in a store that was seen. -/
theorem executes_getPendingDocumentUpload {context : TenantContext} {documentId : Identifier}
    {document : DocumentRow} {seen : Vault → Prop} {σ : Vault} {ws ws' : List (Write vaultSchema)}
    (h : (getPendingDocumentUpload context documentId).Executes seen σ ws (.ok document) ws') :
    ∃ σ₀, seen σ₀ ∧ (σ₀.overlay ws).get .documents documentId = some document ∧
      document.pendingIn context = true := by
  obtain ⟨found, ws₁, hselect, hfound⟩ := executes_bind_ok.mp h
  obtain ⟨σ₀, hseen, hselected, -⟩ := executes_select.mp hselect
  cases found with
  | none => exact absurd hfound.1 (by simp)
  | some row =>
    obtain rfl := Except.ok.inj hfound.1
    obtain ⟨hrow, hpending⟩ := Option.filter_eq_some_iff.mp (Except.ok.inj hselected).symm
    exact ⟨σ₀, hseen, hrow, hpending⟩

/-- A document after a committed step was there before, or the step has started its upload. -/
theorem DocumentEffect.document_origin {sha256 : Sha256} {seen : Vault → Prop} {σ σ' : Vault}
    {step : DocumentStep} {answer : DocumentAnswer}
    (h : DocumentEffect sha256 seen σ σ' step answer) {k : Identifier} {row : DocumentRow}
    (hrow : σ'.get .documents k = some row) :
    (∃ before, σ.get .documents k = some before ∧ before.Kept row) ∨
      ∃ call, step = .startUpload call ∧ k = call.generated.id ∧
        row = pendingDocument call.context call.input call.generated ∧
        σ.get .documentObjectKeys call.generated.objectKey = none ∧
        Replaces (S := vaultSchema) .documentObjectKeys call.generated.objectKey
          (some call.generated.id) σ σ' := by
  have hsame : SameRows (S := vaultSchema) .documents σ σ' →
      ∃ before, σ.get .documents k = some before ∧ before.Kept row :=
    fun hrows => ⟨row, (hrows k).symm.trans hrow, .refl row⟩
  have hupdated : ∀ {k' : Identifier} {change : DocumentRow → Option DocumentRow},
      (∀ before after, change before = some after → before.Kept after) →
      Updates .documents k' change σ σ' →
      ∃ before, σ.get .documents k = some before ∧ before.Kept row := by
    rintro k' change hchange ⟨before, after, hbefore, hafter, hreplaces⟩
    rcases hreplaces.get_cases k with ⟨rfl, hnew⟩ | ⟨-, hold⟩
    · obtain rfl := Option.some.inj (hnew.symm.trans hrow)
      exact ⟨before, hbefore, hchange before after hafter⟩
    · exact ⟨row, hold.symm.trans hrow, .refl row⟩
  cases h.change with
  | started hnew hnewKey hkeys hreplaces =>
    rcases hreplaces.get_cases k with ⟨rfl, hinserted⟩ | ⟨-, hold⟩
    · obtain rfl := Option.some.inj (hinserted.symm.trans hrow)
      exact Or.inr ⟨_, rfl, rfl, rfl, hnewKey, hkeys⟩
    · exact Or.inl ⟨row, hold.symm.trans hrow, .refl row⟩
  | uploaded hdocument _ _ =>
    exact Or.inl (hupdated (fun _ _ => quarantinedDocument_kept) hdocument)
  | extracted _ _ _ _ _ _ => exact Or.inl (hsame (h.same _ (by simp [DocumentStep.tables])))
  | scanned hdocument _ => exact Or.inl (hupdated (fun _ _ => scannedDocument_kept) hdocument)
  | recognized _ _ _ _ => exact Or.inl (hsame (h.same _ (by simp [DocumentStep.tables])))
  | originalDeleted hdocument _ =>
    rcases hdocument with hupdates | ⟨hrows, -⟩
    · exact Or.inl (hupdated (fun _ _ => originalDeletedDocument_kept) hupdates)
    · exact Or.inl (hsame hrows)
  | failed hdocument _ =>
    rcases hdocument with hupdates | ⟨hrows, -⟩
    · exact Or.inl (hupdated (fun _ _ => failedDocument_kept) hupdates)
    · exact Or.inl (hsame hrows)
  | other hdocuments _ _ _ _ _ _ _ => exact Or.inl (hsame hdocuments)

/-- A permitted step on an original knows whose it is. -/
theorem DocumentObjects.original_of_permitted {sha256 : Sha256} {begun log : List DocumentEntry}
    {σ : Vault} {step : DocumentStep} (hrecords : DocumentRecords log σ)
    (h : DocumentObjects log σ) (hbegun : begun <:+ log)
    (hpermitted : documentPermitted sha256 begun step) {k : Identifier} {objectKey : String}
    (hstep : step.original = some (k, objectKey)) : OwnsOriginal σ k objectKey := by
  have hprocessed : ∀ {delivery : Delivery} {document : DocumentProcessingInput},
      step.processes = some (delivery, document) →
      OwnsOriginal σ document.id document.objectKey := by
    intro delivery document hprocesses
    obtain ⟨row, workflow, hread⟩ := hrecords.readOf hbegun hpermitted hprocesses
    exact hread.owns
  cases step with
  | upload call document ciphertext at_ =>
    obtain ⟨rfl, rfl⟩ := Prod.mk.inj (Option.some.inj hstep)
    exact h.pending call document (hbegun.subset hpermitted.1)
  | assertStored call document =>
    obtain ⟨rfl, rfl⟩ := Prod.mk.inj (Option.some.inj hstep)
    exact h.completing call document (hbegun.subset hpermitted.1)
  | fetch delivery document =>
    obtain ⟨rfl, rfl⟩ := Prod.mk.inj (Option.some.inj hstep)
    exact hprocessed rfl
  | markClean delivery document bytes =>
    obtain ⟨rfl, rfl⟩ := Prod.mk.inj (Option.some.inj hstep)
    exact hprocessed rfl
  | deleteOriginal delivery document =>
    obtain ⟨rfl, rfl⟩ := Prod.mk.inj (Option.some.inj hstep)
    exact hprocessed rfl
  | _ => exact absurd hstep (by simp [DocumentStep.original])

/-- A session that did not commit tells nothing about the originals. -/
theorem DocumentObjects.ended {log : List DocumentEntry} {σ : Vault} {step : DocumentStep}
    {outcome : Outcome RepositoryError DocumentAnswer} (houtcome : ∀ a, outcome ≠ .committed a)
    (h : DocumentObjects log σ) : DocumentObjects (⟨step, outcome⟩ :: log) σ := by
  have hbefore : ∀ {step' : DocumentStep} {answer : DocumentAnswer},
      (⟨step', .committed answer⟩ : DocumentEntry) ∈ ⟨step, outcome⟩ :: log →
      (⟨step', .committed answer⟩ : DocumentEntry) ∈ log := by
    intro step' answer hmem
    rcases List.mem_cons.mp hmem with heq | hmem
    · exact absurd (Entry.mk.inj heq).2.symm (houtcome answer)
    · exact hmem
  exact ⟨h.keys, h.quarantine, fun call document hmem => h.pending call document (hbefore hmem),
    fun call document hmem => h.completing call document (hbefore hmem),
    fun step' answer hmem => h.originals step' answer (hbefore hmem)⟩

/-- Every original has one document in every interleaving. -/
theorem documentObjects_invariant (sha256 : Sha256) {init : Vault} (hinit : NoDocuments init) :
    (documentProtocol sha256).Invariant init
      (fun log σ => DocumentRecords log σ ∧ DocumentObjects log σ) DocumentsKept := by
  refine (documentRecords_invariant sha256 hinit).and ?_ ?_ (fun houtcome h => h.ended houtcome)
  · exact ⟨fun k row hrow => absurd (hrow.symm.trans (hinit.documents k)) (by simp),
      fun k row hrow => absurd (hrow.symm.trans (hinit.documents k)) (by simp),
      fun _ _ hmem => absurd hmem (by simp), fun _ _ hmem => absurd hmem (by simp),
      fun _ _ hmem => absurd hmem (by simp)⟩
  · intro log begun seen σ step answer ws hrecords h hpermitted hbegun hnow hearlier hexec
      hrecords' hkept
    have heffect : DocumentEffect sha256 seen σ (σ.overlay ws) step answer :=
      documentProgram_effect hexec
    have hpendingRead : ∀ {context : TenantContext} {documentId : Identifier}
        {document : DocumentRow} {ws₁ : List (Write vaultSchema)},
        (getPendingDocumentUpload context documentId).Executes seen σ [] (.ok document) ws₁ →
        OwnsOriginal (σ.overlay ws) documentId document.objectKey := by
      intro context documentId document ws₁ hread
      obtain ⟨σ₀, hseen, hrow, -⟩ := executes_getPendingDocumentUpload hread
      have howns : OwnsOriginal σ₀ documentId document.objectKey := ⟨document, hrow, rfl⟩
      exact howns.later ((hearlier σ₀ hseen).1.trans hkept)
    refine ⟨fun k row hrow => ?_, fun k row hrow => ?_, fun call document hmem => ?_,
      fun call document hmem => ?_, fun step' answer' hmem k objectKey horiginal => ?_⟩
    · rcases heffect.document_origin hrow with
        ⟨before, hbefore, hkeptRow⟩ | ⟨call, rfl, rfl, rfl, -, hkeys⟩
      · rw [hkeptRow.column DocumentRow.objectKey (fun _ => rfl)]
        obtain ⟨k', hk', rfl⟩ := hkept.objectKeys _ _ (h.keys k before hbefore)
        exact hk'
      · exact hkeys.row
    · rcases heffect.document_origin hrow with
        ⟨before, hbefore, hkeptRow⟩ | ⟨call, rfl, rfl, rfl, -, -⟩
      · rw [hkeptRow.column DocumentRow.objectKey (fun _ => rfl)]
        exact h.quarantine k before hbefore
      · exact ⟨call.generated.objectId, rfl⟩
    · rcases List.mem_cons.mp hmem with heq | hmem
      · obtain ⟨rfl, houtcome⟩ := Entry.mk.inj heq
        obtain ⟨row, ws₁, hread, hanswer, -⟩ := executes_bind_ok.mp hexec
        obtain rfl : answer = .document document := (Outcome.committed.inj houtcome).symm
        obtain rfl := DocumentAnswer.document.inj (Except.ok.inj hanswer)
        exact hpendingRead hread
      · exact (h.pending call document hmem).later hkept
    · rcases List.mem_cons.mp hmem with heq | hmem
      · obtain ⟨rfl, houtcome⟩ := Entry.mk.inj heq
        obtain ⟨row, ws₁, hread, hanswer, -⟩ := executes_bind_ok.mp hexec
        obtain rfl : answer = .document document := (Outcome.committed.inj houtcome).symm
        obtain rfl := DocumentAnswer.document.inj (Except.ok.inj hanswer)
        exact hpendingRead hread
      · exact (h.completing call document hmem).later hkept
    · rcases List.mem_cons.mp hmem with heq | hmem
      · obtain ⟨rfl, -⟩ := Entry.mk.inj heq
        exact (h.original_of_permitted hrecords hbegun hpermitted horiginal).later hkept
      · exact (h.originals step' answer' hmem k objectKey horiginal).later hkept

end LegacyVault
