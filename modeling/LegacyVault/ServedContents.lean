import LegacyVault.DocumentRoundTrip

/-!
# Served contents

What a reader is served was scanned. The object of an original is one cell
that clients, scans and readers share: a scan fetches it, and tags whatever
is there when it has come to its verdict; a reader tests the tag, and then
fetches what is there by that time.

So the property is that of originals that settle: what is put under the key of
a document whose upload is complete repeats what was put there last.
-/

namespace LegacyVault

open JsonText RowTransaction RowTransaction.Program RowTransaction.Protocol Store

/-! ## Originals that settle -/

/-- The upload of a document was completed. -/
def UploadCompleted (log : List DocumentEntry) (documentId : Identifier) : Prop :=
  ∃ call answer, (⟨.completeUpload call, .committed answer⟩ : DocumentEntry) ∈ log ∧
    call.input.documentId = documentId

theorem UploadCompleted.mono {log log' : List DocumentEntry} {documentId : Identifier}
    (hlog : ∀ entry ∈ log, entry ∈ log') (h : UploadCompleted log documentId) :
    UploadCompleted log' documentId := by
  obtain ⟨call, answer, hmem, hid⟩ := h
  exact ⟨call, answer, hlog _ hmem, hid⟩

/-- A PUT that comes after the completion of the document's upload repeats the last one. -/
def OriginalSettles (log : List DocumentEntry) (documentId : Identifier) : Prop :=
  ∀ call document ciphertext at_ answer earlier,
    (⟨.upload call document ciphertext at_, .committed answer⟩ :: earlier : List DocumentEntry) <:+
      log → call.documentId = documentId → UploadCompleted earlier documentId →
        (ciphertextsOf document.objectKey earlier).head? = some ciphertext

theorem OriginalSettles.of_suffix {log log' : List DocumentEntry} {documentId : Identifier}
    (h : OriginalSettles log' documentId) (hlog : log <:+ log') : OriginalSettles log documentId :=
  fun call document ciphertext at_ answer earlier hsuffix =>
    h call document ciphertext at_ answer earlier (hsuffix.trans hlog)

/-- An entry is a PUT under the key, or adds no ciphertext. -/
theorem ciphertextsOf_cons_cases (objectKey : String) (entry : DocumentEntry)
    (log : List DocumentEntry) :
    ciphertextsOf objectKey (entry :: log) = ciphertextsOf objectKey log ∨
      ∃ call document ciphertext at_ answer,
        entry = ⟨.upload call document ciphertext at_, .committed answer⟩ ∧
          document.objectKey = objectKey := by
  rw [ciphertextsOf, List.filterMap_cons]
  split
  · exact Or.inl rfl
  · rename_i ciphertext hsome
    split at hsome
    · rename_i call document found at_ answer
      split at hsome
      · rename_i hkey
        exact Or.inr ⟨call, document, found, at_, answer, rfl, hkey⟩
      · exact absurd hsome (by simp)
    · exact absurd hsome (by simp)

/-- Once the upload is complete, the last ciphertext under the key stays the same. -/
theorem OriginalSettles.head {log log₀ : List DocumentEntry} {documentId : Identifier}
    (h : OriginalSettles log documentId) {objectKey : String}
    (howner : ∀ call document ciphertext at_ answer,
      (⟨.upload call document ciphertext at_, .committed answer⟩ : DocumentEntry) ∈ log →
        document.objectKey = objectKey → call.documentId = documentId)
    (hlog : log₀ <:+ log) (hcompleted : UploadCompleted log₀ documentId) :
    (ciphertextsOf objectKey log).head? = (ciphertextsOf objectKey log₀).head? := by
  obtain ⟨later, rfl⟩ := hlog
  induction later with
  | nil => rfl
  | cons entry later ih =>
    have hsuffix : later ++ log₀ <:+ entry :: (later ++ log₀) := List.suffix_cons _ _
    have hbefore := ih (h.of_suffix hsuffix) (fun call document ciphertext at_ answer hmem =>
      howner call document ciphertext at_ answer (hsuffix.subset hmem))
    rw [← hbefore, List.cons_append]
    rcases ciphertextsOf_cons_cases objectKey entry (later ++ log₀) with
      hsame | ⟨call, document, ciphertext, at_, answer, rfl, hkey⟩
    · rw [hsame]
    · have hdocument := howner call document ciphertext at_ answer List.mem_cons_self hkey
      have hlast := h call document ciphertext at_ answer (later ++ log₀) List.suffix_rfl hdocument
        (hcompleted.mono (List.subset_append_right _ _))
      rw [ciphertextsOf_cons_upload hkey, List.head?_cons, ← hkey, hlast]

/-! ## What was read -/

/-- What was read for a download is so of a clean document. -/
structure MaterialOf (σ : Vault) (material : DocumentDownloadMaterial) (row : DocumentRow) :
    Prop where
  found : σ.get .documents material.id = some row
  clean : row.status = .clean
  objectKey : row.objectKey = material.objectKey

theorem MaterialOf.later {σ σ' : Vault} {material : DocumentDownloadMaterial} {row : DocumentRow}
    (h : MaterialOf σ material row) (hkept : DocumentsKept σ σ') :
    ∃ row', MaterialOf σ' material row' := by
  obtain ⟨row', hrow', hkeptRow⟩ := hkept.documents _ _ h.found
  refine ⟨row', hrow', (hkeptRow.scanned (Or.inl h.clean)).trans h.clean, ?_⟩
  exact (hkeptRow.column DocumentRow.objectKey (fun _ => rfl)).trans h.objectKey

/-- A selected material comes from a clean document. -/
theorem downloadMaterialOf_eq_some {σ : Vault} {context : TenantContext} {documentId : Identifier}
    {material : DocumentDownloadMaterial} (hkeys : DocumentKeys σ)
    (h : downloadMaterialOf context documentId σ = some material) :
    ∃ row, MaterialOf σ material row := by
  obtain ⟨row, hrow, h⟩ := Option.bind_eq_some_iff.mp h
  obtain ⟨checksum, -, h⟩ := Option.bind_eq_some_iff.mp h
  obtain ⟨wrappedDataKey, -, h⟩ := Option.bind_eq_some_iff.mp h
  obtain ⟨hget, hguard⟩ := Option.filter_eq_some_iff.mp hrow
  simp only [Bool.and_eq_true, beq_iff_eq] at hguard
  obtain rfl := Option.some.inj h
  have hid : row.id = documentId := hkeys.documents _ _ hget
  refine ⟨row, ?_, hguard.1.2, rfl⟩
  rw [hid]
  exact hget

/-- A sealed message holds one body, whoever opens it. -/
theorem decryptEnvelope_unique {envelope body body' : Sealed} {key key' : SymmetricKey}
    {context context' : EncryptionContext} (h : decryptEnvelope envelope key context = some body)
    (h' : decryptEnvelope envelope key' context' = some body') : body = body' := by
  obtain ⟨nonce, rfl⟩ := SymbolicSeal.Term.opened_eq_some.mp h
  obtain ⟨nonce', heq⟩ := SymbolicSeal.Term.opened_eq_some.mp h'
  exact (SymbolicSeal.Term.sealed.inj heq).2.2.2

/-- What is served of a ciphertext is what a handler opens in it. -/
theorem content_eq_opened {sha256 : Sha256} {call : ContentCall}
    {material : DocumentDownloadMaterial} {delivery : Delivery}
    {document : DocumentProcessingInput} {ciphertext : Sealed} {bytes bytes' : String}
    (hcontent : call.content sha256 material ciphertext = some bytes)
    (hopens : delivery.openOriginal sha256 document ciphertext = some bytes') : bytes = bytes' := by
  rw [ContentCall.content] at hcontent
  split at hcontent
  · obtain ⟨dataKey, -, hcontent⟩ := Option.bind_eq_some_iff.mp hcontent
    obtain ⟨plaintext, hplaintext, hbytes⟩ := Option.bind_eq_some_iff.mp hcontent
    obtain ⟨dataKey', -, hopens⟩ := Option.bind_eq_some_iff.mp hopens
    obtain ⟨plaintext', hplaintext', hopens⟩ := Option.bind_eq_some_iff.mp hopens
    obtain rfl := decryptEnvelope_unique hplaintext hplaintext'
    split at hopens
    · exact (Option.some.inj hbytes).symm.trans (Option.some.inj hopens)
    · exact absurd hopens (by simp)
  · exact absurd hcontent (by simp)

/-! ## What is served -/

/-- The bytes were found clean by a scan of the document. -/
def ScannedClean (sha256 : Sha256) (log : List DocumentEntry) (documentId : Identifier)
    (bytes : String) : Prop :=
  ∃ delivery document, document.id = documentId ∧ Scanned sha256 log delivery document bytes true

/-- How originals that settle are scanned and served. -/
structure ServedContents (sha256 : Sha256) (log : List DocumentEntry) (σ : Vault) : Prop where
  /-- An original is what was put last. -/
  latest : ∀ objectKey (object : StoredObject), IsQuarantineKey objectKey →
    σ.get .objects objectKey = some object →
      (ciphertextsOf objectKey log).head? = some object.ciphertext
  completed : ∀ k (row : DocumentRow), σ.get .documents k = some row → row.status ≠ .pending →
    UploadCompleted log k
  reads : ∀ delivery document, HasRead log delivery document → document.status ≠ .pending →
    UploadCompleted log document.id
  marks : ∀ delivery document bytes answer,
    (⟨.markClean delivery document bytes, .committed answer⟩ : DocumentEntry) ∈ log →
      Scanned sha256 log delivery document bytes true
  materials : ∀ call material,
    (⟨.material call, .committed (.material (some material))⟩ : DocumentEntry) ∈ log →
      ∃ row, MaterialOf σ material row
  checks : ∀ call material answer,
    (⟨.checkStatus call material, .committed answer⟩ : DocumentEntry) ∈ log →
      (⟨.material call, .committed (.material (some material))⟩ : DocumentEntry) ∈ log
  /-- Whatever is fetched of an original that settles is what was put last. -/
  fetches : ∀ k, OriginalSettles log k → ∀ delivery document ciphertext,
    (⟨.fetch delivery document, .committed (.ciphertext ciphertext)⟩ : DocumentEntry) ∈ log →
      document.id = k → UploadCompleted log k ∧
        (ciphertextsOf document.objectKey log).head? = some ciphertext
  served : ∀ k, OriginalSettles log k → ∀ later call material bytes earlier,
    log = later ++ ⟨.download call material, .committed (.content bytes)⟩ :: earlier →
      material.id = k → ScannedClean sha256 earlier k bytes

/-- What the invariants of documents and originals hold. -/
abbrev ContentsHeld (sha256 : Sha256) (log : List DocumentEntry) (σ : Vault) : Prop :=
  ((DocumentRecords log σ ∧ DocumentsStaged log σ) ∧
    (DocumentRecords log σ ∧ DocumentObjects log σ)) ∧ DocumentContents sha256 log σ

section Steps

variable {sha256 : Sha256} {log log₀ begun : List DocumentEntry} {σ σ' σ₀ : Vault}
  {seen : Vault → Prop} {step : DocumentStep} {answer : DocumentAnswer}

/-- The PUTs under the key of a document are for the document. -/
theorem DocumentObjects.uploads (h : DocumentObjects log σ) {k : Identifier} {objectKey : String}
    (howns : OwnsOriginal σ k objectKey) (call : UploadUrlCall) (document : DocumentRow)
    (ciphertext : Sealed) (at_ : Instant) (answer : DocumentAnswer)
    (hmem : (⟨.upload call document ciphertext at_, .committed answer⟩ : DocumentEntry) ∈ log)
    (hkey : document.objectKey = objectKey) : call.documentId = k := by
  have hupload := h.originals _ _ hmem call.documentId document.objectKey rfl
  rw [hkey] at hupload
  exact h.owner hupload howns

theorem ServedContents.latest_step (h : ServedContents sha256 log σ)
    (hchange : ObjectChange σ σ' step) (objectKey : String) (object : StoredObject)
    (hquarantine : IsQuarantineKey objectKey) (hobject : σ'.get .objects objectKey = some object) :
    (ciphertextsOf objectKey (⟨step, .committed answer⟩ :: log)).head? =
      some object.ciphertext := by
  rcases ciphertextsOf_cons_cases objectKey ⟨step, .committed answer⟩ log with
    hsame | ⟨call, document, ciphertext, at_, answer', hentry, hkey⟩
  · rw [hsame]
    rcases hchange.object_origin hquarantine hobject with
      ⟨before, hbefore, hciphertext, -⟩ | ⟨call, document, ciphertext, at_, rfl, hkey, -⟩
    · rw [hciphertext]
      exact h.latest objectKey before hquarantine hbefore
    · rw [ciphertextsOf_cons_upload hkey] at hsame
      exact absurd hsame (List.cons_ne_self _ _)
  · obtain ⟨rfl, houtcome⟩ := Entry.mk.inj hentry
    obtain rfl := Outcome.committed.inj houtcome
    rw [ciphertextsOf_cons_upload hkey, List.head?_cons]
    cases hchange with
    | uploaded hobjects =>
      rw [hkey] at hobjects
      rw [← Option.some.inj (hobjects.row.symm.trans hobject)]
    | other _ hstep => exact absurd hstep (by simp [DocumentStep.tables])

theorem ServedContents.completed_step (h : ServedContents sha256 log σ) {k : Identifier}
    {row : DocumentRow} (hcomes : row.Comes σ k step) (hstatus : row.status ≠ .pending) :
    UploadCompleted (⟨step, .committed answer⟩ :: log) k := by
  have hlog : ∀ entry ∈ log, entry ∈ (⟨step, .committed answer⟩ :: log : List DocumentEntry) :=
    fun _ => List.mem_cons_of_mem _
  cases hcomes with
  | kept before hbefore _ hsame _ =>
    rw [hsame] at hstatus
    exact (h.completed k before hbefore hstatus).mono hlog
  | started _ hrow =>
    rw [hrow] at hstatus
    exact absurd rfl hstatus
  | @uploaded call before _ _ hid _ _ _ => exact ⟨call, answer, List.mem_cons_self, hid.symm⟩
  | scanned before hbefore _ _ hquarantined _ _ =>
    refine (h.completed k before hbefore ?_).mono hlog
    rw [hquarantined]
    exact DocumentStatus.noConfusion
  | deleted before hbefore _ _ hsame =>
    rw [hsame] at hstatus
    exact (h.completed k before hbefore hstatus).mono hlog

/-- What is fetched at some moment of an original that settles is still there at a later one. -/
theorem ServedContents.fetched_last (h₀ : ServedContents sha256 log₀ σ₀) (hlog : log₀ <:+ log)
    (hobjects : DocumentObjects log σ) {k : Identifier} (hsettles : OriginalSettles log k)
    (hcompleted : UploadCompleted log₀ k) {objectKey : String} (howns : OwnsOriginal σ k objectKey)
    {object : StoredObject} (hobject : σ₀.get .objects objectKey = some object) :
    (ciphertextsOf objectKey log).head? = some object.ciphertext := by
  rw [hsettles.head (hobjects.uploads howns) hlog hcompleted]
  exact h₀.latest objectKey object (hobjects.isQuarantineKey howns) hobject

/-- What is served of an original that settles was found clean. -/
theorem ServedContents.served_step (hcontents : DocumentContents sha256 log σ)
    (hobjects : DocumentObjects log σ) (h : ServedContents sha256 log σ)
    (h₀ : ServedContents sha256 log₀ σ₀) (hlog : log₀ <:+ log)
    {call : ContentCall} {material : DocumentDownloadMaterial}
    (hsettles : OriginalSettles log material.id)
    (hchecked : (⟨.checkStatus call material, .committed answer⟩ : DocumentEntry) ∈ log₀)
    {object : StoredObject} (hobject : σ₀.get .objects material.objectKey = some object)
    {bytes : String} (hcontent : call.content sha256 material object.ciphertext = some bytes) :
    ScannedClean sha256 log material.id bytes := by
  have hmaterial := h₀.checks call material answer hchecked
  obtain ⟨row₀, hrow₀⟩ := h₀.materials call material hmaterial
  obtain ⟨row, hrow⟩ := h.materials call material (hlog.subset hmaterial)
  have hcompleted : UploadCompleted log₀ material.id := by
    refine h₀.completed _ row₀ hrow₀.found ?_
    rw [hrow₀.clean]
    exact DocumentStatus.noConfusion
  have howns : OwnsOriginal σ material.id material.objectKey := ⟨row, hrow.found, hrow.objectKey⟩
  have hlast := h₀.fetched_last hlog hobjects hsettles hcompleted howns hobject
  -- The document is clean, so a scan has tagged its original, and that scan has fetched the same.
  obtain ⟨delivery, document, bytes', hmarked, hkey⟩ :=
    hcontents.clean _ row hrow.found hrow.clean
  have hscanned := h.marks delivery document bytes' _ hmarked
  have howner := hobjects.originals _ _ hmarked document.id document.objectKey rfl
  rw [hkey, hrow.objectKey] at howner
  have hid : document.id = material.id := hobjects.owner howner howns
  obtain ⟨hhandler, ⟨ciphertext, hfetched, hopens⟩, hvalid, hverdict⟩ := hscanned
  obtain ⟨-, hsame⟩ := h.fetches _ hsettles delivery document ciphertext hfetched hid
  rw [hkey, hrow.objectKey, hlast] at hsame
  rw [← Option.some.inj hsame] at hopens hfetched
  obtain rfl := content_eq_opened hcontent hopens
  exact ⟨delivery, document, hid, hhandler, ⟨_, hfetched, hopens⟩, hvalid, hverdict⟩

end Steps

/-- A session that did not commit serves nothing. -/
theorem ServedContents.ended {sha256 : Sha256} {log : List DocumentEntry} {σ : Vault}
    {step : DocumentStep} {outcome : Outcome RepositoryError DocumentAnswer}
    (houtcome : ∀ a, outcome ≠ .committed a) (h : ServedContents sha256 log σ) :
    ServedContents sha256 (⟨step, outcome⟩ :: log) σ := by
  have hlog : ∀ entry ∈ log, entry ∈ (⟨step, outcome⟩ :: log : List DocumentEntry) :=
    fun _ => List.mem_cons_of_mem _
  have hbefore : ∀ {step' : DocumentStep} {answer : DocumentAnswer},
      (⟨step', .committed answer⟩ : DocumentEntry) ∈ ⟨step, outcome⟩ :: log →
      (⟨step', .committed answer⟩ : DocumentEntry) ∈ log := by
    intro step' answer hmem
    rcases List.mem_cons.mp hmem with heq | hmem
    · exact absurd (Entry.mk.inj heq).2.symm (houtcome answer)
    · exact hmem
  have hciphertexts : ∀ objectKey,
      ciphertextsOf objectKey (⟨step, outcome⟩ :: log) = ciphertextsOf objectKey log := by
    intro objectKey
    rcases ciphertextsOf_cons_cases objectKey ⟨step, outcome⟩ log with
      hsame | ⟨_, _, _, _, answer, hentry, -⟩
    · exact hsame
    · exact absurd (Entry.mk.inj hentry).2 (houtcome answer)
  have hsuffix : log <:+ ⟨step, outcome⟩ :: log := List.suffix_cons _ _
  refine ⟨fun objectKey object hquarantine hobject => ?_,
    fun k row hrow hstatus => (h.completed k row hrow hstatus).mono hlog,
    fun delivery document hread hstatus => (h.reads _ _ (hbefore hread) hstatus).mono hlog,
    fun delivery document bytes answer hmem => (h.marks _ _ _ _ (hbefore hmem)).mono hlog,
    fun call material hmem => h.materials call material (hbefore hmem),
    fun call material answer hmem => hlog _ (h.checks call material answer (hbefore hmem)),
    fun k hsettles delivery document ciphertext hmem hid => ?_,
    fun k hsettles later call material bytes earlier hsplit hid => ?_⟩
  · rw [hciphertexts]
    exact h.latest objectKey object hquarantine hobject
  · rw [hciphertexts]
    obtain ⟨hcompleted, hlast⟩ := h.fetches k (hsettles.of_suffix hsuffix) delivery document
      ciphertext (hbefore hmem) hid
    exact ⟨hcompleted.mono hlog, hlast⟩
  · cases later with
    | nil => exact absurd (Entry.mk.inj (List.cons.inj hsplit).1).2 (houtcome _)
    | cons entry later =>
      exact h.served k (hsettles.of_suffix hsuffix) later call material bytes earlier
        (List.cons.inj hsplit).2 hid

/-- Originals that settle are scanned before they are served, in every interleaving. -/
theorem servedContents_invariant (sha256 : Sha256) {init : Vault} (hinit : NoDocuments init)
    (hnone : NoOriginals init) :
    (documentProtocol sha256).Invariant init
      (fun log σ => ContentsHeld sha256 log σ ∧ ServedContents sha256 log σ) DocumentsKept := by
  refine (documentContents_invariant sha256 hinit hnone).and ?_ ?_
    (fun houtcome h => h.ended houtcome)
  · have hnothing : ∀ k (row : DocumentRow), init.get .documents k ≠ some row :=
      fun k row hrow => absurd (hrow.symm.trans (hinit.documents k)) (by simp)
    refine ⟨fun objectKey object hquarantine hobject => ?_,
      fun k row hrow => absurd hrow (hnothing k row), fun _ _ hread => ?_, fun _ _ _ _ hmem => ?_,
      fun _ _ hmem => ?_, fun _ _ _ hmem => ?_, fun _ _ _ _ _ hmem => ?_,
      fun _ _ later _ _ _ _ hsplit => ?_⟩
    · exact absurd (hobject.symm.trans (hnone objectKey hquarantine)) (by simp)
    · exact absurd hread List.not_mem_nil
    · exact absurd hmem List.not_mem_nil
    · exact absurd hmem List.not_mem_nil
    · exact absurd hmem List.not_mem_nil
    · exact absurd hmem List.not_mem_nil
    · exact absurd hsplit (by simp)
  · intro log begun seen σ step answer ws hinv h hpermitted hbegun hnow hearlier hexec hinv' hkept
    have hpermitted : documentPermitted sha256 begun step := hpermitted
    have heffect : DocumentEffect sha256 seen σ (σ.overlay ws) step answer :=
      documentProgram_effect hexec
    have hchange : ObjectChange σ (σ.overlay ws) step := documentProgram_objects hexec
    have hobjects' : DocumentObjects (⟨step, .committed answer⟩ :: log) (σ.overlay ws) :=
      hinv'.1.2.2
    have hsuffix : log <:+ ⟨step, .committed answer⟩ :: log := List.suffix_cons _ _
    have hlog : ∀ entry ∈ log, entry ∈ (⟨step, .committed answer⟩ :: log : List DocumentEntry) :=
      fun _ => List.mem_cons_of_mem _
    refine ⟨h.latest_step hchange, fun k row hrow hstatus => ?_,
      fun delivery document hread hstatus => ?_, fun delivery document bytes answer' hmem => ?_,
      fun call material hmem => ?_, fun call material answer' hmem => ?_,
      fun k hsettles delivery document ciphertext hmem hid => ?_,
      fun k hsettles later call material bytes earlier hsplit hid => ?_⟩
    · exact h.completed_step (heffect.comes hrow) hstatus
    · rcases hread.of_cons with heq | hread
      · obtain ⟨rfl, houtcome⟩ := Entry.mk.inj heq
        obtain ⟨σ₀, input, hseen, hanswer, hinput⟩ := executes_read sha256 hexec
        obtain rfl : answer = .input document := Outcome.committed.inj houtcome
        obtain rfl := DocumentAnswer.input.inj hanswer
        obtain ⟨-, log₀, -, hlog₀, ⟨⟨⟨hrecords₀, -⟩, -⟩, -⟩, h₀⟩ := hearlier σ₀ hseen
        obtain ⟨row, workflow, hreadOf, -, hsame⟩ :=
          processingInputOf_eq_some hrecords₀.keys hinput
        refine (h₀.completed _ row hreadOf.found ?_).mono (fun _ hmem => hlog _ (hlog₀.subset hmem))
        rw [← hsame]
        exact hstatus
      · exact (h.reads delivery document hread hstatus).mono hlog
    · rcases List.mem_cons.mp hmem with heq | hmem
      · obtain ⟨rfl, -⟩ := Entry.mk.inj heq
        exact hpermitted.mono (fun _ hmem => hlog _ (hbegun.subset hmem))
      · exact (h.marks delivery document bytes answer' hmem).mono hlog
    · rcases List.mem_cons.mp hmem with heq | hmem
      · obtain ⟨rfl, houtcome⟩ := Entry.mk.inj heq
        obtain ⟨found, ws₁, hread, hanswer, -⟩ := executes_bind_ok.mp hexec
        obtain ⟨σ₀, hseen, hfound, -⟩ := executes_select.mp hread
        obtain rfl : answer = .material (some material) := (Outcome.committed.inj houtcome).symm
        obtain rfl := DocumentAnswer.material.inj (Except.ok.inj hanswer)
        obtain ⟨hgrows, log₀, -, hlog₀, ⟨⟨⟨hrecords₀, -⟩, -⟩, -⟩, h₀⟩ := hearlier σ₀ hseen
        obtain ⟨row, hrow⟩ :=
          downloadMaterialOf_eq_some hrecords₀.keys (Except.ok.inj hfound).symm
        exact hrow.later (hgrows.trans hkept)
      · obtain ⟨row, hrow⟩ := h.materials call material hmem
        exact hrow.later hkept
    · rcases List.mem_cons.mp hmem with heq | hmem
      · obtain ⟨rfl, -⟩ := Entry.mk.inj heq
        exact hlog _ (hbegun.subset hpermitted)
      · exact hlog _ (h.checks call material answer' hmem)
    · rcases List.mem_cons.mp hmem with heq | hmem
      · obtain ⟨rfl, houtcome⟩ := Entry.mk.inj heq
        obtain ⟨fetched, ws₁, hfetch, hanswer, -⟩ := executes_bind_ok.mp hexec
        obtain rfl : answer = .ciphertext ciphertext := (Outcome.committed.inj houtcome).symm
        obtain rfl := DocumentAnswer.ciphertext.inj (Except.ok.inj hanswer)
        obtain ⟨σ₀, object, hseen, hobject, rfl⟩ := executes_getCiphertext hfetch
        obtain ⟨-, log₀, hbegun₀, hlog₀, -, h₀⟩ := hearlier σ₀ hseen
        have hcompleted : UploadCompleted log₀ k := by
          rw [← hid]
          refine h₀.reads delivery document (hpermitted.1.mono hbegun₀.subset) ?_
          have hfetches := hpermitted.2
          rw [Delivery.fetches] at hfetches
          split at hfetches <;> simp only [Bool.and_eq_true, beq_iff_eq] at hfetches <;>
            rw [hfetches.1] <;> exact DocumentStatus.noConfusion
        have howns := hobjects'.originals _ _ List.mem_cons_self document.id document.objectKey rfl
        rw [hid] at howns
        exact ⟨hcompleted.mono (hlog₀.trans hsuffix).subset,
          h₀.fetched_last (hlog₀.trans hsuffix) hobjects' hsettles hcompleted howns hobject⟩
      · obtain ⟨hcompleted, hlast⟩ := h.fetches k (hsettles.of_suffix hsuffix) delivery document
          ciphertext hmem hid
        have howns := hobjects'.originals _ _ (hlog _ hmem) document.id document.objectKey rfl
        rw [hid] at howns
        refine ⟨hcompleted.mono hlog, ?_⟩
        rw [hsettles.head (hobjects'.uploads howns) hsuffix hcompleted]
        exact hlast
    · cases later with
      | nil =>
        obtain ⟨hentry, rfl⟩ := List.cons.inj hsplit
        obtain ⟨rfl, houtcome⟩ := Entry.mk.inj hentry
        obtain ⟨fetched, ws₁, hfetch, hrest⟩ := executes_bind_ok.mp hexec
        obtain ⟨σ₀, object, hseen, hobject, rfl⟩ := executes_getCiphertext hfetch
        obtain ⟨-, log₀, hbegun₀, hlog₀, -, h₀⟩ := hearlier σ₀ hseen
        have hcontent : call.content sha256 material object.ciphertext = some bytes := by
          split at hrest
          · rename_i served hserved
            obtain rfl : answer = .content bytes := Outcome.committed.inj houtcome
            rw [hserved, DocumentAnswer.content.inj (Except.ok.inj hrest.1)]
          · exact absurd hrest.1 (by simp)
        subst hid
        exact ServedContents.served_step hinv.2 hinv.1.2.2 h h₀ hlog₀
          (hsettles.of_suffix hsuffix) (hbegun₀.subset hpermitted) hobject hcontent
      | cons entry later =>
        exact h.served k (hsettles.of_suffix hsuffix) later call material bytes earlier
          (List.cons.inj hsplit).2 hid

/-- Whatever uploads, scans and readers do at once: what a reader is served of a document whose
original settles has the document's digest, and was found clean by a scan of the document before. -/
theorem served_contents_scanned (sha256 : Sha256) {init : Vault} (hinit : NoDocuments init)
    (hnone : NoOriginals init) {s : (documentProtocol sha256).System} (hs : Reachable init s)
    {call : ContentCall} {material : DocumentDownloadMaterial} {bytes : String}
    {later earlier : List DocumentEntry}
    (hserved : s.log = later ++ ⟨.download call material, .committed (.content bytes)⟩ :: earlier)
    (hsettles : OriginalSettles s.log material.id) :
    (∃ row : DocumentRow, s.committed.get .documents material.id = some row ∧
      sha256.digest bytes = row.originalSha256) ∧
    ScannedClean sha256 earlier material.id bytes := by
  obtain ⟨⟨⟨⟨hrecords, -⟩, -⟩, -⟩, h⟩ :=
    (servedContents_invariant sha256 hinit hnone).reachable hs
  have hscanned := h.served _ hsettles later call material bytes earlier hserved rfl
  refine ⟨?_, hscanned⟩
  obtain ⟨delivery, document, hid, -, hopened, -⟩ := hscanned
  have hdigest := hopened.digest
  obtain ⟨ciphertext, hfetched, -⟩ := hopened
  have hmem : (⟨.fetch delivery document, .committed (.ciphertext ciphertext)⟩ : DocumentEntry) ∈
      s.log := by
    rw [hserved]
    exact List.mem_append_right _ (List.mem_cons_of_mem _ hfetched)
  obtain ⟨row, workflow, hread⟩ :=
    hrecords.reads delivery document (hrecords.processes _ hmem _ _ rfl)
  obtain ⟨row₀, workflow₀, wrappedDataKey, -, rfl, hkept, -⟩ := hread.read
  refine ⟨row, hid ▸ hread.found, hdigest.trans ?_⟩
  exact (hkept.column DocumentRow.originalSha256 (fun _ => rfl)).symm

/-! ## A run -/

/-- A reader of the document. -/
def exampleReader : ContentCall := ⟨exampleUploader, "d1", "household-key"⟩

/-- What is read for the download. -/
def exampleMaterial : DocumentDownloadMaterial where
  id := "d1"
  objectKey := "quarantine/k1"
  mediaType := "application/pdf"
  ciphertextSha256 := Sha256.transparent.ofCiphertext exampleCiphertext
  wrappedDataKey := exampleQuarantined.wrappedDataKey
  encryptionKeyVersion := 1
  version := 3

/-- The upload and its scan, and a download. -/
def exampleServed : List DocumentStep :=
  exampleScanned ++ [.material exampleReader, .checkStatus exampleReader exampleMaterial,
    .download exampleReader exampleMaterial]

set_option maxRecDepth 100000 in
theorem exampleServed_permitted :
    (documentProtocol Sha256.transparent).Sequential [] Store.empty exampleServed := by
  have hfirst : ∀ {entry : DocumentEntry} {log : List DocumentEntry}, entry ∈ entry :: log :=
    List.mem_cons_self
  exact ⟨trivial, trivial, ⟨hfirst, rfl, rfl, by decide⟩, trivial, ⟨hfirst, rfl⟩,
    ⟨examplePending, hfirst⟩, trivial, ⟨hfirst, rfl⟩,
    ⟨rfl, ⟨exampleCiphertext, hfirst, rfl⟩, rfl, rfl⟩, ⟨exampleBytes, hfirst⟩, trivial, hfirst,
    hfirst, trivial⟩

set_option maxRecDepth 100000 in
theorem served_contents_scanned_example :
    ∃ s : (documentProtocol Sha256.transparent).System, Reachable Store.empty s ∧
      ∃ earlier, s.log = ⟨.download exampleReader exampleMaterial,
        .committed (.content exampleBytes)⟩ :: earlier ∧
        ScannedClean Sha256.transparent earlier "d1" exampleBytes := by
  obtain ⟨s, hs, hlog, -⟩ := reachable_sequential exampleServed_permitted
  obtain ⟨completed, hentries⟩ : ∃ completed, s.log =
      [⟨.download exampleReader exampleMaterial, .committed (.content exampleBytes)⟩,
        ⟨.checkStatus exampleReader exampleMaterial, .committed (.status .clean)⟩,
        ⟨.material exampleReader, .committed (.material (some exampleMaterial))⟩,
        ⟨.completeScan (exampleDelivery .scan) exampleQuarantined .clean, .committed .done⟩,
        ⟨.markClean (exampleDelivery .scan) exampleQuarantined exampleBytes, .committed .done⟩,
        ⟨.fetch (exampleDelivery .scan) exampleQuarantined,
          .committed (.ciphertext exampleCiphertext)⟩,
        ⟨.read (exampleDelivery .scan), .committed (.input exampleQuarantined)⟩,
        ⟨.completeUpload exampleCompletion, .committed (.answer completed)⟩,
        ⟨.assertStored exampleCompletion examplePending, .committed .done⟩,
        ⟨.pendingForCompletion exampleCompletion, .committed (.document examplePending)⟩,
        ⟨.upload exampleUrl examplePending exampleCiphertext 0, .committed .done⟩,
        ⟨.pendingForUrl exampleUrl, .committed (.document examplePending)⟩,
        ⟨.startUpload exampleUpload, .committed (.document examplePending)⟩] := by
    refine ⟨.applied (.obj [("document", .obj [("id", .str "d1"), ("status", .str "quarantined"),
      ("version", .nat 2)]), ("workflow", .obj [("id", .str "w1"), ("status", .str "pending"),
      ("version", .nat 1)])]), ?_⟩
    rw [hlog]
    rfl
  -- The only PUT comes before the completion.
  have hsettles : OriginalSettles s.log exampleMaterial.id := by
    rintro call document ciphertext at_ answer earlier hsuffix - ⟨call', answer', hmem, -⟩
    rw [hentries] at hsuffix
    simp only [List.suffix_cons_iff, List.cons.injEq, Entry.mk.injEq, reduceCtorEq, false_and,
      false_or, or_false, List.suffix_nil] at hsuffix
    obtain ⟨-, rfl⟩ := hsuffix
    simp at hmem
  have hserved := hentries.trans (List.nil_append _).symm
  exact ⟨s, hs, _, hentries, (served_contents_scanned Sha256.transparent noDocuments_empty
    noOriginals_empty hs hserved hsettles).2⟩

end LegacyVault
