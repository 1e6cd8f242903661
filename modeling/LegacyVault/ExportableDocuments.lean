import LegacyVault.PortableArchives
import LegacyVault.DocumentPipeline
import LegacyVault.StoredOriginals

/-!
# Exportable documents

An export lists every clean document, whether or not its original was deleted
after processing. Its handler can fetch all of them, and a reader can download
exactly those, as long as no clean document of the household had its original
deleted.
-/

namespace LegacyVault

open JsonText RowTransaction RowTransaction.Program RowTransaction.Protocol Store

section Exports

variable (context : TenantContext)

/-- Every deletion of an original is recorded: no handler is between the two. -/
def Settled (log : List DocumentEntry) : Prop :=
  ∀ delivery document answer,
    (⟨.deleteOriginal delivery document, .committed answer⟩ : DocumentEntry) ∈ log →
      ∃ delivery' document' answer', (⟨.completeDeletion delivery' document',
        .committed answer'⟩ : DocumentEntry) ∈ log ∧ document'.id = document.id

/-- Every listed document has its original, and the listed documents are those that can be
downloaded. -/
structure Exportable (σ : Vault) : Prop where
  stored : ∀ document ∈ exportedDocuments context σ,
    ∃ object : StoredObject, σ.get .objects document.objectKey = some object
  downloads : ∀ k, k ∈ (exportedDocuments context σ).map ExportDocument.id ↔
    (downloadMaterialOf context k σ).isSome = true

/-- No clean document of the household had its original deleted. -/
def KeepsOriginals (σ : Vault) : Prop :=
  ∀ k (row : DocumentRow), σ.get .documents k = some row → context.sees row = true →
    row.status = .clean → row.originalDeletedAt = none

variable {context}

/-- What an export lists. -/
theorem mem_exportedDocuments {σ : Vault} {document : ExportDocument} :
    document ∈ exportedDocuments context σ ↔ ∃ (k : Identifier) (row : DocumentRow),
      σ.get .documents k = some row ∧ context.sees row = true ∧ row.status = .clean ∧
        row.exported = document := by
  simp only [exportedDocuments, List.mem_map, List.mem_insertionSort, List.mem_filter,
    mem_rowsOf (S := vaultSchema) (t := VaultTable.documents), Bool.and_eq_true, beq_iff_eq]
  constructor
  · rintro ⟨row, ⟨⟨k, hrow⟩, hsees, hclean⟩, hexported⟩
    exact ⟨k, row, hrow, hsees, hclean, hexported⟩
  · rintro ⟨k, row, hrow, hsees, hclean, hexported⟩
    exact ⟨row, ⟨⟨k, hrow⟩, hsees, hclean⟩, hexported⟩

/-- What can be downloaded. -/
theorem downloadMaterialOf_isSome {σ : Vault} {k : Identifier} :
    (downloadMaterialOf context k σ).isSome = true ↔ ∃ row : DocumentRow,
      σ.get .documents k = some row ∧ context.sees row = true ∧ row.status = .clean ∧
        row.originalDeletedAt = none ∧ row.ciphertextSha256.isSome = true ∧
        row.wrappedDataKey.isSome = true := by
  constructor
  · intro h
    obtain ⟨material, hmaterial⟩ := Option.isSome_iff_exists.mp h
    obtain ⟨row, hrow, hrest⟩ := Option.bind_eq_some_iff.mp hmaterial
    obtain ⟨checksum, hchecksum, hkeys⟩ := Option.bind_eq_some_iff.mp hrest
    obtain ⟨wrappedDataKey, hkey, -⟩ := Option.bind_eq_some_iff.mp hkeys
    obtain ⟨hget, hguard⟩ := Option.filter_eq_some_iff.mp hrow
    simp only [Bool.and_eq_true, beq_iff_eq, Option.isNone_iff_eq_none] at hguard
    refine ⟨row, hget, hguard.1.1, hguard.1.2, hguard.2, ?_, ?_⟩
    · rw [hchecksum]
      rfl
    · rw [hkey]
      rfl
  · rintro ⟨row, hrow, hsees, hclean, hdeleted, hchecksum, hkey⟩
    obtain ⟨checksum, hchecksum⟩ := Option.isSome_iff_exists.mp hchecksum
    obtain ⟨wrappedDataKey, hkey⟩ := Option.isSome_iff_exists.mp hkey
    simp [downloadMaterialOf, hrow, hsees, hclean, hdeleted, hchecksum, hkey, Option.filter]

section Reachable

variable {log : List DocumentEntry} {σ : Vault}

/-- A document whose deletion is recorded says so. -/
theorem DocumentsStaged.originalDeleted (hstaged : DocumentsStaged log σ)
    (hstored : StoredOriginals log σ) {delivery : Delivery} {document : DocumentProcessingInput}
    {answer : DocumentAnswer} (hmem : (⟨.completeDeletion delivery document, .committed answer⟩ :
      DocumentEntry) ∈ log) {row : DocumentRow}
    (hrow : σ.get .documents document.id = some row) : row.originalDeletedAt.isSome = true := by
  obtain ⟨workflow, hworkflow, hconcerns, hstep⟩ :=
    hstored.deletions delivery document answer hmem
  obtain ⟨stage, hat⟩ := hstaged.staged document.id
  obtain ⟨-, hworkflowAt, -⟩ := hat.workflow.of_row hworkflow hconcerns
  rw [hworkflowAt.completedSteps] at hstep
  have hdeleted := hat.document.originalDeleted
  rw [DocumentStage.isOriginalDeleted_of_mem hstep, hrow] at hdeleted
  exact hdeleted

/-- A clean document whose original was not deleted has it. -/
theorem KeepsOriginals.stored (hobjects : DocumentObjects log σ) (hstaged : DocumentsStaged log σ)
    (hstored : StoredOriginals log σ) (hsettled : Settled log) (h : KeepsOriginals context σ)
    {k : Identifier} {row : DocumentRow} (hrow : σ.get .documents k = some row)
    (hsees : context.sees row = true) (hclean : row.status = .clean) :
    ∃ object : StoredObject, σ.get .objects row.objectKey = some object := by
  have hpending : row.status ≠ .pending := by
    rw [hclean]
    exact DocumentStatus.noConfusion
  rcases hstored.documents k row hrow hpending with
    hobject | ⟨delivery, document, answer, hmem, hkey⟩
  · exact hobject
  · have howns : OwnsOriginal σ document.id document.objectKey :=
      hobjects.originals _ _ hmem _ _ rfl
    have howner : document.id = k := by
      rw [hkey] at howns
      exact hobjects.owner howns ⟨row, hrow, rfl⟩
    obtain ⟨delivery', document', answer', hcompleted, hdocument⟩ :=
      hsettled delivery document answer hmem
    have hdeleted : row.originalDeletedAt.isSome = true := by
      refine hstaged.originalDeleted hstored hcompleted ?_
      rw [hdocument, howner]
      exact hrow
    rw [h k row hrow hsees hclean] at hdeleted
    exact absurd hdeleted (by simp)

end Reachable

/-- In every settled state the household's export can be built, from exactly the documents that can
be downloaded, if and only if no clean document had its original deleted. -/
theorem exportable_iff (sha256 : Sha256) {init : Vault} (hinit : NoDocuments init)
    (hnone : NoOriginals init) {s : (documentProtocol sha256).System} (h : Reachable init s)
    (hsettled : Settled s.log) (context : TenantContext) :
    Exportable context s.committed ↔ KeepsOriginals context s.committed := by
  obtain ⟨⟨hrecords, hobjects⟩, hstored⟩ :=
    (storedOriginals_invariant sha256 hinit hnone).reachable h
  obtain ⟨-, hstaged⟩ := (documentsStaged_invariant sha256 hinit).reachable h
  constructor
  · intro hexportable k row hrow hsees hclean
    have hlisted : k ∈ (exportedDocuments context s.committed).map ExportDocument.id :=
      List.mem_map.mpr ⟨row.exported, mem_exportedDocuments.mpr ⟨k, row, hrow, hsees, hclean, rfl⟩,
        hrecords.keys.documents k row hrow⟩
    obtain ⟨row', hrow', -, -, hdeleted, -, -⟩ :=
      downloadMaterialOf_isSome.mp ((hexportable.downloads k).mp hlisted)
    obtain rfl := Option.some.inj (hrow'.symm.trans hrow)
    exact hdeleted
  · intro hkeeps
    refine ⟨fun document hmem => ?_, fun k => ⟨fun hmem => ?_, fun hmaterial => ?_⟩⟩
    · obtain ⟨k, row, hrow, hsees, hclean, rfl⟩ := mem_exportedDocuments.mp hmem
      exact hkeeps.stored hobjects hstaged hstored hsettled hrow hsees hclean
    · obtain ⟨document, hlisted, rfl⟩ := List.mem_map.mp hmem
      obtain ⟨k, row, hrow, hsees, hclean, rfl⟩ := mem_exportedDocuments.mp hlisted
      have hid : row.id = k := hrecords.keys.documents k row hrow
      obtain ⟨hkey, hchecksum⟩ := hstored.metadata k row hrow
      refine downloadMaterialOf_isSome.mpr ⟨row, ?_, hsees, hclean, hkeeps k row hrow hsees hclean,
        hchecksum ?_, hkey⟩
      · exact (congrArg (s.committed.get .documents) hid).trans hrow
      · rw [hclean]
        exact DocumentStatus.noConfusion
    · obtain ⟨row, hrow, hsees, hclean, -, -, -⟩ := downloadMaterialOf_isSome.mp hmaterial
      exact List.mem_map.mpr ⟨row.exported,
        mem_exportedDocuments.mpr ⟨k, row, hrow, hsees, hclean, rfl⟩,
        hrecords.keys.documents k row hrow⟩

set_option maxRecDepth 100000 in
theorem exportable_iff_example :
    ∃ (s : (documentProtocol Sha256.transparent).System) (document : ExportDocument),
      Reachable Store.empty s ∧ Settled s.log ∧
      exportedDocuments exampleUploader s.committed = [document] ∧ document.id = "d1" ∧
      Exportable exampleUploader s.committed := by
  obtain ⟨s, hs, hlog, hcommitted⟩ :=
    reachable_sequential exampleProcessed_permitted.of_append.of_append
  have hsettled : Settled s.log := by
    intro delivery document answer hmem
    rw [hlog] at hmem
    simp [Protocol.sequential, exampleScanned] at hmem
  have hdocuments : s.committed.rowsOf .documents = [{ examplePending with
      status := .clean
      ciphertextSha256 := some (Sha256.transparent.ofCiphertext exampleCiphertext)
      uploadedAt := some 1
      processedAt := some 2
      version := 3 }] := by
    rw [hcommitted]
    rfl
  have hkeeps : KeepsOriginals exampleUploader s.committed := by
    intro k row hrow _ _
    have hmem : row ∈ s.committed.rowsOf .documents := mem_rowsOf.mpr ⟨k, hrow⟩
    rw [hdocuments] at hmem
    obtain rfl := List.mem_singleton.mp hmem
    rfl
  have hlisted : exportedDocuments exampleUploader s.committed = [DocumentRow.exported
      { examplePending with
        status := .clean
        ciphertextSha256 := some (Sha256.transparent.ofCiphertext exampleCiphertext)
        uploadedAt := some 1
        processedAt := some 2
        version := 3 }] := by
    rw [exportedDocuments, hdocuments]
    rfl
  exact ⟨s, _, hs, hsettled, hlisted, rfl, (exportable_iff Sha256.transparent noDocuments_empty
    noOriginals_empty hs hsettled exampleUploader).mpr hkeeps⟩

set_option maxRecDepth 100000 in
/-- A document whose original was deleted after processing is still listed: no handler can fetch
it, and no reader can download it. -/
theorem not_exportable :
    ∃ (s : (documentProtocol Sha256.transparent).System) (document : ExportDocument),
      Reachable Store.empty s ∧ Settled s.log ∧
      exportedDocuments exampleUploader s.committed = [document] ∧
      ((getCiphertext document.objectKey).transact s.committed).1 = .error (.error "NoSuchKey") ∧
      downloadMaterialOf exampleUploader document.id s.committed = none ∧
      ¬ Exportable exampleUploader s.committed := by
  obtain ⟨s, hs, hlog, hcommitted⟩ := reachable_sequential exampleProcessed_permitted.of_append
  have hsettled : Settled s.log := by
    intro delivery document answer hmem
    rw [hlog] at hmem ⊢
    simp only [Protocol.sequential, exampleScanned, exampleRecognized, List.cons_append,
      List.nil_append, List.mem_cons, Entry.mk.injEq, reduceCtorEq, false_and, false_or,
      List.not_mem_nil, or_false, DocumentStep.deleteOriginal.injEq] at hmem
    obtain ⟨⟨rfl, rfl⟩, -⟩ := hmem
    exact ⟨exampleDelivery .ocr, exampleClean, _, List.mem_cons_self, rfl⟩
  have hlisted : exportedDocuments exampleUploader s.committed = [DocumentRow.exported
      { examplePending with
        status := .clean
        ciphertextSha256 := some (Sha256.transparent.ofCiphertext exampleCiphertext)
        uploadedAt := some 1
        processedAt := some 2
        originalDeletedAt := some 2
        version := 4 }] := by
    rw [hcommitted]
    rfl
  have hmissing : downloadMaterialOf exampleUploader "d1" s.committed = none := by
    rw [hcommitted]
    rfl
  refine ⟨s, _, hs, hsettled, hlisted, ?_, hmissing, fun hexportable => ?_⟩
  · rw [hcommitted]
    rfl
  · have hdownload := (hexportable.downloads "d1").mp (by rw [hlisted]; exact List.mem_cons_self)
    rw [hmissing] at hdownload
    exact absurd hdownload (by simp)

end Exports

end LegacyVault
