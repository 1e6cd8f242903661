import LegacyVault.DocumentObjects
import LegacyVault.DocumentPipeline
import LegacyVault.PortableArchives

/-!
# Recorded digests

An OCR run stores its derivative, and an export its archive, under a key that
every execution for the same record shares; the digest is recorded afterwards.
The two are put by different executions when an execution stores its own
ciphertext between the put and the record of another, or after the record.
Where no commit does that, the recorded digest is the digest of what is
stored, in every state.
-/

namespace LegacyVault

open JsonText RowTransaction RowTransaction.Program RowTransaction.Protocol Store

/-! ## Derivatives -/

/-- Every recorded derivative is the one that is stored. -/
def DerivativesStored (sha256 : Sha256) (σ : Vault) : Prop :=
  ∀ k (row : DocumentDerivativeRow), σ.get .documentDerivatives k = some row →
    k.2 = searchablePdf ∧ row.objectKey = derivativeObjectKey k.1 ∧
      ∃ object : StoredObject, σ.get .objects (derivativeObjectKey k.1) = some object ∧
        sha256.ofCiphertext object.ciphertext = row.ciphertextSha256

/-- The step does not part a derivative from its record: nothing else is put once a derivative is
recorded, and a run is completed while its own derivative is stored. -/
def KeepsDerivative (sha256 : Sha256) (σ : Vault) : DocumentStep → Prop
  | .putDerivative _ document derivative => ∀ row : DocumentDerivativeRow,
    σ.get .documentDerivatives (document.id, searchablePdf) = some row →
      sha256.ofCiphertext derivative = row.ciphertextSha256
  | .completeOcr _ document derivative => ∃ object : StoredObject,
    σ.get .objects (derivativeObjectKey document.id) = some object ∧ object.ciphertext = derivative
  | _ => True

theorem derivativeObjectKey_injective : Function.Injective derivativeObjectKey := by
  intro a b h
  have hcodes := congrArg String.toList h
  simp only [derivativeObjectKey, String.toList_append, List.append_assoc,
    List.append_cancel_left_eq] at hcodes
  have hlength : a.toList.length = b.toList.length := by
    have := congrArg List.length hcodes
    simp only [List.length_append] at this
    omega
  exact String.toList_inj.mp (List.append_inj_left hcodes hlength)

/-- The object under a derivative's key stays, or a derivative is put there. -/
theorem ObjectChange.derivative_cases {σ σ' : Vault} {step : DocumentStep}
    (h : ObjectChange σ σ' step)
    (hquarantine : ∀ k objectKey, step.original = some (k, objectKey) → IsQuarantineKey objectKey)
    (documentId : Identifier) :
    σ'.get .objects (derivativeObjectKey documentId) =
        σ.get .objects (derivativeObjectKey documentId) ∨
      ∃ delivery document derivative, step = .putDerivative delivery document derivative ∧
        document.id = documentId ∧
        σ'.get .objects (derivativeObjectKey documentId) = some ⟨derivative, .clean⟩ := by
  cases h with
  | uploaded hobjects =>
    exact Or.inl (hobjects.others _ ((hquarantine _ _ rfl).ne_derivative documentId))
  | marked object hobject hobjects =>
    exact Or.inl (hobjects.others _ ((hquarantine _ _ rfl).ne_derivative documentId))
  | @derived delivery document derivative hobjects =>
    by_cases hdocument : document.id = documentId
    · subst hdocument
      exact Or.inr ⟨delivery, document, derivative, rfl, rfl, hobjects.row⟩
    · refine Or.inl (hobjects.others _ (fun heq => hdocument ?_))
      exact (derivativeObjectKey_injective heq).symm
  | deleted hobjects =>
    rcases hobjects with hreplaces | hsame
    · exact Or.inl (hreplaces.others _ ((hquarantine _ _ rfl).ne_derivative documentId))
    · exact Or.inl (hsame _)
  | other hobjects _ => exact Or.inl (hobjects _)

/-- A derivative after a committed step was recorded before, or the step has recorded it. -/
theorem DocumentEffect.derivative_origin {sha256 : Sha256} {seen : Vault → Prop} {σ σ' : Vault}
    {step : DocumentStep} {answer : DocumentAnswer}
    (h : DocumentEffect sha256 seen σ σ' step answer) {k : Identifier × String}
    {row : DocumentDerivativeRow} (hrow : σ'.get .documentDerivatives k = some row) :
    σ.get .documentDerivatives k = some row ∨
      ∃ delivery document derivative, step = .completeOcr delivery document derivative ∧
        k = (document.id, searchablePdf) ∧
        row = ocrDerivative delivery.context document (sha256.ofCiphertext derivative)
          delivery.now := by
  by_cases hderivatives : VaultTable.documentDerivatives ∈ step.tables
  · cases step with
    | completeOcr delivery document derivative =>
      cases h.change with
      | recognized σ₀ hseen hderivative _ =>
        rcases hderivative with ⟨-, hreplaces⟩ | ⟨hsame, -⟩
        · rcases hreplaces.get_cases k with ⟨rfl, hinserted⟩ | ⟨-, hold⟩
          · exact Or.inr ⟨delivery, document, derivative, rfl, rfl,
              (Option.some.inj (hinserted.symm.trans hrow)).symm⟩
          · exact Or.inl (hold.symm.trans hrow)
        · exact Or.inl ((hsame k).symm.trans hrow)
      | other _ _ _ hsame _ _ _ _ => exact Or.inl ((hsame k).symm.trans hrow)
    | _ => exact absurd hderivatives (by simp [DocumentStep.tables])
  · exact Or.inl ((h.same _ hderivatives k).symm.trans hrow)

/-- A step that does not part a derivative from its record keeps every one stored. -/
theorem DerivativesStored.step {sha256 : Sha256} {seen : Vault → Prop} {σ σ' : Vault}
    {step : DocumentStep} {answer : DocumentAnswer} (h : DerivativesStored sha256 σ)
    (heffect : DocumentEffect sha256 seen σ σ' step answer) (hobjects : ObjectChange σ σ' step)
    (hquarantine : ∀ k objectKey, step.original = some (k, objectKey) → IsQuarantineKey objectKey)
    (hkeeps : KeepsDerivative sha256 σ step) : DerivativesStored sha256 σ' := by
  intro k row hrow
  rcases heffect.derivative_origin hrow with
    hbefore | ⟨delivery, document, derivative, rfl, rfl, rfl⟩
  · obtain ⟨hkind, hkey, object, hobject, hdigest⟩ := h k row hbefore
    rcases hobjects.derivative_cases hquarantine k.1 with
      hsame | ⟨delivery, document, derivative, rfl, hdocument, hput⟩
    · exact ⟨hkind, hkey, object, hsame.trans hobject, hdigest⟩
    · refine ⟨hkind, hkey, _, hput, hkeeps row ?_⟩
      rw [hdocument, ← hkind]
      exact hbefore
  · obtain ⟨object, hobject, hciphertext⟩ := hkeeps
    have hsame := heffect.same .objects (by simp [DocumentStep.tables])
    refine ⟨rfl, rfl, object, (hsame _).trans hobject, ?_⟩
    rw [hciphertext]
    rfl

/-! ## Archives -/

/-- Every archive of a completed export is the one that is stored. -/
def ArchivesStored (sha256 : Sha256) (σ : Vault) : Prop :=
  ∀ k (row : ExportRow), σ.get .exports k = some row → row.status = .completed →
    row.objectKey = some (exportObjectKey k) ∧
      ∃ object : StoredObject, σ.get .objects (exportObjectKey k) = some object ∧
        row.archiveSha256 = some (sha256.digest (plaintextBytes object.ciphertext))

/-- The step does not part an archive from its record: nothing else is put once an export is
completed, and an export is completed while the archive of its execution is stored. -/
def KeepsArchive (sha256 : Sha256) (σ : Vault) : ExportStep → Prop
  | .put _ build archive => ∀ row : ExportRow, σ.get .exports build.exportId = some row →
    row.status = .completed → row.archiveSha256 = some (sha256.digest archive)
  | .complete _ build archive => ∃ object : StoredObject,
    σ.get .objects (exportObjectKey build.exportId) = some object ∧
      plaintextBytes object.ciphertext = archive
  | _ => True

theorem exportObjectKey_injective : Function.Injective exportObjectKey := by
  intro a b h
  have hcodes := congrArg String.toList h
  simp only [exportObjectKey, String.toList_append, List.append_cancel_left_eq,
    List.append_cancel_right_eq] at hcodes
  exact String.toList_inj.mp hcodes

/-- What a step does to exports and objects. -/
inductive ExportChange (sha256 : Sha256) (σ σ' : Vault) : ExportStep → Prop
  /-- A pending export is inserted. -/
  | started {call : ExportStartCall}
      (hexports : Replaces (S := vaultSchema) .exports call.generated.exportId
        (some (startedExport call.context (encryptEnvelope (.key call.exportKey)
          call.applicationKek (exportKeyContext call.context 1) call.generated.wrapIv)
          call.generated)) σ σ')
      (hobjects : SameRows (S := vaultSchema) .objects σ σ') :
      ExportChange sha256 σ σ' (.start call)
  /-- An archive is stored. -/
  | stored {delivery : ExportDelivery} {build : PortableExportBuildInput} {archive : String}
      (hexports : SameRows (S := vaultSchema) .exports σ σ')
      (hobjects : Replaces (S := vaultSchema) .objects (exportObjectKey build.exportId)
        (some ⟨.data archive, .completed⟩) σ σ') :
      ExportChange sha256 σ σ' (.put delivery build archive)
  /-- An export is completed. -/
  | completed {delivery : ExportDelivery} {build : PortableExportBuildInput} {archive : String}
      (hexports : Updates .exports build.exportId (completedExport delivery.context
        build.workflowId (exportObjectKey build.exportId) (sha256.digest archive)
        delivery.signer.publicKeySpkiBase64 delivery.completedAt) σ σ')
      (hobjects : SameRows (S := vaultSchema) .objects σ σ') :
      ExportChange sha256 σ σ' (.complete delivery build archive)
  /-- Another step, or one that finds its work done. -/
  | other {step : ExportStep} (hexports : SameRows (S := vaultSchema) .exports σ σ')
      (hobjects : SameRows (S := vaultSchema) .objects σ σ') : ExportChange sha256 σ σ' step

theorem getPortableExportBuildInput_readOnly (context : TenantContext) (workflowId : Identifier) :
    (getPortableExportBuildInput context workflowId).ReadOnly := by
  refine writes_bind (writes_select _) (fun found => ?_)
  cases found with
  | none => exact writes_rollback _
  | some portableExport =>
    exact writes_bind (writes_select _) (fun _ => writes_bind (writes_select _)
      (fun _ => writes_commit _))

theorem completeExportWorkflow_leaves {t : VaultTable} (h : t ≠ .workflowRuns)
    (context : TenantContext) (workflowId : Identifier) :
    (completeExportWorkflow context workflowId).Leaves t :=
  writes_bind (writes_updateRow (fun _ _ _ => h)) (fun _ => writes_commit _)

section Executes

variable {sha256 : Sha256} {seen : Vault → Prop} {σ : Vault} {ws : List (Write vaultSchema)}
  {answer : ExportAnswer}

theorem exportChange_start {call : ExportStartCall}
    (h : (exportProgram sha256 (.start call)).Executes seen σ [] (.ok answer) ws) :
    ExportChange sha256 σ (σ.overlay ws) (.start call) := by
  obtain ⟨stored, ws₁, hrecord, -, hws⟩ := executes_bind_ok.mp h
  rw [hws]
  have hleaves : (startPortableExport sha256 call.applicationKek call.context call.key
      call.exportKey call.generated call.now).Leaves VaultTable.objects :=
    withTenantRecord_leaves (by decide)
      (startExportMutation_leaves (by decide) (by decide) _ _ _)
  have hobjects : SameRows (S := vaultSchema) .objects σ (σ.overlay ws₁) := hleaves.sameRows hrecord
  rcases executes_withTenantRecord (startExportMutation_leaves (by decide) (by decide) _ _ _)
    hrecord with ⟨body, -, hws₁⟩ | ⟨body, reserved, completed, ws₂, -, hmutation, hws₁⟩
  · rw [hws₁]
    exact .other (SameRows.refl (S := vaultSchema) _ σ) (SameRows.refl (S := vaultSchema) _ σ)
  · obtain ⟨workflow, ws₃, hworkflow, hrest⟩ := executes_bind_ok.mp hmutation
    obtain ⟨-, -, hws₃⟩ := executes_insertRow_ok hworkflow
    obtain ⟨inserted, ws₄, hinsert, -, hws₂⟩ := executes_bind_ok.mp hrest
    obtain ⟨-, -, hws₄⟩ := executes_insertRow_ok hinsert
    refine .started ?_ hobjects
    have hbefore : SameRows (S := vaultSchema) .exports σ (σ.overlay ws₃) := by
      rw [hws₃]
      exact (sameRows_write (S := vaultSchema) σ (by decide)).writeOther (by decide)
    rw [hws₁, hws₂, hws₄]
    exact hbefore.write.writeOther (by decide)

theorem exportChange_complete {delivery : ExportDelivery} {build : PortableExportBuildInput}
    {archive : String}
    (h : (exportProgram sha256 (.complete delivery build archive)).Executes seen σ []
      (.ok answer) ws) :
    ExportChange sha256 σ (σ.overlay ws) (.complete delivery build archive) := by
  obtain ⟨u, ws₁, hcomplete, -, hws⟩ := executes_bind_ok.mp h
  obtain ⟨updated, ws₂, hupdate, hrest⟩ := executes_bind_ok.mp hcomplete
  have hobjects₂ : SameRows (S := vaultSchema) .objects σ (σ.overlay ws₂) :=
    Leaves.sameRows (writes_updateRow (fun _ _ _ => by decide)) hupdate
  have hworkflow : ∀ {t : VaultTable} {u : Unit} {ws₃ : List (Write vaultSchema)},
      t ≠ .workflowRuns →
      (completeExportWorkflow delivery.context build.workflowId).Executes seen σ ws₂ (.ok u) ws₃ →
      SameRows (S := vaultSchema) t (σ.overlay ws₂) (σ.overlay ws₃) :=
    fun ht hexec => Leaves.sameRows (completeExportWorkflow_leaves ht _ _) hexec
  rw [hws]
  cases updated with
  | some row =>
    have hexports : Updates .exports build.exportId (completedExport delivery.context
        build.workflowId (exportObjectKey build.exportId) (sha256.digest archive)
        delivery.signer.publicKeySpkiBase64 delivery.completedAt) σ (σ.overlay ws₂) :=
      Updates.of_executes (SameRows.refl (S := vaultSchema) _ σ) hupdate
    exact .completed (hexports.then_same (hworkflow (by decide) hrest))
      (hobjects₂.trans (hworkflow (by decide) hrest))
  | none =>
    have hkept : ws₂ = [] := by
      rcases executes_updateRow.mp hupdate with ⟨_, _, _, _, hout, _⟩ | ⟨_, _, _, _, hws₂⟩
      · exact absurd hout (by simp)
      · exact hws₂
    obtain ⟨existing, ws₃, hselect, hdone⟩ := executes_bind_ok.mp hrest
    obtain ⟨-, -, -, hws₃⟩ := executes_select.mp hselect
    cases existing with
    | false => exact absurd hdone.1 (by simp)
    | true =>
      rw [hws₃, hkept] at hdone
      rw [hkept] at hworkflow
      exact .other (hworkflow (by decide) hdone) (hworkflow (by decide) hdone)

/-- A committed step makes its change to exports and objects. -/
theorem exportProgram_change {step : ExportStep}
    (h : (exportProgram sha256 step).Executes seen σ [] (.ok answer) ws) :
    ExportChange sha256 σ (σ.overlay ws) step := by
  have hread : ∀ {step : ExportStep} {p : Transaction ExportAnswer}, p.ReadOnly →
      p.Executes seen σ [] (.ok answer) ws → ExportChange sha256 σ (σ.overlay ws) step := by
    intro step p hp hexec
    rw [hp.executes hexec]
    exact .other (SameRows.refl (S := vaultSchema) _ σ) (SameRows.refl (S := vaultSchema) _ σ)
  cases step with
  | start call => exact exportChange_start h
  | read delivery =>
    exact hread (writes_bind (getPortableExportBuildInput_readOnly _ _)
      (fun _ => writes_commit _)) h
  | fetch delivery build document =>
    exact hread (writes_bind (getCiphertext_readOnly _) (fun _ => writes_commit _)) h
  | put delivery build archive =>
    obtain ⟨u, ws₁, hput, -, hws⟩ := executes_bind_ok.mp h
    rw [hws, executes_putObject hput]
    exact .stored (sameRows_write (S := vaultSchema) σ (by decide))
      (replaces_write (S := vaultSchema) σ)
  | complete delivery build archive => exact exportChange_complete h

end Executes

/-- A step that does not part an archive from its record keeps every one stored. -/
theorem ArchivesStored.step {sha256 : Sha256} {σ σ' : Vault} {step : ExportStep}
    (h : ArchivesStored sha256 σ) (hchange : ExportChange sha256 σ σ' step)
    (hkeeps : KeepsArchive sha256 σ step) : ArchivesStored sha256 σ' := by
  intro k row hrow hcompleted
  cases hchange with
  | started hexports hobjects =>
    rcases hexports.get_cases k with ⟨rfl, hinserted⟩ | ⟨-, hold⟩
    · obtain rfl := Option.some.inj (hinserted.symm.trans hrow)
      exact absurd hcompleted (by simp [startedExport])
    · obtain ⟨hkey, object, hobject, hdigest⟩ := h k row (hold.symm.trans hrow) hcompleted
      exact ⟨hkey, object, (hobjects _).trans hobject, hdigest⟩
  | @stored delivery build archive hexports hobjects =>
    have hbefore : σ.get .exports k = some row := (hexports k).symm.trans hrow
    obtain ⟨hkey, object, hobject, hdigest⟩ := h k row hbefore hcompleted
    by_cases hk : build.exportId = k
    · subst hk
      exact ⟨hkey, _, hobjects.row, hkeeps row hbefore hcompleted⟩
    · refine ⟨hkey, object, (hobjects.others _ (fun heq => hk ?_)).trans hobject, hdigest⟩
      exact (exportObjectKey_injective heq).symm
  | completed hexports hobjects =>
    obtain ⟨before, after, hbefore, hafter, hreplaces⟩ := hexports
    rcases hreplaces.get_cases k with ⟨rfl, hupdated⟩ | ⟨-, hold⟩
    · obtain rfl := Option.some.inj (hupdated.symm.trans hrow)
      obtain ⟨object, hobject, rfl⟩ := hkeeps
      unfold completedExport at hafter
      split at hafter
      · obtain rfl := Option.some.inj hafter
        exact ⟨rfl, object, (hobjects _).trans hobject, rfl⟩
      · exact absurd hafter (by simp)
    · obtain ⟨hkey, object, hobject, hdigest⟩ := h k row (hold.symm.trans hrow) hcompleted
      exact ⟨hkey, object, (hobjects _).trans hobject, hdigest⟩
  | other hexports hobjects =>
    obtain ⟨hkey, object, hobject, hdigest⟩ := h k row ((hexports k).symm.trans hrow) hcompleted
    exact ⟨hkey, object, (hobjects _).trans hobject, hdigest⟩

/-! ## Runs -/

section Runs

variable (sha256 : Sha256) {init : Vault}

/-- A run whose commits part no derivative from its record. -/
theorem derivatives_stored (hinit : NoDocuments init)
    {steps : List ((documentProtocol sha256).System × (documentProtocol sha256).System)}
    {s : (documentProtocol sha256).System} (hrun : Run init steps s)
    (hkeeps : ∀ step ∈ steps, ∀ r a,
      step.2.log = (⟨r, .committed a⟩ : DocumentEntry) :: step.1.log →
      KeepsDerivative sha256 step.1.committed r) : DerivativesStored sha256 s.committed := by
  refine (documentObjects_invariant sha256 hinit).run
    (C := fun _ σ r => KeepsDerivative sha256 σ r) (Q := fun _ σ => DerivativesStored sha256 σ)
    (fun k row hrow => absurd (hrow.symm.trans (hinit.derivatives k)) (by simp)) ?_
    (fun _ h => h) hrun hkeeps
  intro log begun seen σ step answer ws hinv hstored hok hpermitted hbegun _ _ hexec
  obtain ⟨hrecords, hobjects⟩ := hinv
  refine hstored.step (documentProgram_effect hexec) (documentProgram_objects hexec)
    (fun k objectKey horiginal => ?_) hok
  exact hobjects.isQuarantineKey
    (hobjects.original_of_permitted hrecords hbegun hpermitted horiginal)

/-- A run whose commits part no archive from its record. -/
theorem archives_stored (hinit : ArchivesStored sha256 init)
    {steps : List ((exportProtocol sha256).System × (exportProtocol sha256).System)}
    {s : (exportProtocol sha256).System} (hrun : Run init steps s)
    (hkeeps : ∀ step ∈ steps, ∀ r a,
      step.2.log = (⟨r, .committed a⟩ : ExportEntry) :: step.1.log →
      KeepsArchive sha256 step.1.committed r) : ArchivesStored sha256 s.committed := by
  refine (trivialInvariant (exportProtocol sha256) init).run
    (C := fun _ σ r => KeepsArchive sha256 σ r) (Q := fun _ σ => ArchivesStored sha256 σ)
    hinit ?_ (fun _ h => h) hrun hkeeps
  intro log begun seen σ step answer ws _ hstored hok _ _ _ _ hexec
  exact hstored.step (exportProgram_change hexec) hok

end Runs

/-- The start of an export. -/
def exampleExportStart : ExportStartCall where
  context := exampleUploader
  key := "export-start"
  applicationKek := "application-kek"
  exportKey := "export-key"
  generated := ⟨"e1", "w1", 0, 1⟩
  now := 0

/-- A delivery of the export's job. -/
def exampleExportDelivery : ExportDelivery where
  context := exampleUploader
  workflowId := "w1"
  applicationKek := "application-kek"
  signer := ⟨id, "public-key"⟩
  householdKey := "household-key"
  keyVersion := 1
  wrapIv := 2
  iv := 3
  completedAt := 1

/-- What the delivery builds the archive from. -/
def exampleBuild : PortableExportBuildInput where
  exportId := "e1"
  workflowId := "w1"
  status := .pending
  createdAt := 0
  wrappedExportKey := encryptEnvelope (.key "export-key") "application-kek"
    (exportKeyContext exampleUploader 1) 1
  encryptionKeyVersion := 1
  snapshot := ⟨[], [], []⟩
  documents := []

/-- The archive of an empty household. -/
def exampleArchive : String :=
  (exampleExportDelivery.archive exampleBuild Sha256.transparent []).getD ""

/-- An export from its start to its completion. -/
def exampleExport : List ExportStep :=
  [.start exampleExportStart, .read exampleExportDelivery,
    .put exampleExportDelivery exampleBuild exampleArchive,
    .complete exampleExportDelivery exampleBuild exampleArchive]

set_option maxRecDepth 100000 in
theorem exampleExport_permitted :
    (exportProtocol Sha256.transparent).Sequential [] Store.empty exampleExport :=
  ⟨trivial, trivial, ⟨⟨List.mem_cons_self, ExportStatus.noConfusion⟩, [], rfl,
    fun content hmem => absurd hmem (by simp), rfl⟩, List.mem_cons_self, trivial⟩

set_option maxRecDepth 100000 in
theorem exampleExport_keeps : (exportProtocol Sha256.transparent).MeetsEach
    (fun _ σ r => KeepsArchive Sha256.transparent σ r) [] Store.empty exampleExport := by
  refine ⟨trivial, trivial, fun row hrow hcompleted => ?_, ⟨_, rfl, rfl⟩, trivial⟩
  obtain rfl := Option.some.inj hrow
  exact absurd hcompleted (by simp [startedExport])

/-- A document up to the record of its derivative. -/
def exampleDerived : List DocumentStep :=
  exampleScanned ++ [.read (exampleDelivery .ocr), .fetch (exampleDelivery .ocr) exampleClean,
    .putDerivative (exampleDelivery .ocr) exampleClean exampleDerivative,
    .completeOcr (exampleDelivery .ocr) exampleClean exampleDerivative]

set_option maxRecDepth 100000 in
theorem exampleDerived_permitted : (documentProtocol Sha256.transparent).Sequential [] Store.empty
    exampleDerived := by
  have hfirst : ∀ {entry : DocumentEntry} {log : List DocumentEntry}, entry ∈ entry :: log :=
    List.mem_cons_self
  exact ⟨trivial, trivial, ⟨hfirst, rfl, rfl, by decide⟩, trivial, ⟨hfirst, rfl⟩,
    ⟨examplePending, hfirst⟩, trivial, ⟨hfirst, rfl⟩,
    ⟨rfl, ⟨exampleCiphertext, hfirst, rfl⟩, rfl, rfl⟩, ⟨exampleBytes, hfirst⟩, trivial,
    ⟨hfirst, rfl⟩, ⟨rfl, exampleBytes, ⟨exampleCiphertext, hfirst, rfl⟩, rfl⟩, hfirst, trivial⟩

set_option maxRecDepth 100000 in
theorem exampleDerived_keeps : (documentProtocol Sha256.transparent).MeetsEach
    (fun _ σ r => KeepsDerivative Sha256.transparent σ r) [] Store.empty exampleDerived := by
  refine ⟨trivial, trivial, trivial, trivial, trivial, trivial, trivial, trivial, trivial, trivial,
    trivial, trivial, fun row hrow => ?_, ⟨_, rfl, rfl⟩, trivial⟩
  have hnone : (none : Option DocumentDerivativeRow) = some row := hrow
  exact absurd hnone (by simp)

/-- A second delivery of the OCR job. -/
def exampleOcrRedelivery : Delivery := { exampleDelivery .ocr with iv := 3 }

/-- The ciphertext of its derivative. -/
def exampleOtherDerivative : Sealed :=
  encryptEnvelope (.data exampleBytes) "data-key"
    ⟨"o1", "h1", "d1", "document-searchable-pdf", 1⟩ 3

/-- Two deliveries of the OCR job. The second has fetched the original before the first records
its derivative and deletes the original; it then stores its own, and fails. -/
def exampleOverwriting : List DocumentStep :=
  exampleScanned ++ [.read exampleOcrRedelivery, .fetch exampleOcrRedelivery exampleClean,
    .read (exampleDelivery .ocr), .fetch (exampleDelivery .ocr) exampleClean,
    .putDerivative (exampleDelivery .ocr) exampleClean exampleDerivative,
    .completeOcr (exampleDelivery .ocr) exampleClean exampleDerivative,
    .deleteOriginal (exampleDelivery .ocr) exampleClean,
    .completeDeletion (exampleDelivery .ocr) exampleClean,
    .putDerivative exampleOcrRedelivery exampleClean exampleOtherDerivative,
    .completeOcr exampleOcrRedelivery exampleClean exampleOtherDerivative,
    .recordFailure exampleOcrRedelivery exampleClean "Error"]

set_option maxRecDepth 100000 in
theorem exampleOverwriting_permitted : (documentProtocol Sha256.transparent).Sequential []
    Store.empty exampleOverwriting := by
  have hfirst : ∀ {entry : DocumentEntry} {log : List DocumentEntry}, entry ∈ entry :: log :=
    List.mem_cons_self
  have hlater : ∀ {entry other : DocumentEntry} {log : List DocumentEntry}, entry ∈ log →
      entry ∈ other :: log := List.mem_cons_of_mem _
  exact ⟨trivial, trivial, ⟨hfirst, rfl, rfl, by decide⟩, trivial, ⟨hfirst, rfl⟩,
    ⟨examplePending, hfirst⟩, trivial, ⟨hfirst, rfl⟩,
    ⟨rfl, ⟨exampleCiphertext, hfirst, rfl⟩, rfl, rfl⟩, ⟨exampleBytes, hfirst⟩, trivial,
    ⟨hfirst, rfl⟩, trivial, ⟨hfirst, rfl⟩,
    ⟨rfl, exampleBytes, ⟨exampleCiphertext, hfirst, rfl⟩, rfl⟩, hfirst,
    ⟨rfl, Or.inr ⟨rfl, exampleDerivative, hfirst⟩⟩, hfirst,
    ⟨rfl, exampleBytes, ⟨exampleCiphertext,
      hlater (hlater (hlater (hlater (hlater (hlater hfirst))))), rfl⟩, rfl⟩, hfirst,
    ⟨hlater (hlater (hlater (hlater (hlater (hlater (hlater (hlater (hlater hfirst)))))))), rfl⟩,
    trivial⟩

end LegacyVault
