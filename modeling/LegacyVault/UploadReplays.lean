import LegacyVault.DocumentPipeline
import LegacyVault.UploadOrigins
import LegacyVault.WorkflowRuns
import LegacyVault.Library.Handlers
import LegacyVault.Library.ServedRequests

/-!
# Replays of upload completions

`completeDocumentUpload` of the runtime reads the pending document, checks the
stored object, runs the transaction with the idempotency record, and puts the
workflow on the queue. Each of these is an exchange; between and during them
the steps of other requests and handlers go on.

A document whose upload is complete is never pending again. A later request of
the same upload therefore fails at its first read, before the stored response
is looked at, and puts nothing on the queue.
-/

namespace LegacyVault

open JsonText Handlers RowTransaction RowTransaction.Program RowTransaction.Protocol Store

/-! ## The request -/

/-- A job as `enqueueWorkflow` adds it. -/
structure QueuedJob where
  name : String
  data : WorkflowJob

/-- What the runtime waits for. -/
inductive UploadCall where
  | documentStep (step : DocumentStep)
  | enqueueWorkflow (job : QueuedJob)

/-- The calls of the runtime, and whether the queue has taken a job. -/
def uploadInterface : Interface where
  Call := UploadCall
  Answer
    | .documentStep _ => Outcome RepositoryError DocumentAnswer
    | .enqueueWorkflow _ => Bool

/-- Why a request failed. -/
inductive UploadFailure where
  | threw (error : RepositoryError)
  /-- The database, the object store or the queue was lost. -/
  | connectionLost
  /-- An answer without what is read from it. -/
  | unreadable

/-- A request to the runtime. -/
abbrev UploadHandler := Handler uploadInterface UploadFailure

/-- The result of a step, or what it throws. -/
def stepResult : Outcome RepositoryError DocumentAnswer → Except UploadFailure DocumentAnswer
  | .committed answer => .ok answer
  | .rolledBack error => .error (.threw error)
  | .aborted => .error .connectionLost

/-- Wait for a step. -/
def awaitStep (step : DocumentStep) : UploadHandler DocumentAnswer :=
  .ask (.documentStep step) (fun outcome => .ofExcept (stepResult outcome))

/-- Wait until a job is on the queue. -/
def enqueueWorkflow (job : QueuedJob) : UploadHandler Unit :=
  .ask (.enqueueWorkflow job) (fun added : Bool =>
    if added then .done () else .fail .connectionLost)

/-- The document a step has read. -/
def DocumentAnswer.readDocument : DocumentAnswer → Except UploadFailure DocumentRow
  | .document row => .ok row
  | _ => .error .unreadable

/-- The response of a completion. -/
def DocumentAnswer.response : DocumentAnswer → Except UploadFailure Json
  | .answer stored => .ok stored.body
  | _ => .error .unreadable

/-- `started.workflow.id`. -/
def startedWorkflowId (started : Json) : Except UploadFailure Identifier :=
  match (member "workflow" started).bind (member "id") with
  | some (.str workflowId) => .ok workflowId
  | _ => .error .unreadable

/-- `completeDocumentUpload` of the runtime. -/
def Runtime.completeDocumentUpload (call : UploadCompletionCall) : UploadHandler Json := do
  let read ← awaitStep (.pendingForCompletion call)
  let document ← read.readDocument
  if document.version ≠ call.input.expectedVersion then
    .fail (.threw (.error "document upload version conflict"))
  else
    let _ ← awaitStep (.assertStored call document)
    let completed ← awaitStep (.completeUpload call)
    let started ← completed.response
    let workflowId ← startedWorkflowId started
    enqueueWorkflow ⟨"document-process", ⟨call.context, workflowId⟩⟩
    pure started

/-! ## The world of a request -/

/-- A request among the steps of all others. -/
def uploadWorld (sha256 : Sha256) : World uploadInterface (documentProtocol sha256).System :=
  fun s call answer s' =>
    match call, answer with
    | .documentStep step, outcome => Served (P := documentProtocol sha256) step outcome s s'
    | .enqueueWorkflow _, _ => Later s s'

/-- An exchange of the runtime. -/
abbrev UploadExchange (sha256 : Sha256) := Exchange uploadInterface (documentProtocol sha256).System

section Traces

variable {sha256 : Sha256}

/-- The job an exchange has put on the queue. -/
def enqueuedBy : UploadExchange sha256 → List QueuedJob
  | ⟨_, .enqueueWorkflow job, true, _⟩ => [job]
  | _ => []

/-- The jobs a request has put on the queue. -/
def enqueued (trace : List (UploadExchange sha256)) : List QueuedJob := trace.flatMap enqueuedBy

/-- Nothing was lost in an exchange. -/
def Connected : UploadExchange sha256 → Prop
  | ⟨_, .enqueueWorkflow _, added, _⟩ => added = true
  | ⟨_, .documentStep _, outcome, _⟩ => outcome ≠ Outcome.aborted

/-- An exchange has changed a document or a workflow. -/
def Applied : UploadExchange sha256 → Prop
  | ⟨_, .enqueueWorkflow _, _, _⟩ => False
  | ⟨_, .documentStep _, outcome, _⟩ => ∃ body, outcome = .committed (.answer (.applied body))

/-- The transaction of the request has committed with an answer. -/
def CompletionIn (trace : List (UploadExchange sha256)) (call : UploadCompletionCall)
    (answer : Answer Json) : Prop :=
  ∃ before after, (⟨before, .documentStep (.completeUpload call),
    Outcome.committed (DocumentAnswer.answer answer), after⟩ : UploadExchange sha256) ∈ trace

end Traces

/-- The request waits for nothing more. -/
def Finished : UploadHandler Json → Prop
  | .ask _ _ => False
  | _ => True

/-- Another request of the same upload under the same key. -/
structure UploadCompletionCall.Retries (later call : UploadCompletionCall) : Prop where
  organizationId : later.context.organizationId = call.context.organizationId
  householdId : later.context.householdId = call.context.householdId
  key : later.key = call.key
  input : later.input = call.input

/-- From the system on, the request returns the response and enqueues its workflow, and changes
nothing, as long as nothing is lost. -/
def Replays (sha256 : Sha256) (s : (documentProtocol sha256).System)
    (call : UploadCompletionCall) (started : Json) : Prop :=
  ∀ trace rest s', Runs (uploadWorld sha256) (Runtime.completeDocumentUpload call) s trace rest s' →
    Finished rest → (∀ exchange ∈ trace, Connected exchange) →
    rest = .done started ∧ (∀ exchange ∈ trace, ¬ Applied exchange) ∧
      ∃ workflowId, startedWorkflowId started = .ok workflowId ∧
        enqueued trace = [⟨"document-process", ⟨call.context, workflowId⟩⟩]

/-! ## Completed uploads -/

/-- The document has been uploaded. -/
def LeftPending (σ : Vault) (documentId : Identifier) : Prop :=
  ∃ row : DocumentRow, σ.get .documents documentId = some row ∧ row.status ≠ .pending

theorem LeftPending.later {σ σ' : Vault} {documentId : Identifier} (h : LeftPending σ documentId)
    (hkept : DocumentsKept σ σ') : LeftPending σ' documentId := by
  obtain ⟨row, hrow, hstatus⟩ := h
  obtain ⟨row', hrow', hkeptRow⟩ := hkept.documents _ _ hrow
  exact ⟨row', hrow', (hkeptRow.uploaded hstatus).1⟩

/-- The vault has no record of an upload completion. -/
def NoCompletionRecords (sha256 : Sha256) (init : Vault) : Prop :=
  ∀ k (record : IdempotencyRow), init.get .idempotencyRecords k = some record →
    ∀ input : UploadCompletionInput, record.requestHash ≠ sha256.ofJson input.shape

theorem noCompletionRecords_empty (sha256 : Sha256) :
    NoCompletionRecords sha256 Store.empty :=
  fun _ _ hrow => absurd hrow (by simp)

/-- Inputs of one shape complete the same upload. -/
theorem UploadCompletionInput.shape_injective : Function.Injective UploadCompletionInput.shape := by
  intro a b h
  cases a
  cases b
  simp only [UploadCompletionInput.shape, Json.obj.injEq, List.cons.injEq, Prod.mk.injEq,
    Json.str.injEq, Json.nat_inj, true_and, and_true] at h
  obtain ⟨rfl, rfl, rfl⟩ := h
  rfl

theorem ManualExtractionInput.shape_ne_completion (a : ManualExtractionInput)
    (b : UploadCompletionInput) : a.shape ≠ b.shape := by
  simp [ManualExtractionInput.shape, UploadCompletionInput.shape]

/-- A document with a completion has been uploaded, in the records and in the log. -/
structure CompletedUploads (sha256 : Sha256) (log : List DocumentEntry) (σ : Vault) : Prop where
  recorded : ∀ k (record : IdempotencyRow), σ.get .idempotencyRecords k = some record →
    ∀ input : UploadCompletionInput, record.requestHash = sha256.ofJson input.shape →
      LeftPending σ input.documentId
  completed : ∀ call answer, (⟨.completeUpload call, .committed answer⟩ : DocumentEntry) ∈ log →
    LeftPending σ call.input.documentId

section Completions

variable {sha256 : Sha256} {seen : Vault → Prop} {σ : Vault} {ws : List (Write vaultSchema)}

/-- A committed completion has found a record of its input, or has uploaded its document. -/
theorem executes_completeUpload {call : UploadCompletionCall} {answer : DocumentAnswer}
    (h : (documentProgram sha256 (.completeUpload call)).Executes seen σ [] (.ok answer) ws) :
    (ws = [] ∧ ∃ (σ₀ : Vault) (record : IdempotencyRow), seen σ₀ ∧
        σ₀.get .idempotencyRecords (call.context.recordKey call.key) = some record ∧
        record.requestHash = sha256.ofJson call.input.shape) ∨
      LeftPending (σ.overlay ws) call.input.documentId := by
  have hchange := documentChange_completeUpload h
  obtain ⟨stored, ws₁, hrecord, hanswer, rfl⟩ := executes_bind_ok.mp h
  obtain rfl := Except.ok.inj hanswer
  rcases RecordShape.executes_once_ok (completeUploadMutation_leaves (by decide) (by decide)
    _ _ _ _) hrecord with
    ⟨σ₀, record, body, hseen, hfound, hhash, -, -, rfl⟩ | ⟨body, ws₂, -, -, rfl, -⟩
  · exact Or.inl ⟨rfl, σ₀, record, hseen, hfound, hhash⟩
  · right
    cases hchange with
    | uploaded hdocument _ _ =>
      obtain ⟨before, after, hbefore, hafter, hreplaces⟩ := hdocument
      refine ⟨after, hreplaces.row, ?_⟩
      unfold quarantinedDocument at hafter
      split at hafter
      · obtain rfl := Option.some.inj hafter
        simp
      · exact absurd hafter (by simp)
    | other _ _ _ _ _ _ hreplayed _ => exact absurd rfl (hreplayed body)

/-- Every completion has uploaded its document, in every interleaving. -/
theorem completedUploads_invariant (sha256 : Sha256) {init : Vault} (hinit : NoDocuments init)
    (hrecords : NoCompletionRecords sha256 init) :
    (documentProtocol sha256).Invariant init
      (fun log σ => DocumentRecords log σ ∧ CompletedUploads sha256 log σ) DocumentsKept := by
  refine (documentRecords_invariant sha256 hinit).and ?_ ?_ (fun houtcome h => ?_)
  · exact ⟨fun k record hrecord input hhash => absurd hhash (hrecords k record hrecord input),
      fun _ _ hmem => absurd hmem (by simp)⟩
  · intro log begun seen σ step answer ws _ h hpermitted hbegun hnow hearlier hexec _ hkept
    have hcompletes : ∀ call, step = .completeUpload call →
        LeftPending (σ.overlay ws) call.input.documentId := by
      rintro call rfl
      rcases executes_completeUpload hexec with ⟨rfl, σ₀, record, hseen, hfound, hhash⟩ | hleft
      · obtain ⟨hgrows, log₀, -, -, hheld⟩ := hearlier σ₀ hseen
        exact (hheld.2.recorded _ record hfound call.input hhash).later (hgrows.trans hkept)
      · exact hleft
    refine ⟨fun k record hrecord input hhash => ?_, fun call answer' hmem => ?_⟩
    · rcases documentProgram_records hexec hrecord with hold | hwritten
      · exact (h.recorded k record hold input hhash).later hkept
      · cases step with
        | startUpload call =>
          exact absurd (sha256.ofJson_inj.mp (hwritten.1.symm.trans hhash)).symm
            (input.shape_ne call.input)
        | completeUpload call =>
          obtain rfl := UploadCompletionInput.shape_injective
            (sha256.ofJson_inj.mp (hwritten.symm.trans hhash))
          exact hcompletes call rfl
        | extract call =>
          exact absurd (sha256.ofJson_inj.mp (hwritten.symm.trans hhash))
            (call.input.shape_ne_completion input)
        | _ => exact absurd hwritten id
    · rcases List.mem_cons.mp hmem with heq | hmem
      · exact hcompletes call (Entry.mk.inj heq).1.symm
      · exact (h.completed call answer' hmem).later hkept
  · refine ⟨h.recorded, fun call answer hmem => ?_⟩
    rcases List.mem_cons.mp hmem with heq | hmem
    · exact absurd (Entry.mk.inj heq).2.symm (houtcome answer)
    · exact h.completed call answer hmem

/-- The read of a pending document fails when it has been uploaded in every store it may see. -/
theorem executes_pendingForCompletion {call : UploadCompletionCall}
    (hleft : ∀ σ₀, seen σ₀ → LeftPending σ₀ call.input.documentId)
    {result : Except RepositoryError DocumentAnswer}
    (h : (documentProgram sha256 (.pendingForCompletion call)).Executes seen σ [] result ws) :
    result = .error (.error "document upload is unavailable") := by
  rcases executes_bind.mp h with ⟨document, ws₁, hread, -⟩ | ⟨error, rfl, hread⟩
  · obtain ⟨σ₀, hseen, hrow, hpending⟩ := executes_getPendingDocumentUpload hread
    obtain ⟨row, hfound, hstatus⟩ := hleft σ₀ hseen
    obtain rfl : document = row := Option.some.inj (hrow.symm.trans hfound)
    simp [DocumentRow.pendingIn, hstatus] at hpending
  · rcases executes_bind.mp hread with ⟨found, ws₁, hselect, hfound⟩ | ⟨error', -, hselect⟩
    · cases found with
      | none => exact congrArg Except.error (Except.error.inj hfound.1)
      | some row => exact absurd hfound.1 (by simp)
    · obtain ⟨σ₀, -, hbad, -⟩ := executes_select.mp hselect
      exact absurd hbad (by simp)

end Completions

/-! ## Later requests -/

section Requests

variable {sha256 : Sha256} {init : Vault} {s s' : (documentProtocol sha256).System}

/-- The world of a request goes on by steps of the protocol. -/
theorem uploadWorld_later {call : UploadCall} {answer : uploadInterface.Answer call}
    (h : uploadWorld sha256 s call answer s') : Later s s' := by
  cases call with
  | documentStep step => exact Served.later h
  | enqueueWorkflow job => exact h

/-- A completion in the trace of a request is in the log from then on. -/
theorem CompletionIn.logged {call call' : UploadCompletionCall} {answer : Answer Json}
    {trace : List (UploadExchange sha256)} {rest : UploadHandler Json}
    (h : CompletionIn trace call answer)
    (hruns : Runs (uploadWorld sha256) (Runtime.completeDocumentUpload call') s trace rest s') :
    Later s s' ∧
      (⟨.completeUpload call, .committed (.answer answer)⟩ : DocumentEntry) ∈ s'.log := by
  obtain ⟨before, after, hmem⟩ := h
  obtain ⟨hlater, hexchanges⟩ := hruns.exchanges (R := Later) (fun _ => .refl)
    (fun _ _ _ h h' => h.trans h') (fun _ _ _ _ => uploadWorld_later)
  obtain ⟨hserved, -, hafter⟩ := hexchanges _ hmem
  exact ⟨hlater, hafter.log_suffix.subset (Served.logged hserved)⟩

/-- The read of the pending document fails from a system on in which the document has been
uploaded. -/
theorem served_pendingForCompletion (hinit : NoDocuments init) (hs : Reachable init s)
    {call : UploadCompletionCall} (hleft : LeftPending s.committed call.input.documentId)
    {outcome : Outcome RepositoryError DocumentAnswer}
    (h : Served (P := documentProtocol sha256) (.pendingForCompletion call) outcome s s') :
    outcome = .rolledBack (.error "document upload is unavailable") ∨ outcome = .aborted := by
  have hresult : ∀ result, outcome = .ofResult result →
      result = .error (.error "document upload is unavailable") := by
    intro result hresult
    obtain ⟨seen, σ, ws, hgrown, hexec⟩ :=
      (documentRecords_invariant sha256 hinit).served hs h hresult
    have hread : (documentProgram sha256 (.pendingForCompletion call)).Executes seen σ [] result
      ws := hexec
    exact executes_pendingForCompletion (fun σ₀ h₀ => hleft.later (hgrown σ₀ h₀)) hread
  cases outcome with
  | committed answer => exact absurd (hresult (.ok answer) rfl) (by simp)
  | rolledBack error =>
    have herror := hresult (.error error) rfl
    exact Or.inl (congrArg Outcome.ofResult herror)
  | aborted => exact Or.inr rfl

/-- A later request stops or fails at its first read. -/
theorem runs_of_leftPending (hinit : NoDocuments init) (hs : Reachable init s)
    {call : UploadCompletionCall} (hleft : LeftPending s.committed call.input.documentId)
    {trace : List (UploadExchange sha256)} {rest : UploadHandler Json}
    (hruns : Runs (uploadWorld sha256) (Runtime.completeDocumentUpload call) s trace rest s') :
    (trace = [] ∧ rest = Runtime.completeDocumentUpload call) ∨
      ((∃ failure, rest = .fail failure) ∧ enqueued trace = []) := by
  have hfirst : Runtime.completeDocumentUpload call =
      awaitStep (.pendingForCompletion call) >>= _ := rfl
  rw [hfirst] at hruns
  cases hruns with
  | stop => exact Or.inl ⟨rfl, rfl⟩
  | @exchange _ _ _ s₁ _ outcome trace _ hserved hrest =>
    right
    rcases served_pendingForCompletion hinit hs hleft hserved with rfl | rfl
    · obtain ⟨rfl, rfl, -⟩ := Runs.of_fail hrest
      exact ⟨⟨_, rfl⟩, rfl⟩
    · obtain ⟨rfl, rfl, -⟩ := Runs.of_fail hrest
      exact ⟨⟨_, rfl⟩, rfl⟩

/-- A later request can be refused although nothing is lost. -/
theorem refused_of_leftPending (hinit : NoDocuments init) (hs : Reachable init s)
    {call : UploadCompletionCall} (hleft : LeftPending s.committed call.input.documentId) :
    ∃ (trace : List (UploadExchange sha256)) (s' : (documentProtocol sha256).System),
      Runs (uploadWorld sha256) (Runtime.completeDocumentUpload call) s trace
        (.fail (.threw (.error "document upload is unavailable"))) s' ∧
      ∀ exchange ∈ trace, Connected exchange := by
  have hreadOnly : (documentProgram sha256 (.pendingForCompletion call)).ReadOnly :=
    writes_bind (getPendingDocumentUpload_readOnly _ _) (fun _ => writes_commit _)
  obtain ⟨s', hserved⟩ := hs.serveReadOnly (P := documentProtocol sha256)
    (r := .pendingForCompletion call) trivial hreadOnly
  generalize houtcome : Outcome.ofResult
    ((documentProgram sha256 (.pendingForCompletion call)).run s.committed).1 = outcome at hserved
  rcases served_pendingForCompletion hinit hs hleft hserved with rfl | rfl
  · refine ⟨[⟨s, .documentStep (.pendingForCompletion call), _, s'⟩], s',
      .exchange hserved (.stop _ _), fun exchange hmem => ?_⟩
    obtain rfl := List.mem_singleton.mp hmem
    exact nofun
  · cases hrun : ((documentProgram sha256 (.pendingForCompletion call)).run s.committed).1 <;>
      exact absurd ((congrArg Outcome.ofResult hrun).symm.trans houtcome) nofun

end Requests

/-! ## A run -/

/-- The response of the example's completion. -/
def exampleStarted : Json :=
  .obj [("document", .obj [("id", .str "d1"), ("status", .str "quarantined"),
      ("version", .nat 2)]),
    ("workflow", .obj [("id", .str "w1"), ("status", .str "pending"), ("version", .nat 1)])]

/-- The upload of the example, up to its completion. -/
def exampleUploaded : List DocumentStep :=
  [.startUpload exampleUpload, .pendingForUrl exampleUrl,
    .upload exampleUrl examplePending exampleCiphertext 0]

set_option maxRecDepth 100000 in
/-- The upload of the example is completed, and its workflow enqueued. -/
theorem exampleCompletion_runs :
    ∃ (s s₁ : (documentProtocol Sha256.transparent).System)
      (trace : List (UploadExchange Sha256.transparent)), Reachable Store.empty s ∧
      Runs (uploadWorld Sha256.transparent) (Runtime.completeDocumentUpload exampleCompletion) s
        trace (.done exampleStarted) s₁ ∧
      CompletionIn trace exampleCompletion (.applied exampleStarted) ∧
      enqueued trace = [⟨"document-process", ⟨exampleUploader, "w1"⟩⟩] := by
  have hfirst : ∀ {entry : DocumentEntry} {log : List DocumentEntry}, entry ∈ entry :: log :=
    List.mem_cons_self
  have hpermitted : (documentProtocol Sha256.transparent).Sequential [] Store.empty
      exampleUploaded := ⟨trivial, trivial, ⟨hfirst, rfl, rfl, by decide⟩, trivial⟩
  obtain ⟨s, hs, hidle, heq⟩ :=
    (Reachable.initial : Reachable Store.empty _).sequential (fun _ => rfl) hpermitted
  have hcommitted : s.committed = ((documentProtocol Sha256.transparent).sequential []
      Store.empty exampleUploaded).2 := congrArg Prod.snd heq
  obtain ⟨s₁, hread, hidle₁, hlog₁, hcommitted₁⟩ :=
    System.serve (P := documentProtocol Sha256.transparent) hidle
      (r := .pendingForCompletion exampleCompletion) trivial
  have hpending : Outcome.ofResult ((documentProgram Sha256.transparent
      (.pendingForCompletion exampleCompletion)).transact s.committed).1 =
        .committed (.document examplePending) := by
    rw [hcommitted]
    rfl
  rw [hpending] at hread hlog₁
  obtain ⟨s₂, hasserted, hidle₂, hlog₂, hcommitted₂⟩ :=
    System.serve (P := documentProtocol Sha256.transparent) hidle₁
      (r := .assertStored exampleCompletion examplePending) ⟨by rw [hlog₁]; exact hfirst, rfl⟩
  have hstored : Outcome.ofResult ((documentProgram Sha256.transparent
      (.assertStored exampleCompletion examplePending)).transact s₁.committed).1 =
        .committed .done := by
    rw [hcommitted₁, hcommitted]
    rfl
  rw [hstored] at hasserted hlog₂
  obtain ⟨s₃, hcompleted, -, -, -⟩ :=
    System.serve (P := documentProtocol Sha256.transparent) hidle₂
      (r := .completeUpload exampleCompletion) ⟨examplePending, by rw [hlog₂]; exact hfirst⟩
  have hstarted : Outcome.ofResult ((documentProgram Sha256.transparent
      (.completeUpload exampleCompletion)).transact s₂.committed).1 =
        .committed (.answer (.applied exampleStarted)) := by
    rw [hcommitted₂, hcommitted₁, hcommitted]
    rfl
  rw [hstarted] at hcompleted
  refine ⟨s, s₃, [⟨s, .documentStep (.pendingForCompletion exampleCompletion), _, s₁⟩,
    ⟨s₁, .documentStep (.assertStored exampleCompletion examplePending), _, s₂⟩,
    ⟨s₂, .documentStep (.completeUpload exampleCompletion), _, s₃⟩,
    ⟨s₃, .enqueueWorkflow ⟨"document-process", ⟨exampleUploader, "w1"⟩⟩, true, s₃⟩], hs,
    .exchange hread (.exchange hasserted (.exchange hcompleted
      (.exchange (Relation.ReflTransGen.refl : Later s₃ s₃) (.stop _ _)))),
    ⟨s₂, s₃, by simp⟩, rfl⟩

/-- Once its upload is complete, no request completes a document again: a later request under the
same key neither returns the stored response nor enqueues the workflow, also when the first one
stopped before its own enqueue. -/
theorem completed_upload_never_replays (sha256 : Sha256) {init : Vault} (hinit : NoDocuments init)
    (hrecords : NoCompletionRecords sha256 init) {s s₁ s₂ : (documentProtocol sha256).System}
    (hs : Reachable init s) {call later : UploadCompletionCall}
    {trace : List (UploadExchange sha256)} {rest : UploadHandler Json}
    (hruns : Runs (uploadWorld sha256) (Runtime.completeDocumentUpload call) s trace rest s₁)
    {answer : Answer Json} (hcompletes : CompletionIn trace call answer) (hlater : Later s₁ s₂)
    (hretries : later.Retries call) :
    ¬ Replays sha256 s₂ later answer.body ∧
      ∀ trace' rest' s', Runs (uploadWorld sha256) (Runtime.completeDocumentUpload later) s₂ trace'
        rest' s' → enqueued trace' = [] ∧ ∀ started, rest' ≠ .done started := by
  obtain ⟨hfirst, hlogged⟩ := hcompletes.logged hruns
  have hs₂ : Reachable init s₂ := (hs.later hfirst).later hlater
  have hleft : LeftPending s₂.committed later.input.documentId := by
    rw [hretries.input]
    exact ((completedUploads_invariant sha256 hinit hrecords).reachable hs₂).2.completed call _
      (hlater.log_suffix.subset hlogged)
  constructor
  · intro hreplays
    obtain ⟨trace', s', hrefused, hconnected⟩ := refused_of_leftPending hinit hs₂ hleft
    obtain ⟨hdone, -⟩ := hreplays _ _ _ hrefused trivial hconnected
    exact absurd hdone (by simp)
  · intro trace' rest' s' hruns'
    rcases runs_of_leftPending hinit hs₂ hleft hruns' with
      ⟨rfl, rfl⟩ | ⟨⟨failure, rfl⟩, henqueued⟩
    · exact ⟨rfl, fun _ => nofun⟩
    · exact ⟨henqueued, fun _ => (by simp)⟩

theorem completed_upload_never_replays_example :
    ∃ (s₁ : (documentProtocol Sha256.transparent).System),
      ¬ Replays Sha256.transparent s₁ exampleCompletion exampleStarted := by
  obtain ⟨s, s₁, trace, hs, hruns, hcompletes, -⟩ := exampleCompletion_runs
  exact ⟨s₁, (completed_upload_never_replays Sha256.transparent noDocuments_empty
    (noCompletionRecords_empty _) hs hruns hcompletes .refl ⟨rfl, rfl, rfl, rfl⟩).1⟩

/-- The request of the example returns its response and enqueues its workflow; the same request
after it is refused, although nothing is lost. -/
theorem completed_upload_refused_again :
    ∃ (s s₁ s₂ : (documentProtocol Sha256.transparent).System)
      (trace trace' : List (UploadExchange Sha256.transparent)), Reachable Store.empty s ∧
      Runs (uploadWorld Sha256.transparent) (Runtime.completeDocumentUpload exampleCompletion) s
        trace (.done exampleStarted) s₁ ∧
      enqueued trace = [⟨"document-process", ⟨exampleUploader, "w1"⟩⟩] ∧
      Runs (uploadWorld Sha256.transparent) (Runtime.completeDocumentUpload exampleCompletion) s₁
        trace' (.fail (.threw (.error "document upload is unavailable"))) s₂ ∧
      (∀ exchange ∈ trace', Connected exchange) ∧
      ¬ Replays Sha256.transparent s₁ exampleCompletion exampleStarted := by
  obtain ⟨s, s₁, trace, hs, hruns, hcompletes, henqueued⟩ := exampleCompletion_runs
  obtain ⟨hlater, hlogged⟩ := hcompletes.logged hruns
  have hs₁ : Reachable Store.empty s₁ := hs.later hlater
  have hleft : LeftPending s₁.committed exampleCompletion.input.documentId :=
    ((completedUploads_invariant Sha256.transparent noDocuments_empty
      (noCompletionRecords_empty _)).reachable hs₁).2.completed _ _ hlogged
  obtain ⟨trace', s₂, hrefused, hconnected⟩ := refused_of_leftPending noDocuments_empty hs₁ hleft
  refine ⟨s, s₁, s₂, trace, trace', hs, hruns, henqueued, hrefused, hconnected, ?_⟩
  intro hreplays
  obtain ⟨hdone, -⟩ := hreplays _ _ _ hrefused trivial hconnected
  exact absurd hdone (by simp)

end LegacyVault
