import LegacyVault.EvidenceIntegrity
import LegacyVault.Library.SeenStores
import LegacyVault.ReportJobs

/-!
# Facts under the keys of their households

The calls that create and move facts, the jobs of reports, and any other
transactions of the vault, in every interleaving. The runtime seals a value
under the key that the key store returns it, and opens it under the key that
the store returns another caller; `keys` is the log of the key store.

The envelope of a fact is never rewritten, so a member is listed every value
as it was supplied.
-/

namespace LegacyVault

open JsonText RowTransaction RowTransaction.Program RowTransaction.Protocol Store

/-- A transaction that writes neither facts nor reports. -/
structure OutsideRecords where
  transaction : Transaction Unit
  facts : transaction.Leaves VaultTable.facts
  reports : transaction.Leaves VaultTable.reports

/-- A transaction on facts or reports, with what the runtime has generated for it. -/
inductive RecordsCall where
  | createFact (context : TenantContext) (input : FactInput) (generated : RecordedGenerated)
  | extract (call : ExtractionCall)
  | confirm (context : TenantContext) (factId : Identifier) (expectedVersion : Nat)
    (confirmedAt : Instant)
  | reject (context : TenantContext) (factId : Identifier) (expectedVersion : Nat)
  | dispute (context : TenantContext) (factId : Identifier) (expectedVersion : Nat)
  | startReport (context : TenantContext) (key : String) (kind : ReportKind)
    (generated : ReportGenerated)
  /-- A report job reads what it needs. -/
  | readBuild (context : TenantContext) (workflowId : Identifier)
  /-- A report job stores the report. -/
  | completeReport (execution : ReportExecution)
  | other (transaction : OutsideRecords)

/-- What a transaction returns. -/
inductive RecordsResult where
  | fact (answer : FactAnswer)
  | started (report : ReportRow) (workflow : WorkflowRow)
  | build (input : ReportBuildInput)
  | done

/-- A transaction of the repository on facts. -/
def onFacts (sha256 : Sha256) (call : FactCall) : Transaction RecordsResult := do
  let answer ← factProgram sha256 call
  pure (.fact answer)

/-- The transaction of a call. -/
def recordsProgram (sha256 : Sha256) (localeCompare : String → String → Int) :
    RecordsCall → Transaction RecordsResult
  | .createFact context input generated =>
    onFacts sha256 (.create context (input.write context generated))
  | .extract call => onFacts sha256 (.extract call)
  | .confirm context factId expectedVersion confirmedAt =>
    onFacts sha256 (.confirm context factId expectedVersion confirmedAt)
  | .reject context factId expectedVersion =>
    onFacts sha256 (.reject context factId expectedVersion)
  | .dispute context factId expectedVersion =>
    onFacts sha256 (.dispute context factId expectedVersion)
  | .startReport context key kind generated => do
    let (report, workflow) ← startReport context key kind generated
    pure (.started report workflow)
  | .readBuild context workflowId => do
    let build ← getReportBuildInput context workflowId
    pure (.build build)
  | .completeReport execution =>
    match execution.completion localeCompare with
    | .error message => failWith message
    | .ok input => do
      completeReport execution.context input
      pure .done
  | .other outside => do
    outside.transaction
    pure .done

section Records

variable {keyEncryptionKey : SymmetricKey} {hashtextextended : String → Int}

/-- The log of a key store. -/
abbrev KeyLog (keyEncryptionKey : SymmetricKey) (hashtextextended : String → Int) :=
  List (keyProtocol keyEncryptionKey hashtextextended).LogEntry

/-- What the runtime has done before a transaction: values are sealed under a key that was returned
to the tenant, and a report is generated of what its job has read. -/
def RecordsCall.Prepared (keys : KeyLog keyEncryptionKey hashtextextended)
    (log : List (Entry RecordsCall RepositoryError RecordsResult)) : RecordsCall → Prop
  | .createFact context _ generated =>
    ReturnedTo keys context.organizationId context.householdId
      ⟨generated.keyVersion, generated.plaintextKey⟩
  | .extract call =>
    ReturnedTo keys call.context.organizationId call.context.householdId
      ⟨call.generated.keyVersion, call.generated.plaintextKey⟩
  | .completeReport execution =>
    ReturnedTo keys execution.context.organizationId execution.context.householdId
      execution.householdKey ∧
    execution.build.status ≠ .completed ∧
    ⟨.readBuild execution.context execution.workflowId,
      .committed (.build execution.build)⟩ ∈ log
  | _ => True

/-- Facts and reports as a protocol. -/
abbrev recordsProtocol (keys : KeyLog keyEncryptionKey hashtextextended) (sha256 : Sha256)
    (localeCompare : String → String → Int) : Protocol vaultSchema where
  Request := RecordsCall
  Error := RepositoryError
  Result := RecordsResult
  program := recordsProgram sha256 localeCompare
  permitted := RecordsCall.Prepared keys

/-- How a call has ended. -/
abbrev RecordsEntry := Entry RecordsCall RepositoryError RecordsResult

/-! ## Where facts come from -/

/-- The fact is one that the call creates, with the value that its caller has supplied. -/
def RecordsCall.Supplies (fact : FactRow) (value : Json) : RecordsCall → Prop
  | .createFact context input generated =>
    ((input.write context generated).row context).SameFact fact ∧ value = input.value
  | .extract call => ∃ index, ∃ candidate : ManualCandidate,
      call.input.candidates[index]? = some candidate ∧
      ((candidate.write call.context call.generated.plaintextKey call.generated.keyVersion
        (call.generated.candidates index)).fact call.context call.input.documentId).SameFact fact ∧
      value = candidate.value
  | _ => False

/-- The envelope of the fact has the value, under a key of its household and in its context. -/
def FactRow.Seals (keys : KeyLog keyEncryptionKey hashtextextended) (fact : FactRow)
    (value : Json) : Prop :=
  ∃ key iv, ReturnedTo keys fact.organizationId fact.householdId key ∧
    fact.typedValueEncrypted = encryptEnvelope (.data (stringify value)) key.plaintextKey
      ⟨fact.organizationId, fact.householdId, fact.id, "fact-value:" ++ fact.fieldKey,
        fact.keyVersion⟩ iv

variable {keys : KeyLog keyEncryptionKey hashtextextended} {sha256 : Sha256}
  {localeCompare : String → String → Int}

theorem RecordsCall.Supplies.same {call : RecordsCall} {before after : FactRow} {value : Json}
    (h : call.Supplies before value) (hsame : before.SameFact after) :
    call.Supplies after value := by
  cases call with
  | createFact context input generated => exact ⟨h.1.trans hsame, h.2⟩
  | extract call =>
    obtain ⟨index, candidate, hcandidate, hfact, hvalue⟩ := h
    exact ⟨index, candidate, hcandidate, hfact.trans hsame, hvalue⟩
  | _ => exact h

theorem FactRow.Seals.same {before after : FactRow} {value : Json} (h : before.Seals keys value)
    (hsame : before.SameFact after) : after.Seals keys value := by
  obtain ⟨key, iv, hkey, hsealed⟩ := h
  refine ⟨key, iv, ?_, ?_⟩
  · rw [hsame.organization, hsame.household]
    exact hkey
  · rw [hsame.value, hsealed, hsame.organization, hsame.household, hsame.id, hsame.fieldKey,
      hsame.keyVersion]

/-- What a prepared call supplies is sealed. -/
theorem RecordsCall.Supplies.seals {log : List RecordsEntry} {call : RecordsCall} {fact : FactRow}
    {value : Json} (h : call.Supplies fact value) (hprepared : call.Prepared keys log) :
    fact.Seals keys value := by
  cases call with
  | createFact context input generated =>
    obtain ⟨hfact, rfl⟩ := h
    have hkey : ReturnedTo keys context.organizationId context.householdId
        ⟨generated.keyVersion, generated.plaintextKey⟩ := hprepared
    have hrow : ((input.write context generated).row context).Seals keys input.value :=
      ⟨_, generated.iv, hkey, rfl⟩
    exact hrow.same hfact
  | extract call =>
    obtain ⟨index, candidate, -, hfact, rfl⟩ := h
    have hkey : ReturnedTo keys call.context.organizationId call.context.householdId
        ⟨call.generated.keyVersion, call.generated.plaintextKey⟩ := hprepared
    have hrow : ((candidate.write call.context call.generated.plaintextKey
        call.generated.keyVersion (call.generated.candidates index)).fact call.context
          call.input.documentId).Seals keys candidate.value :=
      ⟨_, (call.generated.candidates index).iv, hkey, rfl⟩
    exact hrow.same hfact
  | _ => exact absurd h id

/-- A value that is sealed in the context of its fact opens. -/
theorem openFactValue_sealed {context : TenantContext} {householdKey : SymmetricKey}
    {fact : FactRow} {value : Json} {iv : Nat}
    (h : fact.typedValueEncrypted = encryptEnvelope (.data (stringify value)) householdKey
      (factValueContext context fact.id fact.fieldKey fact.keyVersion) iv) :
    openFactValue context householdKey fact = .ok value := by
  have hopened : decryptEnvelope fact.typedValueEncrypted householdKey
      (factValueContext context fact.id fact.fieldKey fact.keyVersion) =
      some (.data (stringify value)) := by
    rw [h, decryptEnvelope_encryptEnvelope]
  simp only [openFactValue, hopened, parse_stringify]

/-- A sealed fact opens to its value under the key of its household. -/
theorem openFactValue_seals {init : KeyRows} (hnoKeys : NoKeys init)
    {store : (keyProtocol keyEncryptionKey hashtextextended).System}
    (hstore : Reachable init store) {context : TenantContext} {key : ActiveHouseholdKey}
    (hkey : ReturnedTo store.log context.organizationId context.householdId key) {fact : FactRow}
    {value : Json} (h : fact.Seals store.log value) (hsees : context.sees fact = true) :
    openFactValue context key.plaintextKey fact = .ok value := by
  obtain ⟨horganization, hhousehold⟩ := TenantContext.sees_iff.mp hsees
  have horganization' : fact.organizationId = context.organizationId := horganization
  have hhousehold' : fact.householdId = context.householdId := hhousehold
  obtain ⟨key', iv, hkey', hsealed⟩ := h
  rw [horganization', hhousehold'] at hkey' hsealed
  obtain rfl : key' = key := householdKey_unique hnoKeys hstore hkey' hkey
  exact openFactValue_sealed hsealed

/-- Every fact is stored under its id and has been supplied by a committed call. -/
structure FactsSupplied (log : List RecordsEntry) (σ : Vault) : Prop where
  ids : ∀ k (fact : FactRow), σ.get .facts k = some fact → fact.id = k
  supplied : ∀ k (fact : FactRow), σ.get .facts k = some fact → ∃ call answer value,
    ⟨call, .committed answer⟩ ∈ log ∧ call.Supplies fact value

/-- A row is the fact it was before, or one that the call supplies. -/
def SuppliedBy (call : RecordsCall) (σ : Vault) (k : Identifier) (fact : FactRow) : Prop :=
  (∃ before, σ.get .facts k = some before ∧ before.SameFact fact) ∨
    (fact.id = k ∧ ∃ value, call.Supplies fact value)

section Steps

variable {σ σ' : Vault} {call : RecordsCall}

theorem suppliedBy_same (hrows : SameRows (S := vaultSchema) .facts σ σ') (k : Identifier)
    (fact : FactRow) (hfact : σ'.get .facts k = some fact) : SuppliedBy call σ k fact :=
  Or.inl ⟨fact, (hrows k).symm.trans hfact, .refl fact⟩

/-- An update that keeps the fact. -/
theorem suppliedBy_updates {factId : Identifier} {change : FactRow → Option FactRow}
    (h : Updates .facts factId change σ σ')
    (hkeeps : ∀ before after, change before = some after → before.SameFact after)
    (k : Identifier) (fact : FactRow) (hfact : σ'.get .facts k = some fact) :
    SuppliedBy call σ k fact := by
  obtain ⟨before, after, hbefore, hchange, hreplaces⟩ := h
  rcases hreplaces.get_cases k with ⟨rfl, hafter⟩ | ⟨-, hsame⟩
  · obtain rfl := Option.some.inj (hafter.symm.trans hfact)
    exact Or.inl ⟨before, hbefore, hkeeps before after hchange⟩
  · exact Or.inl ⟨fact, hsame.symm.trans hfact, .refl fact⟩

theorem rejectFactRow_keeps {context : TenantContext} {expectedVersion : Nat}
    (before after : FactRow) (h : rejectFactRow context expectedVersion before = some after) :
    before.SameFact after := by
  rw [rejectFactRow] at h
  split at h
  · obtain rfl := Option.some.inj h
    exact ⟨rfl, rfl, rfl, rfl, rfl, rfl, rfl, rfl, rfl, rfl, rfl⟩
  · exact absurd h (by simp)

/-- An extraction supplies the facts that it inserts. -/
theorem extract_supplies {call : ExtractionCall} {entry : Identifier × FactRow}
    (h : entry ∈ call.facts) :
    entry.2.id = entry.1 ∧ ∃ value, (RecordsCall.extract call).Supplies entry.2 value := by
  obtain ⟨write, hwrite, rfl⟩ := List.mem_map.mp h
  obtain ⟨index, hindex, rfl⟩ := List.mem_mapIdx.mp hwrite
  exact ⟨rfl, _, index, _, List.getElem?_eq_getElem hindex, .refl _, rfl⟩

/-- A committed call on facts makes its change. -/
theorem executes_onFacts {factCall : FactCall} {seen : Vault → Prop} {answer : RecordsResult}
    {ws : List (Write vaultSchema)}
    (h : (onFacts sha256 factCall).Executes seen σ [] (.ok answer) ws) :
    FactChange σ (σ.overlay ws) factCall := by
  obtain ⟨factAnswer, ws', hprogram, -, rfl⟩ := executes_bind_ok.mp h
  exact factProgram_change hprogram

theorem getReportBuildInput_leaves (t : VaultTable) (context : TenantContext)
    (workflowId : Identifier) : (getReportBuildInput context workflowId).Leaves t := by
  refine writes_bind (writes_select _) (fun report => ?_)
  cases report with
  | none => exact writes_rollback _
  | some report =>
    exact writes_bind (writes_select _) (fun _ =>
      writes_bind (writes_select _) (fun _ => writes_commit _))

theorem completeReport_leaves {t : VaultTable} (hreports : t ≠ .reports)
    (hworkflows : t ≠ .workflowRuns) (context : TenantContext) (input : ReportCompletion) :
    (completeReport context input).Leaves t := by
  have hfinish : (finishReportWorkflow context input.workflowId).Leaves t :=
    writes_bind (writes_updateRow (fun _ _ _ => hworkflows)) (fun _ => writes_commit _)
  refine writes_bind (writes_updateRow (fun _ _ _ => hreports)) (fun updated => ?_)
  cases updated with
  | some _ => exact hfinish
  | none =>
    refine writes_bind (writes_select _) (fun existing => ?_)
    cases existing with
    | some _ => exact hfinish
    | none => exact writes_rollback _

/-- A committed call keeps every fact or supplies it. -/
theorem recordsProgram_supplied {seen : Vault → Prop} {answer : RecordsResult}
    {ws : List (Write vaultSchema)}
    (h : (recordsProgram sha256 localeCompare call).Executes seen σ [] (.ok answer) ws)
    (k : Identifier) (fact : FactRow) (hfact : (σ.overlay ws).get .facts k = some fact) :
    SuppliedBy call σ k fact := by
  have hleaves : ∀ {p : Transaction RecordsResult}, p.Leaves VaultTable.facts →
      p.Executes seen σ [] (.ok answer) ws → SuppliedBy call σ k fact :=
    fun hp hexec => suppliedBy_same (hp.sameRows hexec) k fact hfact
  cases call with
  | createFact context input generated =>
    cases executes_onFacts h with
    | created hnew hfacts hevidence =>
      rcases hfacts.get_cases k with ⟨rfl, hafter⟩ | ⟨-, hsame⟩
      · obtain rfl := Option.some.inj (hafter.symm.trans hfact)
        exact Or.inr ⟨rfl, input.value, .refl _, rfl⟩
      · exact Or.inl ⟨fact, hsame.symm.trans hfact, .refl fact⟩
  | extract call =>
    cases executes_onFacts h with
    | extracted hfacts hevidence =>
      rcases hfacts.get_cases k with ⟨entry, hmem, rfl, hnew, hafter⟩ | hsame
      · obtain rfl := Option.some.inj (hafter.symm.trans hfact)
        exact Or.inr (extract_supplies hmem)
      · exact Or.inl ⟨fact, hsame.symm.trans hfact, .refl fact⟩
    | replayed hfacts hevidence => exact suppliedBy_same hfacts k fact hfact
  | confirm context factId expectedVersion confirmedAt =>
    cases executes_onFacts h with
    | confirmed hactor hfacts hevidence =>
      exact suppliedBy_updates hfacts (fun _ _ h => (confirmFactRow_moves h).same) k fact hfact
  | reject context factId expectedVersion =>
    cases executes_onFacts h with
    | rejected hfacts hevidence => exact suppliedBy_updates hfacts rejectFactRow_keeps k fact hfact
  | dispute context factId expectedVersion =>
    cases executes_onFacts h with
    | disputed hfacts hevidence =>
      exact suppliedBy_updates hfacts (fun _ _ h => (disputeFactRow_moves h).same) k fact hfact
  | startReport context key kind generated =>
    exact hleaves (writes_bind (startReport_leaves (t := .facts) (by decide) (by decide) _ _ _ _)
      (fun _ => writes_commit _)) h
  | readBuild context workflowId =>
    exact hleaves (writes_bind (getReportBuildInput_leaves _ _ _) (fun _ => writes_commit _)) h
  | completeReport execution =>
    rw [recordsProgram] at h
    cases hcompletion : execution.completion localeCompare with
    | error message =>
      rw [hcompletion] at h
      exact absurd h.1 (by simp)
    | ok input =>
      rw [hcompletion] at h
      exact hleaves (writes_bind (completeReport_leaves (t := .facts) (by decide) (by decide) _ _)
        (fun _ => writes_commit _)) h
  | other outside => exact hleaves (writes_bind outside.facts (fun _ => writes_commit _)) h

theorem FactsSupplied.step {log : List RecordsEntry} (h : FactsSupplied log σ)
    {answer : RecordsResult}
    (hstep : ∀ k (fact : FactRow), σ'.get .facts k = some fact → SuppliedBy call σ k fact) :
    FactsSupplied (⟨call, .committed answer⟩ :: log) σ' := by
  constructor
  · intro k fact hfact
    rcases hstep k fact hfact with ⟨before, hbefore, hsame⟩ | ⟨hid, -⟩
    · exact hsame.id.trans (h.ids k before hbefore)
    · exact hid
  · intro k fact hfact
    rcases hstep k fact hfact with ⟨before, hbefore, hsame⟩ | ⟨-, value, hvalue⟩
    · obtain ⟨creator, created, value, hmem, hvalue⟩ := h.supplied k before hbefore
      exact ⟨creator, created, value, List.mem_cons_of_mem _ hmem, hvalue.same hsame⟩
    · exact ⟨call, answer, value, List.mem_cons_self, hvalue⟩

theorem FactsSupplied.later {log log' : List RecordsEntry} (h : FactsSupplied log σ)
    (hlog : ∀ entry ∈ log, entry ∈ log') : FactsSupplied log' σ := by
  refine ⟨h.ids, fun k fact hfact => ?_⟩
  obtain ⟨call, answer, value, hmem, hvalue⟩ := h.supplied k fact hfact
  exact ⟨call, answer, value, hlog _ hmem, hvalue⟩

end Steps

variable {init : Vault}

/-- Facts come from the calls that have supplied them, in every interleaving. -/
theorem factsSupplied_invariant (hinit : NoFacts init) :
    (recordsProtocol keys sha256 localeCompare).Invariant init FactsSupplied
      (fun _ _ => True) where
  refl := fun _ => trivial
  trans := fun _ _ => trivial
  start := ⟨fun k _ h => absurd ((hinit k).symm.trans h) (by simp),
    fun k _ h => absurd ((hinit k).symm.trans h) (by simp)⟩
  commit := by
    intro log begun seen σ call answer ws h _ _ _ _ hexec
    exact ⟨h.step (recordsProgram_supplied hexec), trivial⟩
  rollback := by
    intro log begun seen σ call error ws h _ _ _ _ _
    exact h.later (fun _ => List.mem_cons_of_mem _)
  abort := by
    intro log begun σ call h _ _
    exact h.later (fun _ => List.mem_cons_of_mem _)

/-! ## Facts as they were supplied -/

/-- An envelope has one value. -/
theorem FactRow.Seals.unique {fact : FactRow} {value value' : Json} (h : fact.Seals keys value)
    (h' : fact.Seals keys value') : value = value' := by
  obtain ⟨key, iv, -, hsealed⟩ := h
  obtain ⟨key', iv', -, hsealed'⟩ := h'
  have hsame := hsealed.symm.trans hsealed'
  simp only [encryptEnvelope, SymbolicSeal.Term.sealed.injEq, SymbolicSeal.Term.data.injEq] at hsame
  exact stringify_injective hsame.2.2.2

/-- What a call of the log supplies is sealed. -/
theorem supplied_seals {s : (recordsProtocol keys sha256 localeCompare).System}
    (h : Reachable init s) {entry : RecordsEntry} (hmem : entry ∈ s.log) {fact : FactRow}
    {value : Json} (hvalue : entry.request.Supplies fact value) : fact.Seals keys value := by
  obtain ⟨⟨begun, hprepared⟩, -⟩ := h.explained entry hmem
  exact hvalue.seals hprepared

theorem mapM_ok {α β : Type} {f : α → Except String β} {g : α → β} {l : List α}
    (h : ∀ a ∈ l, f a = .ok (g a)) : l.mapM f = .ok (l.map g) := by
  induction l with
  | nil => rfl
  | cons a l ih =>
    obtain ⟨hfirst, hrest⟩ := List.forall_mem_cons.mp h
    rw [List.mapM_cons, hfirst, ih hrest]
    rfl

section Opened

variable {storeInit : KeyRows} {store : (keyProtocol keyEncryptionKey hashtextextended).System}
  {s : (recordsProtocol store.log sha256 localeCompare).System} {context : TenantContext}
  {key : ActiveHouseholdKey}

/-- A committed call has supplied the value of the fact, and no call has supplied another. -/
structure FactGiven (log : List RecordsEntry) (fact : FactRow) (value : Json) : Prop where
  supplied : ∃ call answer, ⟨call, .committed answer⟩ ∈ log ∧ call.Supplies fact value
  only : ∀ entry ∈ log, ∀ other, entry.request.Supplies fact other → other = value

/-- A member opens every fact that was ever committed to the value that was supplied. -/
theorem fact_opens (hnoKeys : NoKeys storeInit) (hstore : Reachable storeInit store)
    (hinit : NoFacts init) (h : Reachable init s)
    (hkey : ReturnedTo store.log context.organizationId context.householdId key)
    {σ₀ : Vault} (hbefore : CommittedBefore init s σ₀) {k : Identifier} {fact : FactRow}
    (hfact : σ₀.get .facts k = some fact) (hsees : context.sees fact = true) :
    ∃ value, openFactValue context key.plaintextKey fact = .ok value ∧
      FactGiven s.log fact value := by
  obtain ⟨s₀, hs₀, hlater, rfl⟩ := hbefore
  obtain ⟨call, answer, value, hmem₀, hvalue⟩ :=
    ((factsSupplied_invariant hinit).reachable hs₀).supplied k fact hfact
  have hmem := hlater.log_suffix.subset hmem₀
  have hseals := supplied_seals h hmem hvalue
  exact ⟨value, openFactValue_seals hnoKeys hstore hkey hseals hsees, ⟨call, answer, hmem, hvalue⟩,
    fun entry hentry other hother => (supplied_seals h hentry hother).unique hseals⟩

/-- The value that a fact opens to, if it opens. -/
def openedValue (context : TenantContext) (key : ActiveHouseholdKey) (fact : FactRow) : Json :=
  (openFactValue context key.plaintextKey fact).toOption.getD .null

/-- What opening a fact gives is what was supplied. -/
theorem openedValue_given (hnoKeys : NoKeys storeInit) (hstore : Reachable storeInit store)
    (hinit : NoFacts init) (h : Reachable init s)
    (hkey : ReturnedTo store.log context.organizationId context.householdId key)
    {σ₀ : Vault} (hbefore : CommittedBefore init s σ₀) {k : Identifier} {fact : FactRow}
    (hfact : σ₀.get .facts k = some fact) (hsees : context.sees fact = true) :
    openFactValue context key.plaintextKey fact = .ok (openedValue context key fact) ∧
      FactGiven s.log fact (openedValue context key fact) := by
  obtain ⟨value, hopened, hgiven⟩ := fact_opens hnoKeys hstore hinit h hkey hbefore hfact hsees
  have hvalue : openedValue context key fact = value := by rw [openedValue, hopened]; rfl
  exact ⟨hvalue ▸ hopened, hvalue ▸ hgiven⟩

/-- However calls on facts interleave with report jobs and with other transactions, listing the
facts of some categories succeeds in every state. It lists the household's facts of these that are
not rejected, each with the value that the call which created it was given. -/
theorem facts_read_back (hnoKeys : NoKeys storeInit) (hstore : Reachable storeInit store)
    (hinit : NoFacts init) (h : Reachable init s)
    (hkey : ReturnedTo store.log context.organizationId context.householdId key)
    (categories : List RecordCategory) :
    ∃ value : FactRow → Json,
      listVaultFacts context key.plaintextKey categories s.committed =
        .ok ((vaultFacts context categories s.committed).map
          (fun fact => fact.listed (value fact))) ∧
      ∀ fact ∈ vaultFacts context categories s.committed, FactGiven s.log fact (value fact) := by
  have hopens : ∀ fact ∈ vaultFacts context categories s.committed,
      openFactValue context key.plaintextKey fact = .ok (openedValue context key fact) ∧
        FactGiven s.log fact (openedValue context key fact) := by
    intro fact hmem
    obtain ⟨⟨k, hfact⟩, hsees, -, -⟩ := mem_vaultFacts.mp hmem
    exact openedValue_given hnoKeys hstore hinit h hkey h.committedBefore hfact hsees
  refine ⟨openedValue context key, mapM_ok (fun fact hmem => ?_),
    fun fact hmem => (hopens fact hmem).2⟩
  rw [(hopens fact hmem).1]
  rfl

end Opened

end Records

/-! ## A run -/

/-- A fact that a member supplies. -/
def exampleSupplied : FactInput where
  fieldKey := "assets.bank"
  value := .str "First Bank"
  sourceType := .manual
  sourceId := "p1"
  evidenceIds := ["e1"]
  confidence := none
  sensitivity := .standard

/-- What the runtime generates for it. -/
def exampleSealing : RecordedGenerated where
  id := "f1"
  workflowId := "w0"
  plaintextKey := "household-key"
  keyVersion := 1
  iv := 0
  now := 0

/-- A caller of the key store. -/
def exampleKeyCaller : KeyCall := ⟨exampleMember, ⟨"key-1", "household-key", 1⟩⟩

/-- A key store that has returned the household's key. -/
theorem exampleKeys :
    ∃ store : (keyProtocol "kek" (fun _ => 0)).System, Reachable Store.empty store ∧
      ReturnedTo store.log "o1" "h1" ⟨1, "household-key"⟩ := by
  have hcalls : (keyProtocol "kek" (fun _ => 0)).Sequential [] Store.empty
      [.getOrCreate exampleKeyCaller] := ⟨trivial, trivial⟩
  obtain ⟨store, hstore, hlog, -⟩ := reachable_sequential hcalls
  refine ⟨store, hstore, exampleKeyCaller, ?_, rfl, rfl⟩
  rw [hlog]
  exact List.mem_of_getElem? (i := 0) rfl

/-- The fact once it is confirmed. -/
def exampleConfirmedFact : FactRow :=
  { (exampleSupplied.write exampleMember exampleSealing).row exampleMember with
    status := .confirmed
    confirmedBy := some "p1"
    confirmedAt := some 10
    version := 2 }

/-- A fact is created and confirmed, and then listed. -/
theorem facts_read_back_example :
    ∃ (store : (keyProtocol "kek" (fun _ => 0)).System)
      (s : (recordsProtocol store.log Sha256.transparent codePointCompare).System)
      (listed : List VaultFact), Reachable Store.empty s ∧
      listVaultFacts exampleMember "household-key" [.assets] s.committed = .ok listed ∧
      ∃ fact ∈ listed, fact.value = .str "First Bank" ∧ fact.status = .confirmed := by
  obtain ⟨store, hstore, hkey⟩ := exampleKeys
  have hcalls : (recordsProtocol store.log Sha256.transparent codePointCompare).Sequential []
      Store.empty [.createFact exampleMember exampleSupplied exampleSealing,
        .confirm exampleMember "f1" 1 10] := ⟨hkey, trivial, trivial⟩
  obtain ⟨s, hs, hlog, hcommitted⟩ := reachable_sequential hcalls
  have hreturned : ReturnedTo store.log exampleMember.organizationId exampleMember.householdId
      ⟨1, "household-key"⟩ := hkey
  obtain ⟨value, hlisted, hgiven⟩ :=
    facts_read_back (fun _ => rfl) hstore noFacts_empty hs hreturned [.assets]
  have hfact : s.committed.get .facts "f1" = some exampleConfirmedFact := by
    rw [hcommitted]
    rfl
  have hselected := mem_vaultFacts.mpr ⟨⟨"f1", hfact⟩, TenantContext.sees_iff.mpr ⟨rfl, rfl⟩,
    by decide, RecordCategory.assets, List.mem_singleton.mpr rfl, by decide⟩
  have hcreated : (⟨.createFact exampleMember exampleSupplied exampleSealing,
      .committed (.fact (.receipt ⟨"f1", "candidate", 1⟩))⟩ : RecordsEntry) ∈ s.log := by
    rw [hlog]
    exact List.mem_of_getElem? (i := 1) rfl
  have hsupplies : (RecordsCall.createFact exampleMember exampleSupplied exampleSealing).Supplies
      exampleConfirmedFact (.str "First Bank") :=
    ⟨⟨rfl, rfl, rfl, rfl, rfl, rfl, rfl, rfl, rfl, rfl, rfl⟩, rfl⟩
  exact ⟨store, s, _, hs, hlisted, _, List.mem_map_of_mem hselected,
    ((hgiven _ hselected).only _ hcreated _ hsupplies).symm, rfl⟩

end LegacyVault
