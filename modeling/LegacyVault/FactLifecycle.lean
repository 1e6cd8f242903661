import LegacyVault.DocumentChanges
import LegacyVault.DomainFacts

/-!
# The lifecycle of a fact

Facts are created one by one or by manual extractions, and confirmed,
rejected and disputed, in any interleaving. Every confirmation and rejection
of the repository is one of the domain, what a fact says never changes, and
its version counts its transitions.
-/

namespace LegacyVault

open JsonText RowTransaction RowTransaction.Program RowTransaction.Protocol Store

/-- A call of the repository that creates or moves facts. -/
inductive FactCall where
  | create (context : TenantContext) (input : CandidateFactWrite)
  | extract (call : ExtractionCall)
  | confirm (context : TenantContext) (factId : Identifier) (expectedVersion : Nat)
    (confirmedAt : Instant)
  | reject (context : TenantContext) (factId : Identifier) (expectedVersion : Nat)
  | dispute (context : TenantContext) (factId : Identifier) (expectedVersion : Nat)

/-- What a call returns. -/
inductive FactAnswer where
  | receipt (receipt : StatusReceipt)
  | answer (answer : Answer Json)

/-- A parameter of a `uuid` column. The empty text is no `uuid`. -/
def bindUuid (text : Identifier) : Transaction Unit :=
  if text = "" then failWith "invalid input syntax for type uuid" else pure ()

/-- The transaction of a call. -/
def factProgram (sha256 : Sha256) : FactCall → Transaction FactAnswer
  | .create context input => do
    let receipt ← createCandidateFact context input
    pure (.receipt receipt)
  | .extract call => do
    let answer ← completeManualDocumentExtraction sha256 call.context call.key call.input
      call.generated call.now
    pure (.answer answer)
  | .confirm context factId expectedVersion confirmedAt => do
    bindUuid context.actorId
    let receipt ← confirmFact context factId expectedVersion confirmedAt
    pure (.receipt receipt)
  | .reject context factId expectedVersion => do
    let receipt ← rejectFact context factId expectedVersion
    pure (.receipt receipt)
  | .dispute context factId expectedVersion => do
    let receipt ← disputeFact context factId expectedVersion
    pure (.receipt receipt)

/-- Facts as a protocol: any call may come at any time. -/
def factProtocol (sha256 : Sha256) : Protocol vaultSchema where
  Request := FactCall
  Error := RepositoryError
  Result := FactAnswer
  program := factProgram sha256
  permitted := fun _ _ => True

/-- How a call ended. -/
abbrev FactEntry := Entry FactCall RepositoryError FactAnswer

/-- The fact a call moves. -/
def FactCall.moves : FactCall → Option Identifier
  | .confirm _ factId _ _ | .reject _ factId _ | .dispute _ factId _ => some factId
  | .create .. | .extract _ => none

/-- The fact a successful call has moved. -/
def FactEntry.moved : FactEntry → Option Identifier
  | ⟨call, .committed _⟩ => call.moves
  | _ => none

/-- The number of successful transitions of a fact. -/
def transitions (k : Identifier) (log : List FactEntry) : Nat :=
  (log.filter (fun entry => FactEntry.moved entry == some k)).length

section Changes

/-- What a committed call does to facts and evidence. -/
inductive FactChange (σ σ' : Vault) : FactCall → Prop
  /-- A candidate is inserted. -/
  | created {context : TenantContext} {input : CandidateFactWrite}
      (hnew : σ.get .facts input.id = none)
      (hfacts : Replaces (S := vaultSchema) .facts input.id (some (input.row context)) σ σ')
      (hevidence : SameRows (S := vaultSchema) .evidence σ σ') :
      FactChange σ σ' (.create context input)
  /-- Evidence and candidates are inserted. -/
  | extracted {call : ExtractionCall}
      (hfacts : Inserts (S := vaultSchema) .facts call.facts σ σ')
      (hevidence : Inserts (S := vaultSchema) .evidence call.evidence σ σ') :
      FactChange σ σ' (.extract call)
  /-- An extraction is answered from its record. -/
  | replayed {call : ExtractionCall} (hfacts : SameRows (S := vaultSchema) .facts σ σ')
      (hevidence : SameRows (S := vaultSchema) .evidence σ σ') : FactChange σ σ' (.extract call)
  /-- A fact is confirmed. -/
  | confirmed {context : TenantContext} {factId : Identifier} {expectedVersion : Nat}
      {confirmedAt : Instant} (hactor : context.actorId ≠ "")
      (hfacts : Updates .facts factId (confirmFactRow context expectedVersion confirmedAt) σ σ')
      (hevidence : SameRows (S := vaultSchema) .evidence σ σ') :
      FactChange σ σ' (.confirm context factId expectedVersion confirmedAt)
  /-- A fact is rejected. -/
  | rejected {context : TenantContext} {factId : Identifier} {expectedVersion : Nat}
      (hfacts : Updates .facts factId (rejectFactRow context expectedVersion) σ σ')
      (hevidence : SameRows (S := vaultSchema) .evidence σ σ') :
      FactChange σ σ' (.reject context factId expectedVersion)
  /-- A fact is disputed. -/
  | disputed {context : TenantContext} {factId : Identifier} {expectedVersion : Nat}
      (hfacts : Updates .facts factId (disputeFactRow context expectedVersion) σ σ')
      (hevidence : SameRows (S := vaultSchema) .evidence σ σ') :
      FactChange σ σ' (.dispute context factId expectedVersion)

variable {sha256 : Sha256} {seen : Vault → Prop} {σ : Vault} {ws ws' : List (Write vaultSchema)}

theorem executes_bindUuid {text : Identifier} {result : Unit}
    (h : (bindUuid text).Executes seen σ ws (.ok result) ws') : text ≠ "" ∧ ws' = ws := by
  rw [bindUuid] at h
  split at h
  case isTrue hempty => exact absurd h.1 (by simp)
  case isFalse htext => exact ⟨htext, h.2⟩

/-- An update of one fact that returns its receipt has updated it, and leaves evidence alone. -/
theorem executes_factUpdate {factId : Identifier} {change : FactRow → Option FactRow}
    {message : String} {receipt : StatusReceipt}
    (h : (updateRow (S := vaultSchema) (ε := RepositoryError) .facts factId change >>=
      fun updated : Option FactRow => match updated with
        | some fact => (pure fact.receipt : Transaction StatusReceipt)
        | none => failWith message).Executes seen σ [] (.ok receipt) ws') :
    Updates .facts factId change σ (σ.overlay ws') ∧
      SameRows (S := vaultSchema) .evidence σ (σ.overlay ws') := by
  obtain ⟨updated, ws₁, hupdate, hrest⟩ := executes_bind_ok.mp h
  cases updated with
  | none => exact absurd hrest.1 (by simp)
  | some after =>
    obtain ⟨-, rfl⟩ := hrest
    exact ⟨Updates.of_executes (SameRows.refl (S := vaultSchema) _ _) hupdate,
      Leaves.sameRows (writes_updateRow (fun _ _ _ => by decide)) hupdate⟩

/-- Every committed call makes its change. -/
theorem factProgram_change {call : FactCall} {answer : FactAnswer}
    (h : (factProgram sha256 call).Executes seen σ [] (.ok answer) ws') :
    FactChange σ (σ.overlay ws') call := by
  cases call with
  | create context input =>
    obtain ⟨receipt, ws₁, hcreate, -, rfl⟩ := executes_bind_ok.mp h
    obtain ⟨fact, ws₂, hinsert, -, rfl⟩ := executes_bind_ok.mp hcreate
    obtain ⟨hnew, -, rfl⟩ := executes_insertRow_ok hinsert
    exact .created hnew (replaces_write σ) (sameRows_write σ (by decide))
  | extract call =>
    obtain ⟨stored, ws₁, hrecord, -, rfl⟩ := executes_bind_ok.mp h
    have hstep : (documentProgram sha256 (.extract call)).Executes seen σ []
        (.ok (.answer stored)) ws' :=
      executes_bind_ok.mpr ⟨stored, ws', hrecord, rfl, rfl⟩
    cases documentChange_extract hstep with
    | extracted workflow hworkflow hawaits hworkflows hevidence hfacts =>
      exact .extracted hfacts hevidence
    | other hdocuments hkeys hworkflows hderivatives hevidence hfacts hreplayed hstep =>
      exact .replayed hfacts hevidence
  | confirm context factId expectedVersion confirmedAt =>
    obtain ⟨bound, ws₁, hbind, hrest⟩ := executes_bind_ok.mp h
    obtain ⟨hactor, rfl⟩ := executes_bindUuid hbind
    obtain ⟨receipt, ws₂, hconfirm, -, rfl⟩ := executes_bind_ok.mp hrest
    obtain ⟨hfacts, hevidence⟩ := executes_factUpdate hconfirm
    exact .confirmed hactor hfacts hevidence
  | reject context factId expectedVersion =>
    obtain ⟨receipt, ws₁, hreject, -, rfl⟩ := executes_bind_ok.mp h
    obtain ⟨hfacts, hevidence⟩ := executes_factUpdate hreject
    exact .rejected hfacts hevidence
  | dispute context factId expectedVersion =>
    obtain ⟨receipt, ws₁, hdispute, -, rfl⟩ := executes_bind_ok.mp h
    obtain ⟨hfacts, hevidence⟩ := executes_factUpdate hdispute
    exact .disputed hfacts hevidence

end Changes

/-! ## One fact -/

/-- A confirmed fact names who confirmed it and when, and only a confirmed one does. It is manual
or backed by evidence. -/
structure FactRow.Consistent (fact : FactRow) : Prop where
  confirmed : fact.status = .confirmed ↔ fact.confirmedBy.isSome ∧ fact.confirmedAt.isSome
  unconfirmed : fact.status ≠ .confirmed → fact.confirmedBy = none ∧ fact.confirmedAt = none
  backed : fact.status = .confirmed → fact.sourceType = .manual ∨ fact.evidenceIds ≠ []

/-- What never changes of a fact. -/
structure FactRow.SameFact (before after : FactRow) : Prop where
  id : after.id = before.id
  organization : after.organizationId = before.organizationId
  household : after.householdId = before.householdId
  fieldKey : after.fieldKey = before.fieldKey
  value : after.typedValueEncrypted = before.typedValueEncrypted
  keyVersion : after.keyVersion = before.keyVersion
  sourceType : after.sourceType = before.sourceType
  sourceId : after.sourceId = before.sourceId
  evidence : after.evidenceIds = before.evidenceIds
  confidence : after.confidence = before.confidence
  sensitivity : after.sensitivity = before.sensitivity

theorem FactRow.SameFact.refl (fact : FactRow) : fact.SameFact fact :=
  ⟨rfl, rfl, rfl, rfl, rfl, rfl, rfl, rfl, rfl, rfl, rfl⟩

/-- The transitions of a fact. -/
def FactStatus.movesTo : FactStatus → FactStatus → Bool
  | .candidate, .confirmed | .disputed, .confirmed | .candidate, .rejected
  | .confirmed, .disputed => true
  | _, _ => false

/-- One transition of a fact. -/
structure FactRow.Moves (before after : FactRow) : Prop where
  same : before.SameFact after
  status : before.status.movesTo after.status = true
  version : after.version = before.version + 1
  consistent : after.Consistent

/-- A fact as it is created. -/
structure FactRow.IsNew (fact : FactRow) (k : Identifier) : Prop where
  id : fact.id = k
  status : fact.status = .candidate
  confirmedBy : fact.confirmedBy = none
  confirmedAt : fact.confirmedAt = none
  version : fact.version = 1

/-- A new fact is consistent. -/
theorem FactRow.IsNew.consistent {fact : FactRow} {k : Identifier} (h : fact.IsNew k) :
    fact.Consistent where
  confirmed := by simp [h.status, h.confirmedBy]
  unconfirmed := fun _ => ⟨h.confirmedBy, h.confirmedAt⟩
  backed := fun hconfirmed => absurd (h.status.symm.trans hconfirmed) (by simp)

theorem confirmFactRow_moves {context : TenantContext} {expectedVersion : Nat}
    {confirmedAt : Instant} {before after : FactRow}
    (h : confirmFactRow context expectedVersion confirmedAt before = some after) :
    before.Moves after := by
  rw [confirmFactRow] at h
  split at h
  case isFalse => exact absurd h (by simp)
  case isTrue hguard =>
    obtain ⟨-, -, hstatus, hevidence⟩ := hguard
    obtain rfl := Option.some.inj h
    refine ⟨⟨rfl, rfl, rfl, rfl, rfl, rfl, rfl, rfl, rfl, rfl, rfl⟩, ?_, rfl, ?_⟩
    · rcases hstatus with hcandidate | hdisputed
      · rw [hcandidate]
        rfl
      · rw [hdisputed]
        rfl
    · exact ⟨⟨fun _ => ⟨rfl, rfl⟩, fun _ => rfl⟩, fun hopen => absurd rfl hopen,
        fun _ => hevidence.imp_right List.ne_nil_of_length_pos⟩

theorem rejectFactRow_moves {context : TenantContext} {expectedVersion : Nat}
    {before after : FactRow} (hconsistent : before.Consistent)
    (h : rejectFactRow context expectedVersion before = some after) : before.Moves after := by
  rw [rejectFactRow] at h
  split at h
  case isFalse => exact absurd h (by simp)
  case isTrue hguard =>
    obtain ⟨-, -, hcandidate⟩ := hguard
    obtain rfl := Option.some.inj h
    obtain ⟨hby, hat⟩ := hconsistent.unconfirmed (by rw [hcandidate]; exact FactStatus.noConfusion)
    refine ⟨⟨rfl, rfl, rfl, rfl, rfl, rfl, rfl, rfl, rfl, rfl, rfl⟩, ?_, rfl, ?_⟩
    · rw [hcandidate]
      rfl
    · exact ⟨by simp [hby], fun _ => ⟨hby, hat⟩, fun hbad => absurd hbad (by simp)⟩

theorem disputeFactRow_moves {context : TenantContext} {expectedVersion : Nat}
    {before after : FactRow} (h : disputeFactRow context expectedVersion before = some after) :
    before.Moves after := by
  rw [disputeFactRow] at h
  split at h
  case isFalse => exact absurd h (by simp)
  case isTrue hguard =>
    obtain ⟨-, -, hconfirmed⟩ := hguard
    obtain rfl := Option.some.inj h
    refine ⟨⟨rfl, rfl, rfl, rfl, rfl, rfl, rfl, rfl, rfl, rfl, rfl⟩, ?_, rfl, ?_⟩
    · rw [hconfirmed]
      rfl
    · exact ⟨by simp, fun _ => ⟨rfl, rfl⟩, fun hbad => absurd hbad (by simp)⟩

theorem confirmFactRow_status {context : TenantContext} {expectedVersion : Nat}
    {confirmedAt : Instant} {before after : FactRow}
    (h : confirmFactRow context expectedVersion confirmedAt before = some after) :
    after.status = .confirmed := by
  rw [confirmFactRow] at h
  split at h
  · exact (congrArg FactRow.status (Option.some.inj h)).symm
  · exact absurd h (by simp)

theorem rejectFactRow_status {context : TenantContext} {expectedVersion : Nat}
    {before after : FactRow} (h : rejectFactRow context expectedVersion before = some after) :
    after.status = .rejected := by
  rw [rejectFactRow] at h
  split at h
  · exact (congrArg FactRow.status (Option.some.inj h)).symm
  · exact absurd h (by simp)

theorem disputeFactRow_status {context : TenantContext} {expectedVersion : Nat}
    {before after : FactRow} (h : disputeFactRow context expectedVersion before = some after) :
    after.status = .disputed := by
  rw [disputeFactRow] at h
  split at h
  · exact (congrArg FactRow.status (Option.some.inj h)).symm
  · exact absurd h (by simp)

/-! ## All facts -/

/-- Facts are stored under their identifiers, are consistent, and have counted their
transitions. -/
structure FactHistory (log : List FactEntry) (σ : Vault) : Prop where
  ids : ∀ k (fact : FactRow), σ.get .facts k = some fact → fact.id = k
  consistent : ∀ k (fact : FactRow), σ.get .facts k = some fact → fact.Consistent
  versions : ∀ k (fact : FactRow), σ.get .facts k = some fact →
    fact.version = transitions k log + 1
  missing : ∀ k, σ.get .facts k = none → transitions k log = 0

/-- There are no facts. -/
def NoFacts (σ : Vault) : Prop := ∀ k, σ.get .facts k = none

theorem noFacts_empty : NoFacts Store.empty := fun _ => rfl

section History

variable {log : List FactEntry} {σ σ' : Vault} {call : FactCall} {k : Identifier}

theorem transitions_committed {answer : FactAnswer} :
    transitions k (⟨call, .committed answer⟩ :: log) =
      if call.moves = some k then transitions k log + 1 else transitions k log := by
  by_cases hmoves : call.moves = some k
  · simp [transitions, FactEntry.moved, hmoves]
  · simp [transitions, FactEntry.moved, hmoves]

theorem transitions_ended {outcome : Outcome RepositoryError FactAnswer}
    (h : ∀ answer, outcome ≠ .committed answer) :
    transitions k (⟨call, outcome⟩ :: log) = transitions k log := by
  cases outcome with
  | committed answer => exact absurd rfl (h answer)
  | rolledBack error => simp [transitions, FactEntry.moved]
  | aborted => simp [transitions, FactEntry.moved]

/-- What a call does to one fact: nothing, its creation, or a transition. -/
theorem FactChange.fact_cases (h : FactChange σ σ' call)
    (hconsistent : ∀ k (fact : FactRow), σ.get .facts k = some fact → fact.Consistent)
    (k : Identifier) :
    (call.moves ≠ some k ∧ σ'.get .facts k = σ.get .facts k) ∨
    (call.moves ≠ some k ∧ σ.get .facts k = none ∧
      ∃ fact : FactRow, σ'.get .facts k = some fact ∧ fact.IsNew k) ∨
    (call.moves = some k ∧ ∃ before after : FactRow, σ.get .facts k = some before ∧
      σ'.get .facts k = some after ∧ before.Moves after) := by
  have hupdate : ∀ {factId : Identifier} {change : FactRow → Option FactRow},
      Updates .facts factId change σ σ' →
      (∀ before after, σ.get .facts factId = some before → change before = some after →
        before.Moves after) →
      (some factId ≠ some k ∧ σ'.get .facts k = σ.get .facts k) ∨
      (some factId = some k ∧ ∃ before after : FactRow, σ.get .facts k = some before ∧
        σ'.get .facts k = some after ∧ before.Moves after) := by
    rintro factId change ⟨before, after, hbefore, hchange, hreplaces⟩ hmoves
    rcases hreplaces.get_cases k with ⟨rfl, hafter⟩ | ⟨hne, hsame⟩
    · exact Or.inr ⟨rfl, before, after, hbefore, hafter, hmoves before after hbefore hchange⟩
    · exact Or.inl ⟨fun heq => hne (Option.some.inj heq).symm, hsame⟩
  cases h with
  | created hnew hfacts hevidence =>
    rcases hfacts.get_cases k with ⟨rfl, hafter⟩ | ⟨hne, hsame⟩
    · exact Or.inr (Or.inl ⟨nofun, hnew, _, hafter, ⟨rfl, rfl, rfl, rfl, rfl⟩⟩)
    · exact Or.inl ⟨nofun, hsame⟩
  | extracted hfacts hevidence =>
    rcases hfacts.get_cases k with ⟨entry, hmem, rfl, hnew, hafter⟩ | hsame
    · obtain ⟨candidate, -, rfl⟩ := List.mem_map.mp hmem
      exact Or.inr (Or.inl ⟨nofun, hnew, _, hafter, ⟨rfl, rfl, rfl, rfl, rfl⟩⟩)
    · exact Or.inl ⟨nofun, hsame⟩
  | replayed hfacts hevidence => exact Or.inl ⟨nofun, hfacts k⟩
  | confirmed hactor hfacts hevidence =>
    rcases hupdate hfacts (fun _ _ _ hchange => confirmFactRow_moves hchange) with hsame | hmoved
    · exact Or.inl hsame
    · exact Or.inr (Or.inr hmoved)
  | rejected hfacts hevidence =>
    rcases hupdate hfacts (fun before _ hbefore hchange =>
      rejectFactRow_moves (hconsistent _ before hbefore) hchange) with hsame | hmoved
    · exact Or.inl hsame
    · exact Or.inr (Or.inr hmoved)
  | disputed hfacts hevidence =>
    rcases hupdate hfacts (fun _ _ _ hchange => disputeFactRow_moves hchange) with hsame | hmoved
    · exact Or.inl hsame
    · exact Or.inr (Or.inr hmoved)

/-- A committed call keeps the history of facts. -/
theorem FactHistory.change {answer : FactAnswer} (h : FactHistory log σ)
    (hchange : FactChange σ σ' call) : FactHistory (⟨call, .committed answer⟩ :: log) σ' := by
  have hcases := hchange.fact_cases h.consistent
  constructor
  · intro k fact hfact
    rcases hcases k with ⟨-, hsame⟩ | ⟨-, -, new, hnew, hisNew⟩ |
      ⟨-, before, after, hbefore, hafter, hmoves⟩
    · exact h.ids k fact (hsame.symm.trans hfact)
    · obtain rfl := Option.some.inj (hnew.symm.trans hfact)
      exact hisNew.id
    · obtain rfl := Option.some.inj (hafter.symm.trans hfact)
      exact hmoves.same.id.trans (h.ids k before hbefore)
  · intro k fact hfact
    rcases hcases k with ⟨-, hsame⟩ | ⟨-, -, new, hnew, hisNew⟩ |
      ⟨-, before, after, hbefore, hafter, hmoves⟩
    · exact h.consistent k fact (hsame.symm.trans hfact)
    · obtain rfl := Option.some.inj (hnew.symm.trans hfact)
      exact hisNew.consistent
    · obtain rfl := Option.some.inj (hafter.symm.trans hfact)
      exact hmoves.consistent
  · intro k fact hfact
    rw [transitions_committed]
    rcases hcases k with ⟨hother, hsame⟩ | ⟨hother, hnone, new, hnew, hisNew⟩ |
      ⟨hthis, before, after, hbefore, hafter, hmoves⟩
    · rw [if_neg hother]
      exact h.versions k fact (hsame.symm.trans hfact)
    · obtain rfl := Option.some.inj (hnew.symm.trans hfact)
      rw [if_neg hother, hisNew.version, h.missing k hnone]
    · obtain rfl := Option.some.inj (hafter.symm.trans hfact)
      rw [if_pos hthis, hmoves.version, h.versions k before hbefore]
  · intro k hnone
    rw [transitions_committed]
    rcases hcases k with ⟨hother, hsame⟩ | ⟨-, -, new, hnew, -⟩ | ⟨-, -, after, -, hafter, -⟩
    · rw [if_neg hother]
      exact h.missing k (hsame.symm.trans hnone)
    · exact absurd (hnew.symm.trans hnone) (by simp)
    · exact absurd (hafter.symm.trans hnone) (by simp)

/-- A call that did not commit keeps the history of facts. -/
theorem FactHistory.ended {outcome : Outcome RepositoryError FactAnswer} (h : FactHistory log σ)
    (hended : ∀ answer, outcome ≠ .committed answer) : FactHistory (⟨call, outcome⟩ :: log) σ where
  ids := h.ids
  consistent := h.consistent
  versions := fun k fact hfact => (h.versions k fact hfact).trans (by rw [transitions_ended hended])
  missing := fun k hnone => (transitions_ended hended).trans (h.missing k hnone)

end History

/-- Facts keep their history in every interleaving. -/
theorem factHistory_invariant (sha256 : Sha256) {init : Vault} (hinit : NoFacts init) :
    (factProtocol sha256).Invariant init FactHistory (fun _ _ => True) where
  refl := fun _ => trivial
  trans := fun _ _ => trivial
  start := ⟨fun k _ h => absurd ((hinit k).symm.trans h) (by simp),
    fun k _ h => absurd ((hinit k).symm.trans h) (by simp),
    fun k _ h => absurd ((hinit k).symm.trans h) (by simp), fun _ _ => rfl⟩
  commit := by
    intro log begun seen σ call answer ws h _ _ _ _ hexec
    exact ⟨h.change (factProgram_change hexec), trivial⟩
  rollback := by
    intro log begun seen σ call error ws h _ _ _ _ _
    exact h.ended (fun _ => nofun)
  abort := by
    intro log begun σ call h _ _
    exact h.ended (fun _ => nofun)

/-- A confirmation or rejection is the domain's. -/
def RefinesDomain (σ σ' : Vault) : FactCall → Prop
  | .confirm context factId _ confirmedAt =>
    ∃ before after : FactRow, σ.get .facts factId = some before ∧
      σ'.get .facts factId = some after ∧ ∀ value,
        Domain.confirmFact (before.candidateFact value) context.actorId (some confirmedAt) =
          .ok (after.candidateFact value)
  | .reject _ factId _ =>
    ∃ before after : FactRow, σ.get .facts factId = some before ∧
      σ'.get .facts factId = some after ∧ ∀ value,
        Domain.rejectFact (before.candidateFact value) = .ok (after.candidateFact value)
  | .create .. | .extract _ | .dispute .. => True

theorem FactChange.refinesDomain {σ σ' : Vault} {call : FactCall} (h : FactChange σ σ' call) :
    RefinesDomain σ σ' call := by
  cases h with
  | confirmed hactor hfacts hevidence =>
    obtain ⟨before, after, hbefore, hchange, hreplaces⟩ := hfacts
    exact ⟨before, after, hbefore, hreplaces.row, Domain.confirmFact_of_row hactor hchange⟩
  | rejected hfacts hevidence =>
    obtain ⟨before, after, hbefore, hchange, hreplaces⟩ := hfacts
    exact ⟨before, after, hbefore, hreplaces.row, Domain.rejectFact_of_row hchange⟩
  | _ => trivial

/-- What becomes of a fact in one step: it says the same, a rejected one stays as it is, and only
a candidate becomes rejected. -/
structure FactRow.Follows (before after : FactRow) : Prop where
  same : before.SameFact after
  terminal : before.status = .rejected → after = before
  rejected : after.status = .rejected → before.status = .rejected ∨ before.status = .candidate

theorem FactRow.Follows.refl (fact : FactRow) : fact.Follows fact :=
  ⟨.refl fact, fun _ => rfl, Or.inl⟩

/-- A transition leaves no rejected fact, and only a candidate is rejected. -/
theorem FactRow.Moves.follows {before after : FactRow} (h : before.Moves after) :
    before.Follows after := by
  have hmoves := h.status
  constructor
  · exact h.same
  · intro hrejected
    rw [hrejected] at hmoves
    exact absurd hmoves (by simp [FactStatus.movesTo])
  · intro hrejected
    rw [hrejected] at hmoves
    cases hstatus : before.status with
    | candidate => exact Or.inr rfl
    | rejected => exact Or.inl rfl
    | confirmed => exact absurd hmoves (by simp [hstatus, FactStatus.movesTo])
    | disputed => exact absurd hmoves (by simp [hstatus, FactStatus.movesTo])

/-- What one step does to facts: those there are follow, and new ones are candidates. -/
structure FactsFollow (σ σ' : Vault) : Prop where
  follow : ∀ k (before : FactRow), σ.get .facts k = some before →
    ∃ after : FactRow, σ'.get .facts k = some after ∧ before.Follows after
  new : ∀ k (after : FactRow), σ.get .facts k = none → σ'.get .facts k = some after →
    after.status = .candidate

theorem FactsFollow.refl (σ : Vault) : FactsFollow σ σ :=
  ⟨fun _ before hbefore => ⟨before, hbefore, .refl before⟩,
    fun _ _ hnone hsome => absurd (hnone.symm.trans hsome) (by simp)⟩

theorem FactChange.factsFollow {log : List FactEntry} {σ σ' : Vault} {call : FactCall}
    (hhistory : FactHistory log σ) (h : FactChange σ σ' call) : FactsFollow σ σ' := by
  have hcases := h.fact_cases hhistory.consistent
  constructor
  · intro k before hbefore
    rcases hcases k with ⟨-, hsame⟩ | ⟨-, hnone, -⟩ | ⟨-, old, after, hold, hafter, hmoves⟩
    · exact ⟨before, hsame.trans hbefore, .refl before⟩
    · exact absurd (hnone.symm.trans hbefore) (by simp)
    · obtain rfl := Option.some.inj (hold.symm.trans hbefore)
      exact ⟨after, hafter, hmoves.follows⟩
  · intro k after hnone hafter
    rcases hcases k with ⟨-, hsame⟩ | ⟨-, -, new, hnew, hisNew⟩ | ⟨-, before, -, hbefore, -⟩
    · exact absurd ((hsame.trans hnone).symm.trans hafter) (by simp)
    · obtain rfl := Option.some.inj (hnew.symm.trans hafter)
      exact hisNew.status
    · exact absurd (hnone.symm.trans hbefore) (by simp)

/-- In every run the repository confirms and rejects as the domain does; what a fact says never
changes, a rejected fact stays as it is and was a candidate; a confirmed fact is manual or has
evidence, exactly the confirmed facts name who confirmed them and when, and versions count
transitions. -/
theorem fact_lifecycle_refines_domain (sha256 : Sha256) {init : Vault} (hinit : NoFacts init)
    {steps : List ((factProtocol sha256).System × (factProtocol sha256).System)}
    {s : (factProtocol sha256).System} (hrun : Run init steps s) :
    (∀ step ∈ steps, ∀ call answer,
      step.2.log = (⟨call, .committed answer⟩ : FactEntry) :: step.1.log →
      RefinesDomain step.1.committed step.2.committed call) ∧
    (∀ step ∈ steps, FactsFollow step.1.committed step.2.committed) ∧
    ∀ k (fact : FactRow), s.committed.get .facts k = some fact →
      fact.Consistent ∧ fact.version - 1 = transitions k s.log := by
  have hinvariant := factHistory_invariant sha256 hinit
  have hcommitted : ∀ step ∈ steps, ∀ call answer,
      step.2.log = (⟨call, .committed answer⟩ : FactEntry) :: step.1.log →
      FactChange step.1.committed step.2.committed call := by
    intro step hmem call answer hlog
    obtain ⟨hreachable, hstep⟩ := hrun.steps step hmem
    obtain ⟨ws, begun, seen, hrows, -, -, -, -, hexec⟩ :=
      hinvariant.committed_step hreachable hstep hlog
    rw [hrows]
    exact factProgram_change hexec
  refine ⟨?_, ?_, ?_⟩
  · intro step hmem call answer hlog
    exact (hcommitted step hmem call answer hlog).refinesDomain
  · intro step hmem
    obtain ⟨hreachable, hstep⟩ := hrun.steps step hmem
    rcases hstep.committed_or_log with hsame | ⟨call, answer, hlog⟩
    · rw [hsame]
      exact .refl _
    · exact (hcommitted step hmem call answer hlog).factsFollow (hinvariant.reachable hreachable)
  · intro k fact hfact
    have hhistory := hinvariant.reachable hrun.reachable
    have hversion := hhistory.versions k fact hfact
    exact ⟨hhistory.consistent k fact hfact, by omega⟩

/-! ## A run -/

/-- A member of a household. -/
def exampleMember : TenantContext := ⟨"o1", "h1", "p1"⟩

/-- A manual fact without evidence. -/
def exampleManual : CandidateFactWrite where
  id := "f1"
  fieldKey := "assets.bank"
  ciphertext := encryptEnvelope (.data "\"First Bank\"") "household-key"
    (factValueContext exampleMember "f1" "assets.bank" 1) 0
  keyVersion := 1
  sourceType := .manual
  sourceId := "p1"
  evidenceIds := []
  confidence := none
  sensitivity := .standard

/-- A fact is created, confirmed, disputed and confirmed again. -/
def exampleFacts : List FactCall :=
  [.create exampleMember exampleManual, .confirm exampleMember "f1" 1 10,
    .dispute exampleMember "f1" 2, .confirm exampleMember "f1" 3 20]

theorem fact_lifecycle_refines_domain_example :
    ∃ (steps : List ((factProtocol Sha256.transparent).System ×
        (factProtocol Sha256.transparent).System))
      (s : (factProtocol Sha256.transparent).System) (fact : FactRow),
      Run Store.empty steps s ∧ s.committed.get .facts "f1" = some fact ∧
      fact.status = .confirmed ∧ fact.version = 4 ∧ fact.version - 1 = transitions "f1" s.log ∧
      ∀ step ∈ steps, FactsFollow step.1.committed step.2.committed := by
  have hpermitted : (factProtocol Sha256.transparent).Sequential [] Store.empty exampleFacts :=
    ⟨trivial, trivial, trivial, trivial, trivial⟩
  have hmeets : (factProtocol Sha256.transparent).MeetsEach (fun _ _ _ => True) [] Store.empty
      exampleFacts := ⟨trivial, trivial, trivial, trivial, trivial⟩
  obtain ⟨steps, s, hrun, -, hcommitted, -⟩ := run_sequential hpermitted hmeets
  have hfact : s.committed.get .facts "f1" = some { exampleManual.row exampleMember with
      status := .confirmed
      confirmedBy := some "p1"
      confirmedAt := some 20
      version := 4 } := by
    rw [hcommitted]
    rfl
  obtain ⟨-, hfollow, hfacts⟩ :=
    fact_lifecycle_refines_domain Sha256.transparent noFacts_empty hrun
  exact ⟨steps, s, _, hrun, hfact, rfl, rfl, (hfacts "f1" _ hfact).2, hfollow⟩

end LegacyVault
