import LegacyVault.ReportableFacts

/-!
# Evidence of confirmed facts

An extraction inserts the evidence its facts list. A created fact lists what
its caller says, and nothing checks that there is such evidence. So the
evidence of confirmed facts exists as long as every confirmation of a
created fact that is not manual finds the evidence its caller listed.
-/

namespace LegacyVault

open JsonText RowTransaction RowTransaction.Program RowTransaction.Protocol Store

/-- The household has evidence with the identifier. -/
def HasEvidence (σ : Vault) (householdId evidenceId : Identifier) : Prop :=
  ∃ evidence : EvidenceRow, σ.get .evidence evidenceId = some evidence ∧
    evidence.id = evidenceId ∧ evidence.householdId = householdId

/-- The household has all evidence a fact lists. -/
def FactRow.EvidenceExists (fact : FactRow) (σ : Vault) : Prop :=
  ∀ evidenceId ∈ fact.evidenceIds, HasEvidence σ fact.householdId evidenceId

/-- The evidence of confirmed facts that are not manual exists, and so does the evidence of the
claims a report makes of them. -/
structure EvidenceLinked (σ : Vault) : Prop where
  facts : ∀ k (fact : FactRow), σ.get .facts k = some fact → fact.status = .confirmed →
    fact.sourceType ≠ .manual → fact.EvidenceExists σ
  claims : ∀ (context : TenantContext) (value : FactRow → Json), ∀ fact ∈ reportFacts context σ,
    fact.sourceType ≠ .manual →
    ∀ claim ∈ createReportClaims [fact.candidateFact (value fact)], claim.status = .confirmed →
      ∀ evidenceId ∈ claim.evidenceIds, HasEvidence σ context.householdId evidenceId

/-- A confirmation of a created fact that is not manual finds all evidence its caller listed. -/
def FindsEvidence (log : List FactEntry) (σ : Vault) : FactCall → Prop
  | .confirm _ factId _ _ => ∀ context input answer,
      (⟨.create context input, .committed answer⟩ : FactEntry) ∈ log → input.id = factId →
      input.sourceType ≠ .manual → (input.row context).EvidenceExists σ
  | .create .. | .extract _ | .reject .. | .dispute .. => True

section Origins

variable {log : List FactEntry} {σ σ' : Vault} {call : FactCall}

/-- The claims follow from the facts. -/
theorem EvidenceLinked.of_facts (h : ∀ k (fact : FactRow), σ.get .facts k = some fact →
    fact.status = .confirmed → fact.sourceType ≠ .manual → fact.EvidenceExists σ) :
    EvidenceLinked σ where
  facts := h
  claims := by
    intro context value fact hlisted hsource claim hclaim hconfirmed evidenceId hevidence
    obtain ⟨⟨k, hfact⟩, hsees, -⟩ := mem_reportFacts.mp hlisted
    obtain rfl := List.mem_singleton.mp hclaim
    have hstatus : fact.status = .confirmed := FactStatus.claimStatus_eq_confirmed.mp hconfirmed
    have hexists := h k fact hfact hstatus hsource evidenceId hevidence
    rw [(TenantContext.sees_iff.mp hsees).2.symm]
    exact hexists

theorem FactRow.SameFact.trans {a b c : FactRow} (h : a.SameFact b) (h' : b.SameFact c) :
    a.SameFact c :=
  ⟨h'.id.trans h.id, h'.organization.trans h.organization, h'.household.trans h.household,
    h'.fieldKey.trans h.fieldKey, h'.value.trans h.value, h'.keyVersion.trans h.keyVersion,
    h'.sourceType.trans h.sourceType, h'.sourceId.trans h.sourceId, h'.evidence.trans h.evidence,
    h'.confidence.trans h.confidence, h'.sensitivity.trans h.sensitivity⟩

/-- Facts that say the same list the same evidence. -/
theorem FactRow.SameFact.evidenceExists {before after : FactRow} (h : before.SameFact after) :
    after.EvidenceExists σ ↔ before.EvidenceExists σ := by
  rw [EvidenceExists, EvidenceExists, h.evidence, h.household]

/-- Evidence stays. -/
theorem FactChange.hasEvidence (h : FactChange σ σ' call) {householdId evidenceId : Identifier}
    (hbefore : HasEvidence σ householdId evidenceId) : HasEvidence σ' householdId evidenceId := by
  obtain ⟨evidence, hrow, hevidence⟩ := hbefore
  have hsame : σ'.get .evidence evidenceId = σ.get .evidence evidenceId := by
    cases h with
    | created hnew hfacts hevidence => exact hevidence evidenceId
    | extracted hfacts hevidence =>
      rcases hevidence.get_cases evidenceId with ⟨entry, hmem, -, hnew, -⟩ | hsame
      · exact absurd (hrow.symm.trans hnew) (by simp)
      · exact hsame
    | replayed hfacts hevidence => exact hevidence evidenceId
    | confirmed hactor hfacts hevidence => exact hevidence evidenceId
    | rejected hfacts hevidence => exact hevidence evidenceId
    | disputed hfacts hevidence => exact hevidence evidenceId
  exact ⟨evidence, hsame.trans hrow, hevidence⟩

theorem FactChange.evidenceExists (h : FactChange σ σ' call) {fact : FactRow}
    (hbefore : fact.EvidenceExists σ) : fact.EvidenceExists σ' :=
  fun evidenceId hmem => h.hasEvidence (hbefore evidenceId hmem)

/-- A new fact was created by its caller, or it was extracted together with its evidence. -/
theorem FactChange.new_fact (h : FactChange σ σ' call) {k : Identifier} {fact : FactRow}
    (hnone : σ.get .facts k = none) (hfact : σ'.get .facts k = some fact) :
    (∃ context input, call = .create context input ∧ input.id = k ∧ fact = input.row context) ∨
      fact.EvidenceExists σ' := by
  have hupdate : ∀ {factId : Identifier} {change : FactRow → Option FactRow},
      Updates .facts factId change σ σ' → False := by
    rintro factId change ⟨before, after, hbefore, -, hreplaces⟩
    rcases hreplaces.get_cases k with ⟨rfl, -⟩ | ⟨-, hsame⟩
    · exact absurd (hnone.symm.trans hbefore) (by simp)
    · exact absurd ((hsame.trans hnone).symm.trans hfact) (by simp)
  cases h with
  | @created context input hnew hfacts hevidence =>
    rcases hfacts.get_cases k with ⟨rfl, hrow⟩ | ⟨-, hsame⟩
    · exact Or.inl ⟨context, input, rfl, rfl, Option.some.inj (hfact.symm.trans hrow)⟩
    · exact absurd ((hsame.trans hnone).symm.trans hfact) (by simp)
  | @extracted extraction hfacts hevidence =>
    rcases hfacts.get_cases k with ⟨entry, hmem, rfl, -, hrow⟩ | hsame
    · obtain ⟨candidate, hcandidate, rfl⟩ := List.mem_map.mp hmem
      obtain rfl := Option.some.inj (hfact.symm.trans hrow)
      refine Or.inr (fun evidenceId hlisted => ?_)
      obtain rfl := List.mem_singleton.mp hlisted
      obtain ⟨-, hinserted⟩ := hevidence.new _ (List.mem_map_of_mem hcandidate)
      exact ⟨_, hinserted, rfl, rfl⟩
    · exact absurd ((hsame.trans hnone).symm.trans hfact) (by simp)
  | replayed hfacts hevidence => exact absurd (((hfacts k).trans hnone).symm.trans hfact) (by simp)
  | confirmed hactor hfacts hevidence => exact (hupdate hfacts).elim
  | rejected hfacts hevidence => exact (hupdate hfacts).elim
  | disputed hfacts hevidence => exact (hupdate hfacts).elim

/-- The fact was created by a caller, and says what it said then. -/
def CreatedAs (log : List FactEntry) (k : Identifier) (fact : FactRow) : Prop :=
  ∃ context input answer, (⟨.create context input, .committed answer⟩ : FactEntry) ∈ log ∧
    input.id = k ∧ (input.row context).SameFact fact

/-- Where facts come from. -/
structure FactOrigins (log : List FactEntry) (σ : Vault) : Prop where
  /-- A fact was created by a caller, or its evidence exists. -/
  facts : ∀ k (fact : FactRow), σ.get .facts k = some fact →
    CreatedAs log k fact ∨ fact.EvidenceExists σ
  /-- A created fact is there, and says what it said then. -/
  creations : ∀ context input answer,
    (⟨.create context input, .committed answer⟩ : FactEntry) ∈ log →
    ∃ fact : FactRow, σ.get .facts input.id = some fact ∧ (input.row context).SameFact fact

theorem CreatedAs.later {entry : FactEntry} {k : Identifier} {before after : FactRow}
    (h : CreatedAs log k before) (hsame : before.SameFact after) :
    CreatedAs (entry :: log) k after := by
  obtain ⟨context, input, answer, hmem, hid, hcreated⟩ := h
  exact ⟨context, input, answer, List.mem_cons_of_mem _ hmem, hid, hcreated.trans hsame⟩

/-- A committed call keeps the origins of facts. -/
theorem FactOrigins.change {answer : FactAnswer} (hhistory : FactHistory log σ)
    (h : FactOrigins log σ) (hchange : FactChange σ σ' call) :
    FactOrigins (⟨call, .committed answer⟩ :: log) σ' := by
  have hfollow := hchange.factsFollow hhistory
  constructor
  · intro k fact hfact
    cases hbefore : σ.get .facts k with
    | none =>
      rcases hchange.new_fact hbefore hfact with ⟨context, input, rfl, hid, rfl⟩ | hexists
      · exact Or.inl ⟨context, input, answer, List.mem_cons_self, hid, .refl _⟩
      · exact Or.inr hexists
    | some before =>
      obtain ⟨after, hafter, hfollows⟩ := hfollow.follow k before hbefore
      obtain rfl := Option.some.inj (hafter.symm.trans hfact)
      rcases h.facts k before hbefore with hcreated | hexists
      · exact Or.inl (hcreated.later hfollows.same)
      · exact Or.inr (hfollows.same.evidenceExists.mpr (hchange.evidenceExists hexists))
  · intro context input answer' hmem
    rcases List.mem_cons.mp hmem with heq | hmem
    · obtain ⟨rfl, -⟩ := Entry.mk.inj heq
      cases hchange with
      | created hnew hfacts hevidence => exact ⟨_, hfacts.row, .refl _⟩
    · obtain ⟨before, hbefore, hcreated⟩ := h.creations context input answer' hmem
      obtain ⟨after, hafter, hfollows⟩ := hfollow.follow _ before hbefore
      exact ⟨after, hafter, hcreated.trans hfollows.same⟩

/-- A call that did not commit keeps the origins of facts. -/
theorem FactOrigins.ended {outcome : Outcome RepositoryError FactAnswer} (h : FactOrigins log σ)
    (hended : ∀ answer, outcome ≠ .committed answer) : FactOrigins (⟨call, outcome⟩ :: log) σ where
  facts := fun k fact hfact => (h.facts k fact hfact).imp_left (fun hcreated => hcreated.later (.refl _))
  creations := by
    intro context input answer hmem
    rcases List.mem_cons.mp hmem with heq | hmem
    · exact absurd (Entry.mk.inj heq).2.symm (hended answer)
    · exact h.creations context input answer hmem

end Origins

/-- Facts keep their origins in every interleaving. -/
theorem factOrigins_invariant (sha256 : Sha256) {init : Vault} (hinit : NoFacts init) :
    (factProtocol sha256).Invariant init (fun log σ => FactHistory log σ ∧ FactOrigins log σ)
      (fun _ _ => True) := by
  refine (factHistory_invariant sha256 hinit).and ?_ ?_ ?_
  · exact ⟨fun k _ h => absurd ((hinit k).symm.trans h) (by simp),
      fun _ _ _ hmem => absurd hmem List.not_mem_nil⟩
  · intro log begun seen σ call answer ws hhistory h _ _ _ _ hexec _ _
    exact h.change hhistory (factProgram_change hexec)
  · intro log σ call outcome hended h
    exact h.ended hended

section Confirmation

variable {log : List FactEntry} {σ σ' : Vault} {call : FactCall}

/-- A call that finds the evidence it needs keeps the evidence of confirmed facts. -/
theorem FindsEvidence.linked (hhistory : FactHistory log σ) (horigins : FactOrigins log σ)
    (hchange : FactChange σ σ' call) (hlinked : EvidenceLinked σ)
    (hfinds : FindsEvidence log σ call) : EvidenceLinked σ' := by
  refine .of_facts (fun k fact hfact hconfirmed hsource => ?_)
  rcases hchange.fact_cases hhistory.consistent k with ⟨-, hsame⟩ | ⟨-, -, new, hnew, hisNew⟩ |
    ⟨hmoves, before, after, hbefore, hafter, hmove⟩
  · exact hchange.evidenceExists
      (hlinked.facts k fact (hsame.symm.trans hfact) hconfirmed hsource)
  · obtain rfl := Option.some.inj (hnew.symm.trans hfact)
    exact absurd (hisNew.status.symm.trans hconfirmed) (by simp)
  · obtain rfl := Option.some.inj (hafter.symm.trans hfact)
    rw [hmove.same.evidenceExists]
    refine hchange.evidenceExists ?_
    rcases horigins.facts k before hbefore with ⟨context, input, answer, hmem, hid, hcreated⟩ | hexists
    · have hinput : input.sourceType ≠ .manual := by
        intro hmanual
        exact hsource (hmove.same.sourceType.trans (hcreated.sourceType.trans hmanual))
      rw [hcreated.evidenceExists]
      cases hchange with
      | confirmed hactor hfacts hevidence =>
        exact hfinds context input answer hmem
          (hid.trans (Option.some.inj hmoves).symm) hinput
      | rejected hfacts hevidence =>
        obtain ⟨old, new, hold, hupdate, hreplaces⟩ := hfacts
        obtain rfl := Option.some.inj hmoves
        obtain rfl := Option.some.inj (hreplaces.row.symm.trans hafter)
        exact absurd ((rejectFactRow_status hupdate).symm.trans hconfirmed) (by simp)
      | disputed hfacts hevidence =>
        obtain ⟨old, new, hold, hupdate, hreplaces⟩ := hfacts
        obtain rfl := Option.some.inj hmoves
        obtain rfl := Option.some.inj (hreplaces.row.symm.trans hafter)
        exact absurd ((disputeFactRow_status hupdate).symm.trans hconfirmed) (by simp)
      | _ => exact absurd hmoves (by simp [FactCall.moves])
    · exact hexists

/-- A call after which the evidence of confirmed facts exists has found the evidence it needs. -/
theorem FindsEvidence.of_linked (horigins : FactOrigins log σ)
    (hchange : FactChange σ σ' call) (hlinked : EvidenceLinked σ') :
    FindsEvidence log σ call := by
  cases hchange with
  | @confirmed context factId expectedVersion confirmedAt hactor hfacts hevidence =>
    rintro caller input answer hmem rfl hsource
    obtain ⟨before, after, hbefore, hupdate, hreplaces⟩ := hfacts
    obtain ⟨fact, hfact, hcreated⟩ := horigins.creations caller input answer hmem
    obtain rfl := Option.some.inj (hfact.symm.trans hbefore)
    have hmoves := confirmFactRow_moves hupdate
    have hafterSource : after.sourceType ≠ .manual := by
      rw [hmoves.same.sourceType, hcreated.sourceType]
      exact hsource
    have hexists := hlinked.facts _ after hreplaces.row (confirmFactRow_status hupdate)
      hafterSource
    rw [hmoves.same.evidenceExists, hcreated.evidenceExists] at hexists
    intro evidenceId hlisted
    obtain ⟨evidence, hrow, hhousehold⟩ := hexists evidenceId hlisted
    exact ⟨evidence, (hevidence evidenceId).symm.trans hrow, hhousehold⟩
  | _ => trivial

end Confirmation

/-- In a run the evidence of confirmed facts exists in every state if and only if every
confirmation of a created fact that is not manual finds all evidence its caller listed. -/
theorem evidence_linked_iff (sha256 : Sha256) {init : Vault} (hinit : NoFacts init)
    {steps : List ((factProtocol sha256).System × (factProtocol sha256).System)}
    {s : (factProtocol sha256).System} (hrun : Run init steps s) :
    (EvidenceLinked init ∧ ∀ step ∈ steps, EvidenceLinked step.2.committed) ↔
      ∀ step ∈ steps, ∀ call answer,
        step.2.log = (⟨call, .committed answer⟩ : FactEntry) :: step.1.log →
        FindsEvidence step.1.log step.1.committed call := by
  have hinvariant := factOrigins_invariant sha256 hinit
  have hchanged : ∀ step ∈ steps, ∀ call answer,
      step.2.log = (⟨call, .committed answer⟩ : FactEntry) :: step.1.log →
      FactChange step.1.committed step.2.committed call := by
    intro step hmem call answer hlog
    obtain ⟨hreachable, hstep⟩ := hrun.steps step hmem
    obtain ⟨ws, begun, seen, hrows, -, -, -, -, hexec⟩ :=
      hinvariant.committed_step hreachable hstep hlog
    rw [hrows]
    exact factProgram_change hexec
  constructor
  · rintro ⟨-, hlinked⟩ step hmem call answer hlog
    obtain ⟨-, horigins⟩ := hinvariant.reachable (hrun.steps step hmem).1
    exact .of_linked horigins (hchanged step hmem call answer hlog) (hlinked step hmem)
  · intro hfinds
    have hinitial : EvidenceLinked init :=
      .of_facts (fun k _ hfact => absurd ((hinit k).symm.trans hfact) (by simp))
    refine ⟨hinitial, ?_⟩
    suffices hall : EvidenceLinked s.committed ∧ ∀ step ∈ steps, EvidenceLinked step.2.committed from
      hall.2
    clear hchanged
    induction hrun with
    | initial => exact ⟨hinitial, fun step hmem => absurd hmem List.not_mem_nil⟩
    | @step steps s s' hrun hstep ih =>
      obtain ⟨hlinked, hsteps⟩ := ih (fun step hmem => hfinds step (List.mem_cons_of_mem _ hmem))
      have hlinked' : EvidenceLinked s'.committed := by
        rcases hstep.committed_or_log with hsame | ⟨call, answer, hlog⟩
        · rw [hsame]
          exact hlinked
        · obtain ⟨hhistory, horigins⟩ := hinvariant.reachable hrun.reachable
          obtain ⟨ws, begun, seen, hrows, -, -, -, -, hexec⟩ :=
            hinvariant.committed_step hrun.reachable hstep hlog
          rw [hrows]
          exact (hfinds _ List.mem_cons_self call answer hlog).linked hhistory horigins
            (factProgram_change hexec) hlinked
      refine ⟨hlinked', fun step hmem => ?_⟩
      rcases List.mem_cons.mp hmem with rfl | hmem
      · exact hlinked'
      · exact hsteps step hmem

/-- A vault in which a document waits for its manual extraction. -/
def exampleClassified : Vault :=
  ((Store.empty : Vault).set .documents "d1" (some
    { id := "d1", organizationId := "o1", householdId := "h1", objectKey := "quarantine/k1"
      originalSha256 := "bytes", mediaType := "application/pdf", status := .clean
      encryptionKeyVersion := 1, wrappedDataKey := none, maximumBytes := 100
      ciphertextSha256 := none, uploadedAt := none, processedAt := none, lastErrorClass := none
      deleteOriginalAfterProcessing := false, originalDeletedAt := none, version := 3 })).set
    .workflowRuns "w1" (some
    { id := "w1", organizationId := "o1", householdId := "h1", kind := "document"
      idempotencyKey := "document:d1", status := .running, completedSteps := ["scan", "ocr"]
      nextStep := some "classification", lastErrorClass := none, subjectType := some "Document"
      subjectId := some "d1", version := 4 })

/-- The extraction of one candidate from it. -/
def exampleExtracted : ExtractionCall where
  context := exampleMember
  key := "extract-key"
  input := ⟨"d1", "w1", 4, [⟨"assets.bank", .str "First Bank", "page 1", .standard, none⟩]⟩
  generated := ⟨"household-key", 1, 3, fun _ => ⟨"f1", "e1", 4⟩⟩
  now := 3

set_option maxRecDepth 100000 in
theorem evidence_linked_iff_example :
    ∃ (steps : List ((factProtocol Sha256.transparent).System ×
        (factProtocol Sha256.transparent).System))
      (s : (factProtocol Sha256.transparent).System) (fact : FactRow),
      Run exampleClassified steps s ∧ s.committed.get .facts "f1" = some fact ∧
      fact.status = .confirmed ∧ fact.sourceType = .document ∧ fact.evidenceIds = ["e1"] ∧
      EvidenceLinked exampleClassified ∧ ∀ step ∈ steps, EvidenceLinked step.2.committed := by
  have hpermitted : (factProtocol Sha256.transparent).Sequential [] exampleClassified
      [.extract exampleExtracted, .confirm exampleMember "f1" 1 10] := ⟨trivial, trivial, trivial⟩
  have hmeets : (factProtocol Sha256.transparent).MeetsEach FindsEvidence [] exampleClassified
      [.extract exampleExtracted, .confirm exampleMember "f1" 1 10] := by
    refine ⟨trivial, fun context input answer hmem => ?_, trivial⟩
    have hentry := (Entry.mk.inj (List.mem_singleton.mp hmem)).1
    exact absurd hentry (by simp)
  obtain ⟨steps, s, hrun, -, hcommitted, hok⟩ := run_sequential hpermitted hmeets
  have hinit : NoFacts exampleClassified := fun _ => rfl
  have hfact : s.committed.get .facts "f1" = some
      { ManualCandidateWrite.fact (ManualCandidate.write ⟨"assets.bank", .str "First Bank", "page 1",
          .standard, none⟩ exampleMember "household-key" 1 ⟨"f1", "e1", 4⟩) exampleMember "d1" with
        status := .confirmed
        confirmedBy := some "p1"
        confirmedAt := some 10
        version := 2 } := by
    rw [hcommitted]
    rfl
  have hlinked := (evidence_linked_iff Sha256.transparent hinit hrun).mpr
    (fun step hmem call answer hlog => hok step hmem call answer hlog)
  exact ⟨steps, s, _, hrun, hfact, rfl, rfl, rfl, hlinked⟩

/-- A fact with the evidence its caller listed. -/
def exampleUnlinked : CandidateFactWrite :=
  { exampleManual with sourceType := .professional, evidenceIds := ["e9"] }

/-- A professional's fact is created with the identifier of no evidence, and confirmed. -/
theorem evidence_unlinked :
    ∃ (s : (factProtocol Sha256.transparent).System) (fact : FactRow),
      Reachable Store.empty s ∧ s.committed.get .facts "f1" = some fact ∧
      fact.status = .confirmed ∧ fact.sourceType = .professional ∧ "e9" ∈ fact.evidenceIds ∧
      s.committed.get .evidence "e9" = none ∧ ¬ EvidenceLinked s.committed := by
  have hpermitted : (factProtocol Sha256.transparent).Sequential [] Store.empty
      [.create exampleMember exampleUnlinked, .confirm exampleMember "f1" 1 10] :=
    ⟨trivial, trivial, trivial⟩
  obtain ⟨s, hs, -, hcommitted⟩ := reachable_sequential hpermitted
  have hfact : s.committed.get .facts "f1" = some { exampleUnlinked.row exampleMember with
      status := .confirmed
      confirmedBy := some "p1"
      confirmedAt := some 10
      version := 2 } := by
    rw [hcommitted]
    rfl
  have hmissing : s.committed.get .evidence "e9" = none := by
    rw [hcommitted]
    rfl
  have hlisted : "e9" ∈ (exampleUnlinked.row exampleMember).evidenceIds := List.mem_singleton_self _
  refine ⟨s, _, hs, hfact, rfl, rfl, hlisted, hmissing, fun hlinked => ?_⟩
  obtain ⟨evidence, hrow, -⟩ := hlinked.facts "f1" _ hfact rfl (by decide) "e9" hlisted
  exact absurd (hmissing.symm.trans hrow) (by simp)

end LegacyVault
