import LegacyVault.ConfinedCalls
import LegacyVault.FactLifecycle
import LegacyVault.RouteEntitlements

/-!
# Access confinement

The vault routes handle any number of requests over one vault, in any
interleaving, while all else that goes on leaves facts as they are.

A fact keeps its field key, and the field key of every fact begins with a
category. So the category that a request has checked is that of the facts it
lists, creates or moves on, whatever happens between the check and the use.
-/

namespace LegacyVault

open JsonText RowTransaction RowTransaction.Program Store Handlers Handler

/-! ## The service -/

/-- Facts stay as they are. All statements that write facts are those of the operations of the
vault routes. -/
abbrev KeepsFacts (σ σ' : Vault) : Prop := SameRows (S := vaultSchema) .facts σ σ'

/-- The vault routes over one vault. -/
def vaultService (sha256 : Sha256) (times : Instant → Prop) (runtime : RouteRuntime) :
    Service vaultInterface Vault ApiProblem VaultReply where
  Request := VaultRequest
  handler := VaultRequest.respond runtime
  world := vaultWorld sha256 times (· = ·)
  works := KeepsFacts

/-! ## What operations do to facts -/

/-- What an operation does to one fact: nothing, or it creates it, or it moves it on. -/
inductive FactStep (created : List String) (moved : Option Identifier) (σ σ' : Vault)
    (k : Identifier) : Prop
  | same (hsame : σ'.get .facts k = σ.get .facts k)
  | creates {fact : FactRow} (hnew : σ.get .facts k = none) (hfact : σ'.get .facts k = some fact)
      (hid : fact.id = k) (hkey : fact.fieldKey ∈ created)
  | moves {before after : FactRow} (hmoved : moved = some k)
      (hbefore : σ.get .facts k = some before) (hafter : σ'.get .facts k = some after)
      (hsame : before.SameFact after)

section Effects

variable {sha256 : Sha256} {context : TenantContext} {now : Instant} {σ σ' : Vault}

theorem facts_ne_idempotencyRecords : VaultTable.facts ≠ .idempotencyRecords := by decide

/-- The field key that is read is that of a fact. -/
theorem getFactFieldKey_transacts {factId : Identifier} {answer : Except RouteError String}
    (h : Transacts (LegacyVault.getFactFieldKey context factId) id σ answer σ') : σ' = σ ∧
      ∀ fieldKey, answer = .ok fieldKey →
        ∃ fact : FactRow, σ.get .facts factId = some fact ∧ fact.fieldKey = fieldKey := by
  rcases h.executes with ⟨rfl, thrown, rfl⟩ | ⟨fieldKey, ws', hexec, hσ', rfl⟩
  · exact ⟨rfl, by simp⟩
  · obtain ⟨found, ws₁, hselect, hfound⟩ := executes_bind_ok.mp hexec
    obtain ⟨σ₀, rfl, hfact, rfl⟩ := executes_select.mp hselect
    cases found with
    | none => exact absurd hfound.1 (by simp)
    | some fact =>
      obtain ⟨hkey, rfl⟩ := hfound
      refine ⟨hσ', fun other hother => ?_⟩
      obtain rfl := Except.ok.inj hother
      exact ⟨fact, (Option.filter_eq_some_iff.mp (Except.ok.inj hfact).symm).1,
        (Except.ok.inj hkey).symm⟩

/-- A fact that is rejected says the same as before. -/
theorem rejectFactRow_same {expectedVersion : Nat} {before after : FactRow}
    (h : rejectFactRow context expectedVersion before = some after) : before.SameFact after := by
  rw [rejectFactRow] at h
  split at h
  case isFalse => exact absurd h (by simp)
  case isTrue =>
    obtain rfl := Option.some.inj h
    exact ⟨rfl, rfl, rfl, rfl, rfl, rfl, rfl, rfl, rfl, rfl, rfl⟩

/-- An update of one fact. -/
theorem Updates.factStep {created : List String} {factId k : Identifier}
    {change : FactRow → Option FactRow} (h : Updates .facts factId change σ σ')
    (hsame : ∀ before after, change before = some after → before.SameFact after) :
    FactStep created (some factId) σ σ' k := by
  obtain ⟨before, after, hbefore, hchange, hreplaces⟩ := h
  rcases hreplaces.get_cases k with ⟨rfl, hafter⟩ | ⟨-, hother⟩
  · exact .moves rfl hbefore hafter (hsame before after hchange)
  · exact .same hother

/-- A transaction on one fact, if it commits. -/
theorem Transacts.factStep {created : List String} {factId k : Identifier} {message : String}
    {change : FactRow → Option FactRow} {answer : Except RouteError Json}
    (h : Transacts (updateRow (S := vaultSchema) (ε := RepositoryError) .facts factId change >>=
      fun updated : Option FactRow => match updated with
        | some fact => (pure fact.receipt : Transaction StatusReceipt)
        | none => failWith message) StatusReceipt.toJson σ answer σ')
    (hsame : ∀ before after, change before = some after → before.SameFact after) :
    FactStep created (some factId) σ σ' k := by
  rcases h.executes with ⟨rfl, -⟩ | ⟨receipt, ws', hexec, rfl, -⟩
  · exact .same rfl
  · exact (executes_factUpdate hexec).1.factStep hsame

/-- A fact of an extraction has the field key of a candidate. -/
theorem extracted_fieldKey {call : ExtractionCall} {entry : Identifier × FactRow}
    (hentry : entry ∈ call.facts) : entry.2.id = entry.1 ∧
      entry.2.fieldKey ∈ call.input.candidates.map ManualCandidate.fieldKey := by
  obtain ⟨write, hwrite, rfl⟩ := List.mem_map.mp hentry
  obtain ⟨index, hindex, rfl⟩ := List.mem_mapIdx.mp hwrite
  exact ⟨rfl, List.mem_map_of_mem (List.getElem_mem hindex)⟩

/-- What an operation does to facts. -/
theorem VaultOperation.Effect.factStep {operation : VaultOperation}
    {answer : Except RouteError operation.Result}
    (heffect : operation.Effect sha256 context now σ answer σ') (k : Identifier) :
    FactStep operation.createdKeys operation.movedFact σ σ' k := by
  cases operation with
  | confirmFact factId expectedVersion confirmedAt =>
    exact Transacts.factStep heffect (fun _ _ hchange => (confirmFactRow_moves hchange).same)
  | rejectFact factId expectedVersion =>
    exact Transacts.factStep heffect (fun _ _ hchange => rejectFactRow_same hchange)
  | disputeFact factId expectedVersion =>
    exact Transacts.factStep heffect (fun _ _ hchange => (disputeFactRow_moves hchange).same)
  | createCandidateFact candidate =>
    rcases Transacts.executes heffect with ⟨rfl, -⟩ | ⟨receipt, ws', hexec, rfl, -⟩
    · exact .same rfl
    · have hcall : (factProgram sha256 (.create context candidate)).Executes (· = σ) σ []
          (.ok (.receipt receipt)) ws' := executes_bind_ok.mpr ⟨receipt, ws', hexec, rfl, rfl⟩
      cases factProgram_change hcall with
      | created hnew hfacts hevidence =>
        rcases hfacts.get_cases k with ⟨rfl, hafter⟩ | ⟨-, hother⟩
        · exact .creates hnew hafter rfl List.mem_cons_self
        · exact .same hother
  | completeManualDocumentExtraction key input =>
    obtain ⟨generated, heffect⟩ := heffect
    rcases heffect.executes with ⟨rfl, -⟩ | ⟨stored, ws', hexec, rfl, -⟩
    · exact .same rfl
    · have hcall : (factProgram sha256 (.extract ⟨context, key, input, generated, now⟩)).Executes
          (· = σ) σ [] (.ok (.answer stored)) ws' :=
        executes_bind_ok.mpr ⟨stored, ws', hexec, rfl, rfl⟩
      cases factProgram_change hcall with
      | extracted hfacts hevidence =>
        rcases hfacts.get_cases k with ⟨entry, hentry, rfl, hnew, hafter⟩ | hother
        · obtain ⟨hid, hkey⟩ := extracted_fieldKey hentry
          exact .creates hnew hafter hid hkey
        · exact .same hother
      | replayed hfacts hevidence => exact .same (hfacts k)
  | reserveIdempotency key request =>
    exact .same (Transacts.sameRows heffect
      (reserveIdempotency_leaves facts_ne_idempotencyRecords _ _ _ _ _) k)
  | completeIdempotency key statusCode body =>
    exact .same (Transacts.sameRows heffect
      (completeIdempotency_leaves facts_ne_idempotencyRecords _ _ _ _) k)
  | getFactFieldKey factId => exact .same (by rw [(getFactFieldKey_transacts heffect).1])
  | listVaultFacts categories => exact .same (by rw [heffect.1])
  | getSubscription => exact .same (by rw [heffect.1])
  | _ => exact .same (by rw [show σ' = σ from heffect])

end Effects

/-! ## Facts keep their field keys -/

/-- Facts are stored under their identifiers, and their field keys begin with a category. -/
def FactsKeyed (σ : Vault) : Prop :=
  ∀ k (fact : FactRow), σ.get .facts k = some fact →
    fact.id = k ∧ ∃ category, recordCategoryFromFieldKey fact.fieldKey = some category

/-- Every fact is there later, with the same field key. -/
def FactsStay (σ σ' : Vault) : Prop :=
  ∀ k (before : FactRow), σ.get .facts k = some before →
    ∃ after : FactRow, σ'.get .facts k = some after ∧ after.fieldKey = before.fieldKey

theorem FactsKeyed.of_noFacts {σ : Vault} (h : NoFacts σ) : FactsKeyed σ :=
  fun k _ hfact => absurd ((h k).symm.trans hfact) (by simp)

/-- The category of a field key that begins with it. -/
theorem recordCategory_of_prefix {category : RecordCategory} {fieldKey : String}
    (h : category.text = fieldKeyPrefix fieldKey) :
    recordCategoryFromFieldKey fieldKey = some category := by
  rw [recordCategoryFromFieldKey, ← h]
  cases category <;> rfl

/-- The prefix of a field key that has a category. -/
theorem prefix_of_recordCategory {category : RecordCategory} {fieldKey : String}
    (h : recordCategoryFromFieldKey fieldKey = some category) :
    category.text = fieldKeyPrefix fieldKey := by
  have hfound := List.find?_some h
  simpa using hfound

section Service

variable {sha256 : Sha256} {times : Instant → Prop} {runtime : RouteRuntime} {init : Vault}

/-- An exchange leaves a fact as it is, or it performs an operation that does something to it. -/
theorem factStep_of_exchange {σ σ' : Vault} {call : VaultCall} {answer : call.Answer}
    (hanswer : vaultWorld sha256 times (· = ·) σ call answer σ') (k : Identifier) :
    σ'.get .facts k = σ.get .facts k ∨ ∃ identity operation, call = .perform identity operation ∧
      FactStep operation.createdKeys operation.movedFact σ σ' k := by
  cases call with
  | resolveIdentity => exact Or.inl (by rw [show σ = σ' from hanswer])
  | currentTime => exact Or.inl (by rw [show σ = σ' from hanswer.2])
  | authorizeIdentity => exact Or.inl (by rw [show σ = σ' from hanswer])
  | perform identity operation =>
    obtain ⟨now, σ₁, σ₂, -, rfl, heffect, rfl⟩ := hanswer
    exact Or.inr ⟨identity, operation, rfl, heffect.factStep k⟩

/-- The requests rely on the field keys of facts. -/
theorem vaultService_relies (hinit : FactsKeyed init) :
    Service.Relies (vaultService sha256 times runtime) init ConfinedCall FactsKeyed FactsStay where
  refl := fun σ k before hbefore => ⟨before, hbefore, rfl⟩
  trans := by
    intro σ₁ σ₂ σ₃ h h' k before hbefore
    obtain ⟨between, hbetween, hkey⟩ := h k before hbefore
    obtain ⟨after, hafter, hkey'⟩ := h' k between hbetween
    exact ⟨after, hafter, hkey'.trans hkey⟩
  start := hinit
  works := by
    intro σ σ' hkeyed hworks
    refine ⟨fun k fact hfact => hkeyed k fact ((hworks k).symm.trans hfact), fun k before hbefore =>
      ⟨before, (hworks k).trans hbefore, rfl⟩⟩
  exchange := by
    intro past σ call answer σ' hkeyed _ hpermitted hanswer
    constructor
    · intro k fact hfact
      rcases factStep_of_exchange hanswer k with hsame | ⟨identity, operation, rfl, hstep⟩
      · exact hkeyed k fact (hsame.symm.trans hfact)
      · cases hstep with
        | same hsame => exact hkeyed k fact (hsame.symm.trans hfact)
        | creates hnew hcreated hid hkey =>
          obtain rfl := Option.some.inj (hcreated.symm.trans hfact)
          obtain ⟨category, hcategory, -⟩ := hpermitted.1 _ hkey
          exact ⟨hid, category, hcategory⟩
        | moves hmoved hbefore hafter hsame =>
          obtain rfl := Option.some.inj (hafter.symm.trans hfact)
          obtain ⟨hid, category, hcategory⟩ := hkeyed k _ hbefore
          exact ⟨hsame.id.trans hid, category, by rw [hsame.fieldKey]; exact hcategory⟩
    · intro k before hbefore
      rcases factStep_of_exchange hanswer k with hsame | ⟨identity, operation, rfl, hstep⟩
      · exact ⟨before, hsame.trans hbefore, rfl⟩
      · cases hstep with
        | same hsame => exact ⟨before, hsame.trans hbefore, rfl⟩
        | creates hnew hcreated hid hkey => exact absurd (hnew.symm.trans hbefore) (by simp)
        | moves hmoved hold hafter hsame =>
          obtain rfl := Option.some.inj (hold.symm.trans hbefore)
          exact ⟨_, hafter, hsame.fieldKey⟩

/-! ## Confinement -/

/-- Facts are listed, created and moved on, and documents, reports and exports are revealed, after
their categories were allowed, and a list over all categories is complete. -/
structure AccessConfined (s : (vaultService sha256 times runtime).State) : Prop where
  /-- The stored category of every listed fact was allowed to be read. -/
  lists : ∀ id category input past reply facts,
    s.requests id = some ⟨⟨.getFacts category, input⟩, past, .done reply⟩ →
    reply.body = .facts facts → ∃ identity, ∀ fact ∈ facts, ∃ (row : FactRow) (listed : _),
      s.store.get .facts fact.id = some row ∧ row.fieldKey = fact.fieldKey ∧
        recordCategoryFromFieldKey row.fieldKey = some listed ∧ Allows past identity listed .read
  /-- When a fact changes, the request that changed it was allowed to do so for the category that
  is stored. -/
  changes : ∀ s', Service.Step s s' → ∀ k, s'.store.get .facts k ≠ s.store.get .facts k →
    ∃ id progress identity operation answer, ∃ (row : FactRow) (category : _),
      s'.requests id = some progress ∧
      ⟨s.store, .perform identity operation, answer, s'.store⟩ ∈ progress.past ∧
      s'.store.get .facts k = some row ∧
      (∀ before : FactRow, s.store.get .facts k = some before → before.fieldKey = row.fieldKey) ∧
      recordCategoryFromFieldKey row.fieldKey = some category ∧
      Allows progress.past identity category
        (if (s.store.get .facts k).isSome then .approve else .create)
  /-- What an operation reads was allowed before. -/
  reads : ∀ id progress before exchange after identity operation,
    s.requests id = some progress → progress.past = before ++ exchange :: after →
    exchange.call = .perform identity operation →
    ∀ category ∈ operation.readCategories.1,
      Allows before identity category operation.readCategories.2
  /-- All categories were allowed before documents, reports and exports are replied. -/
  reveals : ∀ id request past reply action,
    s.requests id = some ⟨request, past, .done reply⟩ → request.route.reveals = some action →
    ∃ identity, ∀ category, Allows past identity category action
  /-- A list over all categories has all facts of the household that are not rejected when it is
  read. -/
  complete : ∀ id category input past reply,
    s.requests id = some ⟨⟨.getFacts category, input⟩, past, .done reply⟩ →
    listedCategories category = .ok allRecordCategories →
    ∃ identity facts σ, reply.body = .facts facts ∧
      ⟨σ, .perform identity (.listVaultFacts allRecordCategories), .ok facts, σ⟩ ∈ past ∧
      ∀ k (row : FactRow), σ.get .facts k = some row → identity.context.sees row = true →
        row.status ≠ .rejected → ∃ fact ∈ facts, fact.id = row.id ∧
          fact.fieldKey = row.fieldKey ∧ fact.status = row.status ∧ fact.version = row.version

variable {s s' : (vaultService sha256 times runtime).State}

/-- The vault routes make confined calls only. -/
theorem vaultService_permits (hauthorizes : runtime.configured .authorizeIdentity = true) :
    (vaultService sha256 times runtime).Permits ConfinedCall
      (fun request reply past => Replies request.route reply past) :=
  respond_confined hauthorizes

/-- What a list of facts has read. -/
theorem lists_read (hauthorizes : runtime.configured .authorizeIdentity = true)
    (hinit : FactsKeyed init) (hreachable : Service.Reachable init s) {id : Nat}
    {category : Option String} {input : RequestInput}
    {past : List (Exchange vaultInterface Vault)} {reply : VaultReply}
    (hdone : s.requests id = some ⟨⟨.getFacts category, input⟩, past, .done reply⟩) :
    ∃ categories identity facts σ, ∃ value : FactRow → Json,
      listedCategories category = .ok categories ∧ reply.body = .facts facts ∧
      ⟨σ, .perform identity (.listVaultFacts categories), .ok facts, σ⟩ ∈ past ∧
      facts = (vaultFacts identity.context categories σ).map (fun row => row.listed (value row)) ∧
      (∀ listed ∈ categories, Allows past identity listed .read) ∧
      FactsKeyed σ ∧ FactsStay σ s.store := by
  have hpermits := @vaultService_permits sha256 times runtime hauthorizes
  obtain ⟨categories, identity, facts, hcategories, hbody, _, _, hlisted⟩ :=
    (hreachable.result hpermits hdone).lists category rfl
  obtain ⟨before, after, hmem⟩ := mem_of_event hlisted
  obtain ⟨hanswer, hkeyed, hstay⟩ :=
    (hreachable.relies hpermits (vaultService_relies hinit)).2 id _ hdone _ hmem
  obtain ⟨now, σ₁, σ₂, -, rfl, ⟨rfl, hfacts⟩, rfl⟩ := hanswer
  obtain ⟨value, hvalue⟩ := hfacts facts rfl
  obtain ⟨earlier, later, hpast⟩ := List.append_of_mem hmem
  have hcall : ConfinedCall (earlier.map Exchange.event)
      ⟨(), .perform identity (.listVaultFacts categories), .ok facts, ()⟩ :=
    (hreachable.permits hpermits hdone).1 earlier _ later hpast
  refine ⟨categories, identity, facts, _, value, hcategories, hbody, hmem, hvalue,
    fun listed hlisted => ?_, hkeyed, hstay⟩
  have hallows := (hcall.2.2 listed hlisted).of_events
  exact hallows.mono (hpast ▸ List.subset_append_left earlier _)

/-- The field key that a request has read is that of the fact. -/
theorem readsFieldKey_stored (hauthorizes : runtime.configured .authorizeIdentity = true)
    (hinit : FactsKeyed init) (hreachable : Service.Reachable init s) {id : Nat}
    {progress : (vaultService sha256 times runtime).Progress}
    (hprogress : s.requests id = some progress) {identity : AuthenticatedTenantIdentity}
    {factId : Identifier} {fieldKey : String}
    (hread : ReadsFieldKey (progress.past.map Exchange.event) identity factId fieldKey) :
    ∃ fact : FactRow, s.store.get .facts factId = some fact ∧ fact.fieldKey = fieldKey := by
  obtain ⟨_, _, hevent⟩ := hread
  obtain ⟨before, after, hmem⟩ := mem_of_event hevent
  obtain ⟨hanswer, -, hstay⟩ := (hreachable.relies (vaultService_permits hauthorizes)
    (vaultService_relies hinit)).2 id progress hprogress _ hmem
  obtain ⟨now, σ₁, σ₂, -, rfl, heffect, rfl⟩ := hanswer
  obtain ⟨rfl, hfact⟩ := getFactFieldKey_transacts heffect
  obtain ⟨row, hrow, rfl⟩ := hfact fieldKey rfl
  exact hstay factId row hrow

/-- A change of a fact was allowed. -/
theorem change_allowed (hauthorizes : runtime.configured .authorizeIdentity = true)
    (hinit : FactsKeyed init) (hreachable : Service.Reachable init s) {id : Nat}
    {request : VaultRequest} {past : List (Exchange vaultInterface Vault)} {call : VaultCall}
    {next : call.Answer → Handler vaultInterface ApiProblem VaultReply} {answer : call.Answer}
    {σ' : Vault}
    (hasks : s.requests id = some ⟨request, past, .ask (I := vaultInterface) call next⟩)
    (hanswer : vaultWorld sha256 times (· = ·) s.store call answer σ') {k : Identifier}
    (hchanged : σ'.get .facts k ≠ s.store.get .facts k) :
    ∃ identity operation, ∃ (row : FactRow) (category : _), call = .perform identity operation ∧
      σ'.get .facts k = some row ∧
      (∀ before : FactRow, s.store.get .facts k = some before → before.fieldKey = row.fieldKey) ∧
      recordCategoryFromFieldKey row.fieldKey = some category ∧
      Allows past identity category
        (if (s.store.get .facts k).isSome then .approve else .create) := by
  have hpermitted : ConfinedCall (past.map Exchange.event) ⟨(), call, answer, ()⟩ :=
    ((hreachable.permits (vaultService_permits hauthorizes) hasks).2 answer () trivial).1
  rcases factStep_of_exchange hanswer k with hsame | ⟨identity, operation, rfl, hstep⟩
  · exact absurd hsame hchanged
  · cases hstep with
    | same hsame => exact absurd hsame hchanged
    | @creates fact hnew hfact hid hkey =>
      obtain ⟨category, hcategory, hallows⟩ := hpermitted.1 _ hkey
      refine ⟨identity, operation, fact, category, rfl, hfact, ?_, hcategory, ?_⟩
      · intro before hbefore
        exact absurd (hnew.symm.trans hbefore) (by simp)
      · rw [hnew]
        exact hallows.of_events
    | @moves before after hmoved hbefore hafter hsame =>
      obtain ⟨fieldKey, hread, category, hcategory, hallows⟩ := hpermitted.2.1 k hmoved
      obtain ⟨fact, hfact, rfl⟩ := readsFieldKey_stored hauthorizes hinit hreachable hasks hread
      obtain rfl := Option.some.inj (hfact.symm.trans hbefore)
      refine ⟨identity, operation, after, category, rfl, hafter, ?_, ?_, ?_⟩
      · intro other hother
        obtain rfl := Option.some.inj (hother.symm.trans hbefore)
        exact hsame.fieldKey.symm
      · rw [hsame.fieldKey]
        exact hcategory
      · rw [hbefore]
        exact hallows.of_events

/-- In every interleaving of requests to the vault routes, the facts that are listed, created or
moved on have stored categories that were allowed to the identity of the request, documents,
reports and exports are revealed after all categories were allowed, and a list over all categories
has every fact that is not rejected. In production `buildServer` requires `authorizeIdentity`. -/
theorem vault_access_confined (hauthorizes : runtime.configured .authorizeIdentity = true)
    (hinit : FactsKeyed init) (hreachable : Service.Reachable init s) : AccessConfined s where
  lists := by
    intro id category input past reply facts hdone hbody
    obtain ⟨categories, identity, listed, σ, value, -, hbody', -, rfl, hallows, hkeyed, hstay⟩ :=
      lists_read hauthorizes hinit hreachable hdone
    obtain rfl := VaultReplyBody.facts.inj (hbody'.symm.trans hbody)
    refine ⟨identity, fun fact hfact => ?_⟩
    obtain ⟨row, hrow, rfl⟩ := List.mem_map.mp hfact
    obtain ⟨⟨k, hk⟩, -, -, listed, hlisted, hprefix⟩ := mem_vaultFacts.mp hrow
    obtain ⟨rfl, -⟩ := hkeyed k row hk
    obtain ⟨after, hafter, hkey⟩ := hstay row.id row hk
    refine ⟨after, listed, hafter, hkey, ?_, hallows listed hlisted⟩
    rw [hkey]
    exact recordCategory_of_prefix hprefix
  changes := by
    intro s' hstep k hchanged
    cases hstep with
    | begins hfree => exact absurd rfl hchanged
    | works hworks => exact absurd (hworks k) hchanged
    | @exchanges id request past call next answer σ' hasks hanswer =>
      obtain ⟨identity, operation, row, category, rfl, hrow, hkey, hcategory, hallows⟩ :=
        change_allowed hauthorizes hinit hreachable hasks hanswer hchanged
      refine ⟨id, _, identity, operation, answer, row, category, Function.update_self .., ?_, hrow,
        hkey, hcategory, hallows.mono (List.subset_append_left ..)⟩
      exact List.mem_append_right _ List.mem_cons_self
  reads := by
    intro id progress before exchange after identity operation hprogress hpast hcall category hmem
    have hpermits := @vaultService_permits sha256 times runtime hauthorizes
    have hcalled : ConfinedCall (before.map Exchange.event) exchange.event :=
      (hreachable.permits hpermits hprogress).1 before exchange after hpast
    rw [ConfinedCall, show exchange.event.call = exchange.call from rfl, hcall] at hcalled
    exact (hcalled.2.2 category hmem).of_events
  reveals := by
    intro id request past reply action hdone hreveals
    obtain ⟨identity, hallows⟩ :=
      (hreachable.result (vaultService_permits hauthorizes) hdone).reveals action hreveals
    refine ⟨identity, fun category => (hallows category ?_).of_events⟩
    cases category <;> decide
  complete := by
    intro id category input past reply hdone hall
    obtain ⟨categories, identity, facts, σ, value, hcategories, hbody, hmem, rfl, -, hkeyed, -⟩ :=
      lists_read hauthorizes hinit hreachable hdone
    obtain rfl := Except.ok.inj (hall.symm.trans hcategories)
    refine ⟨identity, _, σ, hbody, hmem, fun k row hrow hsees hstatus => ?_⟩
    obtain ⟨-, listed, hlisted⟩ := hkeyed k row hrow
    have hselected : row ∈ vaultFacts identity.context allRecordCategories σ :=
      mem_vaultFacts.mpr ⟨⟨k, hrow⟩, hsees, hstatus, listed, List.mem_of_find?_eq_some hlisted,
        prefix_of_recordCategory hlisted⟩
    exact ⟨_, List.mem_map_of_mem hselected, rfl, rfl, rfl, rfl⟩

end Service

/-- A request for the facts about assets. -/
def assetsRequest : VaultRequest := ⟨.getFacts (some "assets"), ⟨none, none, none⟩⟩

theorem candidateStore_keyed : FactsKeyed (candidateStore exampleMember none) := by
  intro k fact hfact
  by_cases hk : k = (candidateFact exampleMember).id
  · subst hk
    obtain rfl := Option.some.inj ((get_set_self ..).symm.trans hfact)
    exact ⟨rfl, .assets, by decide⟩
  · rw [candidateStore, get_set_of_key_ne _ _ hk, get_set_of_table_ne _ _ _ _ (by decide)] at hfact
    exact absurd hfact (by simp)

/-- A fact is listed after its category was allowed. -/
theorem vault_access_confined_example :
    ∃ (s : (vaultService .transparent (· = 0) exampleRoutes).State) (past : _) (reply : _)
      (facts : _), s.requests 0 = some ⟨assetsRequest, past, .done reply⟩ ∧
        reply.body = .facts facts ∧ (∃ fact ∈ facts, fact.fieldKey = "assets.home") ∧
        AccessConfined s := by
  let service := vaultService .transparent (· = 0) exampleRoutes
  let σ := candidateStore exampleMember none
  let identity := ownerOf exampleMember
  let facts := (vaultFacts identity.context [.assets] σ).map (fun row => row.listed .null)
  have hcategories : listedCategories (some "assets") = .ok [.assets] := by decide
  have heffect : (VaultOperation.listVaultFacts [.assets]).Effect .transparent identity.context 0 σ
      (.ok facts) σ := ⟨rfl, fun listed hlisted => ⟨fun _ => .null, (Except.ok.inj hlisted).symm⟩⟩
  have hperform : Runs service.world (perform identity (.listVaultFacts [.assets])) σ _
      (.done facts) σ := runs_perform rfl rfl rfl heffect
  have hlist := hperform.bind (f := fun facts => sendPrivate 200 (.facts facts)) (.stop _ _)
  have hauthorize : Runs service.world
      (authorizeEach exampleRoutes identity [.assets] .read "vault.fact.list") σ _ (.done ()) σ :=
    (runs_authorizeIdentity rfl rfl).bind (.stop _ _)
  have hruns : Runs service.world (assetsRequest.handler exampleRoutes) σ _
      (.done ⟨200, true, .facts facts⟩) σ :=
    (runs_resolveIdentity identity rfl).bind ((runs_ok rfl σ).bind ((runs_ok hcategories σ).bind
      (hauthorize.bind hlist)))
  have hbegun : @Service.Reachable _ _ _ _ service σ
      ((⟨σ, fun _ => none⟩ : service.State).withProgress 0
        ⟨assetsRequest, [], assetsRequest.respond exampleRoutes⟩) :=
    .step .initial (.begins rfl)
  obtain ⟨s, hreachable, -, hdone⟩ := hbegun.runs rfl (Function.update_self ..) hruns.recover
  refine ⟨s, _, _, facts, hdone, rfl, ?_,
    vault_access_confined rfl candidateStore_keyed hreachable⟩
  have hselected : candidateFact exampleMember ∈ vaultFacts identity.context [.assets] σ :=
    mem_vaultFacts.mpr ⟨⟨_, get_set_self ..⟩, TenantContext.sees_iff.mpr ⟨rfl, rfl⟩, by decide,
      .assets, by simp, by decide⟩
  exact ⟨_, List.mem_map_of_mem hselected, rfl⟩

end LegacyVault
