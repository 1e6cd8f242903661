import LegacyVault.Library.ConcurrentHandlers
import LegacyVault.VaultRoutes

/-!
# Calls confined to allowed categories

Before a vault route lists facts, creates them or moves them on, it has
allowed each of their categories; before it reads documents, reports and
exports, all thirteen. For a fact that is there this is the category of the
field key that was read in the same request.
-/

namespace LegacyVault

open JsonText Handlers Handler

/-! ## What an operation needs -/

/-- The calls of a request so far, with their answers. -/
abbrev RouteEvents := List (Exchange vaultInterface Unit)

section Past

variable {S : Type}

/-- The request is of an identity. -/
def Resolves (past : List (Exchange vaultInterface S)) (identity : AuthenticatedTenantIdentity) :
    Prop :=
  ∃ before after, ⟨before, .resolveIdentity, .ok identity, after⟩ ∈ past

/-- The identity of the request was allowed an action on a category. -/
def Allows (past : List (Exchange vaultInterface S)) (identity : AuthenticatedTenantIdentity)
    (category : RecordCategory) (action : PermissionAction) : Prop :=
  Resolves past identity ∧ ∃ before after purpose,
    ⟨before, .authorizeIdentity identity category action purpose, .ok (), after⟩ ∈ past

/-- The field key of a fact was read for an identity. -/
def ReadsFieldKey (past : List (Exchange vaultInterface S))
    (identity : AuthenticatedTenantIdentity) (factId : Identifier) (fieldKey : String) : Prop :=
  ∃ before after, ⟨before, .perform identity (.getFactFieldKey factId), .ok fieldKey, after⟩ ∈ past

/-- The category of a field key was allowed. -/
def AllowsKey (past : List (Exchange vaultInterface S)) (identity : AuthenticatedTenantIdentity)
    (fieldKey : String) (action : PermissionAction) : Prop :=
  ∃ category, recordCategoryFromFieldKey fieldKey = some category ∧
    Allows past identity category action

end Past

/-- The field keys of the facts that an operation can create. -/
def VaultOperation.createdKeys : VaultOperation → List String
  | createCandidateFact candidate => [candidate.fieldKey]
  | completeManualDocumentExtraction _ input => input.candidates.map ManualCandidate.fieldKey
  | _ => []

/-- The fact that an operation can confirm, reject or dispute. -/
def VaultOperation.movedFact : VaultOperation → Option Identifier
  | confirmFact factId _ _ | rejectFact factId _ | disputeFact factId _ => some factId
  | _ => none

/-- The categories that an operation reads, and the action that reading them is. -/
def VaultOperation.readCategories : VaultOperation → List RecordCategory × PermissionAction
  | listVaultFacts categories => (categories, .read)
  | listVaultDocuments | getDocumentContent _ | createReport _ _ | getReport _ =>
    (allRecordCategories, .read)
  | startPortableExport _ _ | getPortableExport _ => (allRecordCategories, .export)
  | _ => ([], .read)

/-- An operation is cleared: what it creates, moves and reads was allowed before. -/
def Cleared (past : RouteEvents) (identity : AuthenticatedTenantIdentity)
    (operation : VaultOperation) : Prop :=
  (∀ fieldKey ∈ operation.createdKeys, AllowsKey past identity fieldKey .create) ∧
  (∀ factId, operation.movedFact = some factId →
    ∃ fieldKey, ReadsFieldKey past identity factId fieldKey ∧
      AllowsKey past identity fieldKey .approve) ∧
  ∀ category ∈ operation.readCategories.1,
    Allows past identity category operation.readCategories.2

/-- An operation that neither creates nor moves facts, and reads nothing that is confined. -/
def VaultOperation.isOpen : VaultOperation → Bool
  | createCandidateFact _ | completeManualDocumentExtraction _ _ | confirmFact _ _ _
  | rejectFact _ _ | disputeFact _ _ | listVaultFacts _ | listVaultDocuments
  | getDocumentContent _ | createReport _ _ | getReport _ | startPortableExport _ _
  | getPortableExport _ => false
  | _ => true

theorem cleared_of_open {past : RouteEvents} {identity : AuthenticatedTenantIdentity}
    {operation : VaultOperation} (hopen : operation.isOpen = true) :
    Cleared past identity operation := by
  cases operation <;>
    simp [VaultOperation.isOpen, Cleared, VaultOperation.createdKeys, VaultOperation.movedFact,
      VaultOperation.readCategories] at hopen ⊢

@[simp] theorem cleared_completeIdempotency {past : RouteEvents}
    {identity : AuthenticatedTenantIdentity} {key : String} {statusCode : Nat} {body : Json} :
    Cleared past identity (.completeIdempotency key statusCode body) := cleared_of_open rfl

/-- A call that performs confined operations only. -/
def ConfinedCall (past : RouteEvents) (exchange : Exchange vaultInterface Unit) : Prop :=
  AllowedCall (Cleared past) exchange.call

/-! ## Later calls -/

section Growth

variable {S : Type} {past past' : List (Exchange vaultInterface S)}
  {identity : AuthenticatedTenantIdentity}

theorem Resolves.mono (h : Resolves past identity) (hpast : past ⊆ past') :
    Resolves past' identity := by
  obtain ⟨before, after, hmem⟩ := h
  exact ⟨before, after, hpast hmem⟩

theorem Allows.mono {category : RecordCategory} {action : PermissionAction}
    (h : Allows past identity category action) (hpast : past ⊆ past') :
    Allows past' identity category action := by
  obtain ⟨hresolves, before, after, purpose, hmem⟩ := h
  exact ⟨hresolves.mono hpast, before, after, purpose, hpast hmem⟩

theorem AllowsKey.mono {fieldKey : String} {action : PermissionAction}
    (h : AllowsKey past identity fieldKey action) (hpast : past ⊆ past') :
    AllowsKey past' identity fieldKey action := by
  obtain ⟨category, hcategory, hallows⟩ := h
  exact ⟨category, hcategory, hallows.mono hpast⟩

theorem ReadsFieldKey.mono {factId : Identifier} {fieldKey : String}
    (h : ReadsFieldKey past identity factId fieldKey) (hpast : past ⊆ past') :
    ReadsFieldKey past' identity factId fieldKey := by
  obtain ⟨before, after, hmem⟩ := h
  exact ⟨before, after, hpast hmem⟩

theorem Allows.of_events {category : RecordCategory} {action : PermissionAction}
    (h : Allows (past.map Exchange.event) identity category action) :
    Allows past identity category action := by
  obtain ⟨⟨_, _, hresolved⟩, _, _, purpose, hallowed⟩ := h
  obtain ⟨before, after, hmem⟩ := mem_of_event hallowed
  exact ⟨mem_of_event hresolved, before, after, purpose, hmem⟩

/-- What was allowed stays allowed. -/
theorem Cleared.mono {past past' : RouteEvents} {operation : VaultOperation}
    (h : Cleared past identity operation) (hpast : past ⊆ past') :
    Cleared past' identity operation := by
  obtain ⟨hcreates, hmoves, hreads⟩ := h
  refine ⟨fun fieldKey hkey => (hcreates fieldKey hkey).mono hpast, fun factId hfact => ?_,
    fun category hcategory => (hreads category hcategory).mono hpast⟩
  obtain ⟨fieldKey, hread, hallows⟩ := hmoves factId hfact
  exact ⟨fieldKey, hread.mono hpast, hallows.mono hpast⟩

end Growth

/-! ## Parts of routes -/

section Parts

variable {runtime : RouteRuntime} {identity : AuthenticatedTenantIdentity} {past : RouteEvents}
  {s : Unit}

/-- The weakest precondition under which the routes are studied. -/
abbrev MeetsConfined {ε α : Type} (post : α → RouteEvents → Unit → Prop)
    (h : Handler vaultInterface ε α) (past : RouteEvents) (s : Unit) : Prop :=
  Meets anyAnswer ConfinedCall post h past s

/-- A part whose operations are confined by what came before. -/
theorem meets_confined {ε α : Type} {h : Handler vaultInterface ε α} {good : α → Prop}
    {post : α → RouteEvents → Unit → Prop}
    (hcalls : h.Calls (AllowedCall (Cleared past)) good)
    (hpost : ∀ result past' s, past <+: past' → good result → post result past' s) :
    MeetsConfined post h past s := by
  have hmeets : MeetsConfined (fun result past' _ => past <+: past' ∧ good result) h past s := by
    refine hcalls.meets_after (fun past' exchange hfirst hcall => ?_) List.prefix_rfl
    obtain ⟨before, call, answer, after⟩ := exchange
    cases call with
    | perform identity operation => exact Cleared.mono hcall hfirst.subset
    | _ => trivial
  exact hmeets.mono (fun result past' s h => hpost result past' s h.1 h.2)

/-- The identity of the request. -/
theorem meets_resolveIdentity {post : AuthenticatedTenantIdentity → RouteEvents → Unit → Prop}
    (hpost : ∀ identity past' s, Resolves past' identity → post identity past' s) :
    MeetsConfined post resolveIdentity past s := by
  intro answer _ _
  refine ⟨trivial, ?_⟩
  rw [meets_ofExcept]
  rintro identity rfl
  exact hpost identity _ _ ⟨(), (), List.mem_append_right _ List.mem_cons_self⟩

/-- A category is allowed. -/
theorem meets_authorizeIdentity {category : RecordCategory} {action : PermissionAction}
    {purpose : String} {post : Unit → RouteEvents → Unit → Prop}
    (hauthorizes : runtime.configured .authorizeIdentity = true)
    (hresolves : Resolves past identity)
    (hpost : ∀ past' s, past <+: past' → Allows past' identity category action →
      post () past' s) :
    MeetsConfined post (authorizeIdentity runtime identity category action purpose) past s := by
  rw [MeetsConfined, authorizeIdentity, if_pos hauthorizes, meets_ask]
  intro answer _ _
  refine ⟨trivial, ?_⟩
  rw [meets_ofExcept]
  rintro ⟨⟩ rfl
  refine hpost _ _ (List.prefix_append ..) ⟨hresolves.mono (List.subset_append_left ..), ?_⟩
  exact ⟨(), (), purpose, List.mem_append_right _ List.mem_cons_self⟩

/-- Each of some categories is allowed. -/
theorem meets_authorizeEach {categories : List RecordCategory} {action : PermissionAction}
    {purpose : String} {post : Unit → RouteEvents → Unit → Prop}
    (hauthorizes : runtime.configured .authorizeIdentity = true)
    (hresolves : Resolves past identity)
    (hpost : ∀ past' s, past <+: past' →
      (∀ category ∈ categories, Allows past' identity category action) → post () past' s) :
    MeetsConfined post (authorizeEach runtime identity categories action purpose) past s := by
  -- The invariant is about the categories that the loop has been through.
  refine meets_forM (fun before past' _ => past <+: past' ∧
    ∀ category ∈ before, Allows past' identity category action) ?_ ?_ ⟨List.prefix_rfl, by simp⟩
  · rintro before category - past' _ ⟨hfirst, hbefore⟩
    refine meets_authorizeIdentity hauthorizes (hresolves.mono hfirst.subset)
      (fun past'' _ hnext hallows => ⟨hfirst.trans hnext, fun other hother => ?_⟩)
    rcases List.mem_append.mp hother with hold | hnew
    · exact (hbefore other hold).mono hnext.subset
    · obtain rfl := List.mem_singleton.mp hnew
      exact hallows
  · rintro past' s' ⟨hfirst, hall⟩
    exact hpost past' s' hfirst hall

/-- A confined operation is performed. -/
theorem meets_perform {operation : VaultOperation}
    {post : operation.Result → RouteEvents → Unit → Prop}
    (hcleared : Cleared past identity operation)
    (hpost : ∀ result past' s, past <+: past' →
      ⟨(), .perform identity operation, .ok result, ()⟩ ∈ past' → post result past' s) :
    MeetsConfined post (perform identity operation) past s := by
  intro answer _ _
  refine ⟨hcleared, ?_⟩
  rw [meets_ofExcept]
  rintro result rfl
  exact hpost result _ _ (List.prefix_append ..) (List.mem_append_right _ List.mem_cons_self)

end Parts

/-! ## Routes -/

/-- Facts were listed for an identity. -/
def Lists {S : Type} (past : List (Exchange vaultInterface S))
    (identity : AuthenticatedTenantIdentity) (categories : List RecordCategory)
    (facts : List VaultFact) : Prop :=
  ∃ before after, ⟨before, .perform identity (.listVaultFacts categories), .ok facts, after⟩ ∈ past

/-- The routes that reply with documents, reports or exports, and the action that this is. -/
def VaultRoute.reveals : VaultRoute → Option PermissionAction
  | getDocuments | getDocumentsContent _ | postReports | getReports _ => some .read
  | postExports | getExports _ => some .export
  | _ => none

/-- What came before the reply to a request: the facts that it lists were listed, and all
categories were allowed before it reveals documents, reports or exports. -/
structure Replies {S : Type} (route : VaultRoute) (reply : VaultReply)
    (past : List (Exchange vaultInterface S)) : Prop where
  lists : ∀ category, route = .getFacts category → ∃ categories identity facts,
    listedCategories category = .ok categories ∧ reply.body = .facts facts ∧
      Lists past identity categories facts
  reveals : ∀ action, route.reveals = some action → ∃ identity, ∀ category ∈ allRecordCategories,
    Allows past identity category action

/-- An operation that is performed. -/
theorem calls_perform {operations : AuthenticatedTenantIdentity → VaultOperation → Prop}
    {identity : AuthenticatedTenantIdentity} {operation : VaultOperation}
    (hoperation : operations identity operation) :
    (perform identity operation).Calls (AllowedCall operations) (fun _ => True) := by
  rw [perform, calls_ask]
  exact ⟨hoperation, fun _ => by simp⟩

/-- The subscription is all that the check of an entitlement reads. -/
theorem calls_requireBillingEntitlement {runtime : RouteRuntime}
    {operations : AuthenticatedTenantIdentity → VaultOperation → Prop}
    {identity : AuthenticatedTenantIdentity} {entitlement : BillableEntitlement}
    {post : Unit → Prop} (hread : operations identity .getSubscription) (hpost : post ()) :
    (requireBillingEntitlement runtime identity entitlement).Calls (AllowedCall operations)
      post := by
  simp only [requireBillingEntitlement, calls_bind, calls_liftM]
  intro _ _
  exact (calls_perform hread).mono (fun _ _ _ _ => hpost)

/-- The category of a field key that a route accepts. -/
theorem factCategory_ok {fieldKey : String} {category : RecordCategory}
    (h : factCategory fieldKey = .ok category) :
    recordCategoryFromFieldKey fieldKey = some category := by
  rw [factCategory] at h
  split at h
  case h_1 found hfound => exact hfound.trans (congrArg some (Except.ok.inj h))
  case h_2 => cases h

/-- The routes whose replies are not confined. -/
def VaultRoute.plain : VaultRoute → Bool
  | getFacts _ | getDocuments | getDocumentsContent _ | postReports | getReports _ | postExports
  | getExports _ => false
  | _ => true

/-- The routes that create facts or move them on. -/
def VaultRoute.changesFacts : VaultRoute → Bool
  | postFacts | postFactConfirm _ | postFactReject _ | postFactDispute _
  | postManualExtraction => true
  | _ => false

theorem replies_plain {S : Type} {route : VaultRoute} {reply : VaultReply}
    {past : List (Exchange vaultInterface S)} (hplain : route.plain = true) :
    Replies route reply past where
  lists := by
    rintro category rfl
    exact absurd hplain (by simp [VaultRoute.plain])
  reveals := by
    intro action hreveals
    cases route <;> simp [VaultRoute.reveals, VaultRoute.plain] at hreveals hplain

/-- The rest of a route whose replies are not confined. -/
theorem meets_plain {route : VaultRoute} {h : RouteHandler VaultReply} {past : RouteEvents}
    {s : Unit} (hplain : route.plain = true)
    (hcalls : h.Calls (AllowedCall (Cleared past)) (fun _ => True)) :
    MeetsConfined (fun reply past _ => Replies route reply past) h past s :=
  meets_confined hcalls (fun _ _ _ _ _ => replies_plain hplain)

/-- The rest of a route after all categories were allowed. -/
theorem meets_revealed {route : VaultRoute} {h : RouteHandler VaultReply} {past : RouteEvents}
    {s : Unit} {identity : AuthenticatedTenantIdentity} {action : PermissionAction}
    (hlists : ∀ category, route ≠ .getFacts category) (hreveals : route.reveals = some action)
    (hallows : ∀ category ∈ allRecordCategories, Allows past identity category action)
    (hcalls : h.Calls (AllowedCall (Cleared past)) (fun _ => True)) :
    MeetsConfined (fun reply past _ => Replies route reply past) h past s := by
  refine meets_confined hcalls (fun reply past' _ hfirst _ => ⟨?_, fun other hother => ?_⟩)
  · intro category hroute
    exact absurd hroute (hlists category)
  · obtain rfl := Option.some.inj (hreveals.symm.trans hother)
    exact ⟨identity, fun category hmem => (hallows category hmem).mono hfirst.subset⟩

/-- A computation that goes on has a result. -/
theorem exceptBind_eq_ok {ε α β : Type} {outcome : Except ε α} {f : α → Except ε β} {result : β} :
    outcome >>= f = .ok result ↔ ∃ value, outcome = .ok value ∧ f value = .ok result := by
  cases outcome with
  | error error => exact ⟨fun h => absurd h (by simp [Bind.bind, Except.bind]), by simp⟩
  | ok value => exact ⟨fun h => ⟨value, rfl, h⟩, by simp [Bind.bind, Except.bind]⟩

/-- A candidate comes with the category of its field key. -/
theorem candidateForm_category {runtime : RouteRuntime} {index : Nat} {candidate : Json}
    {form : RecordCategory × ManualCandidate}
    (hform : runtime.candidateForm index candidate = .ok form) :
    recordCategoryFromFieldKey form.2.fieldKey = some form.1 := by
  rw [RouteRuntime.candidateForm] at hform
  obtain ⟨item, -, hform⟩ := exceptBind_eq_ok.mp hform
  obtain ⟨fieldKey, -, hform⟩ := exceptBind_eq_ok.mp hform
  obtain ⟨category, hcategory, hform⟩ := exceptBind_eq_ok.mp hform
  obtain ⟨locator, -, hform⟩ := exceptBind_eq_ok.mp hform
  dsimp only at hform
  by_cases hlong : EcmaText.utf16Length locator > 256
  · rw [if_pos hlong] at hform
    obtain ⟨_, hrefused, -⟩ := exceptBind_eq_ok.mp hform
    cases hrefused
  rw [if_neg hlong] at hform
  obtain ⟨sensitivity, -, hform⟩ := exceptBind_eq_ok.mp hform
  split at hform
  case h_2 =>
    obtain ⟨_, hrefused, -⟩ := exceptBind_eq_ok.mp hform
    cases hrefused
  obtain ⟨_, -, hform⟩ := exceptBind_eq_ok.mp hform
  obtain ⟨_, -, hform⟩ := exceptBind_eq_ok.mp hform
  obtain ⟨confidence, -, hform⟩ := exceptBind_eq_ok.mp hform
  obtain rfl := Except.ok.inj hform
  exact factCategory_ok hcategory

/-- Each candidate was read. -/
theorem candidateForms_mem {runtime : RouteRuntime} {index : Nat} {items : List Json}
    {forms : List (RecordCategory × ManualCandidate)} {form : RecordCategory × ManualCandidate}
    (hforms : runtime.candidateForms index items = .ok forms) (hform : form ∈ forms) :
    recordCategoryFromFieldKey form.2.fieldKey = some form.1 := by
  induction items generalizing index forms with
  | nil =>
    obtain rfl := Except.ok.inj hforms
    exact absurd hform List.not_mem_nil
  | cons candidate items ih =>
    rw [RouteRuntime.candidateForms] at hforms
    obtain ⟨first, hfirst, hforms⟩ := exceptBind_eq_ok.mp hforms
    obtain ⟨rest, hrest, hforms⟩ := exceptBind_eq_ok.mp hforms
    obtain rfl := Except.ok.inj hforms
    rcases List.mem_cons.mp hform with rfl | hmem
    · exact candidateForm_category hfirst
    · exact ih hrest hmem

/-- The candidates of an extraction come with the categories of their field keys. -/
theorem extractionCandidates_category {runtime : RouteRuntime} {body : Json}
    {forms : List (RecordCategory × ManualCandidate)} {form : RecordCategory × ManualCandidate}
    (hforms : runtime.extractionCandidates body = .ok forms) (hform : form ∈ forms) :
    recordCategoryFromFieldKey form.2.fieldKey = some form.1 := by
  rw [RouteRuntime.extractionCandidates] at hforms
  split at hforms
  case h_1 items _ =>
    split at hforms
    · cases hforms
    · exact candidateForms_mem hforms hform
  case h_2 => cases hforms

section Routes

variable {runtime : RouteRuntime} (hauthorizes : runtime.configured .authorizeIdentity = true)

include hauthorizes

/-- Lists of facts. -/
theorem getFacts_confined (category : Option String) :
    MeetsConfined (fun reply past _ => Replies (.getFacts category) reply past)
      (getFacts runtime category) [] () := by
  rw [getFacts, MeetsConfined, meets_bind]
  refine meets_resolveIdentity (fun identity past s hresolves => ?_)
  simp only [meets_bind, meets_liftM]
  intro _ _ categories hcategories
  refine meets_authorizeEach hauthorizes hresolves (fun past' s' _ hallows => ?_)
  have hcleared : Cleared past' identity (.listVaultFacts categories) :=
    ⟨by simp [VaultOperation.createdKeys], by simp [VaultOperation.movedFact], hallows⟩
  rw [meets_bind]
  refine meets_perform hcleared (fun facts past'' s'' _ hlisted => ?_)
  refine ⟨fun other hroute => ?_, by simp [VaultRoute.reveals]⟩
  obtain rfl := VaultRoute.getFacts.inj hroute
  exact ⟨categories, identity, facts, hcategories, rfl, (), (), hlisted⟩

/-- New facts. -/
theorem postFacts_confined (input : RequestInput) :
    MeetsConfined (fun reply past _ => Replies .postFacts reply past)
      (postFacts runtime input) [] () := by
  rw [postFacts, MeetsConfined, meets_bind]
  refine meets_resolveIdentity (fun identity past s hresolves => ?_)
  simp only [meets_bind, meets_liftM]
  intro body _ key _ _ _ _ _ form _ category hcategory
  refine meets_authorizeIdentity hauthorizes hresolves (fun past' s' _ hallows => ?_)
  have hallowed : AllowsKey past' identity form.fieldKey .create :=
    ⟨category, factCategory_ok hcategory, hallows⟩
  refine meets_plain rfl ?_
  simp [calls_whenReserved (cleared_of_open rfl), perform, AllowedCall, Cleared,
    VaultOperation.createdKeys, VaultOperation.movedFact, VaultOperation.readCategories, hallowed]

/-- Transitions of facts. -/
theorem transitionFact_confined {route : VaultRoute} (hplain : route.plain = true)
    {purpose : String} {transition : AuthenticatedTenantIdentity → Nat → RouteHandler Json}
    {id : String} (input : RequestInput)
    (htransition : ∀ past identity expectedVersion,
      (∀ operation : VaultOperation, operation.createdKeys = [] → operation.movedFact = some id →
        operation.readCategories.1 = [] → Cleared past identity operation) →
      (transition identity expectedVersion).Calls (AllowedCall (Cleared past)) (fun _ => True)) :
    MeetsConfined (fun reply past _ => Replies route reply past)
      (transitionFact runtime purpose transition id input) [] () := by
  rw [transitionFact, MeetsConfined, meets_bind]
  refine meets_resolveIdentity (fun identity past s hresolves => ?_)
  simp only [meets_bind, meets_liftM]
  intro _ _
  refine meets_perform (cleared_of_open rfl) (fun fieldKey past' s' hfirst hread => ?_)
  simp only [meets_bind, meets_liftM]
  intro category hcategory
  refine meets_authorizeIdentity hauthorizes (hresolves.mono hfirst.subset)
    (fun past'' s'' hnext hallows => ?_)
  have hmoves : ∀ operation : VaultOperation, operation.createdKeys = [] →
      operation.movedFact = some id → operation.readCategories.1 = [] →
      Cleared past'' identity operation := by
    intro operation hcreates hmoved hreads
    refine ⟨by simp [hcreates], fun factId hfact => ?_, by simp [hreads]⟩
    obtain rfl := Option.some.inj (hmoved.symm.trans hfact)
    exact ⟨fieldKey, ⟨(), (), hnext.subset hread⟩, category, factCategory_ok hcategory, hallows⟩
  have hcalls := fun expectedVersion => htransition past'' identity expectedVersion hmoves
  refine meets_plain hplain ?_
  simp only [calls_bind, calls_liftM]
  intro key _ expectedVersion _
  rw [calls_whenReserved (cleared_of_open rfl) (fun _ => calls_replayFact)]
  simp only [calls_bind, calls_sendJson]
  refine (hcalls expectedVersion).mono (fun changed _ => ?_)
  simp [perform, AllowedCall]

/-- Facts are confirmed. -/
theorem postFactConfirm_confined (id : String) (input : RequestInput) :
    MeetsConfined (fun reply past _ => Replies (.postFactConfirm id) reply past)
      (postFactConfirm runtime id input) [] () := by
  rw [postFactConfirm]
  refine transitionFact_confined hauthorizes rfl input (fun past identity version hmoves => ?_)
  simp only [calls_bind, calls_currentTime]
  exact fun now => calls_perform (hmoves _ rfl rfl rfl)

/-- Facts are rejected. -/
theorem postFactReject_confined (id : String) (input : RequestInput) :
    MeetsConfined (fun reply past _ => Replies (.postFactReject id) reply past)
      (postFactReject runtime id input) [] () := by
  rw [postFactReject]
  refine transitionFact_confined hauthorizes rfl input (fun past identity version hmoves => ?_)
  exact calls_perform (hmoves _ rfl rfl rfl)

/-- Facts are disputed. -/
theorem postFactDispute_confined (id : String) (input : RequestInput) :
    MeetsConfined (fun reply past _ => Replies (.postFactDispute id) reply past)
      (postFactDispute runtime id input) [] () := by
  rw [postFactDispute]
  refine transitionFact_confined hauthorizes rfl input (fun past identity version hmoves => ?_)
  exact calls_perform (hmoves _ rfl rfl rfl)

/-- Manual extractions. -/
theorem postManualExtraction_confined (input : RequestInput) :
    MeetsConfined (fun reply past _ => Replies .postManualExtraction reply past)
      (postManualExtraction runtime input) [] () := by
  rw [postManualExtraction, MeetsConfined, meets_bind]
  refine meets_resolveIdentity (fun identity past s hresolves => ?_)
  simp only [meets_bind, meets_liftM]
  intro body _ key _ documentId _ workflowId _ version _ candidates hcandidates
  refine meets_authorizeEach hauthorizes hresolves (fun past' s' _ hallows => ?_)
  have hallowed : ∀ candidate ∈ candidates.map Prod.snd,
      AllowsKey past' identity candidate.fieldKey .create := by
    intro candidate hmem
    obtain ⟨form, hform, rfl⟩ := List.mem_map.mp hmem
    exact ⟨form.1, extractionCandidates_category hcandidates hform,
      hallows form.1 (List.mem_map_of_mem hform)⟩
  have hcleared : ∀ key documentId workflowId version, Cleared past' identity
      (.completeManualDocumentExtraction key
        ⟨documentId, workflowId, version, candidates.map Prod.snd⟩) := by
    intro key documentId workflowId version
    refine ⟨fun fieldKey hkey => ?_, by simp [VaultOperation.movedFact],
      by simp [VaultOperation.readCategories]⟩
    obtain ⟨candidate, hcandidate, rfl⟩ := List.mem_map.mp hkey
    exact hallowed candidate hcandidate
  refine meets_plain rfl ?_
  simp [perform, AllowedCall, hcleared]

/-- Lists of documents. -/
theorem getDocuments_confined :
    MeetsConfined (fun reply past _ => Replies .getDocuments reply past)
      (getDocuments runtime) [] () := by
  rw [getDocuments, MeetsConfined, meets_bind]
  refine meets_resolveIdentity (fun identity past s hresolves => ?_)
  simp only [meets_bind, meets_liftM]
  intro _ _
  refine meets_authorizeEach hauthorizes hresolves (fun past' s' _ hallows => ?_)
  have hcleared : Cleared past' identity .listVaultDocuments :=
    ⟨by simp [VaultOperation.createdKeys], by simp [VaultOperation.movedFact], hallows⟩
  refine meets_revealed (by simp) rfl hallows ?_
  simp [perform, AllowedCall, hcleared]

/-- The contents of documents. -/
theorem getDocumentsContent_confined (id : String) :
    MeetsConfined (fun reply past _ => Replies (.getDocumentsContent id) reply past)
      (getDocumentsContent runtime id) [] () := by
  rw [getDocumentsContent, MeetsConfined, meets_bind]
  refine meets_resolveIdentity (fun identity past s hresolves => ?_)
  simp only [meets_bind, meets_liftM]
  intro _ _
  refine meets_authorizeEach hauthorizes hresolves (fun past' s' _ hallows => ?_)
  have hcleared : Cleared past' identity (.getDocumentContent id) :=
    ⟨by simp [VaultOperation.createdKeys], by simp [VaultOperation.movedFact], hallows⟩
  refine meets_revealed (by simp) rfl hallows ?_
  simp [perform, AllowedCall, hcleared]

/-- Reports. -/
theorem getReports_confined (id : String) :
    MeetsConfined (fun reply past _ => Replies (.getReports id) reply past)
      (getReports runtime id) [] () := by
  rw [getReports, MeetsConfined, meets_bind]
  refine meets_resolveIdentity (fun identity past s hresolves => ?_)
  simp only [meets_bind, meets_liftM]
  intro _ _ _ _
  refine meets_authorizeEach hauthorizes hresolves (fun past' s' _ hallows => ?_)
  have hcleared : Cleared past' identity (.getReport id) :=
    ⟨by simp [VaultOperation.createdKeys], by simp [VaultOperation.movedFact], hallows⟩
  refine meets_revealed (by simp) rfl hallows ?_
  simp [perform, AllowedCall, hcleared]

/-- Exports. -/
theorem getExports_confined (id : String) :
    MeetsConfined (fun reply past _ => Replies (.getExports id) reply past)
      (getExports runtime id) [] () := by
  rw [getExports, MeetsConfined, meets_bind]
  refine meets_resolveIdentity (fun identity past s hresolves => ?_)
  simp only [meets_bind, meets_liftM]
  intro _ _ _ _
  refine meets_authorizeEach hauthorizes hresolves (fun past' s' _ hallows => ?_)
  have hcleared : Cleared past' identity (.getPortableExport id) :=
    ⟨by simp [VaultOperation.createdKeys], by simp [VaultOperation.movedFact], hallows⟩
  refine meets_revealed (by simp) rfl hallows ?_
  simp [perform, AllowedCall, hcleared]

/-- New reports. -/
theorem postReports_confined (input : RequestInput) :
    MeetsConfined (fun reply past _ => Replies .postReports reply past)
      (postReports runtime input) [] () := by
  rw [postReports, MeetsConfined, meets_bind]
  refine meets_resolveIdentity (fun identity past s hresolves => ?_)
  simp only [meets_bind, meets_liftM]
  intro _ _ _ _
  refine meets_authorizeEach hauthorizes hresolves (fun past' s' _ hallows => ?_)
  have hcleared : ∀ kind key, Cleared past' identity (.createReport kind key) := fun _ _ =>
    ⟨by simp [VaultOperation.createdKeys], by simp [VaultOperation.movedFact], hallows⟩
  refine meets_revealed (by simp) rfl hallows ?_
  simp [calls_requireBillingEntitlement (cleared_of_open rfl),
    calls_whenReserved (cleared_of_open rfl), perform, AllowedCall, hcleared]

/-- New exports. -/
theorem postExports_confined (input : RequestInput) :
    MeetsConfined (fun reply past _ => Replies .postExports reply past)
      (postExports runtime input) [] () := by
  rw [postExports, MeetsConfined, meets_bind]
  refine meets_resolveIdentity (fun identity past s hresolves => ?_)
  simp only [meets_bind, meets_liftM]
  intro _ _ _ _
  refine meets_authorizeEach hauthorizes hresolves (fun past' s' _ hallows => ?_)
  have hcleared : ∀ key encoded, Cleared past' identity (.startPortableExport key encoded) :=
    fun _ _ => ⟨by simp [VaultOperation.createdKeys], by simp [VaultOperation.movedFact], hallows⟩
  refine meets_revealed (by simp) rfl hallows ?_
  simp [calls_requireBillingEntitlement (cleared_of_open rfl), perform, AllowedCall, hcleared]

omit hauthorizes in
/-- The other routes perform no operation that is confined. -/
theorem other_confined (request : VaultRequest) (hplain : request.route.plain = true)
    (hroute : request.route.changesFacts = false) :
    MeetsConfined (fun reply past _ => Replies request.route reply past)
      (request.handler runtime) [] () := by
  refine meets_plain hplain ?_
  obtain ⟨route, input⟩ := request
  rw [VaultRequest.handler]
  cases route with
  | postFacts | postFactConfirm | postFactReject | postFactDispute | postManualExtraction =>
    simp [VaultRoute.changesFacts] at hroute
  | getFacts | getDocuments | getDocumentsContent | postReports | getReports | postExports
  | getExports => simp [VaultRoute.plain] at hplain
  | postAiInterview =>
    simp only [postAiInterview, calls_bind, calls_liftM, calls_resolveIdentity,
      calls_authorizeEach, calls_sendPrivate]
    intro identity body _ key _ message _ categories _ version _
    refine calls_requireBillingEntitlement (cleared_of_open rfl) (fun _ _ => ?_)
    exact calls_recover (calls_perform (cleared_of_open rfl)) (fun _ => trivial)
  | _ =>
    simp [postDocuments, postUploadUrl, postDocumentComplete, getAuditEvents, postEmergencyAccess,
      postEmergencyDecide, postEmergencyRelease, changeEmergency, getConsents, postConsents,
      postConsentWithdraw, getPrivacyRequests, postPrivacyRequests, postConfirmDeletion,
      postCancelDeletion, postCheckout, postPortal, getSubscriptionRoute, getRefunds,
      calls_requireBillingEntitlement (cleared_of_open rfl),
      calls_whenReserved (cleared_of_open rfl), calls_openSession (cleared_of_open rfl),
      perform, AllowedCall, Cleared, VaultOperation.createdKeys, VaultOperation.movedFact,
      VaultOperation.readCategories]

/-- Every route is confined. -/
theorem handler_confined (request : VaultRequest) :
    MeetsConfined (fun reply past _ => Replies request.route reply past)
      (request.handler runtime) [] () := by
  obtain ⟨route, input⟩ := request
  cases route with
  | getFacts category => exact getFacts_confined hauthorizes category
  | postFacts => exact postFacts_confined hauthorizes input
  | postFactConfirm id => exact postFactConfirm_confined hauthorizes id input
  | postFactReject id => exact postFactReject_confined hauthorizes id input
  | postFactDispute id => exact postFactDispute_confined hauthorizes id input
  | postManualExtraction => exact postManualExtraction_confined hauthorizes input
  | getDocuments => exact getDocuments_confined hauthorizes
  | getDocumentsContent id => exact getDocumentsContent_confined hauthorizes id
  | postReports => exact postReports_confined hauthorizes input
  | getReports id => exact getReports_confined hauthorizes id
  | postExports => exact postExports_confined hauthorizes input
  | getExports id => exact getExports_confined hauthorizes id
  | _ => exact other_confined _ rfl rfl

/-- Every request is confined, however it ends. -/
theorem respond_confined (request : VaultRequest) :
    MeetsConfined (fun reply past _ => Replies request.route reply past)
      (request.respond runtime) [] () :=
  meets_recover (handler_confined hauthorizes request) (fun _ _ _ => trivial)

end Routes

end LegacyVault
