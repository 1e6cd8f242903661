import LegacyVault.AuditedVault
import LegacyVault.ConfinedCalls

/-!
# Audited calls

What a request has to have exchanged before it acts. Marks say what an
exchange is to the audit: a decision about an identity, an act of an identity,
or an act that no decision covers. The rule on marks is shown for every route
but the two that change households for an account.

A route decides before it acts, and acts after granted decisions only. That
there are decisions at all is left to the store where the route reads the
categories to decide about from it.
-/

namespace LegacyVault

open JsonText Handlers Handler

/-! ## Marks -/

/-- What an exchange is to the audit. -/
inductive AuditMark where
  /-- The identity of the request was resolved. -/
  | identified (identity : AuthenticatedTenantIdentity)
  /-- A purpose of an identity was allowed. -/
  | allowed (identity : AuthenticatedTenantIdentity) (purpose : String)
  /-- A decision was not allowed, or its event was not appended. -/
  | refused
  /-- No categories were read to decide about. -/
  | readsNone
  /-- An identity acts. -/
  | acts (identity : AuthenticatedTenantIdentity)
  /-- An act that no decision covers. -/
  | unaudited
  /-- Nothing of these. -/
  | other
  deriving DecidableEq

/-- The mark of an operation on the vault. All operations act but for two, which read what there
is to decide about. -/
def VaultOperation.mark (identity : AuthenticatedTenantIdentity) :
    (operation : VaultOperation) → Except RouteError operation.Result → AuditMark
  | .getFactFieldKey _, _ => .other
  | .getEmergencyAccessCategories _, answer => if answer = .ok [] then .readsNone else .other
  | .createEmergencyAccessRequest input, _ =>
    if input.categories = [] then .unaudited else .acts identity
  | _, _ => .acts identity

/-- The mark of a call of the vault routes. -/
def VaultCall.mark : (call : VaultCall) → call.Answer → AuditMark
  | .resolveIdentity, .ok identity => .identified identity
  | .resolveIdentity, .error _ => .other
  | .currentTime, _ => .other
  | .authorizeIdentity identity _ _ purpose, .ok _ => .allowed identity purpose
  | .authorizeIdentity _ _ _ _, .error _ => .refused
  | .perform identity operation, answer => operation.mark identity answer

/-- The mark of a call of the API's routes. -/
def HouseholdCall.mark : (call : HouseholdCall) → call.Answer → AuditMark
  | .vault call, answer => call.mark answer
  | .resolveAccount, _ | .listHouseholds _, _ => .other
  | .createHousehold _ _ _, _ | .acceptInvitation _ _ _, _ => .unaudited
  | .listMembers identity, _ | .createInvitation identity _ _, _
  | .revokeInvitation identity _ _, _ | .updateMemberRole identity _ _, _ => .acts identity

/-- The rule: decisions are for the purpose, about the identity of the request and before any
act; an identity acts after decisions for the purpose, all of them allowed. -/
def AuditRule (purpose : Option String) (past : List AuditMark) : AuditMark → Prop
  | .allowed identity decided =>
    purpose = some decided ∧ .identified identity ∈ past ∧ ∀ other, .acts other ∉ past
  | .refused => ∀ other, .acts other ∉ past
  | .acts identity => .identified identity ∈ past ∧ .refused ∉ past ∧
    ((∃ decided, purpose = some decided ∧ .allowed identity decided ∈ past) ∨ .readsNone ∈ past)
  | .unaudited => False
  | .identified _ | .readsNone | .other => True

/-- The identity of the request is known, and nothing is done or refused. -/
structure Identified (past : List AuditMark) (identity : AuthenticatedTenantIdentity) : Prop where
  identified : .identified identity ∈ past
  noActs : ∀ other, .acts other ∉ past
  notRefused : .refused ∉ past

/-- The identity can act. -/
structure MayAct (purpose : Option String) (past : List AuditMark)
    (identity : AuthenticatedTenantIdentity) : Prop extends Identified past identity where
  decided : (∃ decided, purpose = some decided ∧ .allowed identity decided ∈ past) ∨
    .readsNone ∈ past

section Marks

variable {purpose : Option String} {past : List AuditMark} {mark : AuditMark}
  {identity : AuthenticatedTenantIdentity}

/-- What neither acts nor refuses changes nothing. -/
theorem Identified.append (h : Identified past identity) (hacts : ∀ other, mark ≠ .acts other)
    (hrefused : mark ≠ .refused) : Identified (past ++ [mark]) identity where
  identified := List.mem_append_left _ h.identified
  noActs := by
    intro other hmem
    rcases List.mem_append.mp hmem with hold | hnew
    · exact h.noActs other hold
    · exact hacts other (List.mem_singleton.mp hnew).symm
  notRefused := by
    intro hmem
    rcases List.mem_append.mp hmem with hold | hnew
    · exact h.notRefused hold
    · exact hrefused (List.mem_singleton.mp hnew).symm

end Marks

/-! ## Parts of routes -/

/-- The weakest precondition of a vault route under the rule. -/
abbrev MeetsAudit {ε α : Type} (purpose : Option String)
    (post : α → List (Exchange vaultInterface Unit) → Unit → Prop)
    (h : Handler vaultInterface ε α) (past : List (Exchange vaultInterface Unit)) (s : Unit) :
    Prop :=
  Watched VaultCall.mark (AuditRule purpose) post h past s

/-- The marks of a past. -/
abbrev marks (past : List (Exchange vaultInterface Unit)) : List AuditMark :=
  past.map (Exchange.mark VaultCall.mark)

/-- A call of an identity that acts: it neither resolves nor decides. -/
def ActingCall (identity : AuthenticatedTenantIdentity) : VaultCall → Prop
  | .currentTime => True
  | .perform actor (.createEmergencyAccessRequest input) =>
    actor = identity ∧ input.categories ≠ []
  | .perform actor _ => actor = identity
  | .resolveIdentity | .authorizeIdentity _ _ _ _ => False

section Parts

variable {runtime : RouteRuntime} {purpose : Option String}
  {identity : AuthenticatedTenantIdentity} {past : List (Exchange vaultInterface Unit)} {s : Unit}

/-- The mark of an acting call is an act of the identity, or nothing. -/
theorem mark_of_acting {call : VaultCall} {answer : call.Answer} (hcall : ActingCall identity call) :
    call.mark answer = .acts identity ∨ call.mark answer = .other ∨
      call.mark answer = .readsNone := by
  cases call with
  | resolveIdentity | authorizeIdentity => exact hcall.elim
  | currentTime => exact Or.inr (Or.inl rfl)
  | perform actor operation =>
    cases operation with
    | getFactFieldKey => exact Or.inr (Or.inl rfl)
    | getEmergencyAccessCategories requestId =>
      rw [VaultCall.mark, VaultOperation.mark]
      split
      · exact Or.inr (Or.inr rfl)
      · exact Or.inr (Or.inl rfl)
    | createEmergencyAccessRequest input =>
      obtain ⟨rfl, hcategories⟩ := hcall
      exact Or.inl (if_neg hcategories)
    | _ =>
      obtain rfl := hcall
      exact Or.inl rfl

/-- A part that acts, over any calls. -/
theorem watched_acts {I : Interface} {ε α : Type}
    {view : ∀ call : I.Call, I.Answer call → AuditMark} {allowed : I.Call → Prop}
    {h : Handler I ε α} {past : List (Exchange I Unit)}
    (hmark : ∀ call answer, allowed call → view call answer = .acts identity ∨
      view call answer = .other ∨ view call answer = .readsNone)
    (hmay : MayAct purpose (past.map (Exchange.mark view)) identity)
    (hcalls : h.Calls allowed (fun _ => True)) :
    Watched view (AuditRule purpose) (fun _ _ _ => True) h past s := by
  refine hcalls.watched (fun more exchange hmore hcall => ?_)
  rw [List.map_append]
  have hrefused : .refused ∉ past.map (Exchange.mark view) ++ more.map (Exchange.mark view) := by
    intro hmem
    rcases List.mem_append.mp hmem with hold | hnew
    · exact hmay.notRefused hold
    · obtain ⟨earlier, hearlier, heq⟩ := List.mem_map.mp hnew
      rcases hmark _ earlier.answer (hmore earlier hearlier) with h | h | h <;>
        exact absurd (h.symm.trans heq) (by simp)
  rcases hmark _ exchange.answer hcall with h | h | h
  · rw [Exchange.mark, h]
    refine ⟨List.mem_append_left _ hmay.identified, hrefused, ?_⟩
    rcases hmay.decided with ⟨decided, hpurpose, hmem⟩ | hmem
    · exact Or.inl ⟨decided, hpurpose, List.mem_append_left _ hmem⟩
    · exact Or.inr (List.mem_append_left _ hmem)
  · rw [Exchange.mark, h]
    trivial
  · rw [Exchange.mark, h]
    trivial

/-- A part of a vault route that acts. -/
theorem meets_acts {ε α : Type} {h : Handler vaultInterface ε α}
    (hmay : MayAct purpose (marks past) identity)
    (hcalls : h.Calls (ActingCall identity) (fun _ => True)) :
    MeetsAudit purpose (fun _ _ _ => True) h past s :=
  watched_acts (fun _ _ hcall => mark_of_acting hcall) hmay hcalls

/-- The identity of the request. -/
theorem meets_identified
    {post : AuthenticatedTenantIdentity → List (Exchange vaultInterface Unit) → Unit → Prop}
    (hpost : ∀ identity past s, Identified (marks past) identity → post identity past s) :
    MeetsAudit purpose post resolveIdentity [] s := by
  intro answer _ _
  cases answer with
  | error thrown => exact ⟨trivial, trivial⟩
  | ok identity =>
    refine ⟨trivial, hpost identity _ _ ⟨List.mem_singleton_self _, fun other hmem => ?_, ?_⟩⟩
    · exact absurd (List.mem_singleton.mp hmem) (by simp [Exchange.mark, VaultCall.mark])
    · simp [marks, Exchange.mark, VaultCall.mark]

/-- A decision. -/
theorem meets_decided {category : RecordCategory} {action : PermissionAction} {decided : String}
    {post : Unit → List (Exchange vaultInterface Unit) → Unit → Prop}
    (hauthorizes : runtime.configured .authorizeIdentity = true)
    (hidentified : Identified (marks past) identity)
    (hpost : ∀ past' s, marks past ⊆ marks past' → MayAct (some decided) (marks past') identity →
      post () past' s) :
    MeetsAudit (some decided) post (authorizeIdentity runtime identity category action decided)
      past s := by
  rw [MeetsAudit, authorizeIdentity, if_pos hauthorizes, Watched, meets_ask]
  intro answer _ _
  cases answer with
  | error thrown => exact ⟨hidentified.noActs, trivial⟩
  | ok result =>
    refine ⟨⟨rfl, hidentified.identified, hidentified.noActs⟩, ?_⟩
    have hmarks : ∀ s' : Unit, marks (past ++
        [⟨s, .authorizeIdentity identity category action decided, .ok result, s'⟩]) =
        marks past ++ [.allowed identity decided] := fun _ => List.map_append
    refine hpost _ _ ?_ ?_
    · rw [hmarks]
      exact List.subset_append_left ..
    · rw [hmarks]
      exact ⟨hidentified.append (by simp) (by simp),
        Or.inl ⟨decided, rfl, List.mem_append_right _ List.mem_cons_self⟩⟩

/-- Decisions about some categories, if there are any. -/
theorem meets_decidedEach {categories : List RecordCategory} {action : PermissionAction}
    {decided : String} {post : Unit → List (Exchange vaultInterface Unit) → Unit → Prop}
    (hauthorizes : runtime.configured .authorizeIdentity = true)
    (hidentified : Identified (marks past) identity)
    (hsome : categories ≠ [] ∨ .readsNone ∈ marks past)
    (hpost : ∀ past' s, MayAct (some decided) (marks past') identity → post () past' s) :
    MeetsAudit (some decided) post (authorizeEach runtime identity categories action decided)
      past s := by
  -- The identity can act once the loop has been through a category.
  refine meets_forM (fun before past' _ => marks past ⊆ marks past' ∧
    Identified (marks past') identity ∧
      (before ≠ [] → MayAct (some decided) (marks past') identity)) ?_ ?_
      ⟨List.Subset.refl _, hidentified, fun h => absurd rfl h⟩
  · rintro before category - past' s' ⟨hsubset, hbefore, -⟩
    refine meets_decided hauthorizes hbefore (fun past'' s'' hnext hmay => ?_)
    exact ⟨List.Subset.trans hsubset hnext, hmay.toIdentified, fun _ => hmay⟩
  · rintro past' s' ⟨hsubset, hend, hmay⟩
    refine hpost past' s' ?_
    by_cases hcategories : categories = []
    · exact ⟨hend, Or.inr (hsubset (hsome.resolve_left (not_not.mpr hcategories)))⟩
    · exact hmay hcategories

/-- The field key of a fact is read. -/
theorem meets_readsFieldKey {factId : Identifier}
    {post : String → List (Exchange vaultInterface Unit) → Unit → Prop}
    (hidentified : Identified (marks past) identity)
    (hpost : ∀ fieldKey past' s, Identified (marks past') identity → post fieldKey past' s) :
    MeetsAudit purpose post (perform identity (.getFactFieldKey factId)) past s := by
  intro answer _ _
  refine ⟨trivial, ?_⟩
  rw [meets_ofExcept]
  rintro fieldKey rfl
  refine hpost fieldKey _ _ ?_
  rw [marks, List.map_append]
  exact hidentified.append (by simp [Exchange.mark, VaultCall.mark, VaultOperation.mark])
    (by simp [Exchange.mark, VaultCall.mark, VaultOperation.mark])

/-- The categories of an emergency request are read. -/
theorem meets_readsCategories {requestId : Identifier}
    {post : List RecordCategory → List (Exchange vaultInterface Unit) → Unit → Prop}
    (hidentified : Identified (marks past) identity)
    (hpost : ∀ categories past' s, Identified (marks past') identity →
      (categories ≠ [] ∨ .readsNone ∈ marks past') → post categories past' s) :
    MeetsAudit purpose post (perform identity (.getEmergencyAccessCategories requestId)) past s := by
  intro answer _ _
  have hmark : VaultCall.mark (.perform identity (.getEmergencyAccessCategories requestId)) answer =
      if answer = .ok [] then .readsNone else .other := rfl
  have hplain : ∀ mark, (if answer = .ok [] then AuditMark.readsNone else .other) = mark →
      mark = .readsNone ∨ mark = .other := by
    intro mark h
    split at h
    · exact Or.inl h.symm
    · exact Or.inr h.symm
  refine ⟨?_, ?_⟩
  · change AuditRule purpose _
      (VaultCall.mark (.perform identity (.getEmergencyAccessCategories requestId)) answer)
    rcases hplain _ hmark.symm with h | h <;> rw [h] <;> trivial
  · rw [meets_ofExcept]
    rintro categories rfl
    refine hpost categories _ _ ?_ ?_
    · rw [marks, List.map_append]
      rcases hplain _ hmark.symm with h | h <;>
        exact hidentified.append (by simp [Exchange.mark, h]) (by simp [Exchange.mark, h])
    · by_cases hcategories : categories = []
      · refine Or.inr ?_
        rw [marks, List.map_append, hcategories]
        exact List.mem_append_right _ List.mem_cons_self
      · exact Or.inl hcategories

end Parts

/-! ## Acting parts -/

section Acts

variable {runtime : RouteRuntime} {identity : AuthenticatedTenantIdentity}

/-- A part that acts for an identity only. -/
abbrev Acts {ε α : Type} (identity : AuthenticatedTenantIdentity)
    (h : Handler vaultInterface ε α) : Prop :=
  h.Calls (ActingCall identity) (fun _ => True)

@[simp] theorem acts_currentTime {post : Instant → Prop} :
    currentTime.Calls (ActingCall identity) post ↔ ∀ now, post now := by
  rw [currentTime, calls_ask]
  exact and_iff_right trivial

@[simp] theorem acts_replayFact {stored : Option StoredResponse} :
    Acts identity (replayFact stored) := by
  cases stored <;> trivial

@[simp] theorem acts_replayStored {stored : Option StoredResponse} :
    Acts identity (replayStored stored) := by
  cases stored <;> trivial

/-- What happens under a reserved key. -/
theorem acts_whenReserved {replay : Option StoredResponse → RouteHandler VaultReply} {key : String}
    {request : Json} {next : RouteHandler VaultReply}
    (hreplay : ∀ stored, Acts identity (replay stored)) (hnext : Acts identity next) :
    Acts identity (whenReserved replay identity key request next) := by
  rw [Acts, whenReserved, calls_bind, perform, calls_ask]
  simp only [calls_ofExcept, forall_answers]
  refine ⟨rfl, fun reservation => ?_⟩
  cases reservation with
  | replay stored => exact hreplay stored
  | reserved => exact hnext

/-- The check of an entitlement, and what follows. -/
theorem acts_afterEntitlement {α : Type} {entitlement : BillableEntitlement}
    {next : Unit → RouteHandler α} (hnext : Acts identity (next ())) :
    Acts identity (requireBillingEntitlement runtime identity entitlement >>= next) := by
  simp only [Acts, requireBillingEntitlement, calls_bind, calls_liftM, perform, calls_ask,
    calls_ofExcept]
  exact fun _ _ => ⟨rfl, fun _ _ _ _ _ => hnext⟩

/-- A session of the billing provider. -/
theorem acts_openSession {changed failed : String} {session : String → RouteHandler Json}
    {expectedVersion : Nat} {input : RequestInput} (hsession : ∀ key, Acts identity (session key)) :
    Acts identity (openSession identity changed failed session expectedVersion input) := by
  rw [Acts, openSession, calls_bind, perform, calls_ask]
  refine ⟨rfl, ?_⟩
  simp only [calls_ofExcept, forall_answers, calls_bind, calls_liftM]
  intro subscription _ _
  refine calls_recover ?_ (fun _ => trivial)
  simp only [calls_bind, calls_liftM]
  exact fun key _ => hsession key

theorem acts_emergencyConflict {detail : String} {handler : RouteHandler VaultReply}
    (hacts : Acts identity handler) : Acts identity (emergencyConflict detail handler) := by
  refine calls_recover hacts (fun thrown => ?_)
  split <;> trivial

end Acts

/-! ## Vault routes -/

/-- The purpose that a route decides about. -/
def VaultRoute.purpose : VaultRoute → String
  | getFacts _ => "vault.fact.list"
  | postFacts => "vault.fact.create"
  | postFactConfirm _ => "vault.fact.confirm"
  | postFactReject _ => "vault.fact.reject"
  | postFactDispute _ => "vault.fact.dispute"
  | postManualExtraction => "vault.extraction.manual"
  | getDocuments => "vault.document.list"
  | getDocumentsContent _ => "vault.document.content.read"
  | postDocuments => "vault.document.create"
  | postUploadUrl _ => "vault.document.upload-url"
  | postDocumentComplete _ => "vault.document.complete"
  | getAuditEvents _ _ => "vault.audit.read"
  | postAiInterview => "vault.ai.interview"
  | postEmergencyAccess => "vault.emergency-access.request"
  | postEmergencyDecide _ => "vault.emergency-access.decide"
  | postEmergencyRelease _ => "vault.emergency-access.release"
  | getConsents _ => "vault.consent.read"
  | postConsents => "vault.consent.record"
  | postConsentWithdraw _ => "vault.consent.withdraw"
  | getPrivacyRequests => "vault.privacy-request.read"
  | postPrivacyRequests => "vault.privacy-request.create"
  | postConfirmDeletion _ => "vault.privacy-request.confirm-deletion"
  | postCancelDeletion _ => "vault.privacy-request.cancel-deletion"
  | postExports => "vault.export.create"
  | getExports _ => "vault.export.read"
  | getReports _ => "vault.report.read"
  | postReports => "vault.report.create"
  | postCheckout => "vault.billing.checkout"
  | postPortal => "vault.billing.portal"
  | getSubscription => "vault.billing.read"
  | getRefunds => "vault.billing.refunds.read"

/-! ### Categories that requests name -/

theorem listedCategories_ne_nil {category : Option String} {categories : List RecordCategory}
    (h : listedCategories category = .ok categories) : categories ≠ [] := by
  rw [listedCategories] at h
  split at h
  · obtain rfl := Except.ok.inj h
    decide
  · split at h
    · obtain rfl := Except.ok.inj h
      exact List.cons_ne_nil _ _
    · cases h

/-- Without its repetitions a list that has elements still has some. -/
theorem eraseDups_ne_nil {α : Type} [BEq α] {items : List α} (h : items ≠ []) :
    items.eraseDups ≠ [] := by
  cases items with
  | nil => exact absurd rfl h
  | cons item items =>
    rw [List.eraseDups_cons]
    exact List.cons_ne_nil _ _

theorem requestCategories_ne_nil {body : Json} {categories : List RecordCategory}
    (h : requestCategories body = .ok categories) : categories ≠ [] := by
  rw [requestCategories] at h
  split at h
  case h_2 => cases h
  case h_1 items _ =>
    split at h
    case h_1 => cases h
    case h_3 => cases h
    case h_2 named hnone hnamed =>
      obtain rfl := Except.ok.inj h
      exact eraseDups_ne_nil hnone

theorem emergencyForm_categories {identity : AuthenticatedTenantIdentity} {body : Json}
    {form : EmergencyInput} (h : emergencyForm identity body = .ok form) : form.categories ≠ [] := by
  rw [emergencyForm] at h
  obtain ⟨recipient, -, h⟩ := exceptBind_eq_ok.mp h
  obtain ⟨_, -, h⟩ := exceptBind_eq_ok.mp h
  obtain ⟨categories, hcategories, h⟩ := exceptBind_eq_ok.mp h
  obtain ⟨reason, -, h⟩ := exceptBind_eq_ok.mp h
  dsimp only at h
  split at h
  · obtain ⟨_, hrefused, -⟩ := exceptBind_eq_ok.mp h
    cases hrefused
  · obtain ⟨_, -, h⟩ := exceptBind_eq_ok.mp h
    obtain rfl := Except.ok.inj h
    have hlength := List.length_pos_iff.mpr (requestCategories_ne_nil hcategories)
    refine List.length_pos_iff.mp ?_
    rw [List.length_insertionSort]
    exact hlength

theorem candidateForms_length {runtime : RouteRuntime} {index : Nat} {items : List Json}
    {forms : List (RecordCategory × ManualCandidate)}
    (h : runtime.candidateForms index items = .ok forms) : forms.length = items.length := by
  induction items generalizing index forms with
  | nil =>
    obtain rfl := Except.ok.inj h
    rfl
  | cons candidate items ih =>
    rw [RouteRuntime.candidateForms] at h
    obtain ⟨first, -, h⟩ := exceptBind_eq_ok.mp h
    obtain ⟨rest, hrest, h⟩ := exceptBind_eq_ok.mp h
    obtain rfl := Except.ok.inj h
    rw [List.length_cons, List.length_cons, ih hrest]

theorem extractionCandidates_ne_nil {runtime : RouteRuntime} {body : Json}
    {forms : List (RecordCategory × ManualCandidate)}
    (h : runtime.extractionCandidates body = .ok forms) : forms.map Prod.fst ≠ [] := by
  rw [RouteRuntime.extractionCandidates] at h
  split at h
  case h_2 => cases h
  case h_1 items _ =>
    split at h
    · cases h
    · rename_i hlength
      have hforms := candidateForms_length h
      refine List.length_pos_iff.mp ?_
      rw [List.length_map, hforms]
      omega

section Routes

variable {runtime : RouteRuntime} (hauthorizes : runtime.configured .authorizeIdentity = true)

include hauthorizes

/-- Transitions of facts. -/
theorem transitionFact_audited {purpose : String}
    {transition : AuthenticatedTenantIdentity → Nat → RouteHandler Json} {id : String}
    {input : RequestInput}
    (htransition : ∀ identity expectedVersion, Acts identity (transition identity expectedVersion)) :
    MeetsAudit (some purpose) (fun _ _ _ => True)
      (transitionFact runtime purpose transition id input) [] () := by
  rw [transitionFact, MeetsAudit, Watched, meets_bind]
  refine meets_identified (fun identity past s hidentified => ?_)
  simp only [meets_bind, meets_liftM]
  intro _ _
  refine meets_readsFieldKey hidentified (fun fieldKey past' s' hread => ?_)
  simp only [meets_bind, meets_liftM]
  intro category _
  refine meets_decided hauthorizes hread (fun past'' s'' _ hmay => meets_acts hmay ?_)
  simp only [calls_bind, calls_liftM]
  intro key _ expectedVersion _
  refine acts_whenReserved (fun _ => acts_replayFact) ?_
  simp only [Acts, calls_bind]
  refine (htransition identity expectedVersion).mono (fun changed _ => ?_)
  simp [perform, ActingCall, sendJson]

/-- Changes of emergency requests. -/
theorem changeEmergency_audited {identity : AuthenticatedTenantIdentity}
    {past : List (Exchange vaultInterface Unit)} {s : Unit} {id purpose conflict : String}
    {shape : Json} {change : Instant → RouteHandler Json} {input : RequestInput}
    (hidentified : Identified (marks past) identity) (hchange : ∀ now, Acts identity (change now)) :
    MeetsAudit (some purpose) (fun _ _ _ => True)
      (changeEmergency runtime identity id purpose conflict shape change input) past s := by
  rw [changeEmergency, MeetsAudit, Watched, meets_bind]
  refine meets_readsCategories hidentified (fun categories past' s' hread hsome => ?_)
  rw [meets_bind]
  refine meets_decidedEach hauthorizes hread hsome (fun past'' s'' hmay => meets_acts hmay ?_)
  simp only [calls_bind, calls_liftM]
  intro key _
  refine acts_whenReserved (fun _ => acts_replayStored) ?_
  simp only [Acts, calls_bind, acts_currentTime]
  intro now
  refine acts_emergencyConflict ?_
  simp only [Acts, calls_bind]
  refine (hchange now).mono (fun changed _ => ?_)
  simp [perform, ActingCall, sendPrivate]

/-- Every vault route decides before it acts. -/
theorem handler_audited (request : VaultRequest) :
    MeetsAudit (some request.route.purpose) (fun _ _ _ => True) (request.handler runtime) [] () := by
  obtain ⟨route, input⟩ := request
  rw [VaultRequest.handler]
  cases route with
  -- decisions about one category
  | postFacts | postConsents | getPrivacyRequests | postPrivacyRequests | postCheckout | postPortal
  | getSubscription | getRefunds | getAuditEvents | getConsents | postConsentWithdraw
  | postConfirmDeletion | postCancelDeletion =>
    simp only [postFacts, getAuditEvents, getConsents, postConsents, postConsentWithdraw,
      getPrivacyRequests, postPrivacyRequests, postConfirmDeletion, postCancelDeletion,
      postCheckout, postPortal, getSubscriptionRoute, getRefunds, meets_bind]
    refine meets_identified (fun identity past s hidentified => ?_)
    simp only [meets_bind, meets_liftM]
    intros
    refine meets_decided hauthorizes hidentified (fun past' s' _ hmay => meets_acts hmay ?_)
    simp [perform, ActingCall, sendJson, sendPrivate, acts_whenReserved, acts_openSession]
  -- decisions about all categories
  | getDocuments | getDocumentsContent | postUploadUrl | postDocumentComplete | getExports
  | getReports =>
    simp only [getDocuments, getDocumentsContent, postUploadUrl, postDocumentComplete, getExports,
      getReports, meets_bind]
    refine meets_identified (fun identity past s hidentified => ?_)
    simp only [meets_bind, meets_liftM]
    intros
    refine meets_decidedEach hauthorizes hidentified (Or.inl (by decide))
      (fun past' s' hmay => meets_acts hmay ?_)
    simp [perform, ActingCall, sendJson, sendPrivate]
  | postDocuments | postExports | postReports =>
    simp only [postDocuments, postExports, postReports, meets_bind]
    refine meets_identified (fun identity past s hidentified => ?_)
    simp only [meets_bind, meets_liftM]
    intros
    refine meets_decidedEach hauthorizes hidentified (Or.inl (by decide))
      (fun past' s' hmay => meets_acts hmay (acts_afterEntitlement ?_))
    simp [perform, ActingCall, sendJson, sendPrivate, acts_whenReserved]
  | postFactConfirm id =>
    refine transitionFact_audited hauthorizes (fun identity expectedVersion => ?_)
    simp [perform, ActingCall]
  | postFactReject id | postFactDispute id =>
    refine transitionFact_audited hauthorizes (fun identity expectedVersion => ?_)
    simp [perform, ActingCall]
  | getFacts category =>
    simp only [getFacts, meets_bind]
    refine meets_identified (fun identity past s hidentified => ?_)
    simp only [meets_bind, meets_liftM]
    intro _ _ categories hcategories
    refine meets_decidedEach hauthorizes hidentified
      (Or.inl (listedCategories_ne_nil hcategories)) (fun past' s' hmay => meets_acts hmay ?_)
    simp [perform, ActingCall, sendPrivate]
  | postManualExtraction =>
    simp only [postManualExtraction, meets_bind]
    refine meets_identified (fun identity past s hidentified => ?_)
    simp only [meets_bind, meets_liftM]
    intro _ _ _ _ _ _ _ _ _ _ candidates hcandidates
    refine meets_decidedEach hauthorizes hidentified
      (Or.inl (extractionCandidates_ne_nil hcandidates)) (fun past' s' hmay => meets_acts hmay ?_)
    simp [perform, ActingCall, sendJson]
  | postAiInterview =>
    simp only [postAiInterview, meets_bind]
    refine meets_identified (fun identity past s hidentified => ?_)
    simp only [meets_bind, meets_liftM]
    intro _ _ _ _ _ _ categories hcategories _ _
    refine meets_decidedEach hauthorizes hidentified
      (Or.inl (requestCategories_ne_nil hcategories)) (fun past' s' hmay => meets_acts hmay ?_)
    refine acts_afterEntitlement ?_
    simp only [Acts, calls_bind, calls_liftM]
    intro _ _
    refine calls_recover ?_ (fun _ => trivial)
    simp [perform, ActingCall, sendPrivate]
  | postEmergencyAccess =>
    simp only [postEmergencyAccess, meets_bind]
    refine meets_identified (fun identity past s hidentified => ?_)
    simp only [meets_bind, meets_liftM]
    intro _ _ _ _ form hform
    have hcategories := emergencyForm_categories hform
    refine meets_decidedEach hauthorizes hidentified (Or.inl hcategories)
      (fun past' s' hmay => meets_acts hmay ?_)
    simp [perform, ActingCall, sendPrivate, acts_whenReserved, hcategories]
  | postEmergencyDecide id =>
    simp only [postEmergencyDecide, meets_bind]
    refine meets_identified (fun identity past s hidentified => ?_)
    simp only [meets_bind, meets_liftM]
    intro _ _ _ _ _ _ _ _
    exact changeEmergency_audited hauthorizes hidentified (fun now => by simp [perform, ActingCall])
  | postEmergencyRelease id =>
    simp only [postEmergencyRelease, meets_bind]
    refine meets_identified (fun identity past s hidentified => ?_)
    simp only [meets_bind, meets_liftM]
    intro _ _ _ _
    exact changeEmergency_audited hauthorizes hidentified (fun now => by simp [perform, ActingCall])

end Routes

/-! ## Household routes -/

/-- The purpose that a route decides about, if it decides. -/
def HouseholdRoute.purpose : HouseholdRoute → Option String
  | getHouseholds | postHouseholds | postAccept _ => none
  | getMembers => some "vault.member.list"
  | postInvitations => some "vault.member.invite"
  | postRevoke _ => some "vault.member.invitation.revoke"
  | postMemberRole _ => some "vault.member.role.update"

/-- A call is an act of an identity, however it is answered. -/
def HouseholdCall.IsActOf (identity : AuthenticatedTenantIdentity) (call : HouseholdCall) : Prop :=
  ∀ answer, call.mark answer = .acts identity

/-- A call decides nothing and does nothing. -/
def HouseholdCall.IsOther (call : HouseholdCall) : Prop := ∀ answer, call.mark answer = .other

/-- The weakest precondition of a household route under the rule. -/
abbrev MeetsHouseholdAudit {ε α : Type} (purpose : Option String) (h : Handler apiInterface ε α) :
    Prop :=
  Watched HouseholdCall.mark (AuditRule purpose) (fun _ _ _ => True) h [] ()

/-- A vault route decides before it acts, over more calls as well. -/
theorem MeetsAudit.ofVault {ε α : Type} {purpose : Option String} {h : Handler vaultInterface ε α}
    (hmeets : MeetsAudit purpose (fun _ _ _ => True) h [] ()) :
    MeetsHouseholdAudit purpose (ofVault h) :=
  Watched.embed hmeets (fun _ _ => rfl) rfl (fun _ _ _ _ _ _ => trivial)

section HouseholdRoutes

variable {runtime : ApiRuntime}

/-- The routes of a member decide before they act. -/
theorem asApprover_audited (hauthorizes : runtime.configured .authorizeIdentity = true)
    {α : Type} {purpose : String} {next : AuthenticatedTenantIdentity → HouseholdHandler α}
    (hnext : ∀ identity,
      (next identity).Calls (HouseholdCall.IsActOf identity) (fun _ => True)) :
    MeetsHouseholdAudit (some purpose) (asApprover runtime purpose next) := by
  rw [asApprover, MeetsHouseholdAudit, Watched, meets_bind]
  have hresolves : MeetsAudit (some purpose)
      (fun identity past _ => Identified (marks past) identity) resolveIdentity [] () :=
    meets_identified (fun _ _ _ h => h)
  refine Watched.embed hresolves (fun _ _ => rfl) rfl ?_
  intro identity past past' s hpast hidentified
  rw [meets_bind]
  have hdecides : MeetsAudit (some purpose)
      (fun _ past _ => MayAct (some purpose) (marks past) identity)
      (authorizeEach runtime.toRouteRuntime identity allRecordCategories .approve purpose) past s :=
    meets_decidedEach hauthorizes hidentified (Or.inl (by decide)) (fun _ _ h => h)
  refine Watched.embed hdecides (fun _ _ => rfl) hpast ?_
  intro _ decided decided' s' hdecided hmay
  refine watched_acts (fun call answer hcall => Or.inl (hcall answer)) ?_ (hnext identity)
  rw [hdecided]
  exact hmay

/-- A call that nothing is decided about, and that does nothing. -/
theorem watched_resolveAccount {α : Type} {purpose : Option String}
    {next : AuthenticatedAccountIdentity → HouseholdHandler α}
    (hnext : ∀ account, (next account).Calls HouseholdCall.IsOther (fun _ => True)) :
    MeetsHouseholdAudit purpose (resolveAccount >>= next) := by
  have hcalls : (resolveAccount >>= next).Calls HouseholdCall.IsOther (fun _ => True) := by
    rw [calls_bind, resolveAccount, calls_ask]
    simp only [calls_ofExcept]
    exact ⟨fun _ => rfl, fun _ account _ => hnext account⟩
  refine hcalls.watched (fun more exchange _ hcall => ?_)
  rw [Exchange.mark, hcall exchange.answer]
  trivial

/-- Every household route that does not change households for an account decides before it
acts. -/
theorem householdHandler_audited (hauthorizes : runtime.configured .authorizeIdentity = true)
    (request : HouseholdRequest)
    (hcreates : request.route = .postHouseholds → ∀ form, householdForm request.input ≠ .ok form)
    (haccepts : ∀ token, request.route = .postAccept token →
      ∀ form, runtime.acceptanceForm token request.input ≠ .ok form) :
    MeetsHouseholdAudit request.route.purpose (request.handler runtime) := by
  obtain ⟨route, input⟩ := request
  rw [HouseholdRequest.handler]
  cases route with
  | getHouseholds =>
    refine watched_resolveAccount (fun account => ?_)
    simp [HouseholdCall.IsOther, HouseholdCall.mark]
  | postHouseholds =>
    refine watched_resolveAccount (fun account => ?_)
    simp only [calls_bind, calls_liftM]
    exact fun form hform => absurd hform (hcreates rfl form)
  | postAccept token =>
    refine watched_resolveAccount (fun account => ?_)
    simp only [calls_bind, calls_liftM]
    exact fun form hform => absurd hform (haccepts token rfl form)
  | getMembers =>
    refine asApprover_audited hauthorizes (fun identity => ?_)
    simp [HouseholdCall.IsActOf, HouseholdCall.mark]
  | postInvitations =>
    refine asApprover_audited hauthorizes (fun identity => ?_)
    simp [HouseholdCall.IsActOf, HouseholdCall.mark]
  | postRevoke id =>
    refine asApprover_audited hauthorizes (fun identity => ?_)
    simp [HouseholdCall.IsActOf, HouseholdCall.mark]
  | postMemberRole id =>
    refine asApprover_audited hauthorizes (fun identity => ?_)
    simp [HouseholdCall.IsActOf, HouseholdCall.mark]

end HouseholdRoutes

end LegacyVault
