import LegacyVault.AccessConfinement
import LegacyVault.AuditedCalls
import LegacyVault.Library.RowInvariants
import LegacyVault.RouteEntitlements

/-!
# Audited before acting

From every state in which emergency requests ask for something, whatever
others do in between: the requests to the vault and household routes change
household rows only after an allowed event for the identity and the purpose
of the request was committed, and a request that is refused changes none.

The exceptions are new households and accepted invitations, which append no
event at all. A request is audited exactly when it is none of these.
-/

namespace LegacyVault

open Audit JsonText Handlers Handler RowTransaction RowTransaction.Program Store

/-! ## What an exchange does -/

/-- Two stores have the same household rows, but for idempotency records and new household
keys. -/
structure KeepsHouseholdRows (σ σ' : Vault) : Prop where
  rows : ∀ t, t ≠ .idempotencyRecords → t ≠ .accountIdempotencyRecords → t ≠ .householdKeys →
    SameRows (S := vaultSchema) t σ σ'
  keys : ∀ (k : Identifier) (key : HouseholdKeyRow), σ.get .householdKeys k = some key →
    σ'.get .householdKeys k = some key

theorem KeepsHouseholdRows.refl (σ : Vault) : KeepsHouseholdRows σ σ :=
  ⟨fun _ _ _ _ _ => rfl, fun _ _ h => h⟩

/-- The writes that leave emergency requests asking for something. -/
def AsksWrite (t : VaultTable) (_ : t.Key) (before after : Option t.Row) : Prop :=
  match t, before, after with
  | .emergencyAccessRequests, before, after =>
    (∀ request, before = some request → request.categories ≠ []) →
      ∀ request, after = some request → request.categories ≠ []
  | _, _, _ => True

theorem asksWrite_refl (t : VaultTable) (k : t.Key) (row : Option t.Row) :
    AsksWrite t k row row := by
  cases t <;> first | trivial | exact fun h => h

theorem asksWrite_trans (t : VaultTable) (k : t.Key) (u v w : Option t.Row)
    (h : AsksWrite t k u v) (h' : AsksWrite t k v w) : AsksWrite t k u w := by
  cases t <;> first | trivial | exact fun hu => h' (h hu)

section Effects

variable {σ σ' : Vault} {context : TenantContext}

theorem AsksSome.of_same (h : AsksSome σ)
    (hsame : SameRows (S := vaultSchema) .emergencyAccessRequests σ σ') : AsksSome σ' :=
  fun k request hrequest => h k request ((hsame k).symm.trans hrequest)

/-- Transactions that make such writes only. -/
theorem AsksSome.of_writes (h : AsksSome σ) {α : Type} {p : Transaction α}
    (hp : p.Writes (S := vaultSchema) AsksWrite) : AsksSome (p.transact σ).2 := by
  intro k request hrequest
  exact Protocol.rowsBecome_transact asksWrite_refl asksWrite_trans hp σ .emergencyAccessRequests k
    (h k) request hrequest

theorem createEmergencyAccessRequest_asks {input : EmergencyAccessWrite}
    (h : input.categories ≠ []) :
    (createEmergencyAccessRequest context input).Writes (S := vaultSchema) AsksWrite := by
  refine writes_bind (writes_select _) (fun recipient => ?_)
  cases recipient
  · exact writes_rollback _
  · refine writes_bind (writes_insertRow ?_) (fun _ => writes_commit _)
    intro _ request hrequest
    obtain rfl := Option.some.inj hrequest
    exact h

/-- Updates that keep the categories of a request are such writes. -/
theorem updateEmergency_asks {requestId : Identifier}
    {change : EmergencyAccessRow → Option EmergencyAccessRow}
    (hchange : ∀ old row, change old = some row → row.categories = old.categories) :
    (updateRow (S := vaultSchema) .emergencyAccessRequests requestId change :
      Transaction (Option EmergencyAccessRow)).Writes (S := vaultSchema) AsksWrite := by
  refine writes_updateRow (fun old row hrow hold request hrequest => ?_)
  obtain rfl := Option.some.inj hrequest
  rw [hchange old row hrow]
  exact hold old rfl

theorem decideEmergencyAccess_asks {requestId : Identifier} {expectedVersion : Nat}
    {decision : EmergencyDecision} {decisionAt : Instant} :
    (decideEmergencyAccess context requestId expectedVersion decision decisionAt).Writes
      (S := vaultSchema) AsksWrite := by
  refine writes_bind (updateEmergency_asks (fun old row hrow => ?_)) (fun updated => ?_)
  · rw [decideEmergencyRow] at hrow
    split at hrow
    · obtain rfl := Option.some.inj hrow
      rfl
    · cases hrow
  · cases updated <;> trivial

theorem releaseEmergencyAccess_asks {requestId : Identifier} {expectedVersion : Nat}
    {releasedAt : Instant} :
    (releaseEmergencyAccess context requestId expectedVersion releasedAt).Writes
      (S := vaultSchema) AsksWrite := by
  refine writes_bind (updateEmergency_asks (fun old row hrow => ?_)) (fun updated => ?_)
  · rw [releaseEmergencyRow] at hrow
    split at hrow
    · obtain rfl := Option.some.inj hrow
      rfl
    · cases hrow
  · cases updated <;> trivial

/-- The categories that are read are those of a request. -/
theorem getEmergencyAccessCategories_transacts {requestId : Identifier}
    {answer : Except RouteError (List RecordCategory)}
    (h : Transacts (getEmergencyAccessCategories context requestId) id σ answer σ') : σ' = σ ∧
      ∀ categories, answer = .ok categories → ∃ request : EmergencyAccessRow,
        σ.get .emergencyAccessRequests requestId = some request ∧
          request.categories = categories := by
  rcases h.executes with ⟨rfl, thrown, rfl⟩ | ⟨categories, ws', hexec, hσ', rfl⟩
  · exact ⟨rfl, by simp⟩
  · obtain ⟨found, ws₁, hselect, hfound⟩ := executes_bind_ok.mp hexec
    obtain ⟨σ₀, rfl, hrequest, rfl⟩ := executes_select.mp hselect
    cases found with
    | none => exact absurd hfound.1 (by simp)
    | some request =>
      obtain ⟨hcategories, rfl⟩ := hfound
      refine ⟨hσ', fun other hother => ?_⟩
      obtain rfl := Except.ok.inj hother
      exact ⟨request, (Option.filter_eq_some_iff.mp (Except.ok.inj hrequest).symm).1,
        (Except.ok.inj hcategories).symm⟩

end Effects

/-! ## Household operations -/

section Members

variable {sha256 : Sha256} {applicationKek : SymmetricKey}

/-- The operations on households and members leave emergency requests alone. -/
theorem onceProgram_leavesEmergency {call : OnceCall} (hcall : call.onMembers = true) :
    (onceProgram sha256 applicationKek call).Leaves VaultTable.emergencyAccessRequests := by
  cases call with
  | createHousehold account key input generated now =>
    exact OnceUse.program_leaves (by decide) (createHouseholdMutation_leaves (by decide)
      (by decide) (by decide) (by decide) (by decide) _ _)
  | acceptInvitation account key input generated acceptedAt now =>
    exact OnceUse.program_leaves (by decide) (acceptInvitationMutation_leaves (by decide)
      (by decide) (by decide) (by decide) _ _)
  | revokeInvitation context key input revokedAt now =>
    exact OnceUse.program_leaves (by decide)
      (revokeInvitationMutation_leaves (by decide) (by decide) _ _ _)
  | createInvitation context membershipId key input invitationId clock now =>
    rw [onceProgram, createMembershipInvitation]
    split
    · exact OnceUse.program_leaves (by decide)
        (createInvitationMutation_leaves (by decide) (by decide) _ _)
    · exact writes_rollback _
  | updateRole context key input now =>
    rw [onceProgram, updateMembershipRole]
    split
    · exact OnceUse.program_leaves (by decide)
        (updateRoleMutation_leaves (by decide) (by decide) _ _)
    · exact writes_rollback _
  | _ => simp [OnceCall.onMembers] at hcall

theorem AuditEnvironment.CommitsOnce.sameEmergency {env : AuditEnvironment} {call : OnceCall}
    {σ σ' : Vault} {answer : Except RouteError Json} (h : env.CommitsOnce call σ answer σ')
    (hcall : call.onMembers = true) :
    SameRows (S := vaultSchema) .emergencyAccessRequests σ σ' := by
  rw [h.store]
  exact (onceProgram_leavesEmergency hcall).transact σ

theorem AuditEnvironment.Accepts.sameEmergency {env : AuditEnvironment}
    {account : AuthenticatedAccountIdentity} {key : String} {input : AcceptanceInput}
    {σ σ' : Vault} {answer : Except RouteError Json}
    (h : env.Accepts account key input σ answer σ') :
    SameRows (S := vaultSchema) .emergencyAccessRequests σ σ' := by
  obtain ⟨acceptedAt, now, h⟩ := h
  dsimp only at h
  split at h
  · obtain ⟨-, rfl⟩ := h
    exact SameRows.refl _ _
  · obtain ⟨σ₁, hkey, hrest⟩ := h
    have hadded := hkey.rows .emergencyAccessRequests (by decide)
    rcases hrest with ⟨-, rfl⟩ | ⟨generated, -, -, honce⟩
    · exact hadded
    · exact hadded.trans (honce.sameEmergency rfl)

end Members

/-! ## Audit events -/

section Events

variable {env : AuditEnvironment} {identity : AuthenticatedTenantIdentity}
  {category : RecordCategory} {action : PermissionAction} {purpose : String} {ρ ρ' : AuditRows}
  {answer : Except RouteError Unit}

theorem rowsStay_trans {ρ₁ ρ₂ ρ₃ : AuditRows} (h : RowsStay ρ₁ ρ₂) (h' : RowsStay ρ₂ ρ₃) :
    RowsStay ρ₁ ρ₃ :=
  fun key row hrow => h' key row (h key row hrow)

/-- The next event names the actor by a pseudonym, and has the action and the outcome of the
call. -/
theorem nextEvent_names {hmac : Hmac} {localeCompare : String → String → Int}
    {auditKey : List UInt8} {call : AppendCall} {previous : Option AuditEventRow}
    {event : ChainedAuditEvent}
    (h : nextEvent hmac localeCompare auditKey call previous = .ok event) :
    pseudonymizeIdentifier hmac auditKey call.input.actorId = .ok event.actorPseudonym ∧
      event.action = call.input.action ∧ event.outcome = call.input.outcome := by
  obtain ⟨pseudonym, hpseudonym, hcreate⟩ := exceptBind_eq_ok.mp h
  obtain ⟨-, hinput, -⟩ := createAuditEvent_eq_ok.mp hcreate
  rw [hinput]
  exact ⟨hpseudonym, rfl, rfl⟩

variable (env identity ρ) in
/-- What appending the event of a decision does: nothing, or the event is recorded. -/
theorem append_records {decision : AuthorizationDecision} {id occurredAt : String}
    {acknowledged : Bool} {appended : Except String ChainedAuditEvent × AuditRows}
    (h : (append env.columns env.hmac env.localeCompare env.auditKey (decisionEvent identity
      category action purpose decision id occurredAt acknowledged)).transact ρ = appended) :
    RowsStay ρ appended.2 ∧ ∀ event, appended.1 = .ok event →
      ∃ row, env.Records identity purpose decision.outcome row ρ appended.2 := by
  obtain ⟨ws, hexec, hws⟩ := run_executes (append env.columns env.hmac env.localeCompare
    env.auditKey (decisionEvent identity category action purpose decision id occurredAt
      acknowledged)) ρ []
  rw [overlay_nil] at hexec hws
  rw [transact] at h
  cases hrun : (append env.columns env.hmac env.localeCompare env.auditKey (decisionEvent identity
      category action purpose decision id occurredAt acknowledged)).run ρ with
  | mk outcome after =>
    rw [hrun] at hexec hws h
    cases outcome with
    | error message =>
      subst h
      exact ⟨fun _ _ hrow => hrow, fun _ hevent => by cases hevent⟩
    | ok event =>
      subst h
      obtain ⟨ρ₀, row, -, happends⟩ := append_appends hexec
      rw [hws] at happends
      refine ⟨fun key other hother => ?_, fun _ _ => ⟨row, ?_⟩⟩
      · rcases happends.inserted.get_cases key with ⟨rfl, -⟩ | ⟨-, hold⟩
        · exact absurd (happends.free.symm.trans hother) (by simp)
        · exact hold.trans hother
      · obtain ⟨-, horganization, hhousehold, -, -, -, hactor, haction, houtcome, -⟩ :=
          AuditColumns.row_eq_some happends.stored
        obtain ⟨heventOrganization, heventHousehold, -⟩ := nextEvent_eq_ok happends.next
        obtain ⟨hpseudonym, heventAction, heventOutcome⟩ := nextEvent_names happends.next
        exact {
          new := happends.free
          stored := happends.inserted.row
          organization := by rw [← horganization, heventOrganization]; rfl
          household := by rw [← hhousehold, heventHousehold]; rfl
          actor := by rw [hactor]; exact hpseudonym
          action := haction.trans heventAction
          outcome := houtcome.trans heventOutcome }

/-- What `authorizeIdentity` records: when it returns an allowed event, and when it denies a
denied one. -/
theorem AuditEnvironment.Authorizes.records
    (h : env.Authorizes identity category action purpose ρ answer ρ') :
    RowsStay ρ ρ' ∧
      (answer = .ok () → ∃ row, env.Records identity purpose "allowed" row ρ ρ') ∧
      (answer = .error .authorizationDenied →
        ∃ row, env.Records identity purpose "denied" row ρ ρ') := by
  obtain ⟨now, id, occurredAt, acknowledged, rfl, hanswer⟩ := h
  obtain ⟨hstay, hrecords⟩ := append_records env identity ρ rfl
  refine ⟨hstay, ?_⟩
  split at hanswer
  case h_1 event hevent =>
    obtain ⟨row, hrow⟩ := hrecords event hevent
    rw [AuthorizationDecision.outcome] at hrow
    split at hanswer <;> rename_i hallowed
    · rw [if_pos hallowed] at hrow
      exact ⟨fun _ => ⟨row, hrow⟩, fun hdenied => by simp [hanswer] at hdenied⟩
    · rw [if_neg hallowed] at hrow
      exact ⟨fun hok => by simp [hanswer] at hok, fun _ => ⟨row, hrow⟩⟩
  case h_2 =>
    obtain ⟨message, rfl⟩ := hanswer
    exact ⟨fun hok => by simp at hok, fun hdenied => by simp at hdenied⟩

end Events

/-! ## Exchanges -/

section Exchanges

variable {env : AuditEnvironment} {s s' : AuditedVault} {call : HouseholdCall}
  {answer : call.Answer} {identity : AuthenticatedTenantIdentity} {purpose : String}

theorem OthersWork.refl (s : AuditedVault) : OthersWork s s := ⟨fun h => h, fun _ _ h => h⟩

/-- An exchange that leaves emergency requests and audit events alone. -/
theorem othersWork_of_same (haudit : s'.audit = s.audit)
    (hsame : SameRows (S := vaultSchema) .emergencyAccessRequests s.vault s'.vault) :
    OthersWork s s' :=
  ⟨fun hasks => hasks.of_same hsame, by rw [haudit]; exact fun _ _ h => h⟩

/-- What an operation on the vault does is what others may do, unless it asks for nothing. -/
theorem othersWork_of_commits {operation : VaultOperation} {context : TenantContext}
    {answer : Except RouteError operation.Result} (haudit : s'.audit = s.audit)
    (h : operation.Commits context s.vault answer s'.vault)
    (hasks : ∀ input, operation = .createEmergencyAccessRequest input → input.categories ≠ []) :
    OthersWork s s' := by
  have hwrites : ∀ {α : Type} {p : Transaction α}, p.Writes (S := vaultSchema) AsksWrite →
      s'.vault = (p.transact s.vault).2 → OthersWork s s' := by
    intro α p hp hstore
    exact ⟨fun hbefore => hstore ▸ hbefore.of_writes hp, by rw [haudit]; exact fun _ _ h => h⟩
  cases operation with
  | getFactFieldKey factId =>
    obtain ⟨hsame, -⟩ := getFactFieldKey_transacts h
    exact othersWork_of_same haudit (hsame ▸ SameRows.refl _ _)
  | getEmergencyAccessCategories requestId =>
    obtain ⟨hsame, -⟩ := getEmergencyAccessCategories_transacts h
    exact othersWork_of_same haudit (hsame ▸ SameRows.refl _ _)
  | createEmergencyAccessRequest input =>
    exact hwrites (createEmergencyAccessRequest_asks (hasks input rfl)) (Committed.store h)
  | decideEmergencyAccess requestId expectedVersion decision decisionAt =>
    exact hwrites decideEmergencyAccess_asks (Committed.store h)
  | releaseEmergencyAccess requestId expectedVersion releasedAt =>
    exact hwrites releaseEmergencyAccess_asks (Committed.store h)
  | _ => exact othersWork_of_same haudit h

/-- What a request does is what others may do, unless it asks for nothing. -/
theorem othersWork_of_exchange (h : auditedWorld env s call answer s')
    (hasks : ∀ actor input, call = .vault (.perform actor (.createEmergencyAccessRequest input)) →
      input.categories ≠ []) : OthersWork s s' := by
  cases call with
  | vault call =>
    cases call with
    | resolveIdentity | currentTime =>
      obtain rfl := h
      exact .refl _
    | authorizeIdentity actor category action purpose =>
      obtain ⟨hvault, hauthorizes⟩ := h
      exact ⟨fun hbefore => hvault ▸ hbefore, hauthorizes.records.1⟩
    | perform actor operation =>
      refine othersWork_of_commits h.1 h.2 (fun input hinput => hasks actor input ?_)
      rw [hinput]
  | resolveAccount | listHouseholds =>
    obtain rfl := h
    exact .refl _
  | createHousehold account key input =>
    obtain ⟨haudit, generated, now, honce⟩ := h
    exact othersWork_of_same haudit (honce.sameEmergency rfl)
  | acceptInvitation account key input => exact othersWork_of_same h.1 h.2.sameEmergency
  | listMembers actor => exact othersWork_of_same h.1 (h.2.rows _ (by decide))
  | createInvitation actor key input =>
    obtain ⟨haudit, invitationId, clock, now, honce⟩ := h
    exact othersWork_of_same haudit (honce.sameEmergency rfl)
  | revokeInvitation actor key input =>
    obtain ⟨haudit, revokedAt, now, honce⟩ := h
    exact othersWork_of_same haudit (honce.sameEmergency rfl)
  | updateMemberRole actor key input =>
    obtain ⟨haudit, now, honce⟩ := h
    exact othersWork_of_same haudit (honce.sameEmergency rfl)

/-- An operation that does not act leaves the vault as it is. -/
theorem commits_same {operation : VaultOperation} {context : TenantContext}
    {actor : AuthenticatedTenantIdentity} {answer : Except RouteError operation.Result}
    {σ σ' : Vault} (h : operation.Commits context σ answer σ')
    (hacts : operation.mark actor answer ≠ .acts actor)
    (hunaudited : operation.mark actor answer ≠ .unaudited) : σ' = σ := by
  cases operation with
  | getFactFieldKey => exact (getFactFieldKey_transacts h).1
  | getEmergencyAccessCategories => exact (getEmergencyAccessCategories_transacts h).1
  | createEmergencyAccessRequest input =>
    simp only [VaultOperation.mark] at hacts hunaudited
    split at hacts
    · rename_i hnone
      exact absurd (if_pos hnone) hunaudited
    · exact absurd rfl hacts
  | _ => exact absurd rfl hacts

/-- An exchange that does not act keeps the household rows. -/
theorem keeps_of_mark (h : auditedWorld env s call answer s')
    (hacts : ∀ actor, call.mark answer ≠ .acts actor)
    (hunaudited : call.mark answer ≠ .unaudited) : KeepsHouseholdRows s.vault s'.vault := by
  cases call with
  | vault call =>
    cases call with
    | resolveIdentity | currentTime =>
      obtain rfl := h
      exact .refl _
    | authorizeIdentity =>
      rw [h.1]
      exact .refl _
    | perform actor operation =>
      rw [commits_same h.2 (hacts actor) hunaudited]
      exact .refl _
  | resolveAccount | listHouseholds =>
    obtain rfl := h
    exact .refl _
  | createHousehold | acceptInvitation => exact absurd rfl hunaudited
  | listMembers actor | createInvitation actor | revokeInvitation actor | updateMemberRole actor =>
    exact absurd rfl (hacts actor)

/-- An exchange whose mark allows a purpose records an allowed event. -/
theorem records_of_allowed (h : auditedWorld env s call answer s')
    (hmark : call.mark answer = .allowed identity purpose) :
    ∃ row, env.Records identity purpose "allowed" row s.audit s'.audit := by
  cases call with
  | vault call =>
    cases call with
    | authorizeIdentity actor category action decided =>
      cases answer with
      | error thrown => cases hmark
      | ok result =>
        cases hmark
        exact h.2.records.2.1 rfl
    | resolveIdentity => cases answer <;> cases hmark
    | currentTime => cases hmark
    | perform actor operation =>
      cases operation <;>
        simp only [HouseholdCall.mark, VaultCall.mark, VaultOperation.mark] at hmark
      all_goals first | cases hmark | (split at hmark <;> cases hmark)
  | _ => cases hmark

/-- Where all emergency requests ask for something, some categories are read. -/
theorem mark_ne_readsNone (h : auditedWorld env s call answer s') (hasks : AsksSome s.vault) :
    call.mark answer ≠ .readsNone := by
  intro hmark
  cases call with
  | vault call =>
    cases call with
    | authorizeIdentity => cases answer <;> cases hmark
    | resolveIdentity => cases answer <;> cases hmark
    | currentTime => cases hmark
    | perform actor operation =>
      cases operation with
      | getEmergencyAccessCategories requestId =>
        simp only [HouseholdCall.mark, VaultCall.mark, VaultOperation.mark] at hmark
        split at hmark
        · rename_i hnone
          obtain ⟨request, hrequest, hcategories⟩ :=
            (getEmergencyAccessCategories_transacts h.2).2 [] hnone
          exact hasks requestId request hrequest hcategories
        · cases hmark
      | createEmergencyAccessRequest input =>
        simp only [HouseholdCall.mark, VaultCall.mark, VaultOperation.mark] at hmark
        split at hmark <;> cases hmark
      | _ => cases hmark
  | _ => cases hmark

end Exchanges

/-! ## Requests -/

/-- A request to a vault or a household route. -/
inductive ApiRequest where
  | vault (request : VaultRequest)
  | household (request : HouseholdRequest)

/-- The purpose that a request is decided for. -/
def ApiRequest.purpose : ApiRequest → Option String
  | vault request => some request.route.purpose
  | household request => request.route.purpose

/-- A well-formed request for a new household, or to accept an invitation. -/
def ApiRequest.changesForAccount (runtime : ApiRuntime) : ApiRequest → Prop
  | household ⟨.postHouseholds, input⟩ => ∃ form, householdForm input = .ok form
  | household ⟨.postAccept token, input⟩ => ∃ form, runtime.acceptanceForm token input = .ok form
  | _ => False

/-- A request exchanges a trace from a state on, among others. -/
inductive ApiRequest.Exchanges (runtime : ApiRuntime) (env : AuditEnvironment) :
    ApiRequest → AuditedVault → List (Exchange apiInterface AuditedVault) → Prop
  | vault {request : VaultRequest} {s s' : AuditedVault}
      {trace : List (Exchange apiInterface AuditedVault)}
      {rest : Handler apiInterface ApiProblem VaultReply}
      (hruns : RunsBeside (auditedWorld env) OthersWork
        (ofVault (request.respond runtime.toRouteRuntime)) s trace rest s') :
      Exchanges runtime env (.vault request) s trace
  | household {request : HouseholdRequest} {s s' : AuditedVault}
      {trace : List (Exchange apiInterface AuditedVault)}
      {rest : Handler apiInterface ApiProblem HouseholdReply}
      (hruns : RunsBeside (auditedWorld env) OthersWork (request.respond runtime) s trace rest s') :
      Exchanges runtime env (.household request) s trace

/-- The exchange changes household rows. -/
def ChangesHousehold (exchange : Exchange apiInterface AuditedVault) : Prop :=
  ¬ KeepsHouseholdRows exchange.before.vault exchange.after.vault

/-- What the exchanges of a request do is audited. -/
structure AuditedTrace (env : AuditEnvironment) (purpose : Option String)
    (trace : List (Exchange apiInterface AuditedVault)) : Prop where
  /-- Before household rows change, an allowed event of the request's identity and purpose was
  committed, and it is there. -/
  acts : ∀ before exchange after, trace = before ++ exchange :: after →
    ChangesHousehold exchange → ∃ identity decided row, purpose = some decided ∧
      (∃ resolved ∈ before, resolved.mark HouseholdCall.mark = .identified identity) ∧
      (∃ earlier ∈ before, env.Records identity decided "allowed" row earlier.before.audit
        earlier.after.audit) ∧
      exchange.before.audit.get .auditEvents row.key = some row
  /-- A denial commits a denied event of the purpose. -/
  denies : ∀ exchange ∈ trace, ∀ (identity : AuthenticatedTenantIdentity)
    (category : RecordCategory) (action : PermissionAction) (decided : String)
    (σ σ' : AuditedVault),
    exchange = ⟨σ, .vault (.authorizeIdentity identity category action decided),
      .error .authorizationDenied, σ'⟩ →
      ∃ row, env.Records identity decided "denied" row σ.audit σ'.audit
  /-- When a decision is denied, or its event is not appended, no household row changes. -/
  failsClosed : ∀ exchange ∈ trace, exchange.mark HouseholdCall.mark = .refused →
    ∀ other ∈ trace, ¬ ChangesHousehold other

/-- Whatever others do, the exchanges of the request are audited. -/
def AuditedBeforeActing (runtime : ApiRuntime) (env : AuditEnvironment) (request : ApiRequest) :
    Prop :=
  ∀ s trace, AsksSome s.vault → request.Exchanges runtime env s trace →
    AuditedTrace env request.purpose trace

section Audited

variable {runtime : ApiRuntime} {env : AuditEnvironment} {α : Type}
  {h rest : Handler apiInterface ApiProblem α} {purpose : Option String} {s s' : AuditedVault}
  {trace : List (Exchange apiInterface AuditedVault)}

/-- An exchange of an emergency request that asks for nothing is not audited. -/
theorem asks_of_mark {exchange : Exchange apiInterface AuditedVault}
    (hmark : exchange.mark HouseholdCall.mark ≠ .unaudited) (actor : AuthenticatedTenantIdentity)
    (input : EmergencyAccessWrite)
    (hcall : exchange.call = .vault (.perform actor (.createEmergencyAccessRequest input))) :
    input.categories ≠ [] := by
  obtain ⟨before, call, answer, after⟩ := exchange
  obtain rfl := hcall
  exact fun hnone => hmark (if_pos hnone)

/-- A handler that decides before it acts is audited. -/
theorem auditedTrace_of_watched (hasks : AsksSome s.vault)
    (hwatched : MeetsHouseholdAudit purpose h)
    (hruns : RunsBeside (auditedWorld env) OthersWork h s trace rest s') :
    AuditedTrace env purpose trace := by
  have hrule := hruns.permits hwatched
  have hpermitted : ∀ before exchange after, trace = before ++ exchange :: after →
      AuditRule purpose (before.map (Exchange.mark HouseholdCall.mark))
        (exchange.mark HouseholdCall.mark) := hrule
  have hmarks : ∀ exchange ∈ trace, exchange.mark HouseholdCall.mark ≠ .unaudited := by
    intro exchange hmem hmark
    obtain ⟨before, after, hsplit⟩ := List.append_of_mem hmem
    have hnow := hpermitted before exchange after hsplit
    rw [hmark] at hnow
    exact hnow
  obtain ⟨hworld, hlater⟩ := RunsBeside.relies (fun s => AsksSome s.vault)
    (fun s s' => RowsStay s.audit s'.audit)
    (fun exchange => exchange.mark HouseholdCall.mark ≠ .unaudited) hruns
    (fun _ _ _ hrow => hrow) (fun _ _ _ => rowsStay_trans)
    (fun _ _ hbefore hwork => ⟨hwork.asks hbefore, hwork.audit⟩)
    (fun _ _ _ _ hbefore hmark hexchange => by
      have hwork := othersWork_of_exchange hexchange (asks_of_mark hmark)
      exact ⟨hwork.asks hbefore, hwork.audit⟩) hasks hmarks
  -- an exchange that changes household rows is an act
  have hact : ∀ exchange ∈ trace, ChangesHousehold exchange →
      ∃ identity, exchange.mark HouseholdCall.mark = .acts identity := by
    intro exchange hmem hchanges
    by_contra hnone
    have hother : ∀ actor, exchange.call.mark exchange.answer ≠ .acts actor :=
      fun actor hmark => hnone ⟨actor, hmark⟩
    exact hchanges (keeps_of_mark (hworld exchange hmem).1 hother (hmarks exchange hmem))
  refine ⟨?_, ?_, ?_⟩
  · intro before exchange after hsplit hchanges
    have hmem : exchange ∈ trace := hsplit ▸ List.mem_append_right _ List.mem_cons_self
    obtain ⟨identity, hmark⟩ := hact exchange hmem hchanges
    have hnow := hpermitted before exchange after hsplit
    rw [hmark] at hnow
    obtain ⟨hidentified, -, hdecided⟩ := hnow
    obtain ⟨resolved, hresolved, hresolvedMark⟩ := List.mem_map.mp hidentified
    have hearlier : ∀ earlier ∈ before, earlier ∈ trace :=
      fun earlier hbefore => hsplit ▸ List.mem_append_left _ hbefore
    rcases hdecided with ⟨decided, hpurpose, hallowed⟩ | hnone
    · obtain ⟨earlier, hbefore, hallowedMark⟩ := List.mem_map.mp hallowed
      obtain ⟨row, hrow⟩ :=
        records_of_allowed (hworld earlier (hearlier earlier hbefore)).1 hallowedMark
      refine ⟨identity, decided, row, hpurpose, ⟨resolved, hresolved, hresolvedMark⟩,
        ⟨earlier, hbefore, hrow⟩, ?_⟩
      rw [hsplit, List.pairwise_append] at hlater
      exact hlater.2.2 earlier hbefore exchange List.mem_cons_self _ _ hrow.stored
    · obtain ⟨read, hbefore, hread⟩ := List.mem_map.mp hnone
      have hexchange := hworld read (hearlier read hbefore)
      exact absurd hread (mark_ne_readsNone hexchange.1 hexchange.2.1)
  · rintro exchange hmem identity category action decided σ σ' rfl
    exact (hworld _ hmem).1.2.records.2.2 rfl
  · intro exchange hmem hrefused other hother hchanges
    obtain ⟨identity, hmark⟩ := hact other hother hchanges
    obtain ⟨before, after, hsplit⟩ := List.append_of_mem hmem
    have hsides : other ∈ before ∨ other = exchange ∨ other ∈ after := by
      rw [hsplit] at hother
      simpa using hother
    rcases hsides with hbefore | rfl | hafter
    · have hnow := hpermitted before exchange after hsplit
      rw [hrefused] at hnow
      exact hnow identity (hmark ▸ List.mem_map_of_mem hbefore)
    · exact absurd (hrefused.symm.trans hmark) (by simp)
    · obtain ⟨middle, last, rfl⟩ := List.append_of_mem hafter
      have hnow := hpermitted (before ++ exchange :: middle) other last (by simp [hsplit])
      rw [hmark] at hnow
      refine hnow.2.1 (hrefused ▸ List.mem_map_of_mem ?_)
      exact List.mem_append_right _ List.mem_cons_self

/-- A request that is neither for a new household nor accepts an invitation is audited. -/
theorem audited_before_acting (hauthorizes : runtime.configured .authorizeIdentity = true)
    {request : ApiRequest} (hrequest : ¬ request.changesForAccount runtime) :
    AuditedBeforeActing runtime env request := by
  intro s trace hasks hexchanges
  cases hexchanges with
  | @vault request s s' trace rest hruns =>
    refine auditedTrace_of_watched hasks (MeetsAudit.ofVault ?_) hruns
    exact meets_recover (handler_audited hauthorizes request) (fun _ _ _ => trivial)
  | @household request s s' trace rest hruns =>
    refine auditedTrace_of_watched hasks ?_ hruns
    refine meets_recover (householdHandler_audited hauthorizes request ?_ ?_)
      (fun _ _ _ => trivial)
    · obtain ⟨route, input⟩ := request
      rintro rfl form hform
      exact hrequest ⟨form, hform⟩
    · obtain ⟨route, input⟩ := request
      rintro token rfl form hform
      exact hrequest ⟨form, hform⟩

end Audited

/-- An environment of the audit. -/
def exampleAudit : AuditEnvironment where
  sha256 := .transparent
  applicationKek := "application-kek"
  parse := fun _ => none
  columns := exampleColumns
  hmac := exampleHmac
  localeCompare := exampleCompare
  auditKey := exampleKey
  toLowerCase := String.toLower

/-- The routes with all their dependencies. -/
def exampleApi : ApiRuntime := { exampleRoutes with toLowerCase := String.toLower }

/-- The confirmation of a fact is audited. -/
theorem confirmation_audited :
    AuditedBeforeActing exampleApi exampleAudit (.vault confirmRequest) :=
  audited_before_acting rfl (fun h => h)

end LegacyVault
