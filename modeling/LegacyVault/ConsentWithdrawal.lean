import LegacyVault.AiInterviews
import LegacyVault.Library.InterleavedTransactions
import LegacyVault.Notifications

/-!
# Withdrawing a consent

Consent writes and the three readers of consents in any interleaving: the
active-consent read, the admission of an interview, and the reservation of an
annual-review notification. The consent rows are the replay of the committed
consent writes, so what a reader sees follows from the log.

Withdrawing the active consent leaves its purpose without a consent exactly
when it was the only grant that was not withdrawn. Grants are not unique, and
an older one becomes active again.
-/

namespace LegacyVault

open RowTransaction RowTransaction.Program RowTransaction.Protocol

/-- Requests of consent writers and readers. A reader says after how many ended sessions it
began. -/
inductive ConsentRequest where
  /-- `recordConsent`. -/
  | record (context : TenantContext) (input : ConsentWrite)
  /-- `withdrawConsent`. -/
  | withdraw (context : TenantContext) (consentId : Identifier) (expectedVersion : Nat)
      (withdrawnAt : Instant)
  /-- `getActiveConsent`. -/
  | readActive (context : TenantContext) (personId : Identifier) (purpose : ConsentPurpose)
      (begunAt : Nat)
  /-- `runAiInterview`, up to its admission. -/
  | interview (identity : TenantContext) (input : AiInterviewInput) (begunAt : Nat)
  /-- `getNotificationDeliveryInput`. -/
  | notify (context : TenantContext) (workflowId deliveryId : Identifier) (begunAt : Nat)

/-- Results of the requests. -/
inductive ConsentResult where
  | recorded (consent : ConsentRow)
  | withdrawn (consent : ConsentRow)
  | active (consent : Option ActiveConsent)
  | admission (result : Except String AdmittedInterview)
  | reserved (delivery : Option ReservedNotification)

/-- The transaction of a request. -/
def ConsentRequest.program (runtime : AiRuntime) : ConsentRequest → Transaction ConsentResult
  | record context input => do
    let consent ← recordConsent context input
    pure (.recorded consent)
  | withdraw context consentId expectedVersion withdrawnAt => do
    let consent ← withdrawConsent context consentId expectedVersion withdrawnAt
    pure (.withdrawn consent)
  | readActive context personId purpose _ => do
    let consent ← getActiveConsent context personId purpose
    pure (.active consent)
  | interview identity input _ => do
    let consent ← getActiveConsent identity identity.actorId .externalAi
    pure (.admission (admitInterview runtime identity input consent))
  | notify context workflowId deliveryId _ => do
    let delivery ← getNotificationDeliveryInput context workflowId deliveryId
    pure (.reserved delivery)

/-- A reader begins after the sessions that have ended. -/
def ConsentRequest.beginsAfter (ended : Nat) : ConsentRequest → Prop
  | readActive _ _ _ begunAt | interview _ _ begunAt | notify _ _ _ begunAt => begunAt = ended
  | record _ _ | withdraw _ _ _ _ => True

/-- Consent writers and readers, at any time. -/
abbrev consentProtocol (runtime : AiRuntime) : Protocol vaultSchema where
  Request := ConsentRequest
  Error := RepositoryError
  Result := ConsentResult
  program := ConsentRequest.program runtime
  permitted := fun log request => request.beginsAfter log.length

/-- A session of a consent writer or reader that ended. -/
abbrev ConsentEntry := Entry ConsentRequest RepositoryError ConsentResult

/-- Consent rows by identifier. -/
abbrev ConsentRows := Identifier → Option ConsentRow

/-- What a session that ended does to the consent rows. -/
def ConsentEntry.apply (entry : ConsentEntry) (rows : ConsentRows) : ConsentRows :=
  match entry with
  | ⟨.record context input, .committed _⟩ =>
    Function.update rows input.id (some (input.row context))
  | ⟨.withdraw context consentId expectedVersion withdrawnAt, .committed _⟩ =>
    Function.update rows consentId
      ((rows consentId).bind (withdrawConsentRow context expectedVersion withdrawnAt))
  | _ => rows

/-- The consent rows after the sessions that ended. -/
def consentsAfter (init : Vault) : List ConsentEntry → ConsentRows
  | [] => init.get .consents
  | entry :: log => entry.apply (consentsAfter init log)

/-- The committed consent rows are the replay of the log. -/
theorem consents_replay (runtime : AiRuntime) (init : Vault) :
    (consentProtocol runtime).Invariant init
      (fun log σ => ∀ id, σ.get .consents id = consentsAfter init log id)
      (fun _ _ => True) where
  refl := fun _ => trivial
  trans := fun _ _ => trivial
  start := fun _ => rfl
  commit := by
    intro log begun seen σ request result ws hinv _ _ _ _ hexec
    refine ⟨?_, trivial⟩
    have hkept : Leaves (S := vaultSchema) .consents (request.program runtime) →
        ∀ id, (σ.overlay ws).get .consents id = consentsAfter init log id := by
      intro hleaves id
      rw [hleaves.executes hexec id σ, Store.overlay_nil]
      exact hinv id
    cases request with
    | record context input =>
      obtain ⟨consent, ws₁, hrecord, hresult⟩ := executes_bind_ok.mp hexec
      rcases executes_insertRow.mp hrecord with ⟨-, -, hws⟩ | ⟨_, _, _, _, herror, _⟩
      · intro id
        have hfinal : ws = ws₁ := hresult.2
        rw [hfinal, hws, Store.overlay_cons, Store.overlay_nil, consentsAfter,
          ConsentEntry.apply]
        by_cases hid : id = input.id
        · rw [hid, Function.update_self, Store.get_set_self]
        · rw [Function.update_of_ne hid, Store.get_set_of_key_ne _ _ hid]
          exact hinv id
      · exact absurd herror (by simp)
    | withdraw context consentId expectedVersion withdrawnAt =>
      obtain ⟨consent, ws₁, hwithdraw, hresult⟩ := executes_bind_ok.mp hexec
      obtain ⟨updated, ws₂, hupdate, hrest⟩ := executes_bind_ok.mp hwithdraw
      rcases executes_updateRow.mp hupdate with ⟨old, new, hold, hchange, hupdated, hws⟩ |
        ⟨_, _, _, hupdated, _⟩
      · have hsome : updated = some new := Except.ok.inj hupdated
        rw [hsome] at hrest
        have hfinal : ws = ws₂ := hresult.2.trans hrest.2
        intro id
        rw [hfinal, hws, Store.overlay_cons, Store.overlay_nil, consentsAfter,
          ConsentEntry.apply]
        by_cases hid : id = consentId
        · have hrow : consentsAfter init log consentId = some old := (hinv consentId).symm.trans hold
          rw [hid, Function.update_self, Store.get_set_self, hrow]
          exact hchange.symm
        · rw [Function.update_of_ne hid, Store.get_set_of_key_ne _ _ hid]
          exact hinv id
      · have hnone : updated = none := Except.ok.inj hupdated
        rw [hnone] at hrest
        exact absurd hrest.1 (by simp)
    | readActive context personId purpose begunAt =>
      exact hkept (writes_bind (writes_select _) (fun _ => writes_commit _))
    | interview identity input begunAt =>
      exact hkept (writes_bind (writes_select _) (fun _ => writes_commit _))
    | notify context workflowId deliveryId begunAt =>
      exact hkept (writes_bind (getNotificationDeliveryInput_leaves (by decide) _ _ _)
        (fun _ => writes_commit _))
  rollback := by
    intro log begun seen σ request error ws hinv _ _ _ _ _ id
    cases request <;> exact hinv id
  abort := by
    intro log begun σ request hinv _ _ id
    cases request <;> exact hinv id

section Withdrawal

variable {runtime : AiRuntime} {context : TenantContext} {personId : Identifier}
  {purpose : ConsentPurpose}

/-- No row grants the purpose. -/
def Ungranted (context : TenantContext) (personId : Identifier) (purpose : ConsentPurpose)
    (rows : ConsentRows) : Prop :=
  ∀ id consent, rows id = some consent → consent.grants context personId purpose = false

/-- A session that recorded a grant of the purpose. -/
def ConsentEntry.Grants (entry : ConsentEntry) (context : TenantContext) (personId : Identifier)
    (purpose : ConsentPurpose) : Prop :=
  match entry with
  | ⟨.record recorder input, .committed _⟩ =>
    (input.row recorder).grants context personId purpose = true
  | _ => False

/-- A withdrawn row grants nothing. -/
theorem withdrawConsentRow_grants {writer : TenantContext} {expectedVersion : Nat}
    {withdrawnAt : Instant} {old new : ConsentRow}
    (h : withdrawConsentRow writer expectedVersion withdrawnAt old = some new) :
    new.grants context personId purpose = false := by
  unfold withdrawConsentRow at h
  split at h
  · have hnew := Option.some.inj h
    rw [← hnew]
    simp [ConsentRow.grants]
  · exact absurd h (by simp)

/-- Only a grant of the purpose ends its being ungranted. -/
theorem Ungranted.apply {rows : ConsentRows} (h : Ungranted context personId purpose rows)
    {entry : ConsentEntry} (hentry : ¬ entry.Grants context personId purpose) :
    Ungranted context personId purpose (entry.apply rows) := by
  obtain ⟨request, outcome⟩ := entry
  cases outcome with
  | rolledBack error => cases request <;> exact h
  | aborted => cases request <;> exact h
  | committed result =>
    cases request with
    | record writer input =>
      intro id consent hrow
      by_cases hid : id = input.id
      · rw [hid] at hrow
        have hconsent : input.row writer = consent := by
          simpa [ConsentEntry.apply] using hrow
        rw [← hconsent]
        exact Bool.eq_false_iff.mpr hentry
      · have hold : rows id = some consent := by
          simpa [ConsentEntry.apply, hid] using hrow
        exact h id consent hold
    | withdraw writer consentId expectedVersion withdrawnAt =>
      intro id consent hrow
      by_cases hid : id = consentId
      · rw [hid] at hrow
        have hbind : (rows consentId).bind
            (withdrawConsentRow writer expectedVersion withdrawnAt) = some consent := by
          simpa [ConsentEntry.apply] using hrow
        obtain ⟨old, -, hchange⟩ := Option.bind_eq_some_iff.mp hbind
        exact withdrawConsentRow_grants hchange
      · have hold : rows id = some consent := by
          simpa [ConsentEntry.apply, hid] using hrow
        exact h id consent hold
    | _ => exact h

/-- Without a new grant the purpose stays ungranted. -/
theorem consentsAfter_ungranted {init : Vault} {log later : List ConsentEntry}
    (h : Ungranted context personId purpose (consentsAfter init log))
    (hlater : ∀ entry ∈ later, ¬ entry.Grants context personId purpose) :
    Ungranted context personId purpose (consentsAfter init (later ++ log)) := by
  induction later with
  | nil => exact h
  | cons entry later ih =>
    have hrest := ih (fun other hmem => hlater other (List.mem_cons_of_mem _ hmem))
    exact hrest.apply (hlater entry List.mem_cons_self)

/-- Two contexts of one household. -/
def SameTenant (a b : TenantContext) : Prop :=
  a.organizationId = b.organizationId ∧ a.householdId = b.householdId

/-- Contexts of one household see the same grants. -/
theorem SameTenant.grants {a b : TenantContext} (h : SameTenant a b) (consent : ConsentRow)
    (personId : Identifier) (purpose : ConsentPurpose) :
    consent.grants a personId purpose = consent.grants b personId purpose := by
  simp only [ConsentRow.grants, TenantContext.sees, h.1, h.2]

/-- No grant of the purpose has been recorded between two systems. -/
def NoGrantSince (context : TenantContext) (personId : Identifier) (purpose : ConsentPurpose)
    (s₁ s₂ : (consentProtocol runtime).System) : Prop :=
  ∀ later : List ConsentEntry, s₂.log = later ++ s₁.log →
    ∀ entry ∈ later, ¬ entry.Grants context personId purpose

/-- What a withdrawal is for: until the next grant there is no active consent, and no reader
that begins after the withdrawal finds one. -/
structure WithdrawalEffective (context : TenantContext) (personId : Identifier)
    (purpose : ConsentPurpose) (s₁ : (consentProtocol runtime).System) : Prop where
  /-- `getActiveConsent` would return null. -/
  inactive : ∀ s₂, Later s₁ s₂ → NoGrantSince context personId purpose s₁ s₂ →
    activeConsent context personId purpose s₂.committed = none
  /-- `getActiveConsent` returns null. -/
  reads : ∀ s₂, Later s₁ s₂ → NoGrantSince context personId purpose s₁ s₂ →
    ∀ reader begunAt found, SameTenant reader context → s₁.log.length ≤ begunAt →
    (⟨.readActive reader personId purpose begunAt, .committed (.active found)⟩ : ConsentEntry) ∈
      s₂.log → found = none
  /-- No interview of the person goes on to the provider. -/
  interviews : purpose = .externalAi → ∀ s₂, Later s₁ s₂ →
    NoGrantSince context personId purpose s₁ s₂ →
    ∀ identity input begunAt admission, SameTenant identity context →
    identity.actorId = personId → s₁.log.length ≤ begunAt →
    (⟨.interview identity input begunAt, .committed (.admission admission)⟩ : ConsentEntry) ∈
      s₂.log → ∀ admitted, admission ≠ .ok admitted
  /-- No notification is reserved for the person. -/
  notifications : purpose = .transactionalEmail → ∀ s₂, Later s₁ s₂ →
    NoGrantSince context personId purpose s₁ s₂ →
    ∀ reader workflowId deliveryId begunAt delivery, SameTenant reader context →
    s₁.log.length ≤ begunAt →
    (⟨.notify reader workflowId deliveryId begunAt, .committed (.reserved (some delivery))⟩ :
      ConsentEntry) ∈ s₂.log → delivery.recipient.personId ≠ personId

/-- No consent but this one grants the purpose. -/
def SoleGrant (context : TenantContext) (personId : Identifier) (purpose : ConsentPurpose)
    (consentId : Identifier) (σ : Vault) : Prop :=
  ∀ id other, σ.get .consents id = some other → other.grants context personId purpose = true →
    id = consentId

/-- Rows that grant nothing have no active consent. -/
theorem activeConsent_ungranted {σ : Vault} {rows : ConsentRows}
    (hrows : ∀ id, σ.get .consents id = rows id) (h : Ungranted context personId purpose rows) :
    activeConsent context personId purpose σ = none := by
  rw [activeConsent_eq_none]
  intro id consent hget
  exact h id consent ((hrows id).symm.trans hget)

variable {init : Vault} {s s₁ s₂ : (consentProtocol runtime).System}

/-- The log after a system has no grant beyond it. -/
theorem NoGrantSince.ungranted (h : NoGrantSince context personId purpose s₁ s₂)
    (hungranted : Ungranted context personId purpose (consentsAfter init s₁.log))
    {log : List ConsentEntry} (hbefore : s₁.log <:+ log) (hafter : log <:+ s₂.log) :
    Ungranted context personId purpose (consentsAfter init log) := by
  obtain ⟨between, hbetween⟩ := hbefore
  obtain ⟨after, hafter⟩ := hafter
  have hlog : s₂.log = (after ++ between) ++ s₁.log := by
    rw [List.append_assoc, hbetween, hafter]
  rw [← hbetween]
  refine consentsAfter_ungranted hungranted ?_
  intro entry hmem
  exact h _ hlog entry (List.mem_append_right _ hmem)

/-- A reader that begins after an ungranted system has seen ungranted rows only. -/
theorem reader_ungranted (h : Reachable init s₁) (hlater : Later s₁ s₂)
    (hno : NoGrantSince context personId purpose s₁ s₂)
    (hungranted : Ungranted context personId purpose (consentsAfter init s₁.log))
    {request : ConsentRequest} {begunAt : Nat} {result : ConsentResult}
    (hmem : (⟨request, .committed result⟩ : ConsentEntry) ∈ s₂.log)
    (hreader : ∀ ended, request.beginsAfter ended → begunAt = ended)
    (hbegunAt : s₁.log.length ≤ begunAt) :
    ∃ (seen : Vault → Prop) (σ : Vault) (ws : List (Write vaultSchema)),
      (∀ σ₀, seen σ₀ → Ungranted context personId purpose (σ₀.get .consents)) ∧
      (request.program runtime).Executes seen σ [] (.ok result) ws := by
  obtain ⟨after, log₀, hlog⟩ := List.mem_iff_append.mp hmem
  obtain ⟨begun, seen, σ, hpermitted, hbegun, -, hstores, hexec⟩ :=
    (consents_replay runtime init).ended (h.later hlater) hlog
  obtain ⟨ws, hexec⟩ := hexec (.ok result) rfl
  refine ⟨seen, σ, ws, ?_, hexec⟩
  intro σ₀ hseen
  obtain ⟨log, hbegunLog, hlogBefore, hreplay⟩ := hstores σ₀ hseen
  have hlog₀ : log₀ <:+ s₂.log := by
    rw [hlog]
    exact (List.suffix_cons _ _).trans (List.suffix_append _ _)
  have hlength : s₁.log.length ≤ begun.length := by
    rw [← hreader _ hpermitted]
    exact hbegunAt
  have hbefore : s₁.log <:+ begun :=
    List.suffix_of_suffix_length_le hlater.log_suffix (hbegun.trans hlog₀) hlength
  have hrows : (σ₀.get .consents : ConsentRows) = consentsAfter init log := funext hreplay
  rw [hrows]
  exact hno.ungranted hungranted (hbefore.trans hbegunLog) (hlogBefore.trans hlog₀)

/-- Once no row grants the purpose, that stays effective until the next grant. -/
theorem withdrawalEffective_of_ungranted (h : Reachable init s₁)
    (hungranted : Ungranted context personId purpose (consentsAfter init s₁.log)) :
    WithdrawalEffective context personId purpose s₁ where
  inactive := by
    intro s₂ hlater hno
    have hreplay := (consents_replay runtime init).reachable (h.later hlater)
    exact activeConsent_ungranted hreplay
      (hno.ungranted hungranted hlater.log_suffix (List.suffix_refl _))
  reads := by
    intro s₂ hlater hno reader begunAt found htenant hbegun hmem
    obtain ⟨seen, σ, ws, hseen, hexec⟩ :=
      reader_ungranted h hlater hno hungranted hmem (fun _ hbegins => hbegins) hbegun
    obtain ⟨consent, ws₁, hread, hresult⟩ := executes_bind_ok.mp hexec
    obtain ⟨σ₀, hseen₀, hconsent, -⟩ := executes_select.mp hread
    have hfound : found = consent := by
      have heq := Except.ok.inj hresult.1
      exact ConsentResult.active.inj heq
    have hnone : activeConsent reader personId purpose σ₀ = none := by
      refine activeConsent_ungranted (fun _ => rfl) ?_
      intro id row hget
      rw [htenant.grants]
      exact hseen σ₀ hseen₀ id row hget
    have hactive : consent = none := by
      have heq := Except.ok.inj hconsent
      rw [Store.overlay_nil, hnone] at heq
      exact heq
    rw [hfound, hactive]
  interviews := by
    intro hpurpose s₂ hlater hno identity input begunAt admission htenant hactor hbegun hmem
      admitted hadmission
    obtain ⟨seen, σ, ws, hseen, hexec⟩ :=
      reader_ungranted h hlater hno hungranted hmem (fun _ hbegins => hbegins) hbegun
    obtain ⟨consent, ws₁, hread, hresult⟩ := executes_bind_ok.mp hexec
    obtain ⟨σ₀, hseen₀, hconsent, -⟩ := executes_select.mp hread
    have hnone : activeConsent identity identity.actorId .externalAi σ₀ = none := by
      refine activeConsent_ungranted (fun _ => rfl) ?_
      intro id row hget
      rw [htenant.grants, hactor, ← hpurpose]
      exact hseen σ₀ hseen₀ id row hget
    have hactive : consent = none := by
      have heq := Except.ok.inj hconsent
      rw [Store.overlay_nil, hnone] at heq
      exact heq
    have hadmitted : admission = admitInterview runtime identity input consent := by
      have heq := Except.ok.inj hresult.1
      exact ConsentResult.admission.inj heq
    have hsome := (admitInterview_eq_ok (hadmitted.symm.trans hadmission)).1
    exact absurd (hactive.symm.trans hsome) (by simp)
  notifications := by
    intro hpurpose s₂ hlater hno reader workflowId deliveryId begunAt delivery htenant hbegun hmem
      hperson
    obtain ⟨seen, σ, ws, hseen, hexec⟩ :=
      reader_ungranted h hlater hno hungranted hmem (fun _ hbegins => hbegins) hbegun
    obtain ⟨reserved, ws₁, hreserve, hresult⟩ := executes_bind_ok.mp hexec
    have hreserved : reserved = some delivery := by
      have heq := Except.ok.inj hresult.1
      exact (ConsentResult.reserved.inj heq).symm
    rw [hreserved] at hreserve
    obtain ⟨σ₀, hseen₀, hrecipient⟩ := executes_getNotificationDeliveryInput hreserve
    obtain ⟨id, row, hget, hgrants⟩ := notificationRecipient_grants hrecipient
    have hungrants := hseen σ₀ hseen₀ id row hget
    rw [← htenant.grants, hpurpose, ← hperson] at hungrants
    exact absurd hgrants (by simp [hungrants])

/-- In every run, a withdrawal is effective for a person and purpose exactly when no other consent
than the withdrawn one granted the purpose. The active consent is one of those it is asked of. -/
theorem withdrawal_effective_iff (runtime : AiRuntime) {init : Vault}
    {s s₁ : (consentProtocol runtime).System} (h : Reachable init s) (hstep : Step s s₁)
    {writer : TenantContext} {consentId : Identifier} {expectedVersion : Nat}
    {withdrawnAt : Instant} {result : ConsentResult}
    (hlog : s₁.log =
      ⟨.withdraw writer consentId expectedVersion withdrawnAt, .committed result⟩ :: s.log)
    (context : TenantContext) (personId : Identifier) (purpose : ConsentPurpose) :
    WithdrawalEffective context personId purpose s₁ ↔
      SoleGrant context personId purpose consentId s.committed := by
  have hbefore := (consents_replay runtime init).reachable h
  have hafter := (consents_replay runtime init).reachable (h.step hstep)
  have hreplay : ∀ id, s₁.committed.get .consents id =
      Function.update (consentsAfter init s.log) consentId
        ((consentsAfter init s.log consentId).bind
          (withdrawConsentRow writer expectedVersion withdrawnAt)) id := by
    intro id
    rw [hafter id, hlog]
    rfl
  constructor
  · intro heffective id other hget hgrants
    by_contra hid
    have hnone := heffective.inactive s₁ Relation.ReflTransGen.refl (by
      intro later hlater entry hmem
      have hempty : later = [] := by
        have hlength := congrArg List.length hlater
        rw [List.length_append] at hlength
        exact List.length_eq_zero_iff.mp (by omega)
      rw [hempty] at hmem
      exact absurd hmem (by simp))
    have hkept : s₁.committed.get .consents id = some other := by
      rw [hreplay id, Function.update_of_ne hid, ← hbefore id]
      exact hget
    have hnot := activeConsent_eq_none.mp hnone id other hkept
    exact absurd hgrants (by simp [hnot])
  · intro hsole
    refine withdrawalEffective_of_ungranted (h.step hstep) ?_
    intro id other hrow
    rw [← hafter id, hreplay id] at hrow
    by_cases hid : id = consentId
    · rw [hid, Function.update_self] at hrow
      obtain ⟨old, -, hchange⟩ := Option.bind_eq_some_iff.mp hrow
      exact withdrawConsentRow_grants hchange
    · rw [Function.update_of_ne hid, ← hbefore id] at hrow
      by_contra hgrants
      exact hid (hsole id other hrow (by simpa using hgrants))

/-- A grant of external AI by the caller. -/
def exampleGrant (id : Identifier) (grantedAt : Instant) : ConsentRequest :=
  .record exampleCaller ⟨id, exampleCaller.actorId, .externalAi, "2026-01", grantedAt⟩

theorem withdrawal_effective_example :
    ∃ s s₁ : (consentProtocol exampleRuntime).System, Reachable Store.empty s ∧ Step s s₁ ∧
      (WithdrawalEffective exampleCaller exampleCaller.actorId .externalAi s₁ ↔
        SoleGrant exampleCaller exampleCaller.actorId .externalAi "c1" s.committed) := by
  obtain ⟨s, s₁, h, hstep, hlog, hcommitted, hlog₁, -⟩ := sequential_last
    (P := consentProtocol exampleRuntime) Store.empty [exampleGrant "c1" 1]
    (.withdraw exampleCaller "c1" 1 2) ⟨trivial, trivial⟩ trivial
  rw [hcommitted] at hlog₁
  exact ⟨s, s₁, h, hstep, withdrawal_effective_iff exampleRuntime h hstep hlog₁ exampleCaller
    exampleCaller.actorId .externalAi⟩

/-- With two grants, withdrawing the active one makes the other active. -/
theorem withdrawal_ineffective :
    ∃ s s₁ : (consentProtocol exampleRuntime).System, Reachable Store.empty s ∧ Step s s₁ ∧
      (activeConsent exampleCaller exampleCaller.actorId .externalAi s.committed).map
        ConsentRow.id = some "c2" ∧
      (∃ result, s₁.log = ⟨.withdraw exampleCaller "c2" 1 3, .committed result⟩ :: s.log) ∧
      ¬ WithdrawalEffective exampleCaller exampleCaller.actorId .externalAi s₁ := by
  obtain ⟨s, s₁, h, hstep, hlog, hcommitted, hlog₁, hcommitted₁⟩ := sequential_last
    (P := consentProtocol exampleRuntime) Store.empty
    [exampleGrant "c1" 1, exampleGrant "c2" 2]
    (.withdraw exampleCaller "c2" 1 3) ⟨trivial, trivial, trivial⟩ trivial
  rw [hcommitted] at hlog₁ hcommitted₁
  refine ⟨s, s₁, h, hstep, ?_, ⟨_, hlog₁⟩, ?_⟩
  · rw [hcommitted]
    rfl
  · intro heffective
    have hnone := heffective.inactive s₁ Relation.ReflTransGen.refl (by
      intro later hlater entry hmem
      have hempty : later = [] := by simpa using hlater.symm
      rw [hempty] at hmem
      exact absurd hmem (by simp))
    have hactive : (activeConsent exampleCaller exampleCaller.actorId .externalAi
        s₁.committed).map ConsentRow.id = some "c1" := by
      rw [hcommitted₁]
      rfl
    rw [hnone] at hactive
    exact absurd hactive (by simp)

end Withdrawal

end LegacyVault
