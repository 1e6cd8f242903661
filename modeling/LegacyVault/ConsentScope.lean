import LegacyVault.MembershipIdentities
import LegacyVault.RouteEntitlements

/-!
# The scope of consent writes

What a request to record or to withdraw a consent does with the consents of
other people. Recording is refused for anybody but the requester and inserts
a row of its own. Withdrawing names the row by its id, and nothing compares
the person of that row with the requester: an authorized member withdraws
every active consent of the household whose id and version are known.

A request is run alone, from any store.
-/

namespace LegacyVault

open JsonText RowTransaction RowTransaction.Program Store Handlers

/-- A route that writes consents. -/
inductive ConsentRoute where
  | record
  | withdraw (consentId : String)

/-- The route among those of the vault. -/
def ConsentRoute.vaultRoute : ConsentRoute → VaultRoute
  | record => .postConsents
  | withdraw consentId => .postConsentWithdraw consentId

/-- What an operation of the consent routes answers at a time, and what it does with the store. -/
def VaultOperation.ConsentEffect (sha256 : Sha256) (context : TenantContext) (now : Instant) :
    (operation : VaultOperation) → Vault → Except RouteError operation.Result → Vault → Prop
  | .recordConsent input grantedAt => fun σ answer σ' =>
    ∃ id, Transacts (LegacyVault.recordConsent context
      ⟨id, input.personId, input.purpose, input.policyVersion, grantedAt⟩)
      ConsentRow.recordedJson σ answer σ'
  | .withdrawConsent consentId expectedVersion withdrawnAt =>
    Transacts (LegacyVault.withdrawConsent context consentId expectedVersion withdrawnAt)
      ConsentRow.withdrawnJson
  | operation => operation.Effect sha256 context now

/-- The store under a request of an identity that is run alone. The policy decides what the
identity may do, and the clock reads what it likes. -/
def consentWorld (parse : String → Option Int) (sha256 : Sha256)
    (identity : AuthenticatedTenantIdentity) : World vaultInterface Vault := fun σ call answer σ' =>
  match call, answer with
  | .resolveIdentity, answer => σ' = σ ∧ ∀ resolved, answer = .ok resolved → resolved = identity
  | .currentTime, _ => σ' = σ
  | .authorizeIdentity who category action purpose, answer => σ' = σ ∧
    (answer = .ok () → ∃ now, requireIdentityAuthorization parse who category action purpose now)
  | .perform who operation, answer =>
    ∃ now, operation.ConsentEffect sha256 who.context now σ answer σ'

/-- Consents of other people than the given one are unchanged. -/
def KeepsConsentsOfOthers (personId : Identifier) (σ σ' : Vault) : Prop :=
  ∀ (k : Identifier) (consent : ConsentRow), σ.get .consents k = some consent →
    consent.personId ≠ personId → σ'.get .consents k = some consent

/-- However far a request of the identity runs, the consents of other people are unchanged. -/
def SelfScoped (parse : String → Option Int) (sha256 : Sha256) (runtime : RouteRuntime)
    (identity : AuthenticatedTenantIdentity) (route : ConsentRoute) (input : RequestInput)
    (σ : Vault) : Prop :=
  ∀ trace rest σ', Runs (consentWorld parse sha256 identity)
    ((VaultRequest.mk route.vaultRoute input).respond runtime) σ trace rest σ' →
    KeepsConsentsOfOthers identity.actorId σ σ'

/-- The request withdraws a consent of somebody else: the identity may withdraw consents, the
key of the request is free, and the id is that of a consent of the household that is active at
the expected version. -/
structure WithdrawsForAnother (parse : String → Option Int) (runtime : RouteRuntime)
    (identity : AuthenticatedTenantIdentity) (consentId : String) (input : RequestInput)
    (σ : Vault) : Prop where
  /-- The policy allows the identity to withdraw consents at some time, if it is asked. -/
  authorized : runtime.configured .authorizeIdentity = true → ∃ now,
    requireIdentityAuthorization parse identity .householdInstructions .approve
      "vault.consent.withdraw" now = true
  /-- The path names a UUID. -/
  uuid : isUuid consentId = true
  /-- The key can be reserved. -/
  key : ∃ key, input.key = .ok key ∧
    σ.get .idempotencyRecords (identity.context.recordKey key) = none
  /-- The consent is active at the expected version, and it is not the requester's. -/
  consent : ∃ (expectedVersion : Nat) (consent : ConsentRow),
    runtime.expectedVersion input = .ok expectedVersion ∧
    σ.get .consents consentId = some consent ∧ identity.context.sees consent = true ∧
    consent.version = expectedVersion ∧ consent.withdrawnAt = none ∧
    consent.personId ≠ identity.actorId

section Stores

variable {σ σ₁ σ₂ : Vault} {personId : Identifier} {context : TenantContext}

theorem KeepsConsentsOfOthers.refl (personId : Identifier) (σ : Vault) :
    KeepsConsentsOfOthers personId σ σ := fun _ _ hrow _ => hrow

theorem KeepsConsentsOfOthers.trans (h : KeepsConsentsOfOthers personId σ σ₁)
    (h' : KeepsConsentsOfOthers personId σ₁ σ₂) : KeepsConsentsOfOthers personId σ σ₂ :=
  fun k consent hrow hother => h' k consent (h k consent hrow hother) hother

/-- The same consents. -/
theorem KeepsConsentsOfOthers.of_same (h : SameRows (S := vaultSchema) .consents σ σ₁) :
    KeepsConsentsOfOthers personId σ σ₁ := fun k _ hrow _ => (h k).trans hrow

/-- A recorded consent is a row of its own. -/
theorem recordConsent_keeps (input : ConsentWrite) (σ : Vault) :
    KeepsConsentsOfOthers personId σ ((LegacyVault.recordConsent context input).transact σ).2 := by
  intro k consent hrow _
  rw [transact, LegacyVault.recordConsent, run_insertRow]
  by_cases hnew : (σ.get .consents input.id).isNone = true
  · have hne : k ≠ input.id := by
      rintro rfl
      rw [hrow] at hnew
      exact absurd hnew (by simp)
    rw [if_pos hnew]
    exact (get_set_of_key_ne σ (some (input.row context)) hne).trans hrow
  · rw [if_neg hnew]
    exact hrow

/-- Withdrawing a consent replaces its row, or fails. -/
theorem withdrawConsent_transact (consentId : Identifier) (expectedVersion : Nat)
    (withdrawnAt : Instant) (σ : Vault) :
    (LegacyVault.withdrawConsent context consentId expectedVersion withdrawnAt).transact σ =
      match (σ.get .consents consentId).bind
        (withdrawConsentRow context expectedVersion withdrawnAt) with
      | some consent => (.ok consent, σ.set .consents consentId (some consent))
      | none => (.error (.error "consent withdrawal conflict or unavailable"), σ) := by
  rw [transact, LegacyVault.withdrawConsent, run_bind, run_updateRow]
  cases (σ.get .consents consentId).bind (withdrawConsentRow context expectedVersion withdrawnAt)
  · rfl
  · rfl

/-- Withdrawing a consent of the person keeps the consents of other people. -/
theorem withdrawConsent_keeps {consentId : Identifier} {expectedVersion : Nat}
    {withdrawnAt : Instant} {σ : Vault}
    (hown : ∀ consent : ConsentRow, σ.get .consents consentId = some consent →
      (withdrawConsentRow context expectedVersion withdrawnAt consent).isSome = true →
      consent.personId = personId) :
    KeepsConsentsOfOthers personId σ
      ((LegacyVault.withdrawConsent context consentId expectedVersion withdrawnAt).transact
        σ).2 := by
  intro k consent hrow hother
  rw [withdrawConsent_transact]
  cases hfound : (σ.get .consents consentId).bind
      (withdrawConsentRow context expectedVersion withdrawnAt) with
  | none => exact hrow
  | some changed =>
    obtain ⟨old, hold, hchange⟩ := Option.bind_eq_some_iff.mp hfound
    have hne : k ≠ consentId := by
      rintro rfl
      obtain rfl : consent = old := Option.some.inj (hrow.symm.trans hold)
      exact hother (hown consent hold (by rw [hchange]; rfl))
    exact (get_set_of_key_ne σ (some changed) hne).trans hrow

end Stores

section Requests

variable {parse : String → Option Int} {sha256 : Sha256} {runtime : RouteRuntime}
  {identity : AuthenticatedTenantIdentity} {input : RequestInput} {σ : Vault}

variable (identity) in
/-- An exchange that keeps the consents of other people. -/
abbrev ScopedExchange (exchange : Exchange vaultInterface Vault) : Prop :=
  KeepsConsentsOfOthers identity.actorId exchange.before exchange.after

variable (parse sha256 identity) in
/-- The weakest precondition under which the scope is studied. -/
abbrev MeetsScope {α : Type} (post : α → List (Exchange vaultInterface Vault) → Vault → Prop)
    (h : RouteHandler α) (past : List (Exchange vaultInterface Vault)) (σ : Vault) : Prop :=
  Meets (consentWorld parse sha256 identity) (fun _ => ScopedExchange identity) post h past σ

/-- The identity is the one that the request is of. -/
theorem meets_resolved {post : AuthenticatedTenantIdentity →
      List (Exchange vaultInterface Vault) → Vault → Prop}
    (hpost : ∀ past, post identity past σ) (past : List (Exchange vaultInterface Vault)) :
    MeetsScope parse sha256 identity post resolveIdentity past σ := by
  rw [resolveIdentity, MeetsScope, meets_ask]
  rintro answer _ ⟨rfl, hanswer⟩
  refine ⟨KeepsConsentsOfOthers.refl _ _, ?_⟩
  rw [meets_ofExcept]
  intro resolved hresolved
  obtain rfl := hanswer resolved hresolved
  exact hpost _

/-- What goes on is authorized, if the policy is asked. -/
theorem meets_authorized {category : RecordCategory} {action : PermissionAction}
    {purpose : String} {post : Unit → List (Exchange vaultInterface Vault) → Vault → Prop}
    (hpost : ∀ past, (runtime.configured .authorizeIdentity = true → ∃ now,
      requireIdentityAuthorization parse identity category action purpose now = true) →
      post () past σ) (past : List (Exchange vaultInterface Vault)) :
    MeetsScope parse sha256 identity post
      (authorizeIdentity runtime identity category action purpose) past σ := by
  rw [authorizeIdentity]
  by_cases hconfigured : runtime.configured .authorizeIdentity = true
  · rw [if_pos hconfigured, MeetsScope, meets_ask]
    rintro answer _ ⟨rfl, hanswer⟩
    refine ⟨KeepsConsentsOfOthers.refl _ _, ?_⟩
    rw [meets_ofExcept]
    intro _ hallowed
    exact hpost _ (fun _ => hanswer hallowed)
  · rw [if_neg hconfigured]
    exact hpost _ (fun hasked => absurd hasked hconfigured)

/-- A record of the key leaves no room for the request: it is answered without an operation. -/
theorem meets_whenReserved {key : String} {request : Json} {next : RouteHandler VaultReply}
    (hnext : σ.get .idempotencyRecords (identity.context.recordKey key) = none →
      ∀ past σ₁, SameRows (S := vaultSchema) .consents σ σ₁ →
      MeetsScope parse sha256 identity (fun _ _ _ => True) next past σ₁)
    (past : List (Exchange vaultInterface Vault)) :
    MeetsScope parse sha256 identity (fun _ _ _ => True)
      (whenReserved replayStored identity key request next) past σ := by
  rw [whenReserved, MeetsScope, meets_bind, perform, meets_ask]
  rintro answer σ₁ ⟨now, heffect⟩
  have hsame := Transacts.sameRows (t := .consents) heffect
    (reserveIdempotency_leaves (by decide) _ _ _ _ _)
  refine ⟨.of_same hsame, ?_⟩
  rw [meets_ofExcept]
  intro reservation hreservation
  cases reservation with
  | replay stored => cases stored <;> trivial
  | reserved =>
    refine hnext ?_ _ σ₁ hsame
    by_contra htaken
    obtain ⟨row, hrow⟩ := Option.ne_none_iff_exists'.mp htaken
    have htransact : (reserveIdempotency sha256 identity.context key request now).transact σ = _ :=
      reserveIdempotency_taken hrow
    simp only [VaultOperation.ConsentEffect, VaultOperation.Effect, Transacts, htransact]
      at heffect
    by_cases hhash : row.requestHash = sha256.ofJson request
    · rw [if_pos hhash] at heffect
      have hanswer := heffect.1.symm.trans hreservation
      exact absurd (Except.ok.inj hanswer) (by simp)
    · rw [if_neg hhash] at heffect
      obtain ⟨⟨thrown, hthrown⟩, -⟩ := heffect
      exact absurd (hthrown.symm.trans hreservation) (by simp)

/-- The response of a request is stored. -/
theorem meets_complete {key : String} {statusCode : Nat} {body : Json}
    (past : List (Exchange vaultInterface Vault)) :
    MeetsScope parse sha256 identity (fun _ _ _ => True) (do
      perform identity (.completeIdempotency key statusCode body)
      sendJson statusCode body) past σ := by
  rw [MeetsScope, meets_bind, perform, meets_ask]
  rintro answer σ₁ ⟨now, heffect⟩
  refine ⟨.of_same (Transacts.sameRows (t := .consents) heffect
    (completeIdempotency_leaves (by decide) _ _ _ _)), ?_⟩
  rw [meets_ofExcept]
  exact fun _ _ => trivial

/-- A request to record a consent keeps the consents of other people. -/
theorem meets_record (past : List (Exchange vaultInterface Vault)) :
    MeetsScope parse sha256 identity (fun _ _ _ => True) (postConsents runtime input) past σ := by
  rw [postConsents, MeetsScope, meets_bind]
  refine meets_resolved (fun past => ?_) past
  simp only [meets_bind, meets_liftM]
  intro body _ _ _ personId _ _ _
  refine meets_authorized (fun past _ => ?_) past
  simp only [meets_bind, meets_liftM]
  intro _ _ purpose _ key _
  refine meets_whenReserved (fun _ past σ₁ _ => ?_) past
  rw [MeetsScope, meets_bind, meets_liftM]
  intro policyVersion _
  rw [meets_bind, currentTime, meets_ask]
  rintro grantedAt _ rfl
  refine ⟨KeepsConsentsOfOthers.refl _ _, ?_⟩
  rw [meets_done, meets_bind, perform, meets_ask]
  rintro answer σ₂ ⟨now, id, heffect⟩
  refine ⟨?_, ?_⟩
  · rw [ScopedExchange, heffect.store]
    exact recordConsent_keeps _ _
  · rw [meets_ofExcept]
    exact fun _ _ => meets_complete _

/-- A request to withdraw a consent keeps the consents of other people, unless it withdraws one
of them. -/
theorem meets_withdraw {consentId : String}
    (hscope : ¬WithdrawsForAnother parse runtime identity consentId input σ)
    (past : List (Exchange vaultInterface Vault)) :
    MeetsScope parse sha256 identity (fun _ _ _ => True)
      (postConsentWithdraw runtime consentId input) past σ := by
  rw [postConsentWithdraw, MeetsScope, meets_bind]
  refine meets_resolved (fun past => ?_) past
  rw [meets_bind]
  refine meets_authorized (fun past hauthorized => ?_) past
  simp only [meets_bind, meets_liftM]
  intro _ huuid expectedVersion hversion key hkey
  refine meets_whenReserved (fun hfree past σ₁ hsame => ?_) past
  rw [MeetsScope, meets_bind, currentTime, meets_ask]
  rintro withdrawnAt _ rfl
  refine ⟨KeepsConsentsOfOthers.refl _ _, ?_⟩
  rw [meets_done, meets_bind, perform, meets_ask]
  rintro answer σ₂ ⟨now, heffect⟩
  refine ⟨?_, ?_⟩
  · rw [ScopedExchange, Transacts.store heffect]
    refine withdrawConsent_keeps (fun consent hrow hchange => ?_)
    by_contra hother
    have hactive : identity.context.sees consent = true ∧ consent.version = expectedVersion ∧
        consent.withdrawnAt = none := by
      by_contra hnot
      rw [withdrawConsentRow, if_neg hnot] at hchange
      exact absurd hchange (by simp)
    exact hscope ⟨hauthorized, requireThat_eq_ok huuid, ⟨key, hkey, hfree⟩, expectedVersion,
      consent, hversion, (hsame consentId).symm.trans hrow, hactive.1, hactive.2.1, hactive.2.2,
      hother⟩
  · rw [meets_ofExcept]
    exact fun _ _ => meets_complete _

/-- A handler whose exchanges keep the consents of other people keeps them in every run. -/
theorem selfScoped_of_meets {route : ConsentRoute}
    (hmeets : MeetsScope parse sha256 identity (fun _ _ _ => True)
      ((VaultRequest.mk route.vaultRoute input).handler runtime) [] σ) :
    SelfScoped parse sha256 runtime identity route input σ := by
  intro trace rest σ' hruns
  have hresponds := meets_recover (f := fun thrown : RouteError =>
    (.fail thrown.toProblem : Handler vaultInterface ApiProblem VaultReply)) hmeets
    (fun _ _ _ => trivial)
  refine hruns.related (KeepsConsentsOfOthers.refl _) (fun _ _ _ h h' => h.trans h') ?_
  intro exchange hmem
  obtain ⟨before, after, htrace⟩ := List.append_of_mem hmem
  exact (hruns.meets hresponds).1 before exchange after htrace

/-! ## Withdrawing for another -/

/-- A request that withdraws a consent of somebody else changes it. -/
theorem WithdrawsForAnother.runs (sha256 : Sha256) {consentId : String}
    (h : WithdrawsForAnother parse runtime identity consentId input σ) :
    ∃ trace rest σ', Runs (consentWorld parse sha256 identity)
      (postConsentWithdraw runtime consentId input) σ trace rest σ' ∧
      ¬KeepsConsentsOfOthers identity.actorId σ σ' := by
  obtain ⟨key, hkey, hfree⟩ := h.key
  obtain ⟨expectedVersion, consent, hversion, hrow, hsees, hcurrent, hactive, hother⟩ := h.consent
  let withdrawn : ConsentRow :=
    { consent with withdrawnAt := some 0, version := consent.version + 1 }
  let shape := (RecordedInput.withdrawConsent consentId expectedVersion).shape
  let σ₁ := σ.set .idempotencyRecords (identity.context.recordKey key)
    (some (reservedRecord identity.context key (sha256.ofJson shape) 0))
  let σ₂ := σ₁.set .consents consentId (some withdrawn)
  have hrow₁ : σ₁.get .consents consentId = some consent :=
    (get_set_of_table_ne _ _ _ _ (by decide)).trans hrow
  have hfreed : (reserveIdempotency sha256 identity.context key shape 0).transact σ =
      (.ok .reserved, σ₁) := reserveIdempotency_free hfree
  have hreserve : Transacts (reserveIdempotency sha256 identity.context key shape 0) id σ
      (.ok .reserved) σ₁ := transacts_ok hfreed
  have hwithdraw : (LegacyVault.withdrawConsent identity.context consentId expectedVersion
      0).transact σ₁ = (.ok withdrawn, σ₂) := by
    rw [withdrawConsent_transact, hrow₁, Option.bind_some, withdrawConsentRow,
      if_pos ⟨hsees, hcurrent, hactive⟩]
  have hresolve : Runs (consentWorld parse sha256 identity) resolveIdentity σ
      [⟨σ, .resolveIdentity, .ok identity, σ⟩] (.done identity) σ :=
    .exchange ⟨rfl, fun _ heq => (Except.ok.inj heq).symm⟩ (.stop _ _)
  have hauthorize : ∃ trace, Runs (consentWorld parse sha256 identity)
      (authorizeIdentity runtime identity .householdInstructions .approve "vault.consent.withdraw")
      σ trace (.done ()) σ := by
    rw [authorizeIdentity]
    by_cases hconfigured : runtime.configured .authorizeIdentity = true
    · have hallowed : consentWorld parse sha256 identity σ (.authorizeIdentity identity
          .householdInstructions .approve "vault.consent.withdraw") (.ok ()) σ :=
        ⟨rfl, fun _ => h.authorized hconfigured⟩
      rw [if_pos hconfigured]
      exact ⟨_, .exchange hallowed (.stop _ _)⟩
    · rw [if_neg hconfigured]
      exact ⟨_, .stop _ _⟩
  obtain ⟨authorizing, hauthorize⟩ := hauthorize
  have huuid : requirePathUuid "consent id is invalid" consentId = .ok () := if_pos h.uuid
  have hreserved : Runs (consentWorld parse sha256 identity)
      (perform identity (.reserveIdempotency key shape)) σ
      [⟨σ, .perform identity (.reserveIdempotency key shape), .ok .reserved, σ₁⟩]
      (.done .reserved) σ₁ := .exchange ⟨0, hreserve⟩ (.stop _ _)
  have hclock : Runs (consentWorld parse sha256 identity) currentTime σ₁
      [⟨σ₁, .currentTime, (0 : Instant), σ₁⟩] (.done (0 : Instant)) σ₁ := .exchange rfl (.stop _ _)
  have hperformed : Runs (consentWorld parse sha256 identity)
      (perform identity (.withdrawConsent consentId expectedVersion 0)) σ₁
      [⟨σ₁, .perform identity (.withdrawConsent consentId expectedVersion 0),
        .ok withdrawn.withdrawnJson, σ₂⟩] (.done withdrawn.withdrawnJson) σ₂ :=
    .exchange ⟨0, transacts_ok hwithdraw⟩ (.stop _ _)
  refine ⟨_, _, σ₂, hresolve.bind (hauthorize.bind ((runs_ok huuid σ).bind
    ((runs_ok hversion σ).bind ((runs_ok hkey σ).bind
      (hreserved.bind (hclock.bind hperformed.first)))))), ?_⟩
  intro hkeeps
  have hkept := hkeeps consentId consent hrow hother
  have hchanged : σ₂.get .consents consentId = some withdrawn := get_set_self _ _ _ _
  have hsame : withdrawn = consent := Option.some.inj (hchanged.symm.trans hkept)
  have hversions : consent.version + 1 = consent.version := congrArg ConsentRow.version hsame
  omega

end Requests

/-- The condition of `consents_selfScoped_iff`: no consent of somebody else is withdrawn. -/
def ConsentRoute.WithinScope (parse : String → Option Int) (runtime : RouteRuntime)
    (identity : AuthenticatedTenantIdentity) (input : RequestInput) (σ : Vault) :
    ConsentRoute → Prop
  | record => True
  | withdraw consentId => ¬WithdrawsForAnother parse runtime identity consentId input σ

/-- Reads the one time that the example's co-owner has signed in at. -/
def consentParse (text : String) : Option Int :=
  if text = "1970-01-01T00:00:00.000Z" then some 0 else none

/-- A co-owner who has signed in with a second factor. -/
def consentCoOwner : AuthenticatedTenantIdentity where
  organizationId := "o1"
  householdId := "h1"
  actorId := "p2"
  membershipId := "m2"
  role := .coOwner
  grants := []
  supportApprovals := []
  emergencyReleaseCategories := []
  sessionIssuedAt := "1970-01-01T00:00:00.000Z"
  mfaVerifiedAt := some "1970-01-01T00:00:00.000Z"

/-- A consent that the owner has recorded. -/
def ownerConsent : ConsentWrite where
  id := "33333333-3333-4333-8333-333333333333"
  personId := "p1"
  purpose := .externalAi
  policyVersion := "2026-01"
  grantedAt := 0

/-- The store after the owner has recorded the consent. -/
def consentedStore : Vault :=
  ((LegacyVault.recordConsent ⟨"o1", "h1", "p1"⟩ ownerConsent).transact Store.empty).2

/-- The co-owner's request to withdraw the owner's consent at its first version. -/
def withdrawInput : RequestInput := ⟨some "1", some "withdraw-consent-1", none⟩

end LegacyVault
