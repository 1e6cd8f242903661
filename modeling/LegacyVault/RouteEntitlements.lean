import LegacyVault.VaultWorld

/-!
# Entitlements on the vault routes

`deriveBillingAccess` derives six entitlements, and the routes check four of
them: new uploads, interviews, reports and exports. An operation of these
kinds is performed for entitled households only, except that the later steps
of an upload are not checked again.

`vaultWrite` is never checked. So the entitlements are enforced just when
the subscription permits writing anyway.
-/

namespace LegacyVault

open JsonText RowTransaction RowTransaction.Program Store Handlers Handler

/-! ## Entitlements of operations -/

/-- The entitlements that can be false. -/
inductive VaultEntitlement where
  | vaultWrite | documentUpload | aiInterview | reportGeneration | exportGeneration
  deriving DecidableEq

/-- The entitlement of a subscription. -/
def BillingEntitlements.allows (entitlements : BillingEntitlements) : VaultEntitlement → Bool
  | .vaultWrite => entitlements.vaultWrite
  | .documentUpload => entitlements.documentUpload
  | .aiInterview => entitlements.aiInterview
  | .reportGeneration => entitlements.reportGeneration
  | .exportGeneration => entitlements.exportGeneration

/-- The kind of an operation, if it needs an entitlement. -/
def VaultOperation.kind : VaultOperation → Option VaultEntitlement
  | createCandidateFact _ | confirmFact _ _ _ | rejectFact _ _ | disputeFact _ _
  | completeManualDocumentExtraction _ _ => some .vaultWrite
  | startDocumentUpload _ _ | createDocumentUploadUrl _ | completeDocumentUpload _ _ =>
    some .documentUpload
  | runAiInterview _ => some .aiInterview
  | createReport _ _ => some .reportGeneration
  | startPortableExport _ _ => some .exportGeneration
  | _ => none

/-- The entitlement that the route of an operation checks. -/
def VaultOperation.guard : VaultOperation → Option BillableEntitlement
  | startDocumentUpload _ _ => some .documentUpload
  | runAiInterview _ => some .aiInterview
  | createReport _ _ => some .reportGeneration
  | startPortableExport _ _ => some .exportGeneration
  | _ => none

/-- An exchange in which an operation was performed for an identity. -/
def Performs (exchange : Exchange vaultInterface Vault) (identity : AuthenticatedTenantIdentity)
    (operation : VaultOperation) : Prop :=
  ∃ σ result σ', exchange = ⟨σ, .perform identity operation, .ok result, σ'⟩

/-! ## Subscriptions -/

/-- The access that a subscription gives at a time. -/
def subscriptionAccess (subscription : Option SubscriptionRow) (now : Instant) :
    BillingAccessDecision :=
  match subscription with
  | none => deriveBillingAccess .inactive none none now
  | some row => deriveBillingAccess row.status (some row.plan) row.providerUpdatedAt now

/-- The access that `getSubscription` reads. -/
theorem getSubscription_access {context : TenantContext} {now : Instant} {σ : Vault} :
    (LegacyVault.getSubscription context now σ).decision =
      subscriptionAccess (σ.get .subscriptions context.subscriptionKey) now := by
  rw [LegacyVault.getSubscription]
  cases σ.get .subscriptions context.subscriptionKey <;> rfl

/-- The subscription permits writing: it is active or in its trial, or it is past due and its
technical grace has not ended. -/
def PermitsWriting (subscription : Option SubscriptionRow) (now : Instant) : Prop :=
  ∃ row, subscription = some row ∧ row.plan = "essential" ∧
    (row.status = .active ∨ row.status = .trialing ∨ row.status = .pastDue ∧
      ∃ updatedAt, row.providerUpdatedAt = some updatedAt ∧
        isDate (updatedAt + billingTechnicalGraceMs) = true ∧
        now < updatedAt + billingTechnicalGraceMs)

/-- The entitlements are full, those of the grace, or those of reading. -/
theorem subscriptionAccess_entitlements (subscription : Option SubscriptionRow) (now : Instant) :
    PermitsWriting subscription now ∧
      ((subscriptionAccess subscription now).entitlements = fullEntitlements ∨
        (subscriptionAccess subscription now).entitlements = graceEntitlements) ∨
    ¬PermitsWriting subscription now ∧
      (subscriptionAccess subscription now).entitlements = readOnlyEntitlements := by
  cases subscription with
  | none =>
    refine Or.inr ⟨fun ⟨row, hrow, _⟩ => absurd hrow (by simp), ?_⟩
    simp [subscriptionAccess, deriveBillingAccess]
  | some row =>
    simp only [subscriptionAccess, deriveBillingAccess, PermitsWriting, Option.some.injEq,
      exists_eq_left']
    by_cases hfull : row.plan = "essential" ∧ (row.status = .active ∨ row.status = .trialing)
    · rw [if_pos hfull]
      exact Or.inl ⟨⟨hfull.1, hfull.2.imp_right Or.inl⟩, Or.inl rfl⟩
    · rw [if_neg hfull]
      by_cases hgrace : row.plan = "essential" ∧ row.status = .pastDue
      · rw [if_pos hgrace]
        cases hupdated : row.providerUpdatedAt with
        | none => simp [hgrace]
        | some updatedAt =>
          by_cases hwindow : isDate (updatedAt + billingTechnicalGraceMs) = true ∧
              now < updatedAt + billingTechnicalGraceMs
          · simp [hgrace, hwindow]
          · simp [hgrace, hwindow]
      · rw [if_neg hgrace]
        refine Or.inr ⟨fun ⟨hplan, hstatus⟩ => ?_, rfl⟩
        rcases hstatus with hactive | htrialing | ⟨hpastDue, -⟩
        · exact hfull ⟨hplan, Or.inl hactive⟩
        · exact hfull ⟨hplan, Or.inr htrialing⟩
        · exact hgrace ⟨hplan, hpastDue⟩

/-! ## Guarded operations -/

/-- The subscription of a tenant stays as it is. -/
def KeepsSubscription (context : TenantContext) (subscription : Option SubscriptionRow) :
    Vault → Vault → Prop := fun σ σ' =>
  σ.get .subscriptions context.subscriptionKey = subscription ∧
    σ'.get .subscriptions context.subscriptionKey = subscription

section Guarded

variable {sha256 : Sha256} {context : TenantContext} {subscription : Option SubscriptionRow}
  {now : Instant} {runtime : RouteRuntime}

variable (context subscription now) in
/-- An operation whose entitlement is checked is performed for an entitled household. -/
def EntitledExchange (exchange : Exchange vaultInterface Vault) : Prop :=
  ∀ identity operation entitlement, Performs exchange identity operation →
    identity.context.subscriptionKey = context.subscriptionKey →
    operation.guard = some entitlement →
    (subscriptionAccess subscription now).entitlements.billable entitlement = true

/-- A call that performs none but allowed operations. -/
theorem entitledExchange_of_allowed {exchange : Exchange vaultInterface Vault}
    {operations : AuthenticatedTenantIdentity → VaultOperation → Prop}
    (hcall : AllowedCall operations exchange.call)
    (hoperations : ∀ identity operation, operations identity operation →
      identity.context.subscriptionKey = context.subscriptionKey →
      ∀ entitlement, operation.guard = some entitlement →
        (subscriptionAccess subscription now).entitlements.billable entitlement = true) :
    EntitledExchange context subscription now exchange := by
  rintro identity operation entitlement ⟨σ, result, σ', rfl⟩ htenant hguard
  exact hoperations identity operation hcall htenant entitlement hguard

/-- The weakest precondition under which the guards are studied. -/
abbrev MeetsGuards (sha256 : Sha256) (context : TenantContext)
    (subscription : Option SubscriptionRow) (now : Instant) {α : Type}
    (post : α → List (Exchange vaultInterface Vault) → Vault → Prop) (h : RouteHandler α)
    (past : List (Exchange vaultInterface Vault)) (σ : Vault) : Prop :=
  Meets (vaultWorld sha256 (· = now) (KeepsSubscription context subscription))
    (fun _ => EntitledExchange context subscription now) post h past σ

/-- A part without guarded operations. -/
theorem meets_unguarded {α : Type} {h : RouteHandler α}
    {post : α → List (Exchange vaultInterface Vault) → Vault → Prop}
    (hcalls : h.Calls (AllowedCall (fun _ operation => operation.guard = none)) (fun _ => True))
    (hpost : ∀ result past σ, post result past σ) (past : List (Exchange vaultInterface Vault))
    (σ : Vault) : MeetsGuards sha256 context subscription now post h past σ := by
  have hallowed : ∀ (_ : List (Exchange vaultInterface Vault)) exchange,
      AllowedCall (fun _ operation => operation.guard = none) exchange.call →
      EntitledExchange context subscription now exchange :=
    fun _ exchange hcall => entitledExchange_of_allowed hcall
      (fun _ operation hnone _ entitlement hsome => absurd (hnone.symm.trans hsome) (by simp))
  have hmeets : MeetsGuards sha256 context subscription now (fun _ _ _ => True) h past σ :=
    hcalls.meets hallowed
  exact hmeets.mono (fun result past σ _ => hpost result past σ)

/-- After the check of an entitlement the operations that need it are performed for an entitled
household. -/
theorem meets_guard {identity : AuthenticatedTenantIdentity} {entitlement : BillableEntitlement}
    {rest : RouteHandler VaultReply}
    (hrest : rest.Calls (AllowedCall (fun identity' operation => operation.guard = none ∨
      identity' = identity ∧ operation.guard = some entitlement)) (fun _ => True))
    (past : List (Exchange vaultInterface Vault)) (σ : Vault) :
    MeetsGuards sha256 context subscription now (fun _ _ _ => True)
      (requireBillingEntitlement runtime identity entitlement >>= fun _ => rest) past σ := by
  rw [MeetsGuards, requireBillingEntitlement, meets_bind, meets_bind, meets_liftM]
  intro _ _
  rw [meets_bind, perform, meets_ask]
  intro answer σ' hanswer
  have hunguarded : AllowedCall (fun _ operation => operation.guard = none)
      (.perform identity .getSubscription) := rfl
  refine ⟨entitledExchange_of_allowed hunguarded
    (fun _ operation hnone _ other hsome => absurd (hnone.symm.trans hsome) (by simp)), ?_⟩
  rw [meets_ofExcept]
  intro model hmodel
  rw [meets_liftM]
  intro _ hrequired
  have hentitled := requireThat_eq_ok hrequired
  refine hrest.meets (fun past exchange hcall => entitledExchange_of_allowed hcall ?_)
  rintro _ operation (hnone | ⟨rfl, hguard⟩) htenant other hother
  · exact absurd (hnone.symm.trans hother) (by simp)
  · obtain ⟨_, σ₁, σ₂, rfl, hkeeps, heffect, -⟩ := hanswer
    obtain rfl : entitlement = other := Option.some.inj (hguard.symm.trans hother)
    have hread := heffect.2 model hmodel
    rw [hread, getSubscription_access, htenant, hkeeps.2] at hentitled
    exact hentitled

/-- The routes that check an entitlement. -/
def VaultRoute.guarded : VaultRoute → Bool
  | postDocuments | postAiInterview | postReports | postExports => true
  | _ => false

/-- The other routes perform no operation whose entitlement is checked anywhere. -/
theorem unguarded_calls (runtime : RouteRuntime) (request : VaultRequest)
    (hroute : request.route.guarded = false) :
    (request.handler runtime).Calls (AllowedCall (fun _ operation => operation.guard = none))
      (fun _ => True) := by
  obtain ⟨route, input⟩ := request
  rw [VaultRequest.handler]
  cases route with
  | postDocuments | postAiInterview | postReports | postExports =>
    simp [VaultRoute.guarded] at hroute
  | getFacts => simp [getFacts, perform, AllowedCall, VaultOperation.guard]
  | postFacts =>
    simp [postFacts, calls_whenReserved, perform, AllowedCall, VaultOperation.guard]
  | postFactConfirm id =>
    simp [postFactConfirm, transitionFact, calls_whenReserved, perform, AllowedCall,
      VaultOperation.guard]
  | postFactReject id =>
    simp [postFactReject, transitionFact, calls_whenReserved, perform, AllowedCall,
      VaultOperation.guard]
  | postFactDispute id =>
    simp [postFactDispute, transitionFact, calls_whenReserved, perform, AllowedCall,
      VaultOperation.guard]
  | postManualExtraction =>
    simp [postManualExtraction, perform, AllowedCall, VaultOperation.guard]
  | getDocuments => simp [getDocuments, perform, AllowedCall, VaultOperation.guard]
  | getDocumentsContent id =>
    simp [getDocumentsContent, perform, AllowedCall, VaultOperation.guard]
  | postUploadUrl id => simp [postUploadUrl, perform, AllowedCall, VaultOperation.guard]
  | postDocumentComplete id =>
    simp [postDocumentComplete, perform, AllowedCall, VaultOperation.guard]
  | getAuditEvents afterSequence limit =>
    simp [getAuditEvents, perform, AllowedCall, VaultOperation.guard]
  | postEmergencyAccess =>
    simp [postEmergencyAccess, calls_whenReserved, perform, AllowedCall, VaultOperation.guard]
  | postEmergencyDecide id =>
    simp [postEmergencyDecide, changeEmergency, calls_whenReserved, perform, AllowedCall,
      VaultOperation.guard]
  | postEmergencyRelease id =>
    simp [postEmergencyRelease, changeEmergency, calls_whenReserved, perform, AllowedCall,
      VaultOperation.guard]
  | getConsents purpose => simp [getConsents, perform, AllowedCall, VaultOperation.guard]
  | postConsents =>
    simp [postConsents, calls_whenReserved, perform, AllowedCall, VaultOperation.guard]
  | postConsentWithdraw id =>
    simp [postConsentWithdraw, calls_whenReserved, perform, AllowedCall, VaultOperation.guard]
  | getPrivacyRequests => simp [getPrivacyRequests, perform, AllowedCall, VaultOperation.guard]
  | postPrivacyRequests => simp [postPrivacyRequests, perform, AllowedCall, VaultOperation.guard]
  | postConfirmDeletion requestId =>
    simp [postConfirmDeletion, perform, AllowedCall, VaultOperation.guard]
  | postCancelDeletion requestId =>
    simp [postCancelDeletion, perform, AllowedCall, VaultOperation.guard]
  | getExports id => simp [getExports, perform, AllowedCall, VaultOperation.guard]
  | getReports id => simp [getReports, perform, AllowedCall, VaultOperation.guard]
  | postCheckout => simp [postCheckout, perform, AllowedCall, VaultOperation.guard]
  | postPortal => simp [postPortal, perform, AllowedCall, VaultOperation.guard]
  | getSubscription => simp [getSubscriptionRoute, perform, AllowedCall, VaultOperation.guard]
  | getRefunds => simp [getRefunds, perform, AllowedCall, VaultOperation.guard]

/-- New uploads. -/
theorem postDocuments_meets (input : RequestInput) (σ : Vault) :
    MeetsGuards sha256 context subscription now (fun _ _ _ => True) (postDocuments runtime input)
      [] σ := by
  rw [postDocuments, MeetsGuards, meets_bind]
  refine meets_unguarded (by simp) (fun identity past σ => ?_) [] σ
  simp only [meets_bind, meets_liftM]
  intro body _ key _ _ _ form _
  refine meets_unguarded (by simp) (fun _ past σ => ?_) past σ
  refine meets_guard ?_ past σ
  simp [perform, AllowedCall, VaultOperation.guard]

/-- Interviews. -/
theorem postAiInterview_meets (input : RequestInput) (σ : Vault) :
    MeetsGuards sha256 context subscription now (fun _ _ _ => True)
      (postAiInterview runtime input) [] σ := by
  rw [postAiInterview, MeetsGuards, meets_bind]
  refine meets_unguarded (by simp) (fun identity past σ => ?_) [] σ
  simp only [meets_bind, meets_liftM]
  intro body _ key _ message _ categories _ version _
  refine meets_unguarded (by simp) (fun _ past σ => ?_) past σ
  refine meets_guard ?_ past σ
  simp only [calls_bind, calls_liftM, calls_sendPrivate]
  intro _ _
  refine calls_recover ?_ (fun _ => trivial)
  simp [perform, AllowedCall, VaultOperation.guard]

/-- Exports. -/
theorem postExports_meets (input : RequestInput) (σ : Vault) :
    MeetsGuards sha256 context subscription now (fun _ _ _ => True) (postExports runtime input)
      [] σ := by
  rw [postExports, MeetsGuards, meets_bind]
  refine meets_unguarded (by simp) (fun identity past σ => ?_) [] σ
  simp only [meets_bind, meets_liftM]
  intro _ _ _ _
  refine meets_unguarded (by simp) (fun _ past σ => ?_) past σ
  refine meets_guard ?_ past σ
  simp [perform, AllowedCall, VaultOperation.guard]

/-- Reports. -/
theorem postReports_meets (input : RequestInput) (σ : Vault) :
    MeetsGuards sha256 context subscription now (fun _ _ _ => True) (postReports runtime input)
      [] σ := by
  rw [postReports, MeetsGuards, meets_bind]
  refine meets_unguarded (by simp) (fun identity past σ => ?_) [] σ
  simp only [meets_bind, meets_liftM]
  intro _ _ _ _
  refine meets_unguarded (by simp) (fun _ past σ => ?_) past σ
  refine meets_guard ?_ past σ
  simp [calls_whenReserved, perform, AllowedCall, VaultOperation.guard]

/-- Every route performs the operations whose entitlements are checked for entitled households
only. -/
theorem handler_meets_guards (request : VaultRequest) (σ : Vault) :
    MeetsGuards sha256 context subscription now (fun _ _ _ => True) (request.handler runtime)
      [] σ := by
  obtain ⟨route, input⟩ := request
  cases route with
  | postDocuments => exact postDocuments_meets input σ
  | postAiInterview => exact postAiInterview_meets input σ
  | postExports => exact postExports_meets input σ
  | postReports => exact postReports_meets input σ
  | _ => exact meets_unguarded (unguarded_calls runtime _ rfl) (fun _ _ _ => trivial) [] σ

/-- In every run of a request the operations whose entitlements are checked are performed for
entitled households only. -/
theorem guarded_entitled {request : VaultRequest} {σ : Vault}
    {exchange : Exchange vaultInterface Vault}
    (hreaches : Reaches (vaultWorld sha256 (· = now) (KeepsSubscription context subscription))
      (request.respond runtime) σ exchange) :
    EntitledExchange context subscription now exchange := by
  obtain ⟨trace, rest, σ', hruns, hexchange⟩ := hreaches
  obtain ⟨before, after, htrace⟩ := List.append_of_mem hexchange
  have hhandler : MeetsGuards sha256 context subscription now (fun _ _ _ => True)
      (request.handler runtime) [] σ := handler_meets_guards request σ
  have hmeets := meets_recover (f := fun thrown : RouteError =>
      (.fail thrown.toProblem : Handler vaultInterface ApiProblem VaultReply))
    hhandler (fun _ _ _ => trivial)
  exact (hruns.meets hmeets).1 before exchange after htrace

end Guarded

/-! ## Operations that are not guarded -/

section Unguarded

variable {sha256 : Sha256} {times : Instant → Prop} {others : Vault → Vault → Prop}
  {identity : AuthenticatedTenantIdentity} {σ σ' : Vault} {now : Instant}

variable (identity) in
/-- A request is of an identity. -/
theorem runs_resolveIdentity (hothers : others σ σ) :
    Runs (vaultWorld sha256 times others) resolveIdentity σ
      [⟨σ, .resolveIdentity, .ok identity, σ⟩] (.done identity) σ :=
  .exchange (show others σ σ from hothers) (.stop _ _)

/-- The time is one of the times. -/
theorem runs_currentTime (htimes : times now) (hothers : others σ σ) :
    Runs (vaultWorld sha256 times others) currentTime σ [⟨σ, .currentTime, now, σ⟩] (.done now)
      σ :=
  .exchange (show times now ∧ others σ σ from ⟨htimes, hothers⟩) (.stop _ _)

/-- An operation has its effect, while nobody else works on the store. -/
theorem runs_perform {operation : VaultOperation} {result : operation.Result}
    (htimes : times now) (hbefore : others σ σ) (hafter : others σ' σ')
    (heffect : operation.Effect sha256 identity.context now σ (.ok result) σ') :
    Runs (vaultWorld sha256 times others) (perform identity operation) σ
      [⟨σ, .perform identity operation, .ok result, σ'⟩] (.done result) σ' :=
  .exchange ⟨now, σ, σ', htimes, hbefore, heffect, hafter⟩ (.stop _ _)

/-- An authorization that is configured allows the action. -/
theorem runs_authorizeIdentity {runtime : RouteRuntime} {category : RecordCategory}
    {action : PermissionAction} {purpose : String}
    (hconfigured : runtime.configured .authorizeIdentity = true) (hothers : others σ σ) :
    Runs (vaultWorld sha256 times others)
      (authorizeIdentity runtime identity category action purpose) σ
      [⟨σ, .authorizeIdentity identity category action purpose, .ok (), σ⟩] (.done ()) σ := by
  rw [authorizeIdentity, if_pos hconfigured]
  exact .exchange (show others σ σ from hothers) (.stop _ _)

end Unguarded

/-- The entitlements of a tenant are enforced: in every run of a request at the time, while the
subscription stays as it is, an operation that needs an entitlement is performed for the tenant
only if the subscription gives it. -/
def EnforcesEntitlements (sha256 : Sha256) (context : TenantContext)
    (subscription : Option SubscriptionRow) (now : Instant) : Prop :=
  ∀ (runtime : RouteRuntime) (request : VaultRequest) σ exchange,
    Reaches (vaultWorld sha256 (· = now) (KeepsSubscription context subscription))
      (request.respond runtime) σ exchange →
    ∀ identity operation entitlement, Performs exchange identity operation →
      identity.context.subscriptionKey = context.subscriptionKey →
      operation.kind = some entitlement →
      (subscriptionAccess subscription now).entitlements.allows entitlement = true

/-- Routes with all their dependencies, which read the version `1`. -/
def exampleRoutes : RouteRuntime where
  configured := fun _ => true
  safeInteger := fun text => if text = "1" then some 1 else none
  safeIntegerOf := fun _ => none
  inUnitInterval := fun _ => true
  parseDate := fun _ => none

/-- A request to confirm a fact at its first version. -/
def confirmRequest : VaultRequest where
  route := .postFactConfirm "11111111-1111-4111-8111-111111111111"
  input := ⟨some "1", some "confirm-fact-0001", none⟩

/-- A manual fact of a tenant, as it is created. -/
def candidateFact (context : TenantContext) : FactRow where
  id := "11111111-1111-4111-8111-111111111111"
  organizationId := context.organizationId
  householdId := context.householdId
  fieldKey := "assets.home"
  typedValueEncrypted := .data "sealed"
  keyVersion := 1
  status := .candidate
  sourceType := .manual
  sourceId := "22222222-2222-4222-8222-222222222222"
  evidenceIds := []
  confidence := none
  sensitivity := .standard
  confirmedBy := none
  confirmedAt := none
  version := 1

/-- A store with the fact and with a subscription, if there is one. -/
def candidateStore (context : TenantContext) (subscription : Option SubscriptionRow) : Vault :=
  (Store.set (S := vaultSchema) Store.empty .subscriptions context.subscriptionKey
    subscription).set .facts (candidateFact context).id (some (candidateFact context))

/-- An owner of a tenant. -/
def ownerOf (context : TenantContext) : AuthenticatedTenantIdentity where
  organizationId := context.organizationId
  householdId := context.householdId
  actorId := context.actorId
  membershipId := "m1"
  role := .owner
  grants := []
  supportApprovals := []
  emergencyReleaseCategories := []
  sessionIssuedAt := "2026-01-01T00:00:00.000Z"
  mfaVerifiedAt := none

/-- Whatever the subscription, a fact is confirmed. -/
theorem confirm_reached (sha256 : Sha256) (context : TenantContext)
    (subscription : Option SubscriptionRow) (now : Instant) :
    ∃ σ exchange, Reaches (vaultWorld sha256 (· = now) (KeepsSubscription context subscription))
        (confirmRequest.respond exampleRoutes) σ exchange ∧
      Performs exchange (ownerOf context) (.confirmFact (candidateFact context).id 1 now) := by
  let σ := candidateStore context subscription
  have hsubscription : σ.get .subscriptions context.subscriptionKey = subscription := by
    rw [show σ = candidateStore context subscription from rfl, candidateStore,
      get_set_of_table_ne _ _ _ _ (by decide), get_set_self]
  have hfact : σ.get .facts (candidateFact context).id = some (candidateFact context) :=
    get_set_self _ _ _ _
  have hsees : context.sees (candidateFact context) = true :=
    TenantContext.sees_iff.mpr ⟨rfl, rfl⟩
  have hfieldKey : (LegacyVault.getFactFieldKey context (candidateFact context).id).transact σ =
      (.ok "assets.home", σ) := by
    rw [transact, LegacyVault.getFactFieldKey, run_bind, run_select, hfact, Option.filter_some,
      if_pos hsees]
    rfl
  have hfree : σ.get .idempotencyRecords (context.recordKey "confirm-fact-0001") = none := by
    rw [show σ = candidateStore context subscription from rfl, candidateStore,
      get_set_of_table_ne _ _ _ _ (by decide), get_set_of_table_ne _ _ _ _ (by decide), get_empty]
  let σ₁ := σ.set .idempotencyRecords (context.recordKey "confirm-fact-0001") (some (reservedRecord
    context "confirm-fact-0001" (sha256.ofJson (.obj [("factId", .str (candidateFact context).id),
      ("expectedVersion", .nat 1)])) now))
  have hreserve : (reserveIdempotency sha256 context "confirm-fact-0001"
      (.obj [("factId", .str (candidateFact context).id), ("expectedVersion", .nat 1)])
      now).transact σ = (.ok .reserved, σ₁) := reserveIdempotency_free hfree
  have hsubscription₁ : σ₁.get .subscriptions context.subscriptionKey = subscription :=
    (get_set_of_table_ne _ _ _ _ (by decide)).trans hsubscription
  have hfact₁ : σ₁.get .facts (candidateFact context).id = some (candidateFact context) :=
    (get_set_of_table_ne _ _ _ _ (by decide)).trans hfact
  obtain ⟨confirmed, hconfirmed⟩ : ∃ confirmed,
      confirmFactRow context 1 now (candidateFact context) = some confirmed := by
    rw [confirmFactRow, if_pos ⟨hsees, rfl, Or.inl rfl, Or.inl rfl⟩]
    exact ⟨_, rfl⟩
  let σ₂ := σ₁.set .facts (candidateFact context).id (some confirmed)
  have hconfirm : (LegacyVault.confirmFact context (candidateFact context).id 1 now).transact σ₁ =
      (.ok confirmed.receipt, σ₂) := by
    rw [transact, LegacyVault.confirmFact, run_bind, run_updateRow, hfact₁, Option.bind_some,
      hconfirmed]
    rfl
  have hsubscription₂ : σ₂.get .subscriptions context.subscriptionKey = subscription :=
    (get_set_of_table_ne _ _ _ _ (by decide)).trans hsubscription₁
  have hothers : KeepsSubscription context subscription σ σ := ⟨hsubscription, hsubscription⟩
  have hothers₁ : KeepsSubscription context subscription σ₁ σ₁ := ⟨hsubscription₁, hsubscription₁⟩
  have hothers₂ : KeepsSubscription context subscription σ₂ σ₂ := ⟨hsubscription₂, hsubscription₂⟩
  have hid : requirePathUuid "fact id is invalid" "11111111-1111-4111-8111-111111111111" =
      .ok () := by decide
  have hcategory : factCategory "assets.home" = .ok .assets := by decide
  have hkey : confirmRequest.input.key = .ok "confirm-fact-0001" := by decide
  have hversion : exampleRoutes.expectedVersion confirmRequest.input = .ok 1 := by decide
  refine ⟨σ, ⟨σ₁, .perform (ownerOf context) (.confirmFact (candidateFact context).id 1 now),
    .ok confirmed.receipt.toJson, σ₂⟩, ?_, ⟨_, _, _, rfl⟩⟩
  refine Reaches.recover ?_
  rw [show confirmRequest.handler exampleRoutes = postFactConfirm exampleRoutes
    (candidateFact context).id confirmRequest.input from rfl, postFactConfirm, transitionFact]
  refine Reaches.after ?_ (runs_resolveIdentity (ownerOf context) hothers)
  refine Reaches.after ?_ (runs_ok hid σ)
  refine Reaches.after ?_ (runs_perform rfl hothers hothers (transacts_ok hfieldKey))
  refine Reaches.after ?_ (runs_ok hcategory σ)
  refine Reaches.after ?_ (runs_authorizeIdentity rfl hothers)
  refine Reaches.after ?_ (runs_ok hkey σ)
  refine Reaches.after ?_ (runs_ok hversion σ)
  refine Reaches.after ?_ (runs_perform rfl hothers hothers₁ (transacts_ok hreserve))
  refine Reaches.first (Reaches.after ?_ (runs_currentTime rfl hothers₁))
  exact reaches_ask ⟨now, σ₁, σ₂, rfl, hothers₁, transacts_ok hconfirm, hothers₂⟩

/-- A tenant whose subscription has been canceled. -/
def canceledTenant : TenantContext := ⟨"o1", "h1", "p1"⟩

/-- Its subscription. -/
def canceledSubscription : SubscriptionRow where
  id := "s1"
  organizationId := "o1"
  householdId := "h1"
  status := .canceled
  plan := "essential"
  providerCustomerId := some "cus_1"
  providerSubscriptionId := some "sub_1"
  providerUpdatedAt := some 0
  trialEndsAt := none
  currentPeriodEndsAt := none
  cancelAtPeriodEnd := false
  canceledAt := some 0
  version := 2

end LegacyVault
