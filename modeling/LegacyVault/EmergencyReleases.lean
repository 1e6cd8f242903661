import LegacyVault.EmergencyRoutes

/-!
# Emergency releases

What stands behind a category in an emergency recipient's identity, in every
interleaving of the emergency routes and under any clock: the recipient asked
for it, an identity that may approve all of the request delayed it for one to
168 hours, and such an identity released it once the delay had passed.

The invariant keeps, for every request, the mutations that brought it to its
status, in their order.
-/

namespace LegacyVault

open JsonText RowTransaction RowTransaction.Program Store Protocol

/-- The log entry of a mutation that took effect. -/
abbrev mutated (call : EmergencyCall) (body : Json) : EmergencyEntry :=
  ⟨.mutate call, .committed (.outcome body)⟩

section Requests

variable (parse : String → Option Int)

/-- The call asked for the request. -/
structure AskedBy (k : Identifier) (request : EmergencyAccessRow) (ask : EmergencyCall)
    (input : EmergencyInput) : Prop where
  /-- It is an ask with that input. -/
  action : ask.action = .ask input
  /-- It made the row. -/
  id : ask.generated.id = k
  /-- Its person is the requester. -/
  requester : request.requesterId = ask.identity.actorId
  /-- Its membership is the recipient. -/
  recipient : request.recipientMembershipId = ask.identity.membershipId
  /-- Its categories are those of the request. -/
  categories : request.categories = input.categories

/-- The call delayed the request, and its identity may approve every category. -/
def DelayedBy (k : Identifier) (request : EmergencyAccessRow) (decide : EmergencyCall) : Prop :=
  ∃ expectedVersion hours, decide.action = .decide k expectedVersion (.delay hours) ∧
    1 ≤ hours ∧ hours ≤ 168 ∧
    (∀ category ∈ request.categories,
      decide.allows parse .approve "vault.emergency-access.decide" category) ∧
    request.releaseAfter = some (decide.generated.now + hours * 60 * 60 * 1000)

/-- The call released the request once its delay had passed, and its identity may approve every
category. -/
def ReleasedBy (k : Identifier) (request : EmergencyAccessRow) (release : EmergencyCall) : Prop :=
  ∃ expectedVersion, release.action = .release k expectedVersion ∧
    (∀ category ∈ request.categories,
      release.allows parse .approve "vault.emergency-access.release" category) ∧
    ∃ releaseAfter, request.releaseAfter = some releaseAfter ∧
      releaseAfter ≤ release.generated.now

/-- The mutations behind the status of a request are in the log, in their order. -/
def StatusExplained (log : List EmergencyEntry) (k : Identifier) (request : EmergencyAccessRow)
    (asked : EmergencyEntry) : Prop :=
  match request.status with
  | .requested | .denied => [asked].Sublist log
  | .delayed => ∃ decide body, DelayedBy parse k request decide ∧
      [mutated decide body, asked].Sublist log
  | .released => ∃ decide decideBody release releaseBody, DelayedBy parse k request decide ∧
      ReleasedBy parse k request release ∧
      [mutated release releaseBody, mutated decide decideBody, asked].Sublist log
  | .approved | .revoked => False

/-- What holds of one request. -/
def RequestSound (log : List EmergencyEntry) (σ : Vault) (k : Identifier)
    (request : EmergencyAccessRow) : Prop :=
  (∃ membership : MembershipRow,
    σ.get .memberships request.recipientMembershipId = some membership ∧
      membership.personId = request.requesterId) ∧
  ∃ ask input body, AskedBy k request ask input ∧
    StatusExplained parse log k request (mutated ask body)

/-- What holds of log and rows between transactions. -/
structure EmergencySound (init : Vault) (log : List EmergencyEntry) (σ : Vault) : Prop where
  /-- Memberships are as they were. -/
  memberships : SameRows (S := vaultSchema) .memberships init σ
  /-- Every request is sound. -/
  requests : ∀ (k : Identifier) (request : EmergencyAccessRow),
    σ.get .emergencyAccessRequests k = some request → RequestSound parse log σ k request
  /-- Categories that were read are those of the request. -/
  categories : ∀ call categories,
    ⟨.readCategories call, .committed (.categories categories)⟩ ∈ log →
    ∃ request : EmergencyAccessRow,
      σ.get .emergencyAccessRequests (call.action.requestId?.getD "") = some request ∧
        request.categories = categories
  /-- Whatever was reserved had been checked. -/
  reserved : ∀ call reservation,
    ⟨.reserve call, .committed (.reservation reservation)⟩ ∈ log →
    call.Resolved log ∧ call.Admitted parse log

end Requests

/-- A request that is neither denied nor released can still change; it keeps its categories,
its requester and its recipient. -/
def RequestsKept (σ σ' : Vault) : Prop :=
  ∀ (k : Identifier) (old : EmergencyAccessRow), σ.get .emergencyAccessRequests k = some old →
    ∃ new : EmergencyAccessRow, σ'.get .emergencyAccessRequests k = some new ∧
      new.categories = old.categories ∧
      (old.status = .denied ∨ old.status = .released → new = old)

/-- Memberships are the same, and requests are kept. -/
structure EmergencyKept (σ σ' : Vault) : Prop where
  /-- Memberships are the same rows. -/
  memberships : SameRows (S := vaultSchema) .memberships σ σ'
  /-- Requests are kept. -/
  requests : RequestsKept σ σ'

theorem EmergencyKept.refl (σ : Vault) : EmergencyKept σ σ where
  memberships := SameRows.refl (S := vaultSchema) _ σ
  requests := fun _ old hold => ⟨old, hold, rfl, fun _ => rfl⟩

theorem EmergencyKept.trans {σ₁ σ₂ σ₃ : Vault} (h : EmergencyKept σ₁ σ₂)
    (h' : EmergencyKept σ₂ σ₃) : EmergencyKept σ₁ σ₃ where
  memberships := h.memberships.trans h'.memberships
  requests := by
    intro k old hold
    obtain ⟨middle, hmiddle, hcategories, hfinal⟩ := h.requests k old hold
    obtain ⟨new, hnew, hcategories', hfinal'⟩ := h'.requests k middle hmiddle
    refine ⟨new, hnew, hcategories'.trans hcategories, fun hstatus => ?_⟩
    obtain rfl := hfinal hstatus
    exact hfinal' hstatus

section Steps

variable {parse : String → Option Int} {sha256 : Sha256} {init σ σ' : Vault}
  {log : List EmergencyEntry}

/-- A longer log explains a status as well. -/
theorem StatusExplained.cons {k : Identifier} {request : EmergencyAccessRow}
    {asked : EmergencyEntry} (h : StatusExplained parse log k request asked)
    (entry : EmergencyEntry) : StatusExplained parse (entry :: log) k request asked := by
  unfold StatusExplained at h ⊢
  split at h
  · exact h.cons entry
  · exact h.cons entry
  · obtain ⟨decide, body, hdelayed, hsublist⟩ := h
    exact ⟨decide, body, hdelayed, hsublist.cons entry⟩
  · obtain ⟨decide, decideBody, release, releaseBody, hdelayed, hreleased, hsublist⟩ := h
    exact ⟨decide, decideBody, release, releaseBody, hdelayed, hreleased, hsublist.cons entry⟩
  · exact h
  · exact h

/-- A request that is the same row stays sound. -/
theorem RequestSound.cons {k : Identifier} {request : EmergencyAccessRow}
    (h : RequestSound parse log σ k request)
    (hmemberships : SameRows (S := vaultSchema) .memberships σ σ') (entry : EmergencyEntry) :
    RequestSound parse (entry :: log) σ' k request := by
  obtain ⟨⟨membership, hmembership, hperson⟩, ask, input, body, hasked, hstatus⟩ := h
  exact ⟨⟨membership, (hmemberships _).trans hmembership, hperson⟩, ask, input, body, hasked,
    hstatus.cons entry⟩

/-- What an entry adds to what was read and reserved. -/
structure EntryChecked (parse : String → Option Int) (log : List EmergencyEntry) (σ' : Vault)
    (entry : EmergencyEntry) : Prop where
  /-- Categories it has read are those of the request. -/
  categories : ∀ call categories,
    entry = ⟨.readCategories call, .committed (.categories categories)⟩ →
    ∃ request : EmergencyAccessRow,
      σ'.get .emergencyAccessRequests (call.action.requestId?.getD "") = some request ∧
        request.categories = categories
  /-- What it has reserved had been checked. -/
  reserved : ∀ call reservation,
    entry = ⟨.reserve call, .committed (.reservation reservation)⟩ →
    call.Resolved log ∧ call.Admitted parse log

/-- One more entry keeps log and rows sound, given that it is checked and that its requests
are sound. -/
theorem EmergencySound.next (h : EmergencySound parse init log σ) {entry : EmergencyEntry}
    (hkept : EmergencyKept σ σ') (hchecked : EntryChecked parse log σ' entry)
    (hrequests : ∀ (k : Identifier) (request : EmergencyAccessRow),
      σ'.get .emergencyAccessRequests k = some request →
      RequestSound parse (entry :: log) σ' k request) :
    EmergencySound parse init (entry :: log) σ' where
  memberships := h.memberships.trans hkept.memberships
  requests := hrequests
  categories := by
    intro call categories hmem
    rcases List.mem_cons.mp hmem with rfl | hmem
    · exact hchecked.categories call categories rfl
    · obtain ⟨old, hold, hcategories⟩ := h.categories call categories hmem
      obtain ⟨new, hnew, hsame, -⟩ := hkept.requests _ old hold
      exact ⟨new, hnew, hsame.trans hcategories⟩
  reserved := by
    intro call reservation hmem
    have hlog : ∀ other ∈ log, other ∈ entry :: log :=
      fun _ hother => List.mem_cons_of_mem _ hother
    rcases List.mem_cons.mp hmem with rfl | hmem
    · obtain ⟨hresolved, hadmitted⟩ := hchecked.reserved call reservation rfl
      exact ⟨hresolved.mono hlog, hadmitted.mono hlog⟩
    · obtain ⟨hresolved, hadmitted⟩ := h.reserved call reservation hmem
      exact ⟨hresolved.mono hlog, hadmitted.mono hlog⟩

/-- An entry that leaves memberships and requests alone keeps log and rows sound. -/
theorem EmergencySound.frame (h : EmergencySound parse init log σ) {entry : EmergencyEntry}
    (hmemberships : SameRows (S := vaultSchema) .memberships σ σ')
    (hrequests : SameRows (S := vaultSchema) .emergencyAccessRequests σ σ')
    (hchecked : EntryChecked parse log σ' entry) :
    EmergencySound parse init (entry :: log) σ' ∧ EmergencyKept σ σ' := by
  have hkept : EmergencyKept σ σ' :=
    ⟨hmemberships, fun k old hold => ⟨old, (hrequests k).trans hold, rfl, fun _ => rfl⟩⟩
  refine ⟨h.next hkept hchecked ?_, hkept⟩
  intro k request hrow
  exact (h.requests k request ((hrequests k).symm.trans hrow)).cons hmemberships entry

/-- A mutation is neither a reading of categories nor a reservation. -/
theorem entryChecked_mutated (call : EmergencyCall) (body : Json) :
    EntryChecked parse log σ' (mutated call body) where
  categories := fun _ _ heq => absurd (Entry.mk.inj heq).1 (by simp)
  reserved := fun _ _ heq => absurd (Entry.mk.inj heq).1 (by simp)

/-- A mutation that replaces one request, which keeps its categories and was neither denied nor
released, keeps log and rows sound when the new row is. -/
theorem EmergencySound.replace (h : EmergencySound parse init log σ) {call : EmergencyCall}
    {body : Json} {requestId : Identifier} {before after : EmergencyAccessRow}
    (hmemberships : SameRows (S := vaultSchema) .memberships σ σ')
    (hbefore : σ.get .emergencyAccessRequests requestId = some before)
    (hreplaces : Replaces (S := vaultSchema) .emergencyAccessRequests requestId (some after) σ σ')
    (hcategories : after.categories = before.categories)
    (hopen : before.status ≠ .denied ∧ before.status ≠ .released)
    (hsound : RequestSound parse (mutated call body :: log) σ' requestId after) :
    EmergencySound parse init (mutated call body :: log) σ' ∧ EmergencyKept σ σ' := by
  have hkept : EmergencyKept σ σ' := by
    refine ⟨hmemberships, fun k old hold => ?_⟩
    rcases hreplaces.get_cases k with ⟨rfl, hnew⟩ | ⟨-, hsame⟩
    · obtain rfl : before = old := Option.some.inj (hbefore.symm.trans hold)
      exact ⟨after, hnew, hcategories, fun hstatus => absurd hstatus (not_or.mpr hopen)⟩
    · exact ⟨old, hsame.trans hold, rfl, fun _ => rfl⟩
  refine ⟨h.next hkept (entryChecked_mutated call body) ?_, hkept⟩
  intro k request hrow
  rcases hreplaces.get_cases k with ⟨rfl, hnew⟩ | ⟨-, hsame⟩
  · obtain rfl : after = request := Option.some.inj (hnew.symm.trans hrow)
    exact hsound
  · exact (h.requests k request (hsame.symm.trans hrow)).cons hmemberships _

/-- A mutation that inserts a request under a free key keeps log and rows sound when the new row
is. -/
theorem EmergencySound.insert (h : EmergencySound parse init log σ) {call : EmergencyCall}
    {body : Json} {requestId : Identifier} {request : EmergencyAccessRow}
    (hmemberships : SameRows (S := vaultSchema) .memberships σ σ')
    (hnew : σ.get .emergencyAccessRequests requestId = none)
    (hreplaces : Replaces (S := vaultSchema) .emergencyAccessRequests requestId (some request) σ σ')
    (hsound : RequestSound parse (mutated call body :: log) σ' requestId request) :
    EmergencySound parse init (mutated call body :: log) σ' ∧ EmergencyKept σ σ' := by
  have hkept : EmergencyKept σ σ' := by
    refine ⟨hmemberships, fun k old hold => ?_⟩
    rcases hreplaces.get_cases k with ⟨rfl, -⟩ | ⟨-, hsame⟩
    · exact absurd (hnew.symm.trans hold) (by simp)
    · exact ⟨old, hsame.trans hold, rfl, fun _ => rfl⟩
  refine ⟨h.next hkept (entryChecked_mutated call body) ?_, hkept⟩
  intro k row hrow
  rcases hreplaces.get_cases k with ⟨rfl, hinserted⟩ | ⟨-, hsame⟩
  · obtain rfl : request = row := Option.some.inj (hinserted.symm.trans hrow)
    exact hsound
  · exact (h.requests k row (hsame.symm.trans hrow)).cons hmemberships _

/-- Categories an admitted decision or release has read are those of the request it changes. -/
theorem EmergencySound.categories_eq (h : EmergencySound parse init log σ) {call : EmergencyCall}
    {categories : List RecordCategory} {requestId : Identifier} {request : EmergencyAccessRow}
    (hread : ⟨.readCategories call, .committed (.categories categories)⟩ ∈ log)
    (hid : call.action.requestId? = some requestId)
    (hrow : σ.get .emergencyAccessRequests requestId = some request) :
    request.categories = categories := by
  obtain ⟨found, hfound, hcategories⟩ := h.categories call categories hread
  rw [hid, Option.getD_some] at hfound
  obtain rfl : request = found := Option.some.inj (hrow.symm.trans hfound)
  exact hcategories

/-- An admitted decision keeps the request it decides sound. -/
theorem EmergencySound.decided (h : EmergencySound parse init log σ) {call : EmergencyCall}
    {body : Json} {requestId : Identifier} {expectedVersion : Nat} {decision : EmergencyDecision}
    {before after : EmergencyAccessRow} (hadmitted : call.Admitted parse log)
    (haction : call.action = .decide requestId expectedVersion decision)
    (hbefore : σ.get .emergencyAccessRequests requestId = some before)
    (hchange : decideEmergencyRow call.identity.context expectedVersion decision
      call.generated.now before = some after)
    (hmemberships : SameRows (S := vaultSchema) .memberships σ σ')
    (hrequests : Replaces (S := vaultSchema) .emergencyAccessRequests requestId (some after) σ σ') :
    EmergencySound parse init (mutated call body :: log) σ' ∧ EmergencyKept σ σ' := by
  simp only [decideEmergencyRow, Option.ite_none_right_eq_some, Option.some.injEq] at hchange
  obtain ⟨⟨-, -, hstatus⟩, rfl⟩ := hchange
  simp only [EmergencyCall.Admitted, haction] at hadmitted
  obtain ⟨hvalid, categories, hread, hallows⟩ := hadmitted
  have hcategories : before.categories = categories :=
    h.categories_eq hread (by rw [haction]; rfl) hbefore
  obtain ⟨⟨membership, hmembership, hperson⟩, ask, input, askBody, hasked, hexplained⟩ :=
    h.requests requestId before hbefore
  have hasks : [mutated ask askBody].Sublist log := by
    simpa only [StatusExplained, hstatus] using hexplained
  refine h.replace hmemberships hbefore hrequests rfl (by simp [hstatus]) ?_
  refine ⟨⟨membership, (hmemberships _).trans hmembership, hperson⟩, ask, input, askBody,
    ⟨hasked.action, hasked.id, hasked.requester, hasked.recipient, hasked.categories⟩, ?_⟩
  cases decision with
  | deny => exact hasks.cons _
  | delay hours =>
    exact ⟨call, body, ⟨expectedVersion, hours, haction, hvalid.1, hvalid.2,
      fun category hmem => hallows category (hcategories ▸ hmem), rfl⟩, hasks.cons_cons _⟩

/-- An admitted release keeps the request it releases sound. -/
theorem EmergencySound.released (h : EmergencySound parse init log σ) {call : EmergencyCall}
    {body : Json} {requestId : Identifier} {expectedVersion : Nat}
    {before after : EmergencyAccessRow} (hadmitted : call.Admitted parse log)
    (haction : call.action = .release requestId expectedVersion)
    (hbefore : σ.get .emergencyAccessRequests requestId = some before)
    (hchange : releaseEmergencyRow call.identity.context expectedVersion call.generated.now
      before = some after)
    (hmemberships : SameRows (S := vaultSchema) .memberships σ σ')
    (hrequests : Replaces (S := vaultSchema) .emergencyAccessRequests requestId (some after) σ σ') :
    EmergencySound parse init (mutated call body :: log) σ' ∧ EmergencyKept σ σ' := by
  simp only [releaseEmergencyRow, Option.ite_none_right_eq_some, Option.some.injEq] at hchange
  obtain ⟨⟨-, -, hstatus, hdelay⟩, rfl⟩ := hchange
  simp only [EmergencyCall.Admitted, haction] at hadmitted
  obtain ⟨categories, hread, hallows⟩ := hadmitted
  have hcategories : before.categories = categories :=
    h.categories_eq hread (by rw [haction]; rfl) hbefore
  obtain ⟨⟨membership, hmembership, hperson⟩, ask, input, askBody, hasked, hexplained⟩ :=
    h.requests requestId before hbefore
  simp only [StatusExplained, hstatus] at hexplained
  obtain ⟨decide, decideBody, hdelayed, hsublist⟩ := hexplained
  obtain ⟨releaseAfter, hafter, hreached⟩ := (Option.any_eq_true _ _).mp hdelay
  have hreleased : ReleasedBy parse requestId before call :=
    ⟨expectedVersion, haction, fun category hmem => hallows category (hcategories ▸ hmem),
      releaseAfter, hafter, of_decide_eq_true hreached⟩
  refine h.replace hmemberships hbefore hrequests rfl (by simp [hstatus]) ?_
  exact ⟨⟨membership, (hmemberships _).trans hmembership, hperson⟩, ask, input, askBody,
    ⟨hasked.action, hasked.id, hasked.requester, hasked.recipient, hasked.categories⟩,
    decide, decideBody, call, body, hdelayed, hreleased, hsublist.cons_cons _⟩

/-- Every change by an admitted call keeps log and rows sound. -/
theorem EmergencySound.change (h : EmergencySound parse init log σ) {seen : Vault → Prop}
    (hseen : ∀ σ₀, seen σ₀ → SameRows (S := vaultSchema) .memberships σ₀ σ) {call : EmergencyCall}
    {body : Json} (hadmitted : call.Admitted parse log) (hchange : EmergencyChange σ σ' seen call) :
    EmergencySound parse init (mutated call body :: log) σ' ∧ EmergencyKept σ σ' := by
  cases hchange with
  | asked input haction σ₀ h₀ membership hmembership hreceives hnew hmemberships hrequests =>
    refine h.insert hmemberships hnew hrequests ?_
    simp only [EmergencyCall.Admitted, haction] at hadmitted
    simp only [MembershipRow.receivesFor, Bool.and_eq_true, beq_iff_eq] at hreceives
    have hkept := (hmemberships _).trans ((hseen σ₀ h₀ _).trans hmembership)
    exact ⟨⟨membership, hkept, hreceives.1.1.2⟩, call, input, body,
      ⟨haction, rfl, rfl, hadmitted.1, rfl⟩, List.singleton_sublist.mpr List.mem_cons_self⟩
  | decided requestId expectedVersion decision haction before after hbefore hrow hmemberships
      hrequests =>
    exact h.decided hadmitted haction hbefore hrow hmemberships hrequests
  | released requestId expectedVersion haction before after hbefore hrow hmemberships hrequests =>
    exact h.released hadmitted haction hbefore hrow hmemberships hrequests

/-- Categories a call reads are those of its request. -/
theorem executes_readCategories {seen : Vault → Prop} {ws : List (Write vaultSchema)}
    {call : EmergencyCall} {answer : EmergencyAnswer}
    (hseen : ∀ σ₀, seen σ₀ → RequestsKept σ₀ σ)
    (h : (emergencyProgram sha256 (.readCategories call)).Executes seen σ [] (.ok answer) ws) :
    ∃ (categories : List RecordCategory) (request : EmergencyAccessRow),
      answer = .categories categories ∧
      σ.get .emergencyAccessRequests (call.action.requestId?.getD "") = some request ∧
      request.categories = categories := by
  obtain ⟨categories, ws₁, hread, hanswer, -⟩ := executes_bind_ok.mp h
  obtain ⟨found, ws₂, hselect, hread⟩ := executes_bind_ok.mp hread
  obtain ⟨σ₀, h₀, hfound, -⟩ := executes_select.mp hselect
  cases found with
  | none => exact absurd hread.1 (by simp)
  | some old =>
    obtain ⟨hold, -⟩ := Option.filter_eq_some_iff.mp (Except.ok.inj hfound).symm
    obtain ⟨request, hrequest, hsame, -⟩ := hseen σ₀ h₀ _ old hold
    have hcategories : categories = old.categories := Except.ok.inj hread.1
    exact ⟨categories, request, Except.ok.inj hanswer, hrequest, hsame.trans hcategories.symm⟩

/-- A transaction that is no mutation adds a checked entry. -/
theorem entryChecked_committed {seen : Vault → Prop} {ws : List (Write vaultSchema)}
    {step : EmergencyStep} {answer : EmergencyAnswer}
    (hpermitted : emergencyPermitted parse log step)
    (hstep : ∀ call, step ≠ .mutate call) (hseen : ∀ σ₀, seen σ₀ → RequestsKept σ₀ σ)
    (h : (emergencyProgram sha256 step).Executes seen σ [] (.ok answer) ws) :
    EntryChecked parse log (σ.overlay ws) ⟨step, .committed answer⟩ where
  categories := by
    rintro call categories heq
    obtain ⟨rfl, hanswer⟩ := Entry.mk.inj heq
    obtain ⟨found, request, hfound, hrow, hcategories⟩ := executes_readCategories hseen h
    have hsame := (emergencyProgram_leaves (t := .emergencyAccessRequests) (by decide) sha256
      hstep).sameRows h
    obtain rfl : found = categories :=
      EmergencyAnswer.categories.inj (hfound.symm.trans (Outcome.committed.inj hanswer))
    exact ⟨request, (hsame _).trans hrow, hcategories⟩
  reserved := by
    intro call reservation heq
    obtain ⟨rfl, -⟩ := Entry.mk.inj heq
    exact hpermitted

/-- An entry that has not committed is checked. -/
theorem entryChecked_dropped {step : EmergencyStep}
    {outcome : Outcome RepositoryError EmergencyAnswer}
    (houtcome : ∀ answer, outcome ≠ .committed answer) :
    EntryChecked parse log σ' ⟨step, outcome⟩ where
  categories := fun _ _ heq => absurd (Entry.mk.inj heq).2 (houtcome _)
  reserved := fun _ _ heq => absurd (Entry.mk.inj heq).2 (houtcome _)

/-- An entry that has not committed keeps log and rows sound. -/
theorem EmergencySound.dropped (h : EmergencySound parse init log σ) {step : EmergencyStep}
    {outcome : Outcome RepositoryError EmergencyAnswer}
    (houtcome : ∀ answer, outcome ≠ .committed answer) :
    EmergencySound parse init (⟨step, outcome⟩ :: log) σ :=
  (h.frame (SameRows.refl (S := vaultSchema) _ σ) (SameRows.refl (S := vaultSchema) _ σ)
    (entryChecked_dropped houtcome)).1

/-- What is permitted stays permitted. -/
theorem emergencyPermitted_mono {log' : List EmergencyEntry} {step : EmergencyStep}
    (h : emergencyPermitted parse log step) (hlog : ∀ entry ∈ log, entry ∈ log') :
    emergencyPermitted parse log' step := by
  cases step with
  | resolve _ _ _ => trivial
  | readCategories call => exact ⟨h.1.mono hlog, h.2⟩
  | reserve call => exact ⟨h.1.mono hlog, h.2.mono hlog⟩
  | mutate call => exact hlog _ h
  | complete call body => exact hlog _ h

end Steps

section Runs

variable {parse : String → Option Int} {sha256 : Sha256} {init : Vault}

/-- Without requests there is nothing to explain. -/
theorem emergencySound_initial
    (hnone : ∀ k : Identifier, init.get .emergencyAccessRequests k = none) :
    EmergencySound parse init [] init where
  memberships := SameRows.refl (S := vaultSchema) _ init
  requests := fun k request hrow => absurd ((hnone k).symm.trans hrow) (by simp)
  categories := fun call categories hmem => absurd hmem (by simp)
  reserved := fun call reservation hmem => absurd hmem (by simp)

variable (parse sha256) in
/-- In every interleaving log and rows are sound, and memberships and requests are kept. -/
theorem emergency_invariant
    (hnone : ∀ k : Identifier, init.get .emergencyAccessRequests k = none) :
    (emergencyProtocol parse sha256).Invariant init (EmergencySound parse init)
      EmergencyKept where
  refl := EmergencyKept.refl
  trans := EmergencyKept.trans
  start := emergencySound_initial hnone
  commit := by
    intro log begun seen σ step answer ws hsound hpermitted hbegun _ hearlier hexec
    have hnow := emergencyPermitted_mono hpermitted hbegun.subset
    have hkept : ∀ σ₀, seen σ₀ → EmergencyKept σ₀ σ := fun σ₀ h₀ => (hearlier σ₀ h₀).1
    by_cases hstep : ∃ call, step = .mutate call
    · obtain ⟨call, rfl⟩ := hstep
      obtain ⟨body, ws₁, hmutation, hanswer, rfl⟩ := executes_bind_ok.mp hexec
      obtain rfl := Except.ok.inj hanswer
      exact hsound.change (fun σ₀ h₀ => (hkept σ₀ h₀).memberships)
        (hsound.reserved call .reserved hnow).2 (EmergencyCall.executes_mutation hmutation)
    · have hother : ∀ call, step ≠ .mutate call := fun call heq => hstep ⟨call, heq⟩
      exact hsound.frame ((emergencyProgram_leaves (by decide) sha256 hother).sameRows hexec)
        ((emergencyProgram_leaves (by decide) sha256 hother).sameRows hexec)
        (entryChecked_committed hnow hother (fun σ₀ h₀ => (hkept σ₀ h₀).requests) hexec)
  rollback := fun hsound _ _ _ _ _ => hsound.dropped (fun answer => by simp)
  abort := fun hsound _ _ => hsound.dropped (fun answer => by simp)

/-- Why a category is released to an identity: its person asked for it through its membership, the
request was delayed for one to 168 hours and then released, both by identities that may approve
all of the request. -/
def ReleaseJustified (parse : String → Option Int) (log : List EmergencyEntry)
    (identity : ResolvedMembershipIdentity) (category : RecordCategory) : Prop :=
  ∃ (k : Identifier) (request : EmergencyAccessRow) (ask decide release : EmergencyCall)
    (input : EmergencyInput) (askBody decideBody releaseBody : Json),
    AskedBy k request ask input ∧ ask.identity.actorId = identity.actorId ∧
    ask.identity.membershipId = identity.membershipId ∧ category ∈ input.categories ∧
    DelayedBy parse k request decide ∧ ReleasedBy parse k request release ∧
    [mutated release releaseBody, mutated decide decideBody, mutated ask askBody].Sublist log

/-- What holds of emergency requests in a state that a run has reached. -/
structure EmergencySafe (s : (emergencyProtocol parse sha256).System) : Prop where
  /-- Whoever has asked, decided or released is an identity that was resolved. -/
  identified : ∀ call body, mutated call body ∈ s.log → call.Resolved s.log
  /-- Every category an identity is resolved with was asked for, delayed and released. -/
  resolved : ∀ s', Step s s' → ∀ authUserId requestedHouseholdId now identity,
    s'.log = ⟨.resolve authUserId requestedHouseholdId now,
      .committed (.identity identity)⟩ :: s.log →
    ∀ category ∈ identity.emergencyReleaseCategories,
      ReleaseJustified parse s.log identity category
  /-- A denied request stays as it is. -/
  denied : ∀ s', Later s s' → ∀ (k : Identifier) (request : EmergencyAccessRow),
    s.committed.get .emergencyAccessRequests k = some request → request.status = .denied →
    s'.committed.get .emergencyAccessRequests k = some request
  /-- A request changes its status through a call, as the domain admits at the call's time. -/
  transitions : ∀ s', Step s s' → ∀ (k : Identifier) (before after : EmergencyAccessRow),
    s.committed.get .emergencyAccessRequests k = some before →
    s'.committed.get .emergencyAccessRequests k = some after → before.status ≠ after.status →
    ∃ call body next, s'.log = mutated call body :: s.log ∧
      transitionEmergencyAccess before after.status call.generated.now = .ok next

/-- A mutation follows a reservation, which follows the resolution of its identity. -/
theorem mutated_resolved (hnone : ∀ k : Identifier, init.get .emergencyAccessRequests k = none)
    {s : (emergencyProtocol parse sha256).System} (h : Reachable init s) {call : EmergencyCall}
    {body : Json} (hmem : mutated call body ∈ s.log) : call.Resolved s.log := by
  have hinvariant := emergency_invariant parse sha256 hnone
  obtain ⟨later, log₀, hlog⟩ := List.mem_iff_append.mp hmem
  obtain ⟨begun, -, -, hpermitted, hbegun, -⟩ := hinvariant.ended h hlog
  have hsuffix : begun <:+ s.log :=
    hbegun.trans ⟨later ++ [mutated call body], by rw [hlog, List.append_assoc]; rfl⟩
  exact ((hinvariant.reachable h).reserved call .reserved (hsuffix.subset hpermitted)).1

/-- A request that is denied or released stays as it is. -/
theorem request_closed (hnone : ∀ k : Identifier, init.get .emergencyAccessRequests k = none)
    {s s' : (emergencyProtocol parse sha256).System} (h : Reachable init s) (hlater : Later s s')
    {k : Identifier} {request : EmergencyAccessRow}
    (hrow : s.committed.get .emergencyAccessRequests k = some request)
    (hclosed : request.status = .denied ∨ request.status = .released) :
    s'.committed.get .emergencyAccessRequests k = some request := by
  have hkept := (emergency_invariant parse sha256 hnone).later h hlater
  obtain ⟨new, hnew, -, hsame⟩ := hkept.requests k request hrow
  rwa [hsame hclosed] at hnew

/-- A change of status is a transition of the domain. -/
theorem EmergencyChange.transition {σ σ' : Vault} {seen : Vault → Prop} {call : EmergencyCall}
    (h : EmergencyChange σ σ' seen call) {k : Identifier} {before after : EmergencyAccessRow}
    (hbefore : σ.get .emergencyAccessRequests k = some before)
    (hafter : σ'.get .emergencyAccessRequests k = some after)
    (hstatus : before.status ≠ after.status) :
    ∃ next, transitionEmergencyAccess before after.status call.generated.now = .ok next := by
  have hchanged : σ'.get .emergencyAccessRequests k ≠ σ.get .emergencyAccessRequests k := by
    intro hsame
    obtain rfl : before = after := Option.some.inj (hbefore.symm.trans (hsame.symm.trans hafter))
    exact hstatus rfl
  cases h with
  | asked _ _ _ _ _ _ _ hnew _ hrequests =>
    rcases hrequests.get_cases k with ⟨rfl, -⟩ | ⟨-, hsame⟩
    · exact absurd (hnew.symm.trans hbefore) (by simp)
    · exact absurd hsame hchanged
  | decided _ _ _ _ old new hold hchange _ hrequests =>
    rcases hrequests.get_cases k with ⟨rfl, hnew⟩ | ⟨-, hsame⟩
    · obtain rfl : old = before := Option.some.inj (hold.symm.trans hbefore)
      obtain rfl : new = after := Option.some.inj (hnew.symm.trans hafter)
      exact decideEmergencyRow_transition hchange
    · exact absurd hsame hchanged
  | released _ _ _ old new hold hchange _ hrequests =>
    rcases hrequests.get_cases k with ⟨rfl, hnew⟩ | ⟨-, hsame⟩
    · obtain rfl : old = before := Option.some.inj (hold.symm.trans hbefore)
      obtain rfl : new = after := Option.some.inj (hnew.symm.trans hafter)
      exact releaseEmergencyRow_transition hchange
    · exact absurd hsame hchanged

/-- A step changes a status through a mutation only. -/
theorem status_step (hnone : ∀ k : Identifier, init.get .emergencyAccessRequests k = none)
    {s s' : (emergencyProtocol parse sha256).System} (h : Reachable init s) (hstep : Step s s')
    {k : Identifier} {before after : EmergencyAccessRow}
    (hbefore : s.committed.get .emergencyAccessRequests k = some before)
    (hafter : s'.committed.get .emergencyAccessRequests k = some after)
    (hstatus : before.status ≠ after.status) :
    ∃ call body next, s'.log = mutated call body :: s.log ∧
      transitionEmergencyAccess before after.status call.generated.now = .ok next := by
  have hsame : s'.committed.get .emergencyAccessRequests k =
      s.committed.get .emergencyAccessRequests k → False := by
    intro hrow
    obtain rfl : before = after := Option.some.inj (hbefore.symm.trans (hrow.symm.trans hafter))
    exact hstatus rfl
  rcases hstep.committed_or_log with hcommitted | ⟨step, answer, hlog⟩
  · exact absurd (by rw [hcommitted]) hsame
  · obtain ⟨ws, begun, seen, hcommitted, -, -, -, -, hexec⟩ :=
      (emergency_invariant parse sha256 hnone).committed_step h hstep hlog
    by_cases hmutate : ∃ call, step = .mutate call
    · obtain ⟨call, rfl⟩ := hmutate
      obtain ⟨body, ws₁, hmutation, hanswer, rfl⟩ := executes_bind_ok.mp hexec
      obtain rfl := Except.ok.inj hanswer
      rw [hcommitted] at hafter
      obtain ⟨next, hnext⟩ :=
        (EmergencyCall.executes_mutation hmutation).transition hbefore hafter hstatus
      exact ⟨call, body, next, hlog, hnext⟩
    · have hother : ∀ call, step ≠ .mutate call := fun call heq => hmutate ⟨call, heq⟩
      have hrows := (emergencyProgram_leaves (t := .emergencyAccessRequests) (by decide) sha256
        hother).sameRows hexec
      rw [hcommitted] at hsame
      exact absurd (hrows k) hsame

/-- Why an identity is resolved with a category. -/
theorem resolved_step (hnone : ∀ k : Identifier, init.get .emergencyAccessRequests k = none)
    (hids : ∀ (k : Identifier) (membership : MembershipRow),
      init.get .memberships k = some membership → membership.id = k)
    {s s' : (emergencyProtocol parse sha256).System} (h : Reachable init s) (hstep : Step s s')
    {authUserId : Identifier} {requestedHouseholdId : Option Identifier} {now : Instant}
    {identity : ResolvedMembershipIdentity}
    (hlog : s'.log = ⟨.resolve authUserId requestedHouseholdId now,
      .committed (.identity identity)⟩ :: s.log)
    {category : RecordCategory} (hcategory : category ∈ identity.emergencyReleaseCategories) :
    ReleaseJustified parse s.log identity category := by
  have hinvariant := emergency_invariant parse sha256 hnone
  have hsound := hinvariant.reachable h
  obtain ⟨ws, begun, seen, -, -, -, -, hearlier, hexec⟩ := hinvariant.committed_step h hstep hlog
  obtain ⟨found, ws₁, hresolve, hanswer, -⟩ := executes_bind_ok.mp hexec
  obtain rfl := EmergencyAnswer.identity.inj (Except.ok.inj hanswer)
  obtain ⟨σ₀, k, membership, h₀, hmembership, hid, hactor, hreleased⟩ :=
    executes_resolveMembership hresolve
  obtain ⟨σ₁, h₁, hmem⟩ := hreleased category hcategory
  obtain ⟨requestId, request, hrow, hto, hlisted⟩ := mem_releasedCategories hmem
  simp only [EmergencyAccessRow.releasedTo, Bool.and_eq_true, beq_iff_eq] at hto
  obtain ⟨⟨⟨-, hrecipient⟩, hstatus⟩, -⟩ := hto
  -- The request is released for good, so it is still the row it was when it was read.
  obtain ⟨new, hnew, -, hsame⟩ := (hearlier σ₁ h₁).1.requests requestId request hrow
  obtain rfl := hsame (Or.inr hstatus)
  obtain ⟨⟨recipient, hrecipientRow, hperson⟩, ask, input, askBody, hasked, hexplained⟩ :=
    hsound.requests requestId new hnew
  simp only [StatusExplained, hstatus] at hexplained
  obtain ⟨decide, decideBody, release, releaseBody, hdelay, hrelease, hsublist⟩ := hexplained
  -- The recipient's row is the membership of the identity.
  obtain ⟨-, log₀, -, -, hsound₀⟩ := hearlier σ₀ h₀
  have hinit : init.get .memberships k = some membership :=
    (hsound₀.memberships k).symm.trans hmembership
  have hinit' : init.get .memberships new.recipientMembershipId = some recipient :=
    (hsound.memberships _).symm.trans hrecipientRow
  obtain rfl := hids k membership hinit
  rw [hrecipient] at hinit'
  obtain rfl : membership = recipient := Option.some.inj (hinit.symm.trans hinit')
  refine ⟨requestId, new, ask, decide, release, input, askBody, decideBody, releaseBody, hasked,
    ?_, ?_, hasked.categories ▸ hlisted, hdelay, hrelease, hsublist⟩
  · rw [hactor, hperson, hasked.requester]
  · rw [hid, ← hrecipient, hasked.recipient]

/-- Emergency access is released safely in every run of the emergency routes. -/
theorem emergency_release_safety
    (hnone : ∀ k : Identifier, init.get .emergencyAccessRequests k = none)
    (hids : ∀ (k : Identifier) (membership : MembershipRow),
      init.get .memberships k = some membership → membership.id = k)
    {s : (emergencyProtocol parse sha256).System} (h : Reachable init s) : EmergencySafe s where
  identified := fun _ _ hmem => mutated_resolved hnone h hmem
  resolved := fun _ hstep _ _ _ _ hlog _ hcategory =>
    resolved_step hnone hids h hstep hlog hcategory
  denied := fun _ hlater _ _ hrow hdenied => request_closed hnone h hlater hrow (Or.inl hdenied)
  transitions := fun _ hstep _ _ _ hbefore hafter hstatus =>
    status_step hnone h hstep hbefore hafter hstatus

end Runs

/-- A household with an owner and an emergency recipient. -/
def exampleEmergencyVault : Vault :=
  ((Store.empty : Vault).set .memberships "m1"
    (some ⟨"m1", "o1", "h1", "p1", .owner, true, some "u1", 1⟩)).set .memberships "m2"
    (some ⟨"m2", "o1", "h1", "p2", .emergencyRecipient, true, some "u2", 1⟩)

/-- Reads the one time the example's identities have been verified at. -/
def exampleParse (text : String) : Option Int :=
  if text = "1970-01-01T00:00:00.000Z" then some 0 else none

/-- The owner. -/
def exampleOwner : AuthenticatedTenantIdentity where
  organizationId := "o1"
  householdId := "h1"
  actorId := "p1"
  membershipId := "m1"
  role := .owner
  grants := []
  supportApprovals := []
  emergencyReleaseCategories := []
  sessionIssuedAt := "1970-01-01T00:00:00.000Z"
  mfaVerifiedAt := some "1970-01-01T00:00:00.000Z"

/-- The recipient, before anything is released. -/
def exampleRecipient : AuthenticatedTenantIdentity where
  organizationId := "o1"
  householdId := "h1"
  actorId := "p2"
  membershipId := "m2"
  role := .emergencyRecipient
  grants := []
  supportApprovals := []
  emergencyReleaseCategories := []
  sessionIssuedAt := "1970-01-01T00:00:00.000Z"
  mfaVerifiedAt := none

/-- The recipient asks for the assets. -/
def exampleAsk : EmergencyCall :=
  ⟨exampleRecipient, "k1", .ask ⟨"m2", [.assets], "hospital"⟩, fun _ => 0,
    ⟨"e1", "w1", "dek", 1, 7, 0⟩, 0⟩

/-- The owner delays the request for an hour. -/
def exampleDecide : EmergencyCall :=
  ⟨exampleOwner, "k2", .decide "e1" 1 (.delay 1), fun _ => 0, ⟨"x", "x", "dek", 1, 7, 0⟩, 0⟩

/-- The owner releases it an hour later. -/
def exampleRelease : EmergencyCall :=
  ⟨exampleOwner, "k3", .release "e1" 2, fun _ => 0, ⟨"x", "x", "dek", 1, 7, 3600000⟩, 0⟩

/-- Both are resolved, and the request is made, delayed and released. -/
def exampleEmergency : List EmergencyStep :=
  [.resolve "u1" none 0, .resolve "u2" none 0,
    .reserve exampleAsk, .mutate exampleAsk,
    .readCategories exampleDecide, .reserve exampleDecide, .mutate exampleDecide,
    .readCategories exampleRelease, .reserve exampleRelease, .mutate exampleRelease]

/-- The requests are permitted one after the other. -/
theorem exampleEmergency_permitted :
    (emergencyProtocol exampleParse Sha256.transparent).Sequential [] exampleEmergencyVault
      exampleEmergency := by
  have hask : exampleAsk.Admitted exampleParse [] := by
    refine ⟨rfl, by decide, ?_⟩
    intro category hcategory
    obtain rfl := List.mem_singleton.mp hcategory
    rfl
  have hdecide : ∀ category ∈ [RecordCategory.assets],
      exampleDecide.allows exampleParse .approve "vault.emergency-access.decide" category := by
    intro category hcategory
    obtain rfl := List.mem_singleton.mp hcategory
    rfl
  have hrelease : ∀ category ∈ [RecordCategory.assets],
      exampleRelease.allows exampleParse .approve "vault.emergency-access.release" category := by
    intro category hcategory
    obtain rfl := List.mem_singleton.mp hcategory
    rfl
  have hlater : ∀ {entry other : EmergencyEntry} {log : List EmergencyEntry}, entry ∈ log →
      entry ∈ other :: log := List.mem_cons_of_mem _
  have hfirst : ∀ {entry : EmergencyEntry} {log : List EmergencyEntry}, entry ∈ entry :: log :=
    List.mem_cons_self
  refine ⟨trivial, trivial, ⟨⟨"u2", none, 0, hfirst⟩, hask⟩, hfirst,
    ⟨⟨"u1", none, 0, ?_⟩, by decide⟩,
    ⟨⟨"u1", none, 0, ?_⟩, ⟨by decide, by decide⟩, [.assets], hfirst, hdecide⟩, hfirst,
    ⟨⟨"u1", none, 0, ?_⟩, by decide⟩,
    ⟨⟨"u1", none, 0, ?_⟩, [.assets], hfirst, hrelease⟩, hfirst, trivial⟩
  · exact hlater (hlater (hlater hfirst))
  · exact hlater (hlater (hlater (hlater hfirst)))
  · exact hlater (hlater (hlater (hlater (hlater (hlater hfirst)))))
  · exact hlater (hlater (hlater (hlater (hlater (hlater (hlater hfirst))))))

theorem emergency_release_safety_example :
    ∃ s s' : (emergencyProtocol exampleParse Sha256.transparent).System,
      ∃ identity : ResolvedMembershipIdentity,
      Reachable exampleEmergencyVault s ∧ Step s s' ∧
      s'.log = ⟨.resolve "u2" none 3600000, .committed (.identity identity)⟩ :: s.log ∧
      identity.emergencyReleaseCategories = [.assets] ∧ EmergencySafe s := by
  obtain ⟨s, s', hs, hstep, -, hcommitted, hlog, -⟩ := sequential_last
    (P := emergencyProtocol exampleParse Sha256.transparent) exampleEmergencyVault exampleEmergency
    (.resolve "u2" none 3600000) exampleEmergency_permitted trivial
  refine ⟨s, s', { exampleRecipient.toResolvedMembershipIdentity with
    emergencyReleaseCategories := [.assets] }, hs, hstep, ?_, rfl,
    emergency_release_safety (fun k => rfl) ?_ hs⟩
  · rw [hlog, hcommitted]
    rfl
  · intro k membership hrow
    have hids : ∀ entry ∈ exampleEmergencyVault.scan .memberships, entry.2.id = entry.1 := by
      decide
    exact hids (k, membership) (mem_scan.mpr hrow)

end LegacyVault
