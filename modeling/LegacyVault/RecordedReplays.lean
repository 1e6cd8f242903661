import LegacyVault.TwoPhaseIdempotency

/-!
# Replays of recorded routes

Which requests a stored response is returned to. The three transactions of a
request are three requests of one protocol: a mutation follows a reservation,
and a completion follows a mutation. Any number of them run in any
interleaving.

A record answers the requests of its hash only, so everything rests on the
request shapes. They tell the routes apart, except for the three transitions
of a fact, which are hashed alike.
-/

namespace LegacyVault

open JsonText RowTransaction RowTransaction.Program Store

/-! ## Request shapes -/

/-- What a request shape tells about its route. -/
inductive ShapeKind where
  | fact | consent | transition | emergency | decision | release | withdrawal | report
  deriving DecidableEq

/-- Read the kind of a request shape off its members. -/
def shapeKind (shape : Json) : ShapeKind :=
  if "fieldKey" ∈ memberNames shape then .fact
  else if "personId" ∈ memberNames shape then .consent
  else if "factId" ∈ memberNames shape then .transition
  else if "reason" ∈ memberNames shape then .emergency
  else if "decision" ∈ memberNames shape then .decision
  else if "requestId" ∈ memberNames shape then .release
  else if "consentId" ∈ memberNames shape then .withdrawal
  else .report

/-- The kind of a route's shapes. -/
def RecordedInput.kind : RecordedInput → ShapeKind
  | createFact _ => .fact
  | confirmFact _ _ | rejectFact _ _ | disputeFact _ _ => .transition
  | createEmergency _ => .emergency
  | decideEmergency _ _ _ => .decision
  | releaseEmergency _ _ => .release
  | recordConsent _ => .consent
  | withdrawConsent _ _ => .withdrawal
  | createReport _ => .report

theorem member_of_requiredString {name value : String} {body : Json}
    (h : requiredString name body = some value) : member name body = some (.str value) := by
  unfold requiredString at h
  split at h
  · rename_i text hmember
    split at h
    · exact absurd h (by simp)
    · rw [hmember, Option.some.inj h]
  · exact absurd h (by simp)

/-- The body of a fact has a field key. -/
theorem FactBody.fieldKey_mem (body : FactBody) : "fieldKey" ∈ memberNames body.json := by
  have hdecoded := body.decoded
  unfold decodeFactBody at hdecoded
  split at hdecoded
  · obtain ⟨fieldKey, hfieldKey, -⟩ := Option.bind_eq_some_iff.mp hdecoded
    exact mem_memberNames_of_member (member_of_requiredString hfieldKey)
  · exact absurd hdecoded (by simp)

/-- The body of a consent has a person and no field key. -/
theorem ConsentBody.members (body : ConsentBody) :
    "personId" ∈ memberNames body.json ∧ "fieldKey" ∉ memberNames body.json := by
  have hdecoded := body.decoded
  unfold decodeConsentBody at hdecoded
  split at hdecoded
  · rename_i hmembers
    obtain ⟨personId, hpersonId, -⟩ := Option.bind_eq_some_iff.mp hdecoded
    refine ⟨mem_memberNames_of_member (member_of_requiredString hpersonId), fun hfieldKey => ?_⟩
    exact absurd (hmembers _ hfieldKey) (by decide)
  · exact absurd hdecoded (by simp)

/-- The members of a request shape tell its kind. -/
theorem shapeKind_shape (input : RecordedInput) : shapeKind input.shape = input.kind := by
  cases input with
  | createFact body => exact if_pos body.fieldKey_mem
  | recordConsent body =>
    exact (if_neg body.members.2).trans (if_pos body.members.1)
  | _ => rfl

/-- The fact and version of a transition. -/
def RecordedInput.transition? : RecordedInput → Option (Identifier × Nat)
  | confirmFact factId expectedVersion | rejectFact factId expectedVersion
  | disputeFact factId expectedVersion => some (factId, expectedVersion)
  | _ => none

/-- Bodies of facts with the same text are the same. -/
theorem FactBody.eq_of_json {a b : FactBody} (h : a.json = b.json) : a = b := by
  obtain ⟨json, input, decoded⟩ := a
  obtain ⟨json', input', decoded'⟩ := b
  obtain rfl : json = json' := h
  obtain rfl : input = input' := Option.some.inj (decoded.symm.trans decoded')
  rfl

/-- Bodies of consents with the same text are the same. -/
theorem ConsentBody.eq_of_json {a b : ConsentBody} (h : a.json = b.json) : a = b := by
  obtain ⟨json, input, decoded⟩ := a
  obtain ⟨json', input', decoded'⟩ := b
  obtain rfl : json = json' := h
  obtain rfl : input = input' := Option.some.inj (decoded.symm.trans decoded')
  rfl

theorem ReportKind.text_injective : Function.Injective ReportKind.text := by
  intro a b h
  cases a <;> cases b <;> first | rfl | exact absurd h (by decide)

theorem EmergencyDecision.eq_of_shape {a b : EmergencyDecision} (htext : a.text = b.text)
    (hours : a.delayHours = b.delayHours) : a = b := by
  cases a with
  | deny =>
    cases b with
    | deny => rfl
    | delay hours => exact absurd htext (by simp [text])
  | delay hours =>
    cases b with
    | deny => exact absurd htext (by simp [text])
    | delay hours' => exact congrArg EmergencyDecision.delay hours

/-- Requests with one shape are the same request, or transitions of one fact at one version. -/
theorem RecordedInput.eq_or_transition {a b : RecordedInput} (h : a.shape = b.shape) :
    a = b ∨ (a.transition? ≠ none ∧ a.transition? = b.transition?) := by
  have hkind : a.kind = b.kind := by rw [← shapeKind_shape, h, shapeKind_shape]
  cases a <;> cases b <;> first | (simp [RecordedInput.kind] at hkind; done) | skip
  case createFact.createFact a b => exact Or.inl (congrArg createFact (FactBody.eq_of_json h))
  case recordConsent.recordConsent a b =>
    exact Or.inl (congrArg recordConsent (ConsentBody.eq_of_json h))
  case createEmergency.createEmergency a b =>
    simp [RecordedInput.shape] at h
    obtain ⟨hrecipient, hcategories, hreason⟩ := h
    have hmap : a.categories.map (fun category => Json.str category.text) =
        b.categories.map (fun category => Json.str category.text) := by simpa using hcategories
    have hlist : a.categories = b.categories :=
      List.map_injective_iff.mpr (fun x y hxy =>
        RecordCategory.text_injective (Json.str.inj hxy)) hmap
    left
    obtain ⟨recipientMembershipId, categories, reason⟩ := a
    simp only at hrecipient hlist hreason
    rw [hrecipient, hlist, hreason]
  case decideEmergency.decideEmergency requestId expectedVersion a requestId' expectedVersion' b =>
    simp [RecordedInput.shape] at h
    obtain ⟨rfl, rfl, htext, hours⟩ := h
    rw [EmergencyDecision.eq_of_shape htext hours]
    exact Or.inl rfl
  case releaseEmergency.releaseEmergency requestId expectedVersion requestId' expectedVersion' =>
    simp [RecordedInput.shape] at h
    obtain ⟨rfl, rfl⟩ := h
    exact Or.inl rfl
  case withdrawConsent.withdrawConsent consentId expectedVersion consentId' expectedVersion' =>
    simp [RecordedInput.shape] at h
    obtain ⟨rfl, rfl⟩ := h
    exact Or.inl rfl
  case createReport.createReport a b =>
    simp [RecordedInput.shape] at h
    exact Or.inl (congrArg createReport (ReportKind.text_injective h))
  all_goals
    right
    simp [RecordedInput.shape] at h
    simp [RecordedInput.transition?, h]

/-! ## Runs -/

/-- One transaction of a request. -/
inductive RecordedStep where
  | reserve (call : RecordedCall)
  | mutate (call : RecordedCall)
  | complete (call : RecordedCall) (body : Json)

/-- Result of one transaction. -/
inductive RecordedAnswer where
  | reservation (reservation : Reservation)
  | outcome (body : Json)
  | completed

/-- The log entry of one transaction. -/
abbrev RecordedEntry := Entry RecordedStep RepositoryError RecordedAnswer

/-- The record of a request. -/
def RecordedCall.recordKey (call : RecordedCall) : Identifier × Identifier × String :=
  call.context.recordKey call.key

/-- The request hash of a request. -/
def RecordedCall.requestHash (sha256 : Sha256) (call : RecordedCall) : String :=
  sha256.ofJson call.input.shape

/-- The transaction of a step. -/
def recordedProgram (sha256 : Sha256) : RecordedStep → Transaction RecordedAnswer
  | .reserve call => do
    let reservation ← reserveIdempotency sha256 call.context call.key call.input.shape
      call.reservedAt
    pure (.reservation reservation)
  | .mutate call => do
    let body ← call.mutation
    pure (.outcome body)
  | .complete call body => do
    completeIdempotency call.context call.key call.input.statusCode body
    pure .completed

/-- A request is asked for at any time; its mutation follows its reservation, and its
completion the mutation, with the body the mutation returned. -/
def recordedPermitted (asked : RecordedCall → Prop) (log : List RecordedEntry) :
    RecordedStep → Prop
  | .reserve call => asked call
  | .mutate call => ⟨.reserve call, .committed (.reservation .reserved)⟩ ∈ log
  | .complete call body => ⟨.mutate call, .committed (.outcome body)⟩ ∈ log

/-- The ten routes as a protocol. -/
abbrev recordedProtocol (sha256 : Sha256) (asked : RecordedCall → Prop) :
    Protocol vaultSchema where
  Request := RecordedStep
  Error := RepositoryError
  Result := RecordedAnswer
  program := recordedProgram sha256
  permitted := recordedPermitted asked

/-- A response was stored under the key by a request that reserved it and ran its mutation. -/
def StoredBy (sha256 : Sha256) (log : List RecordedEntry)
    (key : Identifier × Identifier × String) (requestHash : String) (response : StoredResponse) :
    Prop :=
  ∃ source body, ⟨.complete source body, .committed .completed⟩ ∈ log ∧
    ⟨.mutate source, .committed (.outcome body)⟩ ∈ log ∧
    ⟨.reserve source, .committed (.reservation .reserved)⟩ ∈ log ∧ source.recordKey = key ∧
    source.requestHash sha256 = requestHash ∧ response = ⟨source.input.statusCode, body⟩

/-- The record of a reservation is there with its hash, and with the response it returned. -/
def RecordedCall.Holds (sha256 : Sha256) (call : RecordedCall) (reservation : Reservation)
    (σ : Vault) : Prop :=
  ∃ row : IdempotencyRow, σ.get .idempotencyRecords call.recordKey = some row ∧
    row.requestHash = call.requestHash sha256 ∧
    ∀ response, reservation = .replay (some response) → row.response = some response

/-- What holds of log and records between transactions. -/
structure RecordedInvariant (sha256 : Sha256) (init : Vault) (log : List RecordedEntry)
    (σ : Vault) : Prop where
  /-- Every committed reservation has its record. -/
  reservations : ∀ call reservation,
    ⟨.reserve call, .committed (.reservation reservation)⟩ ∈ log → call.Holds sha256 reservation σ
  /-- Every mutation has its reservation. -/
  mutations : ∀ call body, ⟨.mutate call, .committed (.outcome body)⟩ ∈ log →
    ⟨.reserve call, .committed (.reservation .reserved)⟩ ∈ log
  /-- Every response that was not there at first was stored by a request. -/
  responses : ∀ (key : Identifier × Identifier × String) (row : IdempotencyRow) response,
    σ.get .idempotencyRecords key = some row → init.get .idempotencyRecords key = none →
    row.response = some response → StoredBy sha256 log key row.requestHash response
  /-- A reservation fails only with the conflict. -/
  conflicts : ∀ call error, ⟨.reserve call, .rolledBack error⟩ ∈ log → error = reservationConflict

/-- Records stay, with their hash and any response. -/
def RecordsGrow (σ₀ σ : Vault) : Prop :=
  ∀ (key : Identifier × Identifier × String) (row₀ : IdempotencyRow),
    σ₀.get .idempotencyRecords key = some row₀ →
    ∃ row : IdempotencyRow, σ.get .idempotencyRecords key = some row ∧
      row.requestHash = row₀.requestHash ∧
      ∀ response, row₀.response = some response → row.response = some response

theorem RecordsGrow.of_same {σ σ' : Vault} (h : SameRows VaultTable.idempotencyRecords σ σ') :
    RecordsGrow σ σ' :=
  fun key row hrow => ⟨row, by rw [h]; exact hrow, rfl, fun _ hresponse => hresponse⟩

theorem RecordsGrow.trans {σ₁ σ₂ σ₃ : Vault} (h : RecordsGrow σ₁ σ₂) (h' : RecordsGrow σ₂ σ₃) :
    RecordsGrow σ₁ σ₃ := by
  intro key row₁ hrow₁
  obtain ⟨row₂, hrow₂, hhash₂, hresponse₂⟩ := h key row₁ hrow₁
  obtain ⟨row₃, hrow₃, hhash₃, hresponse₃⟩ := h' key row₂ hrow₂
  exact ⟨row₃, hrow₃, hhash₃.trans hhash₂,
    fun response hr => hresponse₃ response (hresponse₂ response hr)⟩

section Invariant

variable {sha256 : Sha256} {init σ σ' : Vault} {log : List RecordedEntry} {entry : RecordedEntry}

theorem RecordedCall.Holds.later {call : RecordedCall} {reservation : Reservation}
    (h : call.Holds sha256 reservation σ) (hgrows : RecordsGrow σ σ') :
    call.Holds sha256 reservation σ' := by
  obtain ⟨row, hrow, hhash, hresponse⟩ := h
  obtain ⟨row', hrow', hhash', hresponse'⟩ := hgrows _ row hrow
  exact ⟨row', hrow', hhash'.trans hhash,
    fun response hr => hresponse' response (hresponse response hr)⟩

theorem StoredBy.cons {key : Identifier × Identifier × String} {requestHash : String}
    {response : StoredResponse} (h : StoredBy sha256 log key requestHash response)
    (entry : RecordedEntry) : StoredBy sha256 (entry :: log) key requestHash response := by
  obtain ⟨source, body, hcomplete, hmutate, hreserve, hrest⟩ := h
  exact ⟨source, body, List.mem_cons_of_mem _ hcomplete, List.mem_cons_of_mem _ hmutate,
    List.mem_cons_of_mem _ hreserve, hrest⟩

/-- The entry is in order: a reservation holds its record, a mutation has its reservation, and
a reservation fails with the conflict. -/
def InOrder (sha256 : Sha256) (log : List RecordedEntry) (σ : Vault) : RecordedEntry → Prop
  | ⟨.reserve call, .committed (.reservation reservation)⟩ => call.Holds sha256 reservation σ
  | ⟨.mutate call, .committed (.outcome _)⟩ =>
    ⟨.reserve call, .committed (.reservation .reserved)⟩ ∈ log
  | ⟨.reserve _, .rolledBack error⟩ => error = reservationConflict
  | _ => True

/-- One more entry in order keeps the invariant, when the responses are as before or stored
by it. -/
theorem RecordedInvariant.extend (h : RecordedInvariant sha256 init log σ)
    (hgrows : RecordsGrow σ σ') (horder : InOrder sha256 log σ' entry)
    (hresponses : ∀ (key : Identifier × Identifier × String) (row : IdempotencyRow) response,
      σ'.get .idempotencyRecords key = some row → row.response = some response →
      σ.get .idempotencyRecords key = some row ∨
        StoredBy sha256 (entry :: log) key row.requestHash response) :
    RecordedInvariant sha256 init (entry :: log) σ' where
  reservations := by
    intro call reservation hmem
    rcases List.mem_cons.mp hmem with rfl | hmem
    · exact horder
    · exact (h.reservations call reservation hmem).later hgrows
  mutations := by
    intro call body hmem
    rcases List.mem_cons.mp hmem with rfl | hmem
    · exact List.mem_cons_of_mem _ horder
    · exact List.mem_cons_of_mem _ (h.mutations call body hmem)
  responses := by
    intro key row response hrow hinit hresponse
    rcases hresponses key row response hrow hresponse with hold | hstored
    · exact (h.responses key row response hold hinit hresponse).cons entry
    · exact hstored
  conflicts := by
    intro call error hmem
    rcases List.mem_cons.mp hmem with rfl | hmem
    · exact horder
    · exact h.conflicts call error hmem

/-- An entry in order that leaves the records alone keeps the invariant. -/
theorem RecordedInvariant.frame (h : RecordedInvariant sha256 init log σ)
    (hsame : SameRows VaultTable.idempotencyRecords σ σ')
    (horder : InOrder sha256 log σ' entry) : RecordedInvariant sha256 init (entry :: log) σ' := by
  refine h.extend (.of_same hsame) horder (fun key row response hrow _ => ?_)
  left
  rw [← hsame]
  exact hrow

/-- Rows after one record is written. -/
theorem set_record_cases {key key' : Identifier × Identifier × String}
    {row row' : IdempotencyRow}
    (h : (σ.set .idempotencyRecords key (some row)).get .idempotencyRecords key' = some row') :
    (key' = key ∧ row' = row) ∨ σ.get .idempotencyRecords key' = some row' := by
  by_cases hkey : key' = key
  · subst hkey
    rw [get_set_self] at h
    exact Or.inl ⟨rfl, (Option.some.inj h).symm⟩
  · rw [get_set_of_key_ne _ _ hkey] at h
    exact Or.inr h

/-- A reservation of a free key keeps the invariant. -/
theorem RecordedInvariant.reserve (h : RecordedInvariant sha256 init log σ) {call : RecordedCall}
    (hfree : σ.get .idempotencyRecords call.recordKey = none) :
    RecordedInvariant sha256 init (⟨.reserve call, .committed (.reservation .reserved)⟩ :: log)
        (σ.set .idempotencyRecords call.recordKey (some (reservedRecord call.context call.key
          (call.requestHash sha256) call.reservedAt))) ∧
      RecordsGrow σ (σ.set .idempotencyRecords call.recordKey (some (reservedRecord call.context
        call.key (call.requestHash sha256) call.reservedAt))) := by
  have hgrows : RecordsGrow σ (σ.set .idempotencyRecords call.recordKey (some (reservedRecord
      call.context call.key (call.requestHash sha256) call.reservedAt))) := by
    intro key row hrow
    have hkey : key ≠ call.recordKey := by
      rintro rfl
      exact absurd (hrow.symm.trans hfree) (by simp)
    exact ⟨row, by rw [get_set_of_key_ne _ _ hkey]; exact hrow, rfl, fun _ hr => hr⟩
  have hheld : call.Holds sha256 .reserved (σ.set .idempotencyRecords call.recordKey
      (some (reservedRecord call.context call.key (call.requestHash sha256) call.reservedAt))) :=
    ⟨_, get_set_self _ _ _ _, rfl, fun _ hbad => absurd hbad (by simp)⟩
  refine ⟨h.extend hgrows hheld (fun key row response hrow hresponse => ?_), hgrows⟩
  rcases set_record_cases hrow with ⟨rfl, rfl⟩ | hold
  · exact absurd hresponse (by simp [reservedRecord])
  · exact Or.inl hold

/-- Storing the response of a mutation in its record keeps the invariant. -/
theorem RecordedInvariant.complete (h : RecordedInvariant sha256 init log σ)
    {call : RecordedCall} {body : Json} {row : IdempotencyRow}
    (hrow : σ.get .idempotencyRecords call.recordKey = some row) (hresponse : row.response = none)
    (hmutated : ⟨.mutate call, .committed (.outcome body)⟩ ∈ log) :
    RecordedInvariant sha256 init (⟨.complete call body, .committed .completed⟩ :: log)
        (σ.set .idempotencyRecords call.recordKey
          (some { row with response := some ⟨call.input.statusCode, body⟩ })) ∧
      RecordsGrow σ (σ.set .idempotencyRecords call.recordKey
        (some { row with response := some ⟨call.input.statusCode, body⟩ })) := by
  have hgrows : RecordsGrow σ (σ.set .idempotencyRecords call.recordKey
      (some { row with response := some ⟨call.input.statusCode, body⟩ })) := by
    intro key row₀ hrow₀
    by_cases hkey : key = call.recordKey
    · subst hkey
      obtain rfl : row = row₀ := Option.some.inj (hrow.symm.trans hrow₀)
      exact ⟨_, get_set_self _ _ _ _, rfl, fun response hr => absurd (hresponse.symm.trans hr)
        (by simp)⟩
    · exact ⟨row₀, by rw [get_set_of_key_ne _ _ hkey]; exact hrow₀, rfl, fun _ hr => hr⟩
  have hreserved := h.mutations call body hmutated
  obtain ⟨row', hrow', hhash, -⟩ := h.reservations call .reserved hreserved
  obtain rfl : row = row' := Option.some.inj (hrow.symm.trans hrow')
  refine ⟨h.extend hgrows trivial (fun key row' response hrow' hresponse' => ?_), hgrows⟩
  rcases set_record_cases hrow' with ⟨rfl, rfl⟩ | hold
  · right
    exact ⟨call, body, List.mem_cons_self, List.mem_cons_of_mem _ hmutated,
      List.mem_cons_of_mem _ hreserved, rfl, hhash.symm, (Option.some.inj hresponse').symm⟩
  · exact Or.inl hold

end Invariant

/-- The records keep the invariant in every interleaving. -/
theorem recorded_invariant (sha256 : Sha256) (asked : RecordedCall → Prop) (init : Vault) :
    (recordedProtocol sha256 asked).Invariant init (RecordedInvariant sha256 init)
      RecordsGrow where
  refl := fun σ => .of_same (fun _ => rfl)
  trans := fun h h' => h.trans h'
  start := ⟨fun _ _ hmem => absurd hmem (by simp), fun _ _ hmem => absurd hmem (by simp),
    fun key row response hrow hinit => absurd (hrow.symm.trans hinit) (by simp),
    fun _ _ hmem => absurd hmem (by simp)⟩
  commit := by
    intro log begun seen σ r answer ws hinv hpermitted hbegun hnow hearlier hexec
    cases r with
    | reserve call =>
      obtain ⟨reservation, ws₁, hreserve, hanswer⟩ := executes_bind_ok.mp hexec
      obtain ⟨hanswer, rfl⟩ := hanswer
      obtain rfl := Except.ok.inj hanswer
      rcases executes_reserveIdempotency hreserve with ⟨hresult, hfree, rfl⟩ |
        ⟨σ₀, row, hs, hrow, hhash, hresult, rfl⟩ | ⟨hbad, -⟩
      · obtain rfl := Except.ok.inj hresult
        exact hinv.reserve hfree
      · obtain rfl := Except.ok.inj hresult
        obtain ⟨hgrows, -⟩ := hearlier σ₀ hs
        have hheld : call.Holds sha256 (.replay row.response) σ₀ :=
          ⟨row, hrow, hhash, fun response hr => Reservation.replay.inj hr⟩
        exact ⟨hinv.frame (fun _ => rfl) (hheld.later hgrows), .of_same (fun _ => rfl)⟩
      · exact absurd hbad (by simp)
    | mutate call =>
      obtain ⟨body, ws₁, hmutation, hanswer⟩ := executes_bind_ok.mp hexec
      obtain ⟨hanswer, rfl⟩ := hanswer
      obtain rfl := Except.ok.inj hanswer
      have hsame := call.mutation_leaves.sameRows hmutation
      exact ⟨hinv.frame hsame (hbegun.subset hpermitted), .of_same hsame⟩
    | complete call body =>
      obtain ⟨_, ws₁, hcomplete, hanswer⟩ := executes_bind_ok.mp hexec
      obtain ⟨hanswer, rfl⟩ := hanswer
      obtain rfl := Except.ok.inj hanswer
      rcases executes_completeIdempotency hcomplete with ⟨row, hrow, hresponse, rfl⟩ | rfl
      · exact hinv.complete hrow hresponse (hbegun.subset hpermitted)
      · exact ⟨hinv.frame (fun _ => rfl) trivial, .of_same (fun _ => rfl)⟩
  rollback := by
    intro log begun seen σ r error ws hinv hpermitted hbegun hnow hearlier hexec
    cases r with
    | reserve call =>
      refine hinv.frame (fun _ => rfl) ?_
      rcases executes_bind.mp hexec with ⟨_, _, _, hbad, _⟩ | ⟨error', herror, hreserve⟩
      · exact absurd hbad (by simp)
      · rcases executes_reserveIdempotency hreserve with ⟨hbad, -⟩ | ⟨_, _, _, _, _, hbad, _⟩ |
          ⟨hconflict, -⟩
        · exact absurd hbad (by simp)
        · exact absurd hbad (by simp)
        · exact (Except.error.inj herror).trans (Except.error.inj hconflict)
    | mutate call => exact hinv.frame (fun _ => rfl) trivial
    | complete call body => exact hinv.frame (fun _ => rfl) trivial
  abort := by
    intro log begun σ r hinv hpermitted hbegun
    cases r <;> exact hinv.frame (fun _ => rfl) trivial

/-- What replays should be: every request that carries a key is one and the same, or is rejected
as a conflict, and what is returned was stored by that request. -/
structure ReplaysSound {sha256 : Sha256} {asked : RecordedCall → Prop}
    (s : (recordedProtocol sha256 asked).System) : Prop where
  /-- Two reservations of one key that succeed are of one operation with one input. -/
  sameRequest : ∀ a b x y, ⟨.reserve a, .committed x⟩ ∈ s.log → ⟨.reserve b, .committed y⟩ ∈ s.log →
    a.recordKey = b.recordKey → a.input = b.input
  /-- A reservation that does not succeed is rejected as a conflict or aborted. -/
  rejected : ∀ call outcome, ⟨.reserve call, outcome⟩ ∈ s.log →
    (∃ reservation, outcome = .committed (.reservation reservation)) ∨
      outcome = .rolledBack reservationConflict ∨ outcome = .aborted
  /-- A response that is returned was stored by a request with the same key and input, from the
  outcome of its mutation. -/
  source : ∀ call response, ⟨.reserve call, .committed (.reservation (.replay (some response)))⟩ ∈
      s.log →
    ∃ source body, ⟨.complete source body, .committed .completed⟩ ∈ s.log ∧
      ⟨.mutate source, .committed (.outcome body)⟩ ∈ s.log ∧
      source.recordKey = call.recordKey ∧ source.input = call.input ∧
      response = ⟨source.input.statusCode, body⟩

section Runs

variable {sha256 : Sha256} {asked : RecordedCall → Prop} {init : Vault}
  {s : (recordedProtocol sha256 asked).System}

/-- A reservation that commits returns a reservation. -/
theorem committed_reservation {call : RecordedCall} {answer : RecordedAnswer}
    (hexplained : Protocol.Explained (P := recordedProtocol sha256 asked)
      ⟨.reserve call, .committed answer⟩) : ∃ reservation, answer = .reservation reservation := by
  obtain ⟨seen, σ, ws, hexec⟩ := hexplained.2 (.ok answer) rfl
  obtain ⟨reservation, ws₁, -, hanswer⟩ := executes_bind_ok.mp hexec
  exact ⟨reservation, Except.ok.inj hanswer.1⟩

/-- Two reservations of one key that succeed have one request hash. -/
theorem reservations_hash (h : Protocol.Reachable init s) {a b : RecordedCall}
    {x y : Reservation} (ha : ⟨.reserve a, .committed (.reservation x)⟩ ∈ s.log)
    (hb : ⟨.reserve b, .committed (.reservation y)⟩ ∈ s.log) (hkey : a.recordKey = b.recordKey) :
    a.requestHash sha256 = b.requestHash sha256 := by
  have hinv := (recorded_invariant sha256 asked init).reachable h
  obtain ⟨rowa, hrowa, hhasha, -⟩ := hinv.reservations a x ha
  obtain ⟨rowb, hrowb, hhashb, -⟩ := hinv.reservations b y hb
  rw [hkey] at hrowa
  obtain rfl := Option.some.inj (hrowa.symm.trans hrowb)
  exact hhasha.symm.trans hhashb

end Runs

/-- A confirmation of the example fact. -/
def exampleConfirmation : RecordedCall where
  context := exampleFamily
  membershipId := "member"
  key := "key-0123456789ab"
  input := .confirmFact "fact" 1
  generated := ⟨"id", "workflow", "dek", 1, 0, 1000⟩
  reservedAt := 0

/-- The response to the confirmation. -/
def exampleConfirmed : Json := StatusReceipt.toJson ⟨"fact", "confirmed", 2⟩

end LegacyVault
