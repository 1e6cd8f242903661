import LegacyVault.RecordedRoutes

/-!
# Failed attempts of recorded routes

What a failed or stopped attempt leaves behind. The reservation is committed
before the mutation runs, and nothing takes it back: after a failed mutation,
and after a stop between the mutation and the completion, every later request
under the key is told that the first is still in progress. The expiry of the
record is never consulted.
-/

namespace LegacyVault

open JsonText RowTransaction RowTransaction.Program Store

variable {sha256 : Sha256} {call : RecordedCall} {σ : Vault}

/-- The request passes its checks and finds its key free. -/
def RecordedCall.Reserves (call : RecordedCall) (σ : Vault) : Prop :=
  (call.precheck.transact σ).1 = .ok none ∧
    σ.get .idempotencyRecords (call.context.recordKey call.key) = none

/-- The rows after the reservation. -/
def RecordedCall.reserve (sha256 : Sha256) (call : RecordedCall) (σ : Vault) : Vault :=
  σ.set .idempotencyRecords (call.context.recordKey call.key) (some (reservedRecord call.context
    call.key (sha256.ofJson call.input.shape) call.reservedAt))

/-- Two requests with the same caller, key and input. -/
def SameRequest (a b : RecordedCall) : Prop :=
  a.context = b.context ∧ a.membershipId = b.membershipId ∧ a.key = b.key ∧ a.input = b.input

/-- What the routes should leave of an attempt that fails or is stopped. -/
structure LeavesNoTrace (sha256 : Sha256) (call : RecordedCall) (σ : Vault) : Prop where
  /-- When the mutation fails, the rows are those before the request, and a retry is handled
  like a first attempt. -/
  failed : ∀ error, call.Reserves σ →
    (call.mutation.transact (call.reserve sha256 σ)).1 = .error error →
    (handle sha256 call .never σ).2 = σ ∧ ∀ retry, SameRequest retry call →
      handle sha256 retry .never (handle sha256 call .never σ).2 = handle sha256 retry .never σ
  /-- When the process stops after the mutation, a retry answers with its outcome and applies
  nothing. -/
  stopped : ∀ body, call.Reserves σ →
    (call.mutation.transact (call.reserve sha256 σ)).1 = .ok body →
    ∀ retry, SameRequest retry call →
      (handle sha256 retry .never (handle sha256 call .afterMutation σ).2).1 =
        .reply call.input.statusCode body ∧
      ∀ t, t ≠ .idempotencyRecords → SameRows t (handle sha256 call .afterMutation σ).2
        (handle sha256 retry .never (handle sha256 call .afterMutation σ).2).2

/-- The checks before the reservation write nothing. -/
theorem RecordedCall.precheck_readOnly (call : RecordedCall) : call.precheck.ReadOnly := by
  have hfact : ∀ factId, (do
      let fieldKey ← getFactFieldKey call.context factId
      pure (categoryProblem fieldKey) : Transaction (Option ApiProblem)).ReadOnly := by
    intro factId
    refine writes_bind (writes_bind (writes_select _) (fun fact => ?_)) (fun _ => writes_commit _)
    cases fact
    · exact writes_rollback _
    · exact writes_commit _
  have hemergency : ∀ requestId, (do
      let _ ← getEmergencyAccessCategories call.context requestId
      pure none : Transaction (Option ApiProblem)).ReadOnly := by
    intro requestId
    refine writes_bind (writes_bind (writes_select _) (fun request => ?_))
      (fun _ => writes_commit _)
    cases request
    · exact writes_rollback _
    · exact writes_commit _
  rw [RecordedCall.precheck]
  split
  · exact writes_commit _
  · exact hfact _
  · exact hfact _
  · exact hfact _
  · exact writes_commit _
  · exact hemergency _
  · exact hemergency _
  · exact writes_commit _
  · exact writes_commit _
  · exact writes_commit _

/-- A request that passes its checks and finds its key free reserves it. -/
theorem handle_reserves (h : call.Reserves σ) (stop : StopPoint) :
    handle sha256 call stop σ =
      if stop = .afterReservation then (.stopped, call.reserve sha256 σ)
      else
        match call.mutation.transact (call.reserve sha256 σ) with
        | (.error error, σ) => (call.input.mutationFailed error, σ)
        | (.ok body, σ) =>
          if stop = .afterMutation then (.stopped, σ)
          else
            match (completeIdempotency call.context call.key call.input.statusCode
              body).transact σ with
            | (.error error, σ) => (.failed error, σ)
            | (.ok (), σ) => (.reply call.input.statusCode body, σ) := by
  have hcheck : call.precheck.transact σ = (.ok none, σ) :=
    Prod.ext h.1 (call.precheck_readOnly.transact σ)
  rw [handle, hcheck]
  simp only [reserveIdempotency_free h.2]
  rfl

/-- A request that is refused by its checks, or whose key is taken, changes no row, wherever the
process stops. -/
theorem handle_unchanged (h : ¬ call.Reserves σ) (stop : StopPoint) :
    (handle sha256 call stop σ).2 = σ := by
  have hrows := call.precheck_readOnly.transact σ
  rw [handle]
  cases hcheck : call.precheck.transact σ with
  | mk result σ₁ =>
    obtain rfl : σ₁ = σ := by rw [← hrows, hcheck]
    cases result with
    | error error => rfl
    | ok problem =>
      cases problem with
      | some problem => rfl
      | none =>
        have htaken : ∃ row, σ₁.get .idempotencyRecords (call.context.recordKey call.key) =
            some row := by
          rw [← Option.ne_none_iff_exists']
          exact fun hfree => h ⟨by rw [hcheck], hfree⟩
        obtain ⟨row, hrow⟩ := htaken
        simp only [reserveIdempotency_taken hrow]
        by_cases hhash : row.requestHash = sha256.ofJson call.input.shape
        · rw [if_pos hhash]
        · rw [if_neg hhash]

/-- While the record of a key has no response, no request under the key is answered with
success. -/
theorem handle_in_progress {row : IdempotencyRow}
    (hrow : σ.get .idempotencyRecords (call.context.recordKey call.key) = some row)
    (hresponse : row.response = none) (stop : StopPoint) (body : Json) :
    (handle sha256 call stop σ).1 ≠ .reply call.input.statusCode body := by
  have hrows := call.precheck_readOnly.transact σ
  rw [handle]
  cases hcheck : call.precheck.transact σ with
  | mk result σ₁ =>
    obtain rfl : σ₁ = σ := by rw [← hrows, hcheck]
    cases result with
    | error error => simp
    | ok problem =>
      cases problem with
      | some problem => simp
      | none =>
        simp only [reserveIdempotency_taken hrow, hresponse]
        by_cases hhash : row.requestHash = sha256.ofJson call.input.shape
        · rw [if_pos hhash]
          cases call.input <;> simp [RecordedInput.replayed, RecordedInput.statusCode]
        · rw [if_neg hhash]
          simp

/-- The reservation is still there, without a response, once the mutation has run. -/
theorem reserved_after_mutation (sha256 : Sha256) (call : RecordedCall) (σ : Vault) :
    (call.mutation.transact (call.reserve sha256 σ)).2.get .idempotencyRecords
      (call.context.recordKey call.key) = some (reservedRecord call.context call.key
        (sha256.ofJson call.input.shape) call.reservedAt) := by
  rw [call.mutation_leaves.transact, RecordedCall.reserve, get_set_self]

/-- A record that is there stays as it is, whatever is requested. -/
theorem handle_keeps_record {key : Identifier × Identifier × String} {row : IdempotencyRow}
    (hrow : σ.get .idempotencyRecords key = some row) (stop : StopPoint) :
    (handle sha256 call stop σ).2.get .idempotencyRecords key = some row := by
  by_cases hreserves : call.Reserves σ
  · have hkey : key ≠ call.context.recordKey call.key := by
      rintro rfl
      exact absurd (hrow.symm.trans hreserves.2) (by simp)
    have hreserve : (call.reserve sha256 σ).get .idempotencyRecords key = some row := by
      rw [RecordedCall.reserve, get_set_of_key_ne _ _ hkey, hrow]
    have hmutated : (call.mutation.transact (call.reserve sha256 σ)).2.get .idempotencyRecords
        key = some row := by
      rw [call.mutation_leaves.transact, hreserve]
    have hrecord := reserved_after_mutation sha256 call σ
    rw [handle_reserves hreserves]
    split
    · exact hreserve
    cases hmutation : call.mutation.transact (call.reserve sha256 σ) with
    | mk result σ₁ =>
      rw [hmutation] at hmutated hrecord
      cases result with
      | error error => exact hmutated
      | ok body =>
        by_cases hstop : stop = .afterMutation
        · simp only [hstop, if_true]
          exact hmutated
        · simp only [hstop, if_false, completeIdempotency_reserved hrecord rfl]
          rw [get_set_of_key_ne _ _ hkey]
          exact hmutated
  · rw [handle_unchanged hreserves]
    exact hrow

/-- The rows after requests handled in turn. -/
def handleAll (sha256 : Sha256) (requests : List (RecordedCall × StopPoint)) (σ : Vault) : Vault :=
  requests.foldl (fun σ request => (handle sha256 request.1 request.2 σ).2) σ

theorem handleAll_keeps_record (sha256 : Sha256) {key : Identifier × Identifier × String}
    {row : IdempotencyRow}
    (hrow : σ.get .idempotencyRecords key = some row)
    (requests : List (RecordedCall × StopPoint)) :
    (handleAll sha256 requests σ).get .idempotencyRecords key = some row := by
  induction requests generalizing σ with
  | nil => exact hrow
  | cons request requests ih => exact ih (handle_keeps_record hrow request.2)

/-- The record of an attempt that fails in its mutation, or stops before its completion. -/
theorem attempt_without_response (hreserves : call.Reserves σ) {stop : StopPoint}
    (h : stop = .never → ∃ error,
      (call.mutation.transact (call.reserve sha256 σ)).1 = .error error) :
    (handle sha256 call stop σ).2.get .idempotencyRecords (call.context.recordKey call.key) =
      some (reservedRecord call.context call.key (sha256.ofJson call.input.shape)
        call.reservedAt) := by
  have hrecord := reserved_after_mutation sha256 call σ
  rw [handle_reserves hreserves]
  cases stop with
  | afterReservation =>
    have hreserved : (call.reserve sha256 σ).get .idempotencyRecords
        (call.context.recordKey call.key) = some (reservedRecord call.context call.key
          (sha256.ofJson call.input.shape) call.reservedAt) := by
      rw [RecordedCall.reserve, get_set_self]
    rw [if_pos rfl]
    exact hreserved
  | afterMutation =>
    rw [if_neg (by decide)]
    cases hmutation : call.mutation.transact (call.reserve sha256 σ) with
    | mk result σ₁ =>
      rw [hmutation] at hrecord
      cases result with
      | error error => exact hrecord
      | ok body => exact hrecord
  | never =>
    obtain ⟨error, herror⟩ := h rfl
    rw [if_neg (by decide)]
    cases hmutation : call.mutation.transact (call.reserve sha256 σ) with
    | mk result σ₁ =>
      rw [hmutation] at hrecord herror
      obtain rfl : result = .error error := herror
      exact hrecord

/-- After such an attempt no request under its key is ever answered with success again. -/
theorem never_answered (hreserves : call.Reserves σ) {stop : StopPoint}
    (h : stop = .never → ∃ error,
      (call.mutation.transact (call.reserve sha256 σ)).1 = .error error)
    (requests : List (RecordedCall × StopPoint)) (retry : RecordedCall)
    (hkey : retry.context.recordKey retry.key = call.context.recordKey call.key)
    (stop' : StopPoint) (body : Json) :
    (handle sha256 retry stop' (handleAll sha256 requests (handle sha256 call stop σ).2)).1 ≠
      .reply retry.input.statusCode body := by
  have hrecord := handleAll_keeps_record sha256 (attempt_without_response hreserves h) requests
  rw [← hkey] at hrecord
  exact handle_in_progress hrecord rfl stop' body

/-- An attempt leaves no trace exactly when it never reserves its key: its checks refuse it or
the key has a record already. -/
theorem leavesNoTrace_iff (sha256 : Sha256) (call : RecordedCall) (σ : Vault) :
    LeavesNoTrace sha256 call σ ↔
      (call.precheck.transact σ).1 ≠ .ok none ∨
        (σ.get .idempotencyRecords (call.context.recordKey call.key)).isSome := by
  constructor
  · intro h
    by_contra hnot
    rw [not_or, not_not, Option.not_isSome_iff_eq_none] at hnot
    have hreserves : call.Reserves σ := hnot
    have hrecord := reserved_after_mutation sha256 call σ
    cases hmutation : call.mutation.transact (call.reserve sha256 σ) with
    | mk result σ₁ =>
      rw [hmutation] at hrecord
      cases result with
      | error error =>
        obtain ⟨hsame, -⟩ := h.failed error hreserves (by rw [hmutation])
        rw [handle_reserves hreserves, if_neg (by decide), hmutation] at hsame
        rw [show σ₁ = σ from hsame, hreserves.2] at hrecord
        exact absurd hrecord (by simp)
      | ok body =>
        obtain ⟨hreply, -⟩ := h.stopped body hreserves (by rw [hmutation]) call ⟨rfl, rfl, rfl, rfl⟩
        rw [handle_reserves hreserves, if_neg (by decide), hmutation] at hreply
        exact handle_in_progress hrecord rfl .never body hreply
  · intro h
    have hnot : ¬ call.Reserves σ := by
      rintro ⟨hcheck, hfree⟩
      rcases h with hrefused | htaken
      · exact hrefused hcheck
      · rw [hfree] at htaken
        exact absurd htaken (by simp)
    exact ⟨fun error hreserves => absurd hreserves hnot,
      fun body hreserves => absurd hreserves hnot⟩

/-- The tenant of the examples. -/
def exampleFamily : TenantContext := ⟨"org", "household", "person"⟩

/-- A vault with one candidate fact. -/
def exampleCandidate : Vault :=
  (Store.empty : Vault).set .facts "fact" (some ⟨"fact", "org", "household", "assets.home",
    .data "1", 1, .candidate, .manual, "source", [], none, .standard, none, none, 1⟩)

/-- A rejection of the fact at the given version. -/
def exampleRejection (expectedVersion : Nat) : RecordedCall where
  context := exampleFamily
  membershipId := "member"
  key := "key-0123456789ab"
  input := .rejectFact "fact" expectedVersion
  generated := ⟨"id", "workflow", "dek", 1, 0, 1000⟩
  reservedAt := 0

/-- A rejection at a stale version leaves its reservation, and so does one that stops before
it is completed. -/
theorem rejection_leaves_trace : ¬ LeavesNoTrace .transparent (exampleRejection 2) exampleCandidate ∧
    ¬ LeavesNoTrace .transparent (exampleRejection 1) exampleCandidate := by
  constructor
  · intro h
    obtain ⟨hsame, -⟩ := h.failed (.error "fact rejection conflict or policy denial")
      ⟨rfl, rfl⟩ rfl
    have hrecord := congrArg (fun σ : Vault => (σ.get .idempotencyRecords
      ("org", "household", "key-0123456789ab")).isSome) hsame
    exact absurd hrecord (by decide)
  · intro h
    obtain ⟨hreply, -⟩ := h.stopped (StatusReceipt.toJson ⟨"fact", "rejected", 2⟩) ⟨rfl, rfl⟩ rfl
      (exampleRejection 1) ⟨rfl, rfl, rfl, rfl⟩
    have hproblem : (handle .transparent (exampleRejection 1) .never
        (handle .transparent (exampleRejection 1) .afterMutation exampleCandidate).2).1 =
        .problem ⟨409, "Request in progress", "the idempotent request is still processing"⟩ := rfl
    rw [hproblem] at hreply
    exact absurd hreply (by simp)

end LegacyVault
