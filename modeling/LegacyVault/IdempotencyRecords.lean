import LegacyVault.Database
import LegacyVault.Library.IdempotencyKey

/-!
# Idempotency records

The two record tables and the two ways the repository uses them. Ten
operations reserve, mutate and store their response inside one transaction;
the others reserve with `reserveIdempotency`, mutate in a transaction of
their own, and finish with `completeIdempotency`.

A stored body is read back as the value that was written: the order in which
`jsonb` keeps object members is not modelled.
-/

namespace LegacyVault

open JsonText RowTransaction RowTransaction.Program

/-- `interval '24 hours'`. -/
def idempotencyLifetime : Instant := 24 * 60 * 60 * 1000

/-- How `idempotency_records` holds hashes and responses. -/
def tenantRecords : RecordShape vaultSchema .idempotencyRecords String Json where
  hashOf := IdempotencyRow.requestHash
  bodyOf := fun row : IdempotencyRow => row.response.map StoredResponse.responseBody

/-- Store a response with its status code. -/
def tenantCompletion (statusCode : Nat) : tenantRecords.Completion where
  store := fun body (row : IdempotencyRow) => { row with response := some ⟨statusCode, body⟩ }
  hash_store := fun _ _ => rfl
  body_store := fun _ _ => rfl

/-- How `account_idempotency_records` holds hashes and responses. -/
def accountRecords : RecordShape vaultSchema .accountIdempotencyRecords String Json where
  hashOf := AccountIdempotencyRow.requestHash
  bodyOf := AccountIdempotencyRow.responseBody

/-- Store a response. -/
def accountCompletion : accountRecords.Completion where
  store := fun body (row : AccountIdempotencyRow) => { row with responseBody := some body }
  hash_store := fun _ _ => rfl
  body_store := fun _ _ => rfl

/-- The primary key of a tenant's record. -/
def TenantContext.recordKey (context : TenantContext) (key : String) :
    Identifier × Identifier × String :=
  (context.organizationId, context.householdId, key)

/-- The record a tenant operation reserves at the database time `now`. -/
def reservedRecord (context : TenantContext) (key requestHash : String) (now : Instant) :
    IdempotencyRow where
  organizationId := context.organizationId
  householdId := context.householdId
  idempotencyKey := key
  requestHash := requestHash
  response := none
  expiresAt := now + idempotencyLifetime

/-- The record an account operation reserves at the database time `now`. -/
def reservedAccountRecord (context : AccountContext) (key requestHash : String) (now : Instant) :
    AccountIdempotencyRow where
  authUserId := context.authUserId
  idempotencyKey := key
  requestHash := requestHash
  responseBody := none
  expiresAt := now + idempotencyLifetime

/-- Texts of the two errors an operation raises on an existing record. -/
structure RecordErrors where
  /-- The record has another request hash, or is missing. -/
  conflict : String
  /-- The record has no response. -/
  processing : String

/-- What a tenant operation does with its record. -/
def tenantUse (context : TenantContext) (key requestHash : String) (now : Instant)
    (statusCode : Nat) (errors : RecordErrors) (mutation : Transaction Json) :
    OnceUse tenantRecords RepositoryError where
  completion := tenantCompletion statusCode
  key := context.recordKey key
  fresh := reservedRecord context key requestHash now
  conflict := .error errors.conflict
  processing := .error errors.processing
  mutation := mutation

/-- What an account operation does with its record. -/
def accountUse (context : AccountContext) (key requestHash : String) (now : Instant)
    (errors : RecordErrors) (mutation : Transaction Json) :
    OnceUse accountRecords RepositoryError where
  completion := accountCompletion
  key := (context.authUserId, key)
  fresh := reservedAccountRecord context key requestHash now
  conflict := .error errors.conflict
  processing := .error errors.processing
  mutation := mutation

/-- Reserve, mutate and store the response in one tenant transaction. -/
def withTenantRecord (context : TenantContext) (key requestHash : String) (now : Instant)
    (statusCode : Nat) (errors : RecordErrors) (mutation : Transaction Json) :
    Transaction (Answer Json) :=
  (tenantUse context key requestHash now statusCode errors mutation).program

/-- Reserve, mutate and store the response in one account transaction. -/
def withAccountRecord (context : AccountContext) (key requestHash : String) (now : Instant)
    (errors : RecordErrors) (mutation : Transaction Json) : Transaction (Answer Json) :=
  (accountUse context key requestHash now errors mutation).program

/-- A committed tenant operation has replayed its record without writing, or has run its
mutation between the reservation and the completion of the record. -/
theorem executes_withTenantRecord {context : TenantContext} {key requestHash : String}
    {now : Instant} {statusCode : Nat} {errors : RecordErrors} {mutation : Transaction Json}
    {answer : Answer Json} {seen : Vault → Prop} {σ : Vault} {ws ws' : List (Write vaultSchema)}
    (hleaves : mutation.Leaves VaultTable.idempotencyRecords)
    (h : (withTenantRecord context key requestHash now statusCode errors mutation).Executes
      seen σ ws (.ok answer) ws') :
    (∃ body, answer = .replayed body ∧ ws' = ws) ∨
    ∃ body reserved completed ws₁, answer = .applied body ∧
      mutation.Executes seen σ
        (⟨VaultTable.idempotencyRecords, context.recordKey key, some reserved⟩ :: ws)
        (.ok body) ws₁ ∧
      ws' = ⟨VaultTable.idempotencyRecords, context.recordKey key, some completed⟩ :: ws₁ := by
  rcases RecordShape.executes_once_ok hleaves h with
    ⟨_, _, body, _, _, _, _, hanswer, hws⟩ | ⟨body, ws₁, _, hmutation, hanswer, hws⟩
  · exact Or.inl ⟨body, hanswer, hws⟩
  · exact Or.inr ⟨body, _, _, ws₁, hanswer, hmutation, hws⟩

/-- Result of `reserveIdempotency`. -/
inductive Reservation where
  /-- `{ replay: false }`. -/
  | reserved
  /-- `{ replay: true }` with the stored response, if there is one. -/
  | replay (stored : Option StoredResponse)
  deriving DecidableEq

/-- `reserveIdempotency`. -/
def reserveIdempotency (sha256 : Sha256) (context : TenantContext) (key : String) (request : Json)
    (now : Instant) : Transaction Reservation := do
  let requestHash := sha256.ofJson request
  let inserted ← insertOrIgnore (S := vaultSchema) .idempotencyRecords (context.recordKey key)
    (reservedRecord context key requestHash now)
  if inserted.isSome then
    pure .reserved
  else
    let existing : Option IdempotencyRow ← select
      (fun σ : Vault => σ.get .idempotencyRecords (context.recordKey key))
    match existing with
    | none => failWith "idempotency key reused with different request"
    | some row =>
      if row.requestHash = requestHash then pure (.replay row.response)
      else failWith "idempotency key reused with different request"

/-- `completeIdempotency`. -/
def completeIdempotency (context : TenantContext) (key : String) (statusCode : Nat)
    (responseBody : Json) : Transaction Unit := do
  let _ ← updateRow (S := vaultSchema) .idempotencyRecords (context.recordKey key)
    (fun row : IdempotencyRow =>
      if row.response = none then some { row with response := some ⟨statusCode, responseBody⟩ }
      else none)
  pure ()

/-- A reservation writes records only. -/
theorem reserveIdempotency_leaves {t : VaultTable} (h : t ≠ .idempotencyRecords) (sha256 : Sha256)
    (context : TenantContext) (key : String) (request : Json) (now : Instant) :
    (reserveIdempotency sha256 context key request now).Leaves t := by
  refine writes_bind (writes_insertOrIgnore h) (fun inserted => ?_)
  cases inserted with
  | some row => exact writes_commit _
  | none =>
    refine writes_bind (writes_select _) (fun existing => ?_)
    cases existing with
    | none => exact writes_rollback _
    | some row =>
      simp only
      split
      · exact writes_commit _
      · exact writes_rollback _

/-- A completion writes records only. -/
theorem completeIdempotency_leaves {t : VaultTable} (h : t ≠ .idempotencyRecords)
    (context : TenantContext) (key : String) (statusCode : Nat) (responseBody : Json) :
    (completeIdempotency context key statusCode responseBody).Leaves t :=
  writes_bind (writes_updateRow (fun _ _ _ => h)) (fun _ => writes_commit _)

section Executes

variable {sha256 : Sha256} {context : TenantContext} {key : String} {request : Json}
  {now : Instant} {seen : Vault → Prop} {σ : Vault} {ws ws' : List (Write vaultSchema)}

/-- The error of a reservation whose key was used by another request. -/
def reservationConflict : RepositoryError :=
  .error "idempotency key reused with different request"

/-- A committed reservation has written a free record, or found one with its request hash. -/
theorem executes_reserveIdempotency {result : Except RepositoryError Reservation}
    (h : (reserveIdempotency sha256 context key request now).Executes seen σ ws result ws') :
    (result = .ok .reserved ∧
      (σ.overlay ws).get .idempotencyRecords (context.recordKey key) = none ∧
      ws' = ⟨VaultTable.idempotencyRecords, context.recordKey key,
        some (reservedRecord context key (sha256.ofJson request) now)⟩ :: ws) ∨
    (∃ σ₀ row, seen σ₀ ∧
      (σ₀.overlay ws).get .idempotencyRecords (context.recordKey key) = some row ∧
      row.requestHash = sha256.ofJson request ∧ result = .ok (.replay row.response) ∧ ws' = ws) ∨
    (result = .error reservationConflict ∧ ws' = ws) := by
  rcases executes_bind.mp h with ⟨inserted, ws₁, hinsert, hrest⟩ | ⟨error, -, hinsert⟩
  · rcases executes_insertOrIgnore.mp hinsert with ⟨hnone, hinserted, hws⟩ |
      ⟨σ₀, old, -, -, hinserted, hws⟩
    · obtain rfl := Except.ok.inj hinserted
      obtain ⟨hresult, hws'⟩ := hrest
      exact Or.inl ⟨hresult, hnone, hws'.trans hws⟩
    · obtain rfl := Except.ok.inj hinserted
      subst hws
      rcases executes_bind.mp hrest with ⟨existing, ws₂, hselect, hanswer⟩ | ⟨error, -, hselect⟩
      · obtain ⟨σ₁, hs, hexisting, rfl⟩ := executes_select.mp hselect
        obtain rfl := Except.ok.inj hexisting
        cases hrow : (σ₁.overlay ws₂).get .idempotencyRecords (context.recordKey key) with
        | none =>
          rw [hrow] at hanswer
          exact Or.inr (Or.inr hanswer)
        | some row =>
          simp only [hrow] at hanswer
          by_cases hhash : row.requestHash = sha256.ofJson request
          · rw [if_pos hhash] at hanswer
            exact Or.inr (Or.inl ⟨σ₁, row, hs, hrow, hhash, hanswer⟩)
          · rw [if_neg hhash] at hanswer
            exact Or.inr (Or.inr hanswer)
      · obtain ⟨σ₁, -, hbad, -⟩ := executes_select.mp hselect
        exact absurd hbad (by simp)
  · rcases executes_insertOrIgnore.mp hinsert with ⟨_, hbad, _⟩ | ⟨_, _, _, _, hbad, _⟩ <;>
      exact absurd hbad (by simp)

/-- A completion stores its response in a record without one, or changes nothing. -/
theorem executes_completeIdempotency {statusCode : Nat} {body : Json}
    {result : Except RepositoryError Unit}
    (h : (completeIdempotency context key statusCode body).Executes seen σ ws result ws') :
    (∃ row, (σ.overlay ws).get .idempotencyRecords (context.recordKey key) = some row ∧
      row.response = none ∧ ws' = ⟨VaultTable.idempotencyRecords, context.recordKey key,
        some { row with response := some ⟨statusCode, body⟩ }⟩ :: ws) ∨ ws' = ws := by
  rcases executes_bind.mp h with ⟨updated, ws₁, hupdate, hrest⟩ | ⟨error, -, hupdate⟩
  · rcases executes_updateRow.mp hupdate with ⟨old, row, hold, hchange, -, hws⟩ | ⟨_, _, _, _, hws⟩
    · obtain ⟨-, rfl⟩ := hrest
      by_cases hresponse : IdempotencyRow.response old = none
      · rw [if_pos hresponse] at hchange
        obtain rfl := Option.some.inj hchange
        exact Or.inl ⟨old, hold, hresponse, hws⟩
      · rw [if_neg hresponse] at hchange
        exact absurd hchange (by simp)
    · obtain ⟨-, rfl⟩ := hrest
      exact Or.inr hws
  · rcases executes_updateRow.mp hupdate with ⟨_, _, _, _, hbad, _⟩ | ⟨_, _, _, hbad, _⟩ <;>
      exact absurd hbad (by simp)

end Executes

section Run

variable {sha256 : Sha256} {context : TenantContext} {key : String} {request : Json}
  {now : Instant} {σ : Vault}

/-- Reserving a free key writes the record without a response. -/
theorem reserveIdempotency_free (h : σ.get .idempotencyRecords (context.recordKey key) = none) :
    (reserveIdempotency sha256 context key request now).transact σ =
      (.ok .reserved, σ.set .idempotencyRecords (context.recordKey key)
        (some (reservedRecord context key (sha256.ofJson request) now))) := by
  rw [transact, reserveIdempotency, run_bind, run_insertOrIgnore, h]
  rfl

/-- Reserving a taken key changes nothing: it replays for the same request hash
and fails for any other. -/
theorem reserveIdempotency_taken {row : IdempotencyRow}
    (h : σ.get .idempotencyRecords (context.recordKey key) = some row) :
    (reserveIdempotency sha256 context key request now).transact σ =
      (if row.requestHash = sha256.ofJson request then .ok (.replay row.response)
        else .error (.error "idempotency key reused with different request"), σ) := by
  rw [transact, reserveIdempotency, run_bind, run_insertOrIgnore, h]
  simp only [Option.isNone_some, Bool.false_eq_true, if_false, Option.isSome_none]
  rw [run_bind, run_select, h]
  by_cases hhash : row.requestHash = sha256.ofJson request
  · rw [if_pos hhash]
    simp [hhash]
  · rw [if_neg hhash]
    simp [hhash, failWith]

/-- Completing a reserved key stores the response. -/
theorem completeIdempotency_reserved {row : IdempotencyRow} {statusCode : Nat} {body : Json}
    (h : σ.get .idempotencyRecords (context.recordKey key) = some row)
    (hresponse : row.response = none) :
    (completeIdempotency context key statusCode body).transact σ =
      (.ok (), σ.set .idempotencyRecords (context.recordKey key)
        (some { row with response := some ⟨statusCode, body⟩ })) := by
  rw [transact, completeIdempotency, run_bind, run_updateRow, h]
  simp [hresponse]

end Run

end LegacyVault
