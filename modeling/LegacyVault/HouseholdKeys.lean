import LegacyVault.Households
import Mathlib.Data.List.Sort

/-!
# Household keys

`PostgresHouseholdKeyStore.getOrCreateActiveKey`. A household's key is
inserted with the household, or by the first caller that finds none, under an
advisory lock. The unique keys of `household_keys` are tables of their own,
taken by the insert together with the row, and the rows of `advisoryLocks`
stand for the transaction-scoped advisory locks. Their hash is a parameter.

No statement of the repository changes a row of `household_keys`.
-/

namespace LegacyVault

open RowTransaction RowTransaction.Program RowTransaction.Protocol Store

/-- The tables of the key store. -/
inductive KeyTable where
  | householdKeys | activeKeys | keyVersions | advisoryLocks
  deriving DecidableEq

/-- The key of a table of the key store. -/
abbrev KeyTable.Key : KeyTable → Type
  | householdKeys => Identifier
  | activeKeys => Identifier
  | keyVersions => Identifier × Nat
  | advisoryLocks => Int

/-- The row of a table of the key store. -/
abbrev KeyTable.Row : KeyTable → Type
  | householdKeys => HouseholdKeyRow
  | activeKeys => Identifier
  | keyVersions => Identifier
  | advisoryLocks => Unit

/-- The schema of the key store. -/
abbrev keySchema : Schema where
  Table := KeyTable
  Key := KeyTable.Key
  Row := KeyTable.Row
  tableDecEq := inferInstance
  keyDecEq
    | .householdKeys => inferInstanceAs (DecidableEq Identifier)
    | .activeKeys => inferInstanceAs (DecidableEq Identifier)
    | .keyVersions => inferInstanceAs (DecidableEq (Identifier × Nat))
    | .advisoryLocks => inferInstanceAs (DecidableEq Int)

/-- The rows of the key store. -/
abbrev KeyRows := Store keySchema

/-- `ActiveHouseholdKey`. -/
structure ActiveHouseholdKey where
  keyVersion : Nat
  plaintextKey : SymmetricKey
  deriving DecidableEq

/-- What the store generates for a new key. -/
structure KeyGenerated where
  id : Identifier
  plaintextKey : SymmetricKey
  iv : Nat
  deriving DecidableEq

/-- A call of `getOrCreateActiveKey`, or the key of a new household. -/
structure KeyCall where
  context : TenantContext
  generated : KeyGenerated
  deriving DecidableEq

section KeyStore

variable (keyEncryptionKey : SymmetricKey) (hashtextextended : String → Int)

/-- `createWrappedHouseholdKey`. -/
def createWrappedHouseholdKey (call : KeyCall) (keyVersion : Nat) : Sealed :=
  encryptEnvelope (.key call.generated.plaintextKey) keyEncryptionKey
    (householdKeyContext call.context.organizationId call.context.householdId keyVersion)
    call.generated.iv

/-- `unwrapHouseholdKey`: the version is that of the envelope. -/
def unwrapHouseholdKey (context : TenantContext) (wrapped : Sealed) : Option SymmetricKey :=
  match wrapped with
  | .sealed _ sealContext _ _ =>
    match decryptEnvelope wrapped keyEncryptionKey
      (householdKeyContext context.organizationId context.householdId sealContext.keyVersion) with
    | some (.key plaintextKey) => some plaintextKey
    | _ => none
  | _ => none

/-- The active key of a tenant that was created last. -/
def activeKeyOf (context : TenantContext) (σ : KeyRows) : Option HouseholdKeyRow :=
  (((σ.rowsOf .householdKeys).filter (fun row : HouseholdKeyRow =>
    context.sees row && row.status == HouseholdKeyStatus.active)).insertionSort
      (fun a b => b.keyVersion ≤ a.keyVersion)).head?

/-- The row of a new key. -/
def newKey (call : KeyCall) : HouseholdKeyRow where
  id := call.generated.id
  organizationId := call.context.organizationId
  householdId := call.context.householdId
  keyVersion := 1
  wrappedKey := createWrappedHouseholdKey keyEncryptionKey call 1
  status := .active

/-- The insert of a key, which takes every unique key of its row. -/
def insertKey (row : HouseholdKeyRow) : Program keySchema RepositoryError Unit := do
  let _ ← insertRow (S := keySchema) .householdKeys row.id row
    (.uniqueViolation "household_keys_pkey")
  let _ ← insertRow (S := keySchema) .keyVersions (row.householdId, row.keyVersion) row.id
    (.uniqueViolation "household_keys_household_id_key_version_key")
  let _ ← insertRow (S := keySchema) .activeKeys row.householdId row.id
    (.uniqueViolation "household_keys_one_active")
  pure ()

/-- The key of a row as it is returned. -/
def openKey (context : TenantContext) (row : HouseholdKeyRow) :
    Program keySchema RepositoryError ActiveHouseholdKey :=
  match unwrapHouseholdKey keyEncryptionKey context row.wrappedKey with
  | some plaintextKey => .commit ⟨row.keyVersion, plaintextKey⟩
  | none => .rollback (.error "envelope authentication failed")

/-- `getOrCreateActiveKey`. -/
def getOrCreateActiveKey (call : KeyCall) :
    Program keySchema RepositoryError ActiveHouseholdKey := do
  let existing ← select (activeKeyOf call.context)
  match existing with
  | some row => openKey keyEncryptionKey call.context row
  | none => do
    let _ ← putRow (S := keySchema) .advisoryLocks
      (hashtextextended ("household-key:" ++ call.context.householdId)) (fun _ => some ())
    let afterLock ← select (activeKeyOf call.context)
    match afterLock with
    | some row => openKey keyEncryptionKey call.context row
    | none => do
      insertKey (newKey keyEncryptionKey call)
      pure ⟨1, call.generated.plaintextKey⟩

/-- A transaction on household keys. -/
inductive KeyStep where
  /-- The key that is inserted with a new household. -/
  | createHousehold (call : KeyCall)
  | getOrCreate (call : KeyCall)

/-- The key store, with any number of callers at a time. -/
abbrev keyProtocol : Protocol keySchema where
  Request := KeyStep
  Error := RepositoryError
  Result := Option ActiveHouseholdKey
  program
    | .createHousehold call => do
      insertKey (newKey keyEncryptionKey call)
      pure none
    | .getOrCreate call => do
      let key ← getOrCreateActiveKey keyEncryptionKey hashtextextended call
      pure (some key)
  permitted := fun _ _ => True

end KeyStore

/-! ## One key for each tenant -/

section Keys

variable {keyEncryptionKey : SymmetricKey} {hashtextextended : String → Int}

theorem activeKeyOf_eq_some {context : TenantContext} {σ : KeyRows} {row : HouseholdKeyRow}
    (h : activeKeyOf context σ = some row) :
    (∃ k, σ.get .householdKeys k = some row) ∧ context.sees row = true := by
  have hmem := List.mem_of_mem_head? (Option.mem_def.mpr h)
  have hfiltered := (List.perm_insertionSort _ _).mem_iff.mp hmem
  obtain ⟨hrow, hcondition⟩ := List.mem_filter.mp hfiltered
  exact ⟨mem_rowsOf.mp hrow, (Bool.and_eq_true_iff.mp hcondition).1⟩

/-- A new key unwraps to what was generated. -/
theorem unwrap_newKey (call : KeyCall) :
    unwrapHouseholdKey keyEncryptionKey call.context (newKey keyEncryptionKey call).wrappedKey =
      some call.generated.plaintextKey := by
  simp [unwrapHouseholdKey, newKey, createWrappedHouseholdKey, encryptEnvelope, decryptEnvelope,
    SymbolicSeal.Term.opened, householdKeyContext]

/-- Keys stay as they were inserted. -/
structure KeysStay (σ σ' : KeyRows) : Prop where
  rows : Keeps (S := keySchema) .householdKeys Eq σ σ'
  active : Keeps (S := keySchema) .activeKeys Eq σ σ'

theorem KeysStay.of_same {σ σ' : KeyRows} (hrows : SameRows (S := keySchema) .householdKeys σ σ')
    (hactive : SameRows (S := keySchema) .activeKeys σ σ') : KeysStay σ σ' :=
  ⟨hrows.keeps (fun _ => rfl), hactive.keeps (fun _ => rfl)⟩

theorem KeysStay.trans {σ₁ σ₂ σ₃ : KeyRows} (h : KeysStay σ₁ σ₂) (h' : KeysStay σ₂ σ₃) :
    KeysStay σ₁ σ₃ :=
  ⟨h.rows.trans (fun _ _ _ hab hbc => hab.trans hbc) h'.rows,
    h.active.trans (fun _ _ _ hab hbc => hab.trans hbc) h'.active⟩

theorem KeysStay.row {σ σ' : KeyRows} (h : KeysStay σ σ') {k : Identifier} {row : HouseholdKeyRow}
    (hrow : σ.get .householdKeys k = some row) : σ'.get .householdKeys k = some row := by
  obtain ⟨after, hafter, hequal⟩ := h.rows k row hrow
  rw [hafter, hequal]

/-- A key is inserted as the only active one of its household. -/
structure InsertsKey (row : HouseholdKeyRow) (σ σ' : KeyRows) : Prop where
  freeRow : σ.get .householdKeys row.id = none
  free : σ.get .activeKeys row.householdId = none
  rows : Replaces (S := keySchema) .householdKeys row.id (some row) σ σ'
  active : Replaces (S := keySchema) .activeKeys row.householdId (some row.id) σ σ'

theorem InsertsKey.stay {row : HouseholdKeyRow} {σ σ' : KeyRows} (h : InsertsKey row σ σ') :
    KeysStay σ σ' := by
  refine ⟨h.rows.keeps (fun _ => rfl) (fun before hbefore => ?_),
    h.active.keeps (fun _ => rfl) (fun before hbefore => ?_)⟩
  · rw [h.freeRow] at hbefore
    cases hbefore
  · rw [h.free] at hbefore
    cases hbefore

section Executes

variable {seen : KeyRows → Prop} {σ : KeyRows} {ws ws' : List (Write keySchema)}

/-- An insert puts its row under free keys. -/
theorem executes_insertKey {row : HouseholdKeyRow} {a : Unit}
    (hrows : SameRows (S := keySchema) .householdKeys σ (σ.overlay ws))
    (hactive : SameRows (S := keySchema) .activeKeys σ (σ.overlay ws))
    (h : (insertKey row).Executes seen σ ws (.ok a) ws') :
    InsertsKey row σ (σ.overlay ws') := by
  obtain ⟨_, ws₁, hrow, hrest⟩ := executes_bind_ok.mp h
  obtain ⟨_, ws₂, hversion, hrest⟩ := executes_bind_ok.mp hrest
  obtain ⟨_, ws₃, hkey, hend⟩ := executes_bind_ok.mp hrest
  obtain ⟨hfreeRow, -, rfl⟩ := executes_insertRow_ok hrow
  obtain ⟨-, -, rfl⟩ := executes_insertRow_ok hversion
  obtain ⟨hfree, -, rfl⟩ := executes_insertRow_ok hkey
  obtain rfl := hend.2
  have hactive' : SameRows (S := keySchema) .activeKeys σ
      (σ.overlay (⟨.keyVersions, (row.householdId, row.keyVersion), some row.id⟩ ::
        ⟨.householdKeys, row.id, some row⟩ :: ws)) :=
    (hactive.writeOther (by decide)).writeOther (by decide)
  exact ⟨(hrows row.id).symm.trans hfreeRow, (hactive' row.householdId).symm.trans hfree,
    (hrows.write.writeOther (by decide)).writeOther (by decide), hactive'.write⟩

/-- A key that is returned unwraps from its row. -/
theorem executes_openKey {context : TenantContext} {row : HouseholdKeyRow}
    {key : ActiveHouseholdKey}
    (h : (openKey keyEncryptionKey context row).Executes seen σ ws (.ok key) ws') :
    ws' = ws ∧ row.keyVersion = key.keyVersion ∧
      unwrapHouseholdKey keyEncryptionKey context row.wrappedKey = some key.plaintextKey := by
  unfold openKey at h
  split at h
  · rename_i plaintextKey hkey
    obtain ⟨hresult, hws⟩ := h
    obtain rfl := Except.ok.inj hresult
    exact ⟨hws, rfl, hkey⟩
  · exact absurd h.1 (by simp)

/-- The returned key is the one of a stored row that the tenant sees. -/
structure IsKeyOf (keyEncryptionKey : SymmetricKey) (context : TenantContext) (σ : KeyRows)
    (k : Identifier) (row : HouseholdKeyRow) (key : ActiveHouseholdKey) : Prop where
  stored : σ.get .householdKeys k = some row
  sees : context.sees row = true
  version : row.keyVersion = key.keyVersion
  unwraps : unwrapHouseholdKey keyEncryptionKey context row.wrappedKey = some key.plaintextKey

theorem IsKeyOf.later {context : TenantContext} {σ' : KeyRows} {k : Identifier}
    {row : HouseholdKeyRow} {key : ActiveHouseholdKey}
    (h : IsKeyOf keyEncryptionKey context σ k row key) (hstay : KeysStay σ σ') :
    IsKeyOf keyEncryptionKey context σ' k row key :=
  ⟨hstay.row h.stored, h.sees, h.version, h.unwraps⟩

/-- A caller has found the key in a store it has seen, or has inserted it. -/
theorem executes_getOrCreateActiveKey {call : KeyCall} {key : ActiveHouseholdKey}
    (h : (getOrCreateActiveKey keyEncryptionKey hashtextextended call).Executes seen σ [] (.ok key)
      ws') :
    (KeysStay σ (σ.overlay ws') ∧ SameRows (S := keySchema) .householdKeys σ (σ.overlay ws') ∧
      SameRows (S := keySchema) .activeKeys σ (σ.overlay ws') ∧
      ∃ σ₀ k row, seen σ₀ ∧ IsKeyOf keyEncryptionKey call.context σ₀ k row key) ∨
    InsertsKey (newKey keyEncryptionKey call) σ (σ.overlay ws') ∧
      key = ⟨1, call.generated.plaintextKey⟩ := by
  have hfound : ∀ {ws₁ ws₂ : List (Write keySchema)} {σ₀ : KeyRows} {row : HouseholdKeyRow},
      (∀ base : KeyRows, SameRows (S := keySchema) .householdKeys base (base.overlay ws₁)) →
      (∀ base : KeyRows, SameRows (S := keySchema) .activeKeys base (base.overlay ws₁)) →
      seen σ₀ → activeKeyOf call.context (σ₀.overlay ws₁) = some row →
      (openKey keyEncryptionKey call.context row).Executes seen σ ws₁ (.ok key) ws₂ →
      KeysStay σ (σ.overlay ws₂) ∧ SameRows (S := keySchema) .householdKeys σ (σ.overlay ws₂) ∧
        SameRows (S := keySchema) .activeKeys σ (σ.overlay ws₂) ∧
        ∃ σ₀ k row, seen σ₀ ∧ IsKeyOf keyEncryptionKey call.context σ₀ k row key := by
    intro ws₁ ws₂ σ₀ row hrows hactive hseen hrow hopen
    obtain ⟨rfl, hversion, hkey⟩ := executes_openKey hopen
    obtain ⟨⟨k, hstored⟩, hsees⟩ := activeKeyOf_eq_some hrow
    exact ⟨.of_same (hrows σ) (hactive σ), hrows σ, hactive σ, σ₀, k, row, hseen,
      (hrows σ₀ k).symm.trans hstored, hsees, hversion, hkey⟩
  obtain ⟨existing, ws₁, hselect, hrest⟩ := executes_bind_ok.mp h
  obtain ⟨σ₀, hseen, hexisting, rfl⟩ := executes_select.mp hselect
  cases existing with
  | some row =>
    exact Or.inl (hfound (SameRows.refl (S := keySchema) _) (SameRows.refl (S := keySchema) _)
      hseen (Except.ok.inj hexisting).symm hrest)
  | none =>
    obtain ⟨_, ws₂, hlock, hrest⟩ := executes_bind_ok.mp hrest
    obtain ⟨afterLock, ws₃, hselect, hrest⟩ := executes_bind_ok.mp hrest
    obtain ⟨σ₁, hseen₁, hafter, rfl⟩ := executes_select.mp hselect
    have hlocked : ws₃ = [⟨.advisoryLocks,
        hashtextextended ("household-key:" ++ call.context.householdId), some ()⟩] := by
      rcases executes_putRow.mp hlock with ⟨row, hrow, -, hws⟩ | ⟨_, _, hnone, _⟩
      · obtain rfl := Option.some.inj hrow
        exact hws
      · exact absurd hnone (by simp)
    have hrows : ∀ base : KeyRows,
        SameRows (S := keySchema) .householdKeys base (base.overlay ws₃) := by
      intro base
      rw [hlocked]
      exact sameRows_write (S := keySchema) base (by decide)
    have hactive : ∀ base : KeyRows,
        SameRows (S := keySchema) .activeKeys base (base.overlay ws₃) := by
      intro base
      rw [hlocked]
      exact sameRows_write (S := keySchema) base (by decide)
    cases afterLock with
    | some row =>
      exact Or.inl (hfound hrows hactive hseen₁ (Except.ok.inj hafter).symm hrest)
    | none =>
      obtain ⟨_, ws₄, hinsert, hkey, hws⟩ := executes_bind_ok.mp hrest
      rw [hws]
      exact Or.inr ⟨executes_insertKey (hrows σ) (hactive σ) hinsert, Except.ok.inj hkey⟩

end Executes

/-- Rows stand under their ids, each is the active key of its household, and every key that was
returned is that of a row. -/
structure KeyState (keyEncryptionKey : SymmetricKey) (hashtextextended : String → Int)
    (log : List (keyProtocol keyEncryptionKey hashtextextended).LogEntry) (σ : KeyRows) :
    Prop where
  rows : ∀ k (row : HouseholdKeyRow), σ.get .householdKeys k = some row →
    σ.get .activeKeys row.householdId = some k
  returned : ∀ call key, (⟨.getOrCreate call, .committed (some key)⟩ :
    (keyProtocol keyEncryptionKey hashtextextended).LogEntry) ∈ log →
    ∃ k row, IsKeyOf keyEncryptionKey call.context σ k row key

theorem KeyState.rows_inserted {log : List (keyProtocol keyEncryptionKey hashtextextended).LogEntry}
    {σ σ' : KeyRows} (h : KeyState keyEncryptionKey hashtextextended log σ)
    {new : HouseholdKeyRow} (hinserts : InsertsKey new σ σ') (k : Identifier)
    (row : HouseholdKeyRow) (hrow : σ'.get .householdKeys k = some row) :
    σ'.get .activeKeys row.householdId = some k := by
  rcases hinserts.rows.get_cases k with ⟨rfl, hnew⟩ | ⟨-, hold⟩
  · obtain rfl := Option.some.inj (hnew.symm.trans hrow)
    exact hinserts.active.row
  · obtain ⟨after, hafter, rfl⟩ := hinserts.stay.active _ _ (h.rows k row (hold.symm.trans hrow))
    exact hafter

/-- A key store without keys. -/
def NoKeys (init : KeyRows) : Prop := ∀ k, init.get .householdKeys k = none

theorem keyState_invariant {init : KeyRows} (hinit : NoKeys init) :
    (keyProtocol keyEncryptionKey hashtextextended).Invariant init
      (KeyState keyEncryptionKey hashtextextended) KeysStay where
  refl σ := .of_same (SameRows.refl (S := keySchema) _ σ) (SameRows.refl (S := keySchema) _ σ)
  trans := KeysStay.trans
  start := ⟨fun k row hrow => absurd (hrow.symm.trans (hinit k)) (by simp),
    fun _ _ hmem => absurd hmem List.not_mem_nil⟩
  commit := by
    intro log begun seen σ step answer ws h hpermitted hbegun hnow hearlier hexec
    cases step with
    | createHousehold call =>
      obtain ⟨_, ws₁, hinsert, hanswer, hws⟩ := executes_bind_ok.mp hexec
      have hinserts := executes_insertKey (SameRows.refl (S := keySchema) _ σ)
        (SameRows.refl (S := keySchema) _ σ) hinsert
      rw [hws]
      refine ⟨⟨h.rows_inserted hinserts, fun other key hmem => ?_⟩, hinserts.stay⟩
      rcases List.mem_cons.mp hmem with heq | hmem
      · cases heq
      · obtain ⟨k, row, hkey⟩ := h.returned other key hmem
        exact ⟨k, row, hkey.later hinserts.stay⟩
    | getOrCreate call =>
      obtain ⟨key, ws₁, hget, hanswer, hws⟩ := executes_bind_ok.mp hexec
      obtain rfl := Except.ok.inj hanswer
      rw [hws]
      rcases executes_getOrCreateActiveKey hget with
        ⟨hstay, hrows, hactive, σ₀, k, row, hseen, hkey⟩ | ⟨hinserts, rfl⟩
      · refine ⟨⟨fun k row hrow => ?_, fun other key' hmem => ?_⟩, hstay⟩
        · rw [hactive]
          exact h.rows k row ((hrows k).symm.trans hrow)
        · rcases List.mem_cons.mp hmem with heq | hmem
          · obtain ⟨hsame, houtcome⟩ := Entry.mk.inj heq
            obtain rfl := KeyStep.getOrCreate.inj hsame
            obtain rfl := Option.some.inj (Outcome.committed.inj houtcome)
            exact ⟨k, row, (hkey.later (hearlier σ₀ hseen).1).later hstay⟩
          · obtain ⟨k', row', hkey'⟩ := h.returned other key' hmem
            exact ⟨k', row', hkey'.later hstay⟩
      · refine ⟨⟨h.rows_inserted hinserts, fun other key' hmem => ?_⟩, hinserts.stay⟩
        rcases List.mem_cons.mp hmem with heq | hmem
        · obtain ⟨hsame, houtcome⟩ := Entry.mk.inj heq
          obtain rfl := KeyStep.getOrCreate.inj hsame
          obtain rfl := Option.some.inj (Outcome.committed.inj houtcome)
          exact ⟨_, _, hinserts.rows.row, by simp [TenantContext.sees_iff, newKey,
            TenantRow.organizationOf, TenantRow.householdOf], rfl, unwrap_newKey other⟩
        · obtain ⟨k', row', hkey'⟩ := h.returned other key' hmem
          exact ⟨k', row', hkey'.later hinserts.stay⟩
  rollback := by
    intro log begun seen σ step e ws h _ _ _ _ _
    refine ⟨h.rows, fun call key hmem => ?_⟩
    rcases List.mem_cons.mp hmem with heq | hmem
    · cases heq
    · exact h.returned call key hmem
  abort := by
    intro log begun σ step h _ _
    refine ⟨h.rows, fun call key hmem => ?_⟩
    rcases List.mem_cons.mp hmem with heq | hmem
    · cases heq
    · exact h.returned call key hmem

/-- The key was returned to a caller of the tenant. -/
def ReturnedTo {keyEncryptionKey : SymmetricKey} {hashtextextended : String → Int}
    (log : List (keyProtocol keyEncryptionKey hashtextextended).LogEntry)
    (organizationId householdId : Identifier) (key : ActiveHouseholdKey) : Prop :=
  ∃ call, (⟨.getOrCreate call, .committed (some key)⟩ :
    (keyProtocol keyEncryptionKey hashtextextended).LogEntry) ∈ log ∧
    call.context.organizationId = organizationId ∧ call.context.householdId = householdId

/-- Every caller of a tenant is returned the same key, in every interleaving. -/
theorem householdKey_unique {init : KeyRows} (hinit : NoKeys init)
    {s : (keyProtocol keyEncryptionKey hashtextextended).System} (h : Reachable init s)
    {organizationId householdId : Identifier} {key key' : ActiveHouseholdKey}
    (hkey : ReturnedTo s.log organizationId householdId key)
    (hkey' : ReturnedTo s.log organizationId householdId key') : key = key' := by
  have hstate := (keyState_invariant hinit).reachable h
  obtain ⟨call, hmem, horganization, hhousehold⟩ := hkey
  obtain ⟨call', hmem', horganization', hhousehold'⟩ := hkey'
  obtain ⟨k, row, hrow⟩ := hstate.returned call key hmem
  obtain ⟨k', row', hrow'⟩ := hstate.returned call' key' hmem'
  obtain ⟨-, hsees⟩ := TenantContext.sees_iff.mp hrow.sees
  obtain ⟨-, hsees'⟩ := TenantContext.sees_iff.mp hrow'.sees
  have hhouseholds : row.householdId = row'.householdId := by
    rw [show row.householdId = call.context.householdId from hsees,
      show row'.householdId = call'.context.householdId from hsees', hhousehold, hhousehold']
  have hactive := hstate.rows k row hrow.stored
  rw [hhouseholds, hstate.rows k' row' hrow'.stored] at hactive
  obtain rfl := Option.some.inj hactive
  obtain rfl := Option.some.inj (hrow.stored.symm.trans hrow'.stored)
  have hunwraps : unwrapHouseholdKey keyEncryptionKey call.context row.wrappedKey =
      unwrapHouseholdKey keyEncryptionKey call'.context row.wrappedKey := by
    simp only [unwrapHouseholdKey, horganization, hhousehold, horganization', hhousehold']
  have hplaintext : key.plaintextKey = key'.plaintextKey := by
    rw [hrow.unwraps, hrow'.unwraps] at hunwraps
    exact Option.some.inj hunwraps
  have hversion : key.keyVersion = key'.keyVersion := hrow.version.symm.trans hrow'.version
  cases key
  cases key'
  exact congrArg₂ ActiveHouseholdKey.mk hversion hplaintext

/-- Rows of one household are one row. -/
theorem KeyState.row_unique
    {log : List (keyProtocol keyEncryptionKey hashtextextended).LogEntry} {σ : KeyRows}
    (h : KeyState keyEncryptionKey hashtextextended log σ) {k k' : Identifier}
    {row row' : HouseholdKeyRow} (hrow : σ.get .householdKeys k = some row)
    (hrow' : σ.get .householdKeys k' = some row') (hsame : row.householdId = row'.householdId) :
    k = k' ∧ row = row' := by
  have hactive := h.rows k row hrow
  have hactive' := h.rows k' row' hrow'
  rw [hsame, hactive'] at hactive
  obtain rfl := Option.some.inj hactive
  exact ⟨rfl, Option.some.inj (hrow.symm.trans hrow')⟩

/-- At any two moments of an interleaving a household has one key row at most, and it is the same
one. Every caller for a household is returned the key of that row, once it is committed. -/
theorem householdKeys_one {init : KeyRows} (hinit : NoKeys init)
    {s s' : (keyProtocol keyEncryptionKey hashtextextended).System} (h : Reachable init s)
    (hlater : Later s s') :
    (∀ k k' (row row' : HouseholdKeyRow), s.committed.get .householdKeys k = some row →
      s'.committed.get .householdKeys k' = some row' → row.householdId = row'.householdId →
      k = k' ∧ row = row') ∧
    (∀ call call' key key', ⟨.getOrCreate call, .committed (some key)⟩ ∈ s.log →
      ⟨.getOrCreate call', .committed (some key')⟩ ∈ s'.log →
      call.context.householdId = call'.context.householdId → key = key') ∧
    (∀ call key, ⟨.getOrCreate call, .committed (some key)⟩ ∈ s.log →
      ∃ k row, IsKeyOf keyEncryptionKey call.context s.committed k row key) := by
  have hstate := (keyState_invariant hinit).reachable h
  have hstate' := (keyState_invariant hinit).reachable (h.later hlater)
  have hstay := (keyState_invariant hinit).later h hlater
  refine ⟨fun k k' row row' hrow hrow' hsame => hstate'.row_unique (hstay.row hrow) hrow' hsame,
    fun call call' key key' hmem hmem' hhousehold => ?_, hstate.returned⟩
  have hearlier := hlater.log_suffix.subset hmem
  obtain ⟨k, row, hkey⟩ := hstate'.returned call key hearlier
  obtain ⟨k', row', hkey'⟩ := hstate'.returned call' key' hmem'
  obtain ⟨horganization, hhouseholdRow⟩ := TenantContext.sees_iff.mp hkey.sees
  obtain ⟨horganization', hhouseholdRow'⟩ := TenantContext.sees_iff.mp hkey'.sees
  -- The tenant of the row is the one of either caller, so the callers are of one tenant.
  have hrows : row.householdId = row'.householdId :=
    hhouseholdRow.trans (hhousehold.trans hhouseholdRow'.symm)
  obtain ⟨-, hsame⟩ := hstate'.row_unique hkey.stored hkey'.stored hrows
  have horganizations : call.context.organizationId = call'.context.organizationId := by
    rw [← hsame] at horganization'
    exact horganization.symm.trans horganization'
  exact householdKey_unique hinit (h.later hlater)
    ⟨call, hearlier, horganizations, hhousehold⟩ ⟨call', hmem', rfl, rfl⟩

/-- A household whose key is inserted with it, and a caller that is returned that key. -/
theorem householdKeys_one_example :
    ∃ s : (keyProtocol "kek" (fun _ => 0)).System, ∃ key, Reachable Store.empty s ∧
      ⟨.getOrCreate ⟨⟨"organization", "household", "owner"⟩, ⟨"key-2", "other-key", 2⟩⟩,
        .committed (some key)⟩ ∈ s.log ∧ key = ⟨1, "household-key"⟩ ∧
      (∃ k row, IsKeyOf "kek" ⟨"organization", "household", "owner"⟩ s.committed k row key) := by
  have hcalls : (keyProtocol "kek" (fun _ => 0)).Sequential [] Store.empty
      [.createHousehold ⟨⟨"organization", "household", "owner"⟩, ⟨"key-1", "household-key", 1⟩⟩,
        .getOrCreate ⟨⟨"organization", "household", "owner"⟩, ⟨"key-2", "other-key", 2⟩⟩] :=
    ⟨trivial, trivial, trivial⟩
  obtain ⟨s, hs, hlog, hcommitted⟩ := reachable_sequential hcalls
  have hmem : (⟨.getOrCreate ⟨⟨"organization", "household", "owner"⟩, ⟨"key-2", "other-key", 2⟩⟩,
      .committed (some ⟨1, "household-key"⟩)⟩ : (keyProtocol "kek" (fun _ => 0)).LogEntry) ∈
      s.log := by
    rw [hlog]
    exact List.mem_of_getElem? (i := 0) rfl
  exact ⟨s, _, hs, hmem, rfl, (householdKeys_one (fun _ => rfl) hs .refl).2.2 _ _ hmem⟩

end Keys

end LegacyVault
