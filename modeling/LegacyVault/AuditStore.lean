import LegacyVault.Library.InterleavedTransactions
import LegacyVault.Library.IsoTime
import LegacyVault.Library.RowStatements
import LegacyVault.AuditChain

/-!
# The audit store

`PostgresAuditStore.append` reads the last event of a household, creates the
next one and inserts it. The unique keys of `audit_events` are tables of
their own, taken by the insert together with the row, and the rows of
`advisoryLocks` stand for the transaction-scoped advisory locks.

How the database reads the texts it is given (`uuid`, `timestamptz`, `jsonb`)
is a parameter, and so is the hash of advisory lock keys. A caller learns of
its commit only when the acknowledgement arrives.
-/

namespace LegacyVault.Audit

open EcmaValues HashChain HexText RowTransaction RowTransaction.Program RowTransaction.Protocol

/-! ## Rows -/

/-- A `timestamptz` value: microseconds since the epoch, or one of the infinities. -/
inductive Timestamp where
  | finite (microseconds : Int)
  | infinity
  | negInfinity
  deriving DecidableEq

/-- An `audit_events` row. -/
structure AuditEventRow where
  id : String
  organizationId : String
  householdId : String
  sequence : Nat
  occurredAt : Timestamp
  actorPseudonym : String
  action : String
  outcome : String
  metadata : Metadata
  previousHash : String
  eventHash : String
  deriving DecidableEq

/-- How the database reads the values of an insert. -/
structure AuditColumns where
  /-- The canonical text of a `uuid`. -/
  uuid : String → Option String
  /-- The instant of a `timestamptz`. -/
  timestamptz : String → Option Timestamp
  /-- The members of a `jsonb` object, in the order it keeps them. -/
  jsonb : Metadata → Option Metadata
  /-- A `text` can be stored. -/
  isText : String → Bool
  /-- The hash of an advisory lock key. -/
  hashtextextended : String → Int

/-- The tables of the audit store. -/
inductive AuditTable where
  | auditEvents | eventIds | eventHashes | advisoryLocks
  deriving DecidableEq

/-- The schema of the audit store. -/
def auditSchema : Schema where
  Table := AuditTable
  Key
    | .auditEvents => String × Nat
    | .eventIds => String
    | .eventHashes => String
    | .advisoryLocks => Int
  Row
    | .auditEvents => AuditEventRow
    | _ => Unit
  tableDecEq := inferInstance
  keyDecEq
    | .auditEvents => inferInstanceAs (DecidableEq (String × Nat))
    | .eventIds => inferInstanceAs (DecidableEq String)
    | .eventHashes => inferInstanceAs (DecidableEq String)
    | .advisoryLocks => inferInstanceAs (DecidableEq Int)

/-- The rows of the audit store. -/
abbrev AuditRows := Store auditSchema

/-- A transaction of the audit store. -/
abbrev AuditTransaction := Program auditSchema String

/-- The key that is unique in a household. -/
def AuditEventRow.key (row : AuditEventRow) : String × Nat := (row.householdId, row.sequence)

/-- The row of an event with the given id, unless the database rejects one of its values. -/
def AuditColumns.row (columns : AuditColumns) (id : String) (event : ChainedAuditEvent) :
    Option AuditEventRow := do
  let id ← columns.uuid id
  let organizationId ← columns.uuid event.organizationId
  let householdId ← columns.uuid event.householdId
  let sequence ← event.sequence.natValue?
  guard (0 < sequence ∧ sequence ≤ 2147483647)
  let occurredAt ← columns.timestamptz event.occurredAt
  guard ([event.actorPseudonym, event.action, event.outcome, event.previousHash,
    event.eventHash].all columns.isText)
  let metadata ← columns.jsonb event.metadata
  pure { id, organizationId, householdId, sequence, occurredAt, metadata
         actorPseudonym := event.actorPseudonym, action := event.action
         outcome := event.outcome, previousHash := event.previousHash
         eventHash := event.eventHash }

/-! ## Appending -/

/-- `AuditTenantContext`. -/
structure AuditTenantContext where
  organizationId : String
  householdId : String
  deriving DecidableEq

/-- The input of `append`. -/
structure AppendInput where
  id : String
  occurredAt : String
  actorId : String
  action : String
  outcome : String
  metadata : Metadata
  deriving DecidableEq

/-- A call of `append`, and whether the acknowledgement of its commit arrives. -/
structure AppendCall where
  context : AuditTenantContext
  input : AppendInput
  acknowledged : Bool
  deriving DecidableEq

section Store

variable (columns : AuditColumns)

/-- The tenant policy of `audit_events`. -/
def AuditTenantContext.sees (context : AuditTenantContext) (row : AuditEventRow) : Bool :=
  columns.uuid context.organizationId == some row.organizationId &&
    columns.uuid context.householdId == some row.householdId

/-- The events a tenant sees. -/
def AuditTenantContext.visible (context : AuditTenantContext) (σ : AuditRows) :
    List AuditEventRow :=
  (σ.rowsOf .auditEvents).filter (fun row : AuditEventRow => context.sees columns row)

/-- `select sequence,event_hash from audit_events order by sequence desc limit 1`. -/
def lastEvent (context : AuditTenantContext) (σ : AuditRows) : Option AuditEventRow :=
  ((context.visible columns σ).insertionSort (fun a b => b.sequence ≤ a.sequence)).head?

variable (hmac : Hmac) (localeCompare : String → String → Int) (auditKey : List UInt8)

/-- `pseudonymizeIdentifier`. -/
def pseudonymizeIdentifier (identifier : String) : Except String String :=
  if auditKey.length < 32 then .error "audit key must be at least 32 bytes"
  else .ok (String.ofList
    ((hex (hmac auditKey ("legacy-vault:audit-pseudonym:" ++ identifier))).toList.take 32))

/-- The event `append` creates after the last one. -/
def nextEvent (call : AppendCall) (previous : Option AuditEventRow) :
    Except String ChainedAuditEvent := do
  let actorPseudonym ← pseudonymizeIdentifier hmac auditKey call.input.actorId
  createAuditEvent hmac localeCompare
    { organizationId := call.context.organizationId
      householdId := call.context.householdId
      sequence := .ofNat ((previous.map AuditEventRow.sequence).getD 0 + 1)
      occurredAt := call.input.occurredAt
      actorPseudonym := actorPseudonym
      action := call.input.action
      outcome := call.input.outcome
      metadata := call.input.metadata
      previousHash := (previous.map AuditEventRow.eventHash).getD "GENESIS" } auditKey

/-- Go on with the value of a computation, or roll back with its error. -/
def orRollback {α : Type} : Except String α → AuditTransaction α
  | .ok value => .commit value
  | .error message => .rollback message

/-- The insert of an event, which takes every unique key of its row. -/
def insertEvent (row : AuditEventRow) : AuditTransaction Unit := do
  let _ ← insertRow (S := auditSchema) .auditEvents row.key row
    "duplicate key value violates unique constraint"
  let _ ← insertRow (S := auditSchema) .eventIds row.id ()
    "duplicate key value violates unique constraint"
  let _ ← insertRow (S := auditSchema) .eventHashes row.eventHash ()
    "duplicate key value violates unique constraint"
  pure ()

/-- `PostgresAuditStore.append`. -/
def append (call : AppendCall) : AuditTransaction ChainedAuditEvent := do
  let _ ← putRow (S := auditSchema) .advisoryLocks
    (columns.hashtextextended call.context.householdId) (fun _ => some ())
  let previous ← select (lastEvent columns call.context)
  let event ← orRollback (nextEvent hmac localeCompare auditKey call previous)
  match columns.row call.input.id event with
  | none => .rollback "invalid input syntax"
  | some row => do
    insertEvent row
    pure event

/-- Any number of appends, none of which waits for another to be permitted. -/
def auditProtocol : Protocol auditSchema where
  Request := AppendCall
  Error := String
  Result := ChainedAuditEvent
  program := append columns hmac localeCompare auditKey
  permitted := fun _ _ => True

end Store

/-! ## What an append does -/

section Effects

variable {columns : AuditColumns} {hmac : Hmac} {localeCompare : String → String → Int}
  {auditKey : List UInt8}

/-- A stored row has the values of its event as the database reads them. -/
theorem AuditColumns.row_eq_some {id : String} {event : ChainedAuditEvent} {row : AuditEventRow}
    (h : columns.row id event = some row) :
    columns.uuid id = some row.id ∧ columns.uuid event.organizationId = some row.organizationId ∧
      columns.uuid event.householdId = some row.householdId ∧
      event.sequence.natValue? = some row.sequence ∧
      columns.timestamptz event.occurredAt = some row.occurredAt ∧
      columns.jsonb event.metadata = some row.metadata ∧
      row.actorPseudonym = event.actorPseudonym ∧ row.action = event.action ∧
      row.outcome = event.outcome ∧ row.previousHash = event.previousHash ∧
      row.eventHash = event.eventHash := by
  simp only [AuditColumns.row, Option.bind_eq_bind, Option.bind_eq_some_iff, Option.pure_def] at h
  obtain ⟨rowId, hid, organization, horganization, household, hhousehold, sequence, hsequence, -,
    -, instant, hinstant, -, -, metadata, hmetadata, hrow⟩ := h
  obtain rfl := Option.some.inj hrow
  exact ⟨hid, horganization, hhousehold, hsequence, hinstant, hmetadata, rfl, rfl, rfl, rfl, rfl⟩

/-- The next event has the fields of the call and follows the last event. -/
theorem nextEvent_eq_ok {call : AppendCall} {previous : Option AuditEventRow}
    {event : ChainedAuditEvent}
    (h : nextEvent hmac localeCompare auditKey call previous = .ok event) :
    event.organizationId = call.context.organizationId ∧
      event.householdId = call.context.householdId ∧
      event.sequence = .ofNat ((previous.map AuditEventRow.sequence).getD 0 + 1) ∧
      event.occurredAt = call.input.occurredAt ∧ event.metadata = call.input.metadata ∧
      event.previousHash = (previous.map AuditEventRow.eventHash).getD "GENESIS" ∧
      eventDigest hmac localeCompare event.toAuditEventInput auditKey = .ok event.eventHash := by
  unfold nextEvent at h
  cases hactor : pseudonymizeIdentifier hmac auditKey call.input.actorId with
  | error message => simp [hactor, Bind.bind, Except.bind] at h
  | ok actorPseudonym =>
    simp only [hactor, Bind.bind, Except.bind] at h
    obtain ⟨-, hinput, hdigest⟩ := createAuditEvent_eq_ok.mp h
    rw [hinput]
    exact ⟨rfl, rfl, rfl, rfl, rfl, rfl, hdigest⟩

/-- Going on with a value. -/
theorem executes_orRollback {α : Type} {value : Except String α} {a : α} {seen : AuditRows → Prop}
    {σ : AuditRows} {ws ws' : List (Write auditSchema)}
    (h : (orRollback value).Executes seen σ ws (.ok a) ws') : value = .ok a ∧ ws' = ws := by
  cases value with
  | ok value =>
    obtain ⟨hresult, hws⟩ := h
    exact ⟨congrArg Except.ok (Except.ok.inj hresult).symm, hws⟩
  | error message => exact absurd h.1 (by simp)

/-- An insert puts its row under a free key. -/
theorem executes_insertEvent {row : AuditEventRow} {a : Unit} {seen : AuditRows → Prop}
    {σ : AuditRows} {ws ws' : List (Write auditSchema)}
    (h : (insertEvent row).Executes seen σ ws (.ok a) ws')
    (hbefore : Store.SameRows (S := auditSchema) .auditEvents σ (σ.overlay ws)) :
    σ.get .auditEvents row.key = none ∧
      Store.Replaces (S := auditSchema) .auditEvents row.key (some row) σ (σ.overlay ws') := by
  obtain ⟨_, ws₁, hevent, hrest⟩ := executes_bind_ok.mp h
  obtain ⟨_, ws₂, hid, hlast⟩ := executes_bind_ok.mp hrest
  obtain ⟨_, ws₃, hhash, hend⟩ := executes_bind_ok.mp hlast
  obtain ⟨hfree, -, rfl⟩ := executes_insertRow_ok hevent
  obtain ⟨-, -, rfl⟩ := executes_insertRow_ok hid
  obtain ⟨-, -, rfl⟩ := executes_insertRow_ok hhash
  obtain rfl := hend.2
  have hrow := hbefore.write (k := row.key) (v := some row)
  have hids : Store.Replaces (S := auditSchema) .auditEvents row.key (some row) σ
      (σ.overlay (⟨.eventIds, row.id, some ()⟩ :: ⟨.auditEvents, row.key, some row⟩ :: ws)) :=
    hrow.writeOther nofun
  have hhashes : Store.Replaces (S := auditSchema) .auditEvents row.key (some row) σ
      (σ.overlay (⟨.eventHashes, row.eventHash, some ()⟩ :: ⟨.eventIds, row.id, some ()⟩ ::
        ⟨.auditEvents, row.key, some row⟩ :: ws)) :=
    hids.writeOther nofun
  exact ⟨(hbefore row.key).symm.trans hfree, hhashes⟩

/-- What a committed append did. -/
structure Appends (columns : AuditColumns) (hmac : Hmac) (localeCompare : String → String → Int)
    (auditKey : List UInt8) (call : AppendCall) (event : ChainedAuditEvent) (row : AuditEventRow)
    (σ₀ σ σ' : AuditRows) : Prop where
  /-- The event follows the last one that was seen. -/
  next : nextEvent hmac localeCompare auditKey call (lastEvent columns call.context σ₀) = .ok event
  /-- The row is that of the event. -/
  stored : columns.row call.input.id event = some row
  /-- The key of the row was free. -/
  free : σ.get .auditEvents row.key = none
  /-- The row is inserted. -/
  inserted : Store.Replaces (S := auditSchema) .auditEvents row.key (some row) σ σ'

theorem append_appends {call : AppendCall} {event : ChainedAuditEvent} {seen : AuditRows → Prop}
    {σ : AuditRows} {ws : List (Write auditSchema)}
    (h : (append columns hmac localeCompare auditKey call).Executes seen σ [] (.ok event) ws) :
    ∃ σ₀ row, seen σ₀ ∧
      Appends columns hmac localeCompare auditKey call event row σ₀ σ (σ.overlay ws) := by
  obtain ⟨_, ws₁, hlock, hrest⟩ := executes_bind_ok.mp h
  obtain ⟨previous, ws₂, hselect, hrest⟩ := executes_bind_ok.mp hrest
  obtain ⟨created, ws₃, hcreate, hrest⟩ := executes_bind_ok.mp hrest
  obtain ⟨σ₀, hseen, hprevious, hws₂⟩ := executes_select.mp hselect
  obtain ⟨hcreated, hws₃⟩ := executes_orRollback hcreate
  have hlockWrites : ws₁ = [⟨.advisoryLocks,
      columns.hashtextextended call.context.householdId, some ()⟩] := by
    rcases executes_putRow.mp hlock with ⟨row, hrow, -, hws⟩ | ⟨_, _, hnone, _⟩
    · obtain rfl := Option.some.inj hrow
      exact hws
    · exact absurd hnone (by simp)
  have hother : ∀ base : AuditRows, Store.SameRows (S := auditSchema) .auditEvents base (base.overlay ws₁) := by
    intro base
    rw [hlockWrites]
    exact Store.sameRows_write base nofun
  have hrows : lastEvent columns call.context (σ₀.overlay ws₁) =
      lastEvent columns call.context σ₀ := by
    have hset : (σ₀.overlay ws₁).rowsOf .auditEvents = σ₀.rowsOf .auditEvents := by
      rw [hlockWrites]
      exact Store.rowsOf_set_of_table_ne σ₀ _ _ nofun
    rw [lastEvent, lastEvent, AuditTenantContext.visible, AuditTenantContext.visible, hset]
  cases hrow : columns.row call.input.id created with
  | none =>
    rw [hrow] at hrest
    exact absurd hrest.1 (by simp)
  | some row =>
    rw [hrow] at hrest
    obtain ⟨_, ws₄, hinsert, hend⟩ := executes_bind_ok.mp hrest
    obtain ⟨hevent, hws⟩ := hend
    obtain rfl : event = created := Except.ok.inj hevent
    obtain ⟨hfree, hreplaces⟩ := executes_insertEvent hinsert (by rw [hws₃, hws₂]; exact hother σ)
    refine ⟨σ₀, row, hseen, ?_, hrow, hfree, by rw [hws]; exact hreplaces⟩
    rw [← hcreated, Except.ok.inj hprevious, hrows]

end Effects

/-! ## Chains in the store -/

/-- The stored events of a household stand at the positions up to some number, belong to one
organization, and each names the hash of the one before it. -/
structure HouseholdChain (σ : AuditRows) (household : String) (n : Nat) : Prop where
  positions : ∀ k, (∃ row, σ.get .auditEvents (household, k) = some row) ↔ 0 < k ∧ k ≤ n
  organization : ∀ {k k'} {row row' : AuditEventRow}, σ.get .auditEvents (household, k) = some row →
    σ.get .auditEvents (household, k') = some row' → row.organizationId = row'.organizationId
  first : ∀ {row : AuditEventRow}, σ.get .auditEvents (household, 1) = some row →
    row.previousHash = "GENESIS"
  linked : ∀ {k} {before row : AuditEventRow}, σ.get .auditEvents (household, k) = some before →
    σ.get .auditEvents (household, k + 1) = some row → row.previousHash = before.eventHash

/-- Rows stay as they are. -/
def RowsStay (σ σ' : AuditRows) : Prop :=
  ∀ (key : String × Nat) (row : AuditEventRow), σ.get .auditEvents key = some row →
    σ'.get .auditEvents key = some row

/-- Rows stand under their own keys. -/
def RowsKeyed (σ : AuditRows) : Prop :=
  ∀ (key : String × Nat) (row : AuditEventRow), σ.get .auditEvents key = some row → key = row.key

section Chains

variable {columns : AuditColumns} {hmac : Hmac} {localeCompare : String → String → Int}
  {auditKey : List UInt8} {σ : AuditRows}

/-- The last event is the highest of the visible ones. -/
theorem lastEvent_eq_some {context : AuditTenantContext} {row : AuditEventRow}
    (h : lastEvent columns context σ = some row) : row ∈ context.visible columns σ ∧
      ∀ other ∈ context.visible columns σ, other.sequence ≤ row.sequence := by
  have hperm := List.perm_insertionSort (fun a b : AuditEventRow => b.sequence ≤ a.sequence)
    (context.visible columns σ)
  have hsorted := List.pairwise_insertionSort
    (fun a b : AuditEventRow => b.sequence ≤ a.sequence) (context.visible columns σ)
  rw [lastEvent] at h
  cases hlist : (context.visible columns σ).insertionSort
      (fun a b : AuditEventRow => b.sequence ≤ a.sequence) with
  | nil => simp [hlist] at h
  | cons first rest =>
    rw [hlist] at h hperm hsorted
    obtain rfl : first = row := Option.some.inj h
    refine ⟨hperm.mem_iff.mp List.mem_cons_self, fun other hother => ?_⟩
    rcases List.mem_cons.mp (hperm.mem_iff.mpr hother) with rfl | hrest
    · exact le_refl _
    · exact List.rel_of_pairwise_cons hsorted hrest

theorem lastEvent_eq_none {context : AuditTenantContext}
    (h : lastEvent columns context σ = none) : context.visible columns σ = [] := by
  have hperm := List.perm_insertionSort (fun a b : AuditEventRow => b.sequence ≤ a.sequence)
    (context.visible columns σ)
  rw [lastEvent, List.head?_eq_none_iff] at h
  rw [h] at hperm
  exact hperm.symm.eq_nil

theorem mem_visible {context : AuditTenantContext} {row : AuditEventRow} :
    row ∈ context.visible columns σ ↔ (∃ key, σ.get .auditEvents key = some row) ∧
      columns.uuid context.organizationId = some row.organizationId ∧
      columns.uuid context.householdId = some row.householdId := by
  have hsees : context.sees columns row = true ↔
      columns.uuid context.organizationId = some row.organizationId ∧
        columns.uuid context.householdId = some row.householdId := by
    simp [AuditTenantContext.sees]
  exact List.mem_filter.trans (and_congr Store.mem_rowsOf hsees)

/-- The next event of a household follows its last one, whether or not that was the last one
when it was read. -/
structure Follows (σ : AuditRows) (row : AuditEventRow) (n : Nat) : Prop where
  chain : HouseholdChain σ row.householdId n
  position : row.sequence = n + 1
  first : n = 0 → row.previousHash = "GENESIS"
  linked : ∀ {before : AuditEventRow}, σ.get .auditEvents (row.householdId, n) = some before →
    row.previousHash = before.eventHash ∧ row.organizationId = before.organizationId

theorem Appends.follows {call : AppendCall} {event : ChainedAuditEvent} {row : AuditEventRow}
    {σ₀ σ σ' : AuditRows}
    (h : Appends columns hmac localeCompare auditKey call event row σ₀ σ σ')
    (hkeyed₀ : RowsKeyed σ₀) (hstay : RowsStay σ₀ σ)
    (hchain₀ : ∀ household, ∃ n, HouseholdChain σ₀ household n)
    (hchain : ∀ household, ∃ n, HouseholdChain σ household n) : ∃ n, Follows σ row n := by
  obtain ⟨-, horganization, hhousehold, hsequence, -, -, -, -, -, hprevious, -⟩ :=
    AuditColumns.row_eq_some h.stored
  obtain ⟨heventOrganization, heventHousehold, heventSequence, -, -, heventPrevious, -⟩ :=
    nextEvent_eq_ok h.next
  rw [heventOrganization] at horganization
  rw [heventHousehold] at hhousehold
  rw [heventSequence, Number.natValue?_ofNat, Option.some.injEq] at hsequence
  rw [heventPrevious] at hprevious
  obtain ⟨n, hn⟩ := hchain row.householdId
  obtain ⟨m, hm⟩ := hchain₀ row.householdId
  have hfree : ¬ (0 < row.sequence ∧ row.sequence ≤ n) := by
    intro hplace
    obtain ⟨taken, htaken⟩ := (hn.positions row.sequence).mpr hplace
    exact absurd (h.free.symm.trans htaken) (by simp)
  suffices hplaced : row.sequence = n + 1 ∧ (n = 0 → row.previousHash = "GENESIS") ∧
      ∀ {before : AuditEventRow}, σ.get .auditEvents (row.householdId, n) = some before →
        row.previousHash = before.eventHash ∧ row.organizationId = before.organizationId from
    ⟨n, hn, hplaced.1, hplaced.2.1, hplaced.2.2⟩
  cases hlast : lastEvent columns call.context σ₀ with
  | none =>
    rw [hlast] at hsequence hprevious
    have hposition : row.sequence = 1 := hsequence.symm
    have hzero : n = 0 := by omega
    subst hzero
    refine ⟨hposition, fun _ => hprevious, fun {before} hbefore => ?_⟩
    exact absurd ((hn.positions 0).mp ⟨_, hbefore⟩).1 (by omega)
  | some last =>
    rw [hlast] at hsequence hprevious
    obtain ⟨hvisible, hhighest⟩ := lastEvent_eq_some hlast
    obtain ⟨⟨key, hkey⟩, hlastOrganization, hlastHousehold⟩ := mem_visible.mp hvisible
    have hsameHousehold : last.householdId = row.householdId :=
      Option.some.inj (hlastHousehold.symm.trans hhousehold)
    have hsameOrganization : last.organizationId = row.organizationId :=
      Option.some.inj (hlastOrganization.symm.trans horganization)
    have hat : σ₀.get .auditEvents (row.householdId, last.sequence) = some last := by
      rw [← hsameHousehold]
      have hown : key = last.key := hkeyed₀ key last hkey
      rw [hown] at hkey
      exact hkey
    have hplace := (hm.positions last.sequence).mp ⟨last, hat⟩
    -- every event that was there could be seen, so the last one stood at the end
    have hend : last.sequence = m := by
      obtain ⟨top, htop⟩ := (hm.positions m).mpr ⟨by omega, le_refl m⟩
      have htopKey : (row.householdId, m) = top.key := hkeyed₀ _ top htop
      have htopOrganization := hm.organization htop hat
      have htopVisible : top ∈ call.context.visible columns σ₀ := by
        refine mem_visible.mpr ⟨⟨_, htop⟩, ?_, ?_⟩
        · rw [htopOrganization, hsameOrganization]
          exact horganization
        · rw [← (Prod.mk.inj htopKey).1]
          exact hhousehold
      have hle := hhighest top htopVisible
      rw [← (Prod.mk.inj htopKey).2] at hle
      omega
    have hposition : row.sequence = m + 1 := by
      rw [← hend]
      exact hsequence.symm
    have hkept := hstay _ last hat
    have hbound := ((hn.positions last.sequence).mp ⟨last, hkept⟩).2
    have hcount : n = m := by omega
    refine ⟨by omega, fun hzero => by omega, fun {before} hbefore => ?_⟩
    rw [hcount, ← hend, hkept] at hbefore
    obtain rfl := Option.some.inj hbefore
    exact ⟨hprevious, hsameOrganization.symm⟩

/-- An append makes the chain of its household one longer. -/
theorem Follows.extends {row : AuditEventRow} {σ' : AuditRows} {n : Nat} (h : Follows σ row n)
    (hinserted : Store.Replaces (S := auditSchema) .auditEvents row.key (some row) σ σ') :
    HouseholdChain σ' row.householdId (n + 1) := by
  have hkey : row.key = (row.householdId, n + 1) := by
    rw [AuditEventRow.key, h.position]
  have hnew : σ'.get .auditEvents (row.householdId, n + 1) = some row := by
    rw [← hkey]
    exact hinserted.row
  have hold : ∀ k, k ≠ n + 1 → σ'.get .auditEvents (row.householdId, k) =
      σ.get .auditEvents (row.householdId, k) := by
    intro k hk
    refine hinserted.others _ ?_
    rw [hkey]
    intro hequal
    exact hk (Prod.mk.inj hequal).2
  have horganization : ∀ {k} {other : AuditEventRow},
      σ'.get .auditEvents (row.householdId, k) = some other →
        other.organizationId = row.organizationId := by
    intro k other hother
    by_cases hk : k = n + 1
    · rw [hk, hnew] at hother
      rw [Option.some.inj hother]
    · rw [hold k hk] at hother
      have hplace := (h.chain.positions k).mp ⟨other, hother⟩
      obtain ⟨before, hbefore⟩ := (h.chain.positions n).mpr ⟨by omega, le_refl n⟩
      rw [(h.linked hbefore).2]
      exact h.chain.organization hother hbefore
  refine ⟨fun k => ?_, fun hk hk' => (horganization hk).trans (horganization hk').symm,
    fun {other} hfirst => ?_, fun {k before other} hbefore hother => ?_⟩
  · by_cases hk : k = n + 1
    · rw [hk, hnew]
      exact ⟨fun _ => ⟨by omega, le_refl _⟩, fun _ => ⟨row, rfl⟩⟩
    · rw [hold k hk, h.chain.positions k]
      constructor
      · rintro ⟨hpositive, hle⟩
        exact ⟨hpositive, by omega⟩
      · rintro ⟨hpositive, hle⟩
        exact ⟨hpositive, by omega⟩
  · by_cases hn : n = 0
    · rw [show (1 : Nat) = n + 1 by omega, hnew] at hfirst
      rw [← Option.some.inj hfirst]
      exact h.first hn
    · rw [hold 1 (by omega)] at hfirst
      exact h.chain.first hfirst
  · by_cases hk : k = n
    · subst hk
      rw [hnew] at hother
      rw [hold k (by omega)] at hbefore
      rw [← Option.some.inj hother]
      exact (h.linked hbefore).1
    · by_cases hnext : k = n + 1
      · rw [hnext, hold (n + 1 + 1) (by omega)] at hother
        exact absurd ((h.chain.positions _).mp ⟨_, hother⟩).2 (by omega)
      · rw [hold k hnext] at hbefore
        rw [hold (k + 1) (by omega)] at hother
        exact h.chain.linked hbefore hother

end Chains

/-! ## Runs -/

/-- An ended call of `append`. -/
abbrev AuditEntry := Entry AppendCall String ChainedAuditEvent

/-- The row of an append whose commit took effect. -/
def committedRow (columns : AuditColumns) (entry : AuditEntry) : Option AuditEventRow :=
  match entry.outcome with
  | .committed event => columns.row entry.request.input.id event
  | _ => none

/-- The row of an append that returned its event. An append whose commit took effect throws when
the acknowledgement of the commit is lost. -/
def returnedRow (columns : AuditColumns) (entry : AuditEntry) : Option AuditEventRow :=
  if entry.request.acknowledged then committedRow columns entry else none

/-- The stored events are chains, and each was inserted by one of the ended appends. -/
structure AuditState (columns : AuditColumns) (log : List AuditEntry) (σ : AuditRows) : Prop where
  keyed : RowsKeyed σ
  chains : ∀ household, ∃ n, HouseholdChain σ household n
  rows : ∀ row : AuditEventRow, (∃ key, σ.get .auditEvents key = some row) ↔
    row ∈ log.filterMap (committedRow columns)
  distinct : ((log.filterMap (committedRow columns)).map AuditEventRow.key).Nodup

section Runs

variable {columns : AuditColumns} {hmac : Hmac} {localeCompare : String → String → Int}
  {auditKey : List UInt8}

theorem auditState_empty : AuditState columns [] Store.empty := by
  have hnone : ∀ (key : String × Nat) (row : AuditEventRow),
      (Store.empty : AuditRows).get .auditEvents key ≠ some row := fun _ _ => nofun
  refine ⟨fun key row h => absurd h (hnone key row), fun household => ⟨0, ?_⟩, fun row => ?_,
    List.nodup_nil⟩
  · exact ⟨fun k => ⟨fun ⟨row, h⟩ => absurd h (hnone _ row), fun h => by omega⟩,
      fun h => absurd h (hnone _ _), fun h => absurd h (hnone _ _), fun h => absurd h (hnone _ _)⟩
  · exact ⟨fun ⟨key, h⟩ => absurd h (hnone key row), fun h => absurd h List.not_mem_nil⟩

/-- An entry that did not commit adds no row. -/
theorem AuditState.ends {log : List AuditEntry} {σ : AuditRows} (h : AuditState columns log σ)
    {entry : AuditEntry} (hend : ∀ event, entry.outcome ≠ .committed event) :
    AuditState columns (entry :: log) σ := by
  have hnone : committedRow columns entry = none := by
    cases houtcome : entry.outcome with
    | committed event => exact absurd houtcome (hend event)
    | rolledBack message => rw [committedRow, houtcome]
    | aborted => rw [committedRow, houtcome]
  refine ⟨h.keyed, h.chains, ?_, ?_⟩
  · rw [List.filterMap_cons_none hnone]
    exact h.rows
  · rw [List.filterMap_cons_none hnone]
    exact h.distinct

/-- A committed append adds its row. -/
theorem AuditState.appends {log : List AuditEntry} {σ₀ σ σ' : AuditRows}
    (h : AuditState columns log σ) (hkeyed₀ : RowsKeyed σ₀) (hstay : RowsStay σ₀ σ)
    (hchain₀ : ∀ household, ∃ n, HouseholdChain σ₀ household n) {call : AppendCall}
    {event : ChainedAuditEvent} {row : AuditEventRow}
    (happends : Appends columns hmac localeCompare auditKey call event row σ₀ σ σ') :
    AuditState columns (⟨call, .committed event⟩ :: log) σ' ∧ RowsStay σ σ' := by
  have hrow : committedRow columns ⟨call, .committed event⟩ = some row := happends.stored
  obtain ⟨n, hfollows⟩ := happends.follows hkeyed₀ hstay hchain₀ h.chains
  have hstays : RowsStay σ σ' := by
    intro key other hother
    rcases happends.inserted.get_cases key with ⟨rfl, -⟩ | ⟨-, hold⟩
    · exact absurd (happends.free.symm.trans hother) (by simp)
    · exact hold.trans hother
  refine ⟨⟨?_, ?_, ?_, ?_⟩, hstays⟩
  · intro key other hother
    rcases happends.inserted.get_cases key with ⟨rfl, hnew⟩ | ⟨-, hold⟩
    · rw [Option.some.inj (hnew.symm.trans hother)]
    · exact h.keyed key other (hold.symm.trans hother)
  · intro household
    by_cases hhousehold : household = row.householdId
    · rw [hhousehold]
      exact ⟨n + 1, hfollows.extends happends.inserted⟩
    · have hsame : ∀ k, σ'.get .auditEvents (household, k) = σ.get .auditEvents (household, k) :=
        fun k => happends.inserted.others _ (fun hequal => hhousehold (Prod.mk.inj hequal).1)
      obtain ⟨m, hm⟩ := h.chains household
      refine ⟨m, fun k => ?_, fun hk hk' => ?_, fun hk => ?_, fun hk hk' => ?_⟩
      · rw [hsame]
        exact hm.positions k
      · rw [hsame] at hk hk'
        exact hm.organization hk hk'
      · rw [hsame] at hk
        exact hm.first hk
      · rw [hsame] at hk hk'
        exact hm.linked hk hk'
  · intro other
    rw [List.filterMap_cons_some hrow, List.mem_cons, ← h.rows other]
    constructor
    · rintro ⟨key, hkey⟩
      rcases happends.inserted.get_cases key with ⟨rfl, hnew⟩ | ⟨-, hold⟩
      · exact Or.inl (Option.some.inj (hnew.symm.trans hkey)).symm
      · exact Or.inr ⟨key, hold.symm.trans hkey⟩
    · rintro (rfl | ⟨key, hkey⟩)
      · exact ⟨_, happends.inserted.row⟩
      · exact ⟨key, hstays key other hkey⟩
  · rw [List.filterMap_cons_some hrow, List.map_cons, List.nodup_cons]
    refine ⟨fun hmem => ?_, h.distinct⟩
    obtain ⟨other, hother, hkey⟩ := List.mem_map.mp hmem
    obtain ⟨key, hat⟩ := (h.rows other).mpr hother
    rw [h.keyed key other hat, hkey] at hat
    exact absurd (happends.free.symm.trans hat) (by simp)

/-- The stored events are chains of committed appends, whatever is interleaved and aborted. -/
theorem auditState_invariant : (auditProtocol columns hmac localeCompare auditKey).Invariant
    Store.empty (AuditState columns) RowsStay where
  refl := fun _ _ _ h => h
  trans := fun h h' key row hrow => h' key row (h key row hrow)
  start := auditState_empty
  commit := by
    intro log begun seen σ call event ws h _ _ _ hearlier hexec
    obtain ⟨σ₀, row, hseen, happends⟩ := append_appends hexec
    obtain ⟨hstay, log₀, -, -, h₀⟩ := hearlier σ₀ hseen
    exact h.appends h₀.keyed hstay h₀.chains happends
  rollback := fun h _ _ _ _ _ => h.ends (fun _ => nofun)
  abort := fun h _ _ => h.ends (fun _ => nofun)

/-- An entry with another row adds nothing to the rows of a log. -/
theorem mem_filterMap_of_other {log : List AuditEntry} {entry : AuditEntry} {row : AuditEventRow}
    (hother : ∀ inserted, committedRow columns entry = some inserted → inserted ≠ row) :
    row ∈ (entry :: log).filterMap (committedRow columns) ↔
      row ∈ log.filterMap (committedRow columns) := by
  cases hrow : committedRow columns entry with
  | none => rw [List.filterMap_cons_none hrow]
  | some inserted =>
    rw [List.filterMap_cons_some hrow, List.mem_cons, or_iff_right (hother inserted hrow).symm]

/-- A row stands under its key exactly when one of the ended appends inserted it. -/
theorem AuditState.get_iff {log : List AuditEntry} {σ : AuditRows} (h : AuditState columns log σ)
    {key : String × Nat} {row : AuditEventRow} : σ.get .auditEvents key = some row ↔
      row ∈ log.filterMap (committedRow columns) ∧ key = row.key := by
  constructor
  · intro hrow
    exact ⟨(h.rows row).mp ⟨key, hrow⟩, h.keyed key row hrow⟩
  · rintro ⟨hmem, rfl⟩
    obtain ⟨key, hrow⟩ := (h.rows row).mpr hmem
    rw [h.keyed key row hrow] at hrow
    exact hrow

/-- No row is stored twice. -/
theorem AuditState.nodup {log : List AuditEntry} {σ : AuditRows} (h : AuditState columns log σ) :
    (σ.rowsOf .auditEvents).Nodup :=
  (Store.nodup_keys_rowsOf (fun key row hrow => (h.keyed key row hrow).symm)).of_map

/-- The rows are those of the committed appends, each once. -/
theorem AuditState.perm {log : List AuditEntry} {σ : AuditRows} (h : AuditState columns log σ) :
    (σ.rowsOf .auditEvents).Perm (log.filterMap (committedRow columns)) := by
  refine (List.perm_ext_iff_of_nodup h.nodup (h.distinct.of_map _)).mpr (fun row => ?_)
  exact Store.mem_rowsOf.trans (h.rows row)

/-- The stored events are those of the committed appends, each stored once. -/
structure EachOnce (columns : AuditColumns) (log : List AuditEntry) (σ : AuditRows) : Prop where
  /-- A committed append has a row for its event. -/
  stored : ∀ entry ∈ log, ∀ event, entry.outcome = .committed event →
    ∃ row, columns.row entry.request.input.id event = some row
  /-- The rows are those of the committed appends. -/
  rows : (σ.rowsOf .auditEvents).Perm (log.filterMap (committedRow columns))
  /-- No row is stored twice. -/
  distinct : (σ.rowsOf .auditEvents).Nodup

/-- A system of appends that started on an empty table. -/
abbrev AuditReachable (columns : AuditColumns) (hmac : Hmac)
    (localeCompare : String → String → Int) (auditKey : List UInt8)
    (s : (auditProtocol columns hmac localeCompare auditKey).System) : Prop :=
  Reachable Store.empty s

theorem AuditReachable.state {s : (auditProtocol columns hmac localeCompare auditKey).System}
    (h : AuditReachable columns hmac localeCompare auditKey s) :
    AuditState columns s.log s.committed :=
  auditState_invariant.reachable h

/-- A committed entry of the log has created its event and stored its row. -/
theorem AuditReachable.committed {s : (auditProtocol columns hmac localeCompare auditKey).System}
    (h : AuditReachable columns hmac localeCompare auditKey s) {entry : AuditEntry}
    (hmem : entry ∈ s.log) {event : ChainedAuditEvent} (hcommitted : entry.outcome = .committed event) :
    ∃ previous row, nextEvent hmac localeCompare auditKey entry.request previous = .ok event ∧
      columns.row entry.request.input.id event = some row := by
  obtain ⟨-, hexplained⟩ := h.explained entry hmem
  obtain ⟨seen, σ, ws, hexec⟩ := hexplained (.ok event) hcommitted
  obtain ⟨σ₀, row, -, happends⟩ := append_appends hexec
  exact ⟨_, row, happends.next, happends.stored⟩

theorem AuditReachable.eachOnce {s : (auditProtocol columns hmac localeCompare auditKey).System}
    (h : AuditReachable columns hmac localeCompare auditKey s) :
    EachOnce columns s.log s.committed where
  stored := by
    intro entry hmem event hcommitted
    obtain ⟨_, row, -, hrow⟩ := h.committed hmem hcommitted
    exact ⟨row, hrow⟩
  rows := h.state.perm
  distinct := h.state.nodup

/-- A step that inserts no event of a household leaves its events as they are. -/
theorem AuditReachable.others {s s' : (auditProtocol columns hmac localeCompare auditKey).System}
    (h : AuditReachable columns hmac localeCompare auditKey s) (hstep : Step s s')
    {household : String} (hother : ∀ entry, s'.log = entry :: s.log → ∀ row,
      committedRow columns entry = some row → row.householdId ≠ household) (k : Nat) :
    s'.committed.get .auditEvents (household, k) = s.committed.get .auditEvents (household, k) := by
  have hstate := h.state
  have hstate' := AuditReachable.state (h.step hstep)
  rcases hstep.committed_or_log with hsame | ⟨call, event, hlog⟩
  · rw [hsame]
  · have hmem : ∀ row : AuditEventRow, row.householdId = household →
        (row ∈ s'.log.filterMap (committedRow columns) ↔
          row ∈ s.log.filterMap (committedRow columns)) := by
      intro row hhousehold
      rw [hlog]
      refine mem_filterMap_of_other (fun inserted hinserted hequal => ?_)
      rw [hequal] at hinserted
      exact hother _ hlog row hinserted hhousehold
    refine Option.ext (fun row => ?_)
    refine hstate'.get_iff.trans (Iff.trans (and_congr_left (fun hkey => ?_)) hstate.get_iff.symm)
    exact hmem row (Prod.mk.inj hkey).1.symm

end Runs

section Example

/-- The values of the database for the texts of the example call. -/
def exampleColumns : AuditColumns where
  uuid text := some text
  timestamptz _ := some (.finite 1785960000000000)
  jsonb metadata := some metadata
  isText _ := true
  hashtextextended _ := -5650233108347185643

/-- The HMACs of the example call under the example key. -/
def appendHmac : Hmac := fun _ text =>
  if text = "legacy-vault:audit-pseudonym:30000000-0000-4000-8000-000000000001" then
    [133, 206, 31, 56, 179, 99, 62, 53, 72, 144, 156, 10, 21, 147, 91, 147,
      251, 238, 63, 27, 208, 184, 242, 53, 196, 201, 47, 213, 132, 190, 133, 98]
  else
    [28, 238, 195, 66, 10, 79, 251, 216, 152, 114, 162, 93, 63, 26, 142, 56,
      77, 53, 9, 189, 234, 102, 21, 199, 232, 24, 38, 115, 39, 52, 11, 44]

/-- The metadata of the example has one name. -/
theorem exampleMetadata_distinct :
    ([("category", MetadataValue.string "insurance")].map Prod.fst).Nodup :=
  List.nodup_singleton _

/-- An append to the audit events of a household. -/
def exampleCall (acknowledged : Bool) : AppendCall where
  context := ⟨"10000000-0000-4000-8000-000000000001", "10000000-0000-4000-8000-000000000002"⟩
  input :=
    { id := "20000000-0000-4000-8000-000000000001"
      occurredAt := "2026-08-05T20:00:00.000Z"
      actorId := "30000000-0000-4000-8000-000000000001"
      action := "fact.confirm"
      outcome := "allowed"
      metadata := ⟨[("category", .string "insurance")], exampleMetadata_distinct⟩ }
  acknowledged := acknowledged

/-- The protocol of the example. -/
abbrev exampleProtocol : Protocol auditSchema :=
  auditProtocol exampleColumns appendHmac exampleCompare exampleKey

/-- The event the example call creates. -/
def appendedEvent : ChainedAuditEvent where
  organizationId := "10000000-0000-4000-8000-000000000001"
  householdId := "10000000-0000-4000-8000-000000000002"
  sequence := .ofNat 1
  occurredAt := "2026-08-05T20:00:00.000Z"
  actorPseudonym := "85ce1f38b3633e3548909c0a15935b93"
  action := "fact.confirm"
  outcome := "allowed"
  metadata := ⟨[("category", .string "insurance")], exampleMetadata_distinct⟩
  previousHash := "GENESIS"
  eventHash := "1ceec3420a4ffbd89872a25d3f1a8e384d3509bdea6615c7e818267327340b2c"

set_option maxRecDepth 100000 in
theorem example_appended (acknowledged : Bool) :
    ∃ s : exampleProtocol.System,
      AuditReachable exampleColumns appendHmac exampleCompare exampleKey s ∧
        s.log = [⟨exampleCall acknowledged, .committed appendedEvent⟩] := by
  have hcalls : exampleProtocol.Sequential [] Store.empty [exampleCall acknowledged] :=
    ⟨trivial, trivial⟩
  obtain ⟨s, hs, hlog, -⟩ := reachable_sequential hcalls
  refine ⟨s, hs, hlog.trans ?_⟩
  cases acknowledged <;> rfl

end Example

/-- Whatever appends are interleaved and aborted, the events of every household are a chain without
gaps, the events of the committed appends are stored once each and nothing else is, and an append
changes no other household's events. -/
theorem appends_chain {columns : AuditColumns} {hmac : Hmac}
    {localeCompare : String → String → Int} {auditKey : List UInt8}
    {s : (auditProtocol columns hmac localeCompare auditKey).System}
    (h : AuditReachable columns hmac localeCompare auditKey s) :
    (∀ household, ∃ n, HouseholdChain s.committed household n) ∧
      EachOnce columns s.log s.committed ∧
      ∀ s', Step s s' → ∀ household, (∀ entry, s'.log = entry :: s.log → ∀ row,
        committedRow columns entry = some row → row.householdId ≠ household) →
        ∀ k, s'.committed.get .auditEvents (household, k) =
          s.committed.get .auditEvents (household, k) :=
  ⟨h.state.chains, h.eachOnce, fun _ hstep _ hother k => h.others hstep hother k⟩

theorem appends_chain_example :
    ∃ s : exampleProtocol.System,
      AuditReachable exampleColumns appendHmac exampleCompare exampleKey s ∧
        s.log = [⟨exampleCall true, .committed appendedEvent⟩] ∧
        ∀ household, ∃ n, HouseholdChain s.committed household n := by
  obtain ⟨s, hs, hlog⟩ := example_appended true
  exact ⟨s, hs, hlog, (appends_chain hs).1⟩

/-- An append that throws because the acknowledgement of its commit is lost has stored its event. -/
theorem unacknowledged_append_stored :
    ∃ s : exampleProtocol.System,
      AuditReachable exampleColumns appendHmac exampleCompare exampleKey s ∧
        s.log = [⟨exampleCall false, .committed appendedEvent⟩] ∧
        ¬ (s.committed.rowsOf .auditEvents).Perm
          (s.log.filterMap (returnedRow exampleColumns)) := by
  obtain ⟨s, hs, hlog⟩ := example_appended false
  refine ⟨s, hs, hlog, fun hperm => ?_⟩
  have hstored := hs.eachOnce.rows
  have hreturned : s.log.filterMap (returnedRow exampleColumns) = [] := by
    rw [hlog]
    rfl
  have hcommitted : s.log.filterMap (committedRow exampleColumns) ≠ [] := by
    rw [hlog]
    exact nofun
  have hempty := (hperm.trans (.of_eq hreturned)).eq_nil
  exact hcommitted (hstored.symm.trans (.of_eq hempty)).eq_nil

end LegacyVault.Audit
