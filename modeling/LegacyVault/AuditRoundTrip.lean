import LegacyVault.Library.StableSort
import LegacyVault.AuditStore

/-!
# Reading the audit chain back

`PostgresAuditStore.verify` and `readVerified` recompute the digests of a
household's events from the stored rows. A digest is taken over the texts the
caller gave, and recomputed over what the database makes of them, so a chain
verifies exactly when every appended input reads back as it was given.
-/

namespace LegacyVault.Audit

open EcmaValues HashChain HexText JsonText RowTransaction RowTransaction.Program
  RowTransaction.Protocol StableSort

/-! ## Reading -/

/-- `toISOString` of the date of a `timestamptz`. -/
def Timestamp.toISOString : Timestamp → Except String String
  | finite microseconds =>
    let time := microseconds / 1000
    if time.natAbs ≤ 8640000000000000 then .ok (IsoTime.toISOString time)
    else .error "Invalid time value"
  | _ => .error "row.occurred_at.toISOString is not a function"

/-- The event of a row. -/
def AuditEventRow.event (row : AuditEventRow) : Except String ChainedAuditEvent := do
  let occurredAt ← row.occurredAt.toISOString
  return { organizationId := row.organizationId, householdId := row.householdId
           sequence := .ofNat row.sequence, occurredAt := occurredAt
           actorPseudonym := row.actorPseudonym, action := row.action, outcome := row.outcome
           metadata := row.metadata, previousHash := row.previousHash
           eventHash := row.eventHash }

/-- The input of `readVerified`. -/
structure ReadInput where
  afterSequence : Number
  limit : Number

/-- `VerifiedAuditPage`. -/
structure VerifiedAuditPage where
  events : List ChainedAuditEvent
  nextSequence : Option Number

section Reading

variable (columns : AuditColumns) (hmac : Hmac) (localeCompare : String → String → Int)
  (auditKey : List UInt8)

/-- `select * from audit_events order by sequence`. -/
def selectEvents (context : AuditTenantContext) (σ : AuditRows) : List AuditEventRow :=
  (context.visible columns σ).insertionSort (fun a b => a.sequence ≤ b.sequence)

/-- A tenant setting can be compared with the ids of rows. An empty one equals none. -/
def isSetting (text : String) : Bool := text == "" || (columns.uuid text).isSome

/-- The events of the selected rows. -/
def readEvents (context : AuditTenantContext) (σ : AuditRows) :
    Except String (List ChainedAuditEvent) :=
  if isSetting columns context.organizationId && isSetting columns context.householdId then
    (selectEvents columns context σ).mapM AuditEventRow.event
  else .error "invalid input syntax for type uuid"

/-- `PostgresAuditStore.verify` on the rows of its snapshot. -/
def verify (context : AuditTenantContext) (σ : AuditRows) : Except String Bool := do
  verifyAuditChain hmac localeCompare (← readEvents columns context σ) auditKey

/-- The sequence of an event that is listed is after the given one. -/
def isAfter (after : Nat) (event : ChainedAuditEvent) : Bool :=
  event.sequence.natValue?.any (after < ·)

/-- `PostgresAuditStore.readVerified` on the rows of its snapshot. -/
def readVerified (context : AuditTenantContext) (input : ReadInput) (σ : AuditRows) :
    Except String VerifiedAuditPage := do
  match input.afterSequence.natValue?.filter (· ≤ 9007199254740991) with
  | none => throw "audit sequence is invalid"
  | some after =>
    match input.limit.natValue?.filter (fun limit => 1 ≤ limit ∧ limit ≤ 100) with
    | none => throw "audit page limit is invalid"
    | some limit =>
      let events ← readEvents columns context σ
      if (← verifyAuditChain hmac localeCompare events auditKey) = false then
        throw "audit chain verification failed"
      let available := events.filter (isAfter after)
      let page := available.take limit
      return { events := page
               nextSequence := if page.length < available.length
                 then page.getLast?.map (fun event => event.sequence) else none }

end Reading

/-! ## Listing a chain -/

section Listing

variable {columns : AuditColumns} {hmac : Hmac} {localeCompare : String → String → Int}
  {auditKey : List UInt8} {log : List AuditEntry} {σ : AuditRows} {context : AuditTenantContext}

/-- What the chain reads of stored events. -/
def rowLinks : Links AuditEventRow Nat String where
  position row := row.sequence
  previous row := row.previousHash
  recorded row := row.eventHash

/-- Visible rows belong to the tenant's household and stand under their keys. -/
theorem AuditState.get_of_visible (h : AuditState columns log σ) {household : String}
    (hhousehold : columns.uuid context.householdId = some household) {row : AuditEventRow}
    (hrow : row ∈ context.visible columns σ) :
    σ.get .auditEvents (household, row.sequence) = some row := by
  obtain ⟨⟨key, hget⟩, -, hrowHousehold⟩ := mem_visible.mp hrow
  have hsame : household = row.householdId :=
    Option.some.inj (hhousehold.symm.trans hrowHousehold)
  rw [h.keyed key row hget] at hget
  rw [hsame]
  exact hget

/-- A tenant sees all events of its household, or none. -/
theorem AuditState.visible_positions (h : AuditState columns log σ) {household : String}
    (hhousehold : columns.uuid context.householdId = some household) :
    ∃ n, ∀ k, (∃ row ∈ context.visible columns σ, row.sequence = k) ↔ 0 < k ∧ k ≤ n := by
  obtain ⟨n, hn⟩ := h.chains household
  by_cases hsome : ∃ row, row ∈ context.visible columns σ
  · obtain ⟨row, hrow⟩ := hsome
    have hget := h.get_of_visible hhousehold hrow
    obtain ⟨-, horganization, hrowHousehold⟩ := mem_visible.mp hrow
    refine ⟨n, fun k => ⟨?_, fun hk => ?_⟩⟩
    · rintro ⟨other, hother, rfl⟩
      exact (hn.positions _).mp ⟨other, h.get_of_visible hhousehold hother⟩
    · obtain ⟨other, hother⟩ := (hn.positions k).mpr hk
      have hkey := h.keyed _ other hother
      refine ⟨other, mem_visible.mpr ⟨⟨_, hother⟩, ?_, ?_⟩, (Prod.mk.inj hkey).2.symm⟩
      · rw [hn.organization hother hget]
        exact horganization
      · rw [← (Prod.mk.inj hkey).1]
        exact hhousehold
  · refine ⟨0, fun k => ⟨fun ⟨row, hrow, _⟩ => absurd ⟨row, hrow⟩ hsome, fun hk => by omega⟩⟩

theorem mem_selectEvents {row : AuditEventRow} :
    row ∈ selectEvents columns context σ ↔ row ∈ context.visible columns σ :=
  List.mem_insertionSort _

/-- Selected events are in order of their positions. -/
theorem AuditState.selectEvents_sorted (h : AuditState columns log σ) {household : String}
    (hhousehold : columns.uuid context.householdId = some household) :
    (selectEvents columns context σ).Pairwise (fun a b => a.sequence < b.sequence) := by
  have hnodup : (selectEvents columns context σ).Nodup :=
    (List.perm_insertionSort _ _).nodup_iff.mpr (h.nodup.filter _)
  have hsorted := List.pairwise_insertionSort
    (fun a b : AuditEventRow => a.sequence ≤ b.sequence) (context.visible columns σ)
  refine List.Pairwise.imp_of_mem (fun {a b} ha hb hab => ?_) (hsorted.and hnodup)
  have hvisible := mem_selectEvents.mp ha
  have hvisible' := mem_selectEvents.mp hb
  refine lt_of_le_of_ne hab.1 (fun hequal => hab.2 ?_)
  have hget := h.get_of_visible hhousehold hvisible
  have hget' := h.get_of_visible hhousehold hvisible'
  rw [← hequal, hget] at hget'
  exact Option.some.inj hget'

/-- Selected events are linked. -/
theorem AuditState.selectEvents_linked (h : AuditState columns log σ) {household : String}
    (hhousehold : columns.uuid context.householdId = some household) :
    LinkedFrom rowLinks id 0 "GENESIS" (selectEvents columns context σ) := by
  obtain ⟨m, hm⟩ := h.chains household
  obtain ⟨n, hn⟩ := h.visible_positions hhousehold
  have hget : ∀ row ∈ selectEvents columns context σ,
      σ.get .auditEvents (household, row.sequence) = some row :=
    fun row hrow => h.get_of_visible hhousehold (mem_selectEvents.mp hrow)
  refine linkedFrom_of_sorted (m := n) (h.selectEvents_sorted hhousehold) (fun k => ?_) ?_ ?_
  · rw [← hn k]
    constructor
    · rintro ⟨row, hrow, hk⟩
      exact ⟨row, mem_selectEvents.mp hrow, hk⟩
    · rintro ⟨row, hrow, hk⟩
      exact ⟨row, mem_selectEvents.mpr hrow, hk⟩
  · intro row hrow hposition
    have hat := hget row hrow
    have hone : row.sequence = 1 := hposition
    rw [hone] at hat
    exact hm.first hat
  · intro before hbefore row hrow hposition
    have hat := hget row hrow
    have hnext : row.sequence = before.sequence + 1 := hposition
    rw [hnext] at hat
    exact hm.linked (hget before hbefore) hat

end Listing

/-! ## Verifying a list of rows -/

section Verifying

variable {columns : AuditColumns} {hmac : Hmac} {localeCompare : String → String → Int}
  {auditKey : List UInt8}

/-- A row's digest, recomputed from what is read back, is the one it records. -/
def DigestAgrees (hmac : Hmac) (localeCompare : String → String → Int) (auditKey : List UInt8)
    (row : AuditEventRow) : Prop :=
  ∃ event, row.event = .ok event ∧ ∃ digest,
    eventDigest hmac localeCompare event.toAuditEventInput auditKey = .ok digest ∧
      fromHex event.eventHash = fromHex digest

/-- The event of a row has its position and its hashes. -/
theorem event_links {row : AuditEventRow} {event : ChainedAuditEvent}
    (h : row.event = .ok event) : event.sequence = .ofNat row.sequence ∧
      event.previousHash = row.previousHash ∧ event.eventHash = row.eventHash := by
  unfold AuditEventRow.event at h
  cases htime : row.occurredAt.toISOString with
  | error message => simp [htime, Bind.bind, Except.bind] at h
  | ok occurredAt =>
    simp only [htime, Bind.bind, Except.bind, pure, Except.pure, Except.ok.injEq] at h
    rw [← h]
    exact ⟨rfl, rfl, rfl⟩

/-- Reading a list of rows succeeds when reading each does. -/
theorem mapM_event_eq_ok {rows : List AuditEventRow} {events : List ChainedAuditEvent} :
    rows.mapM AuditEventRow.event = .ok events ↔
      List.Forall₂ (fun row event => row.event = .ok event) rows events := by
  induction rows generalizing events with
  | nil =>
    rw [List.mapM_nil, List.forall₂_nil_left_iff]
    exact ⟨fun h => (Except.ok.inj h).symm, fun h => by rw [h]; rfl⟩
  | cons row rows ih =>
    rw [List.mapM_cons, List.forall₂_cons_left_iff]
    cases hrow : row.event with
    | error message => simp [Bind.bind, Except.bind]
    | ok event =>
      cases hrows : rows.mapM AuditEventRow.event with
      | error message =>
        simp only [Bind.bind, Except.bind, reduceCtorEq, false_iff, not_exists, not_and]
        intro _ rest _ hall
        exact absurd (hrows.symm.trans (ih.mpr hall)) (by simp)
      | ok found =>
        simp only [Bind.bind, Except.bind, pure, Except.pure, Except.ok.injEq]
        constructor
        · intro hevents
          exact ⟨event, found, rfl, ih.mp hrows, hevents.symm⟩
        · rintro ⟨event', rest, rfl, hall, rfl⟩
          rw [Except.ok.inj (hrows.symm.trans (ih.mpr hall))]

/-- An element corresponds to one of the other list. -/
theorem exists_right_of_mem {α β : Type} {C : α → β → Prop} {as : List α} {bs : List β}
    (h : List.Forall₂ C as bs) {a : α} (ha : a ∈ as) : ∃ b ∈ bs, C a b := by
  induction h with
  | nil => exact absurd ha List.not_mem_nil
  | cons hhead _ ih =>
    rcases List.mem_cons.mp ha with rfl | ha
    · exact ⟨_, List.mem_cons_self, hhead⟩
    · obtain ⟨b, hb, hab⟩ := ih ha
      exact ⟨b, List.mem_cons_of_mem _ hb, hab⟩

/-- Elements that each have a counterpart make a list with one. -/
theorem exists_forall₂ {α β : Type} {C : α → β → Prop} {as : List α}
    (h : ∀ a ∈ as, ∃ b, C a b) : ∃ bs, List.Forall₂ C as bs := by
  induction as with
  | nil => exact ⟨[], .nil⟩
  | cons a as ih =>
    obtain ⟨b, hab⟩ := h a List.mem_cons_self
    obtain ⟨bs, hall⟩ := ih (fun a' ha' => h a' (List.mem_cons_of_mem _ ha'))
    exact ⟨b :: bs, .cons hab hall⟩

/-- Linked rows verify exactly when every digest agrees. -/
theorem verify_rows_iff {rows : List AuditEventRow}
    (hlinked : LinkedFrom rowLinks id 0 "GENESIS" rows) :
    (rows.mapM AuditEventRow.event >>= fun events =>
        verifyAuditChain hmac localeCompare events auditKey) = .ok true ↔
      ∀ row ∈ rows, DigestAgrees hmac localeCompare auditKey row := by
  constructor
  · intro hverified row hrow
    cases hread : rows.mapM AuditEventRow.event with
    | error message => simp [hread, Bind.bind, Except.bind] at hverified
    | ok events =>
      rw [hread] at hverified
      have haccepted : verifyEvents hmac localeCompare auditKey 0 "GENESIS" events = .ok true :=
        hverified
      obtain ⟨event, hevent, hof⟩ := exists_right_of_mem (mapM_event_eq_ok.mp hread) hrow
      exact ⟨event, hof, (verifyEvents_accepted.mp haccepted).2 event hevent⟩
  · intro hagree
    obtain ⟨events, hall⟩ := exists_forall₂ hagree
    have hread : List.Forall₂ (fun row event => row.event = .ok event) rows events :=
      hall.imp (fun _ _ h => h.1)
    rw [mapM_event_eq_ok.mpr hread]
    refine verifyEvents_accepted.mpr ⟨?_, fun event hevent => ?_⟩
    · refine hlinked.of_forall₂ (fun row event k hevent hk => ?_)
        (fun row event hevent => (event_links hevent).2.1)
        (fun row event hevent => (event_links hevent).2.2) hread
      have hposition : row.sequence = k := hk
      rw [← hposition]
      exact (event_links hevent).1
    · obtain ⟨row, -, hrow⟩ := exists_right_of_mem hall.flip hevent
      exact hrow.2

end Verifying

/-! ## What reads back -/

/-- The members of metadata as they are written. -/
def Metadata.written (metadata : Metadata) : List (String × Json) := membersToJson metadata.members

/-- `localeCompare` orders names consistently. -/
structure Consistent (localeCompare : String → String → Int) : Prop where
  total : ∀ a b, localeCompare a b ≤ 0 ∨ localeCompare b a ≤ 0
  trans : ∀ a b c, localeCompare a b ≤ 0 → localeCompare b c ≤ 0 → localeCompare a c ≤ 0

/-- A `jsonb` object keeps the members it is given, in an order of its own. -/
def JsonbKeepsMembers (columns : AuditColumns) : Prop :=
  ∀ metadata stored, columns.jsonb metadata = some stored →
    stored.written.Perm metadata.written

/-- Members are sorted by the names' comparison. -/
def NameOrder (localeCompare : String → String → Int) (a b : String × Json) : Prop :=
  decide (localeCompare a.1 b.1 ≤ 0) = true

/-- The input of a call reads back as it was given: its ids are the canonical texts of their
`uuid`s, its time is the ISO text of its `timestamptz`, and `jsonb` keeps the order of members
whose names compare equal. -/
structure ReadsBack (columns : AuditColumns) (localeCompare : String → String → Int)
    (call : AppendCall) : Prop where
  organizationId : columns.uuid call.context.organizationId = some call.context.organizationId
  householdId : columns.uuid call.context.householdId = some call.context.householdId
  occurredAt : ∃ instant, columns.timestamptz call.input.occurredAt = some instant ∧
    instant.toISOString = .ok call.input.occurredAt
  metadata : ∃ stored, columns.jsonb call.input.metadata = some stored ∧
    TiesAgree (NameOrder localeCompare) call.input.metadata.written stored.written

section ReadBack

variable {columns : AuditColumns} {hmac : Hmac} {localeCompare : String → String → Int}
  {auditKey : List UInt8}

instance : DecidableRel (NameOrder localeCompare) := fun a b =>
  inferInstanceAs (Decidable (decide (localeCompare a.1 b.1 ≤ 0) = true))

/-- Sorting metadata sorts its written members. -/
theorem sortMembers_metadata (metadata : Metadata) :
    sortMembers (fun left right => localeCompare left right ≤ 0)
        (Value.toJson (.obj metadata.members)) =
      .obj (metadata.written.insertionSort (NameOrder localeCompare)) := by
  have hvalues : sortMemberValues (fun left right => localeCompare left right ≤ 0)
      metadata.written = metadata.written := by
    rw [sortMemberValues_eq_map, Metadata.written, membersToJson_eq_map, Metadata.members,
      List.map_map, List.map_map, List.map_map]
    refine List.map_congr_left (fun entry _ => ?_)
    simp only [Function.comp_apply, sortMembers_metadataValue]
  rw [Value.toJson, sortMembers, ← Metadata.written, hvalues]
  rfl

/-- Written members have distinct names. -/
theorem Metadata.written_nodup (metadata : Metadata) : metadata.written.Nodup := by
  have hnames : metadata.written.map Prod.fst = metadata.entries.map Prod.fst := by
    rw [written, membersToJson_eq_map, members, List.map_map, List.map_map]
    rfl
  refine List.Nodup.of_map Prod.fst ?_
  rw [hnames]
  exact metadata.distinct

/-- Stored metadata are sorted like the given ones exactly when ties are in the same order. -/
theorem sorted_metadata_iff (hcompare : Consistent localeCompare) {stored metadata : Metadata}
    (hperm : stored.written.Perm metadata.written) :
    sortMembers (fun left right => localeCompare left right ≤ 0)
        (Value.toJson (.obj stored.members)) =
      sortMembers (fun left right => localeCompare left right ≤ 0)
        (Value.toJson (.obj metadata.members)) ↔
      TiesAgree (NameOrder localeCompare) metadata.written stored.written := by
  have : Std.Total (NameOrder localeCompare) := ⟨fun a b => by
    simpa [NameOrder] using hcompare.total a.1 b.1⟩
  have : IsTrans _ (NameOrder localeCompare) := ⟨fun a b c => by
    simpa [NameOrder] using hcompare.trans a.1 b.1 c.1⟩
  rw [sortMembers_metadata, sortMembers_metadata, Json.obj.injEq]
  exact insertionSort_eq_iff hperm metadata.written_nodup

/-- A written member is that of an entry. -/
theorem mem_written {metadata : Metadata} {name : String} {json : Json} :
    (name, json) ∈ metadata.written ↔
      ∃ value, (name, value) ∈ metadata.entries ∧ value.value.toJson = json := by
  rw [Metadata.written, membersToJson_eq_map, Metadata.members, List.map_map, List.mem_map]
  constructor
  · rintro ⟨⟨key, value⟩, hmem, hentry⟩
    obtain ⟨hkey, hvalue⟩ := Prod.mk.inj hentry
    exact ⟨value, by rw [← hkey]; exact hmem, hvalue⟩
  · rintro ⟨value, hmem, hvalue⟩
    exact ⟨(name, value), hmem, by rw [Function.comp_apply, hvalue]⟩

/-- Stored metadata are allowed when the given ones were. -/
theorem assertMetadata_of_perm {stored metadata : Metadata}
    (hperm : stored.written.Perm metadata.written) (h : assertMetadata metadata = .ok ()) :
    assertMetadata stored = .ok () := by
  rw [assertMetadata_eq_ok] at h ⊢
  intro name value hmem
  obtain ⟨given, hgiven, hwritten⟩ :=
    mem_written.mp (hperm.mem_iff.mp (mem_written.mpr ⟨value, hmem, rfl⟩))
  obtain ⟨hname, hbound⟩ := h name given hgiven
  refine ⟨hname, fun text htext => hbound text ?_⟩
  rw [htext] at hwritten
  cases given with
  | string other => rw [Json.str.inj hwritten]
  | number n => cases n <;> simp [MetadataValue.value, Value.toJson, Number.toJson] at hwritten
  | _ => simp [MetadataValue.value, Value.toJson] at hwritten

/-- Events have one text exactly when their fields agree, their metadata once sorted. -/
theorem text_eq_iff {a b : AuditEventInput} (hsequence : a.sequence = b.sequence)
    (hactor : a.actorPseudonym = b.actorPseudonym) (haction : a.action = b.action)
    (houtcome : a.outcome = b.outcome) (hprevious : a.previousHash = b.previousHash) :
    a.text localeCompare = b.text localeCompare ↔
      a.organizationId = b.organizationId ∧ a.householdId = b.householdId ∧
        a.occurredAt = b.occurredAt ∧
        sortMembers (fun left right => localeCompare left right ≤ 0)
            (Value.toJson (.obj a.metadata.members)) =
          sortMembers (fun left right => localeCompare left right ≤ 0)
            (Value.toJson (.obj b.metadata.members)) := by
  constructor
  · intro h
    exact ⟨string_of_text h "organizationId" rfl rfl, string_of_text h "householdId" rfl rfl,
      string_of_text h "occurredAt" rfl rfl, Option.some.inj (member_of_text h "metadata")⟩
  · rintro ⟨horganization, hhousehold, htime, hmetadata⟩
    refine canonicalText_inj.mpr (sortMembers_obj_congr ?_)
    exact .cons ⟨rfl, by rw [horganization]⟩ (.cons ⟨rfl, by rw [hhousehold]⟩
      (.cons ⟨rfl, by rw [hsequence]⟩ (.cons ⟨rfl, by rw [htime]⟩ (.cons ⟨rfl, by rw [hactor]⟩
        (.cons ⟨rfl, by rw [haction]⟩ (.cons ⟨rfl, by rw [houtcome]⟩ (.cons ⟨rfl, hmetadata⟩
          (.cons ⟨rfl, by rw [hprevious]⟩ .nil))))))))

/-- What a row reads back as has the text of its event only if it is that event's text. -/
def NoCollision (hmac : Hmac) (localeCompare : String → String → Int) (auditKey : List UInt8)
    (event : ChainedAuditEvent) (row : AuditEventRow) : Prop :=
  ∀ read, row.event = .ok read →
    hmac auditKey (read.text localeCompare) = hmac auditKey (event.text localeCompare) →
    read.text localeCompare = event.text localeCompare

/-- What a stored row reads back as, whatever its time is. -/
theorem read_of_stored (hjsonb : JsonbKeepsMembers columns) (hcompare : Consistent localeCompare)
    {id : String} {event read : ChainedAuditEvent} {row : AuditEventRow}
    (hstored : columns.row id event = some row) (hread : row.event = .ok read) :
    row.occurredAt.toISOString = .ok read.occurredAt ∧
      (read.text localeCompare = event.text localeCompare ↔
        row.organizationId = event.organizationId ∧ row.householdId = event.householdId ∧
          read.occurredAt = event.occurredAt ∧
          TiesAgree (NameOrder localeCompare) event.metadata.written row.metadata.written) ∧
      read.metadata = row.metadata ∧ read.eventHash = row.eventHash := by
  obtain ⟨-, -, -, hsequence, -, hmetadata, hactor, haction, houtcome, hprevious, -⟩ :=
    AuditColumns.row_eq_some hstored
  have hplace : event.sequence = .ofNat row.sequence := Number.natValue?_eq_some hsequence
  unfold AuditEventRow.event at hread
  cases htime : row.occurredAt.toISOString with
  | error message => simp [htime, Bind.bind, Except.bind] at hread
  | ok occurredAt =>
    simp only [htime, Bind.bind, Except.bind, pure, Except.pure, Except.ok.injEq] at hread
    subst hread
    refine ⟨rfl, ?_, rfl, rfl⟩
    rw [text_eq_iff hplace.symm hactor haction houtcome hprevious]
    simp only [sorted_metadata_iff hcompare (hjsonb _ _ hmetadata)]

/-- An input whose stored event has its digest reads back as it was given. -/
theorem readsBack_of_digestAgrees (hjsonb : JsonbKeepsMembers columns)
    (hcompare : Consistent localeCompare) {call : AppendCall} {previous : Option AuditEventRow}
    {event : ChainedAuditEvent} {row : AuditEventRow}
    (hnext : nextEvent hmac localeCompare auditKey call previous = .ok event)
    (hstored : columns.row call.input.id event = some row)
    (hcollision : NoCollision hmac localeCompare auditKey event row)
    (h : DigestAgrees hmac localeCompare auditKey row) :
    ReadsBack columns localeCompare call := by
  obtain ⟨-, horganization, hhousehold, -, hinstant, hmetadata, -, -, -, -, hhash⟩ :=
    AuditColumns.row_eq_some hstored
  obtain ⟨hcallOrganization, hcallHousehold, -, hcallTime, hcallMetadata, -, hdigest⟩ :=
    nextEvent_eq_ok hnext
  obtain ⟨-, -, heventHash⟩ := eventDigest_eq_ok.mp hdigest
  obtain ⟨read, hrow, digest, hreadDigest, hequal⟩ := h
  obtain ⟨htime, htext, -, hreadHash⟩ := read_of_stored hjsonb hcompare hstored hrow
  have hsameText : read.text localeCompare = event.text localeCompare := by
    refine hcollision read hrow ?_
    rw [(eventDigest_eq_ok.mp hreadDigest).2.2, fromHex_hex, hreadHash, hhash, heventHash,
      fromHex_hex] at hequal
    exact hequal.symm
  obtain ⟨hsameOrganization, hsameHousehold, hsameTime, hties⟩ := htext.mp hsameText
  refine ⟨?_, ?_, ⟨row.occurredAt, ?_, ?_⟩, ⟨row.metadata, ?_, ?_⟩⟩
  · rw [← hcallOrganization, horganization, hsameOrganization]
  · rw [← hcallHousehold, hhousehold, hsameHousehold]
  · rw [← hcallTime]
    exact hinstant
  · rw [htime, hsameTime, hcallTime]
  · rw [← hcallMetadata]
    exact hmetadata
  · rw [← hcallMetadata]
    exact hties

/-- A stored event has the digest of an input that reads back as it was given. -/
theorem digestAgrees_of_readsBack (hjsonb : JsonbKeepsMembers columns)
    (hcompare : Consistent localeCompare) {call : AppendCall} {previous : Option AuditEventRow}
    {event : ChainedAuditEvent} {row : AuditEventRow}
    (hnext : nextEvent hmac localeCompare auditKey call previous = .ok event)
    (hstored : columns.row call.input.id event = some row)
    (h : ReadsBack columns localeCompare call) :
    DigestAgrees hmac localeCompare auditKey row := by
  obtain ⟨-, horganization, hhousehold, -, hinstant, hmetadata, -, -, -, -, hhash⟩ :=
    AuditColumns.row_eq_some hstored
  obtain ⟨hcallOrganization, hcallHousehold, -, hcallTime, hcallMetadata, -, hdigest⟩ :=
    nextEvent_eq_ok hnext
  obtain ⟨hkey, hallowed, heventHash⟩ := eventDigest_eq_ok.mp hdigest
  obtain ⟨hbackOrganization, hbackHousehold, ⟨instant, hbackInstant, hbackTime⟩,
    ⟨stored, hbackStored, hties⟩⟩ := h
  rw [← hcallTime, hinstant] at hbackInstant
  obtain rfl := Option.some.inj hbackInstant
  rw [← hcallMetadata, hmetadata] at hbackStored
  obtain rfl := Option.some.inj hbackStored
  have hrow : ∃ read, row.event = .ok read ∧ read.occurredAt = event.occurredAt := by
    unfold AuditEventRow.event
    rw [hbackTime, ← hcallTime]
    exact ⟨_, rfl, rfl⟩
  obtain ⟨read, hrow, hsameTime⟩ := hrow
  obtain ⟨-, htext, hreadMetadata, hreadHash⟩ := read_of_stored hjsonb hcompare hstored hrow
  have hsameText : read.text localeCompare = event.text localeCompare := by
    refine htext.mpr ⟨?_, ?_, hsameTime, ?_⟩
    · rw [hcallOrganization] at horganization ⊢
      exact Option.some.inj (horganization.symm.trans hbackOrganization)
    · rw [hcallHousehold] at hhousehold ⊢
      exact Option.some.inj (hhousehold.symm.trans hbackHousehold)
    · rw [hcallMetadata]
      exact hties
  have hallowedRead : assertMetadata read.metadata = .ok () := by
    rw [hreadMetadata]
    exact assertMetadata_of_perm (hjsonb _ _ hmetadata) hallowed
  refine ⟨read, hrow, _, eventDigest_eq_ok.mpr ⟨hkey, hallowedRead, rfl⟩, ?_⟩
  rw [hreadHash, hhash, heventHash, hsameText]

end ReadBack

/-! ## Runs -/

/-- The arguments of `readVerified` are valid. -/
def ReadInput.Valid (input : ReadInput) : Prop :=
  (∃ after, input.afterSequence = .ofNat after ∧ after ≤ 9007199254740991) ∧
    ∃ limit, input.limit = .ofNat limit ∧ 1 ≤ limit ∧ limit ≤ 100

/-- Two contexts name one tenant. -/
def SameTenant (columns : AuditColumns) (a b : AuditTenantContext) : Prop :=
  columns.uuid a.organizationId = columns.uuid b.organizationId ∧
    columns.uuid a.householdId = columns.uuid b.householdId

/-- No committed append reads back as another text with the same digest. -/
def CollisionFree (columns : AuditColumns) (hmac : Hmac) (localeCompare : String → String → Int)
    (auditKey : List UInt8) (log : List AuditEntry) : Prop :=
  ∀ entry ∈ log, ∀ event row, entry.outcome = .committed event →
    columns.row entry.request.input.id event = some row →
    NoCollision hmac localeCompare auditKey event row

section Runs

variable {columns : AuditColumns} {hmac : Hmac} {localeCompare : String → String → Int}
  {auditKey : List UInt8}

/-- Pages are read from a chain that verifies. -/
theorem readVerified_of_verify {context : AuditTenantContext} {σ : AuditRows} {input : ReadInput}
    (hinput : input.Valid)
    (h : verify columns hmac localeCompare auditKey context σ = .ok true) :
    ∃ page, readVerified columns hmac localeCompare auditKey context input σ = .ok page := by
  obtain ⟨⟨after, hafter, hsafe⟩, limit, hlimit, hlower, hupper⟩ := hinput
  unfold readVerified
  unfold verify at h
  rw [hafter, hlimit, Number.natValue?_ofNat, Number.natValue?_ofNat]
  simp only [Option.filter, hsafe, decide_true, if_true, hlower, hupper, and_self]
  cases hread : readEvents columns context σ with
  | error message => simp [hread, Bind.bind, Except.bind] at h
  | ok events =>
    simp only [hread, Bind.bind, Except.bind] at h ⊢
    rw [h]
    exact ⟨_, rfl⟩

/-- The rows a tenant sees are those its committed appends inserted. -/
theorem AuditReachable.visible_iff
    {s : (auditProtocol columns hmac localeCompare auditKey).System}
    (h : AuditReachable columns hmac localeCompare auditKey s) {context : AuditTenantContext}
    {row : AuditEventRow} : row ∈ context.visible columns s.committed ↔
      ∃ entry ∈ s.log, ∃ event, entry.outcome = .committed event ∧
        columns.row entry.request.input.id event = some row ∧
        SameTenant columns entry.request.context context := by
  have hstate := h.state
  have hids : ∀ entry ∈ s.log, ∀ event, entry.outcome = .committed event →
      columns.row entry.request.input.id event = some row →
      columns.uuid entry.request.context.organizationId = some row.organizationId ∧
        columns.uuid entry.request.context.householdId = some row.householdId := by
    intro entry hentry event hcommitted hstored
    obtain ⟨_, _, hnext, -⟩ := h.committed hentry hcommitted
    obtain ⟨horganization, hhousehold, -⟩ := nextEvent_eq_ok hnext
    obtain ⟨-, hrowOrganization, hrowHousehold, -⟩ := AuditColumns.row_eq_some hstored
    rw [← horganization, ← hhousehold]
    exact ⟨hrowOrganization, hrowHousehold⟩
  rw [mem_visible]
  constructor
  · rintro ⟨hget, horganization, hhousehold⟩
    obtain ⟨entry, hentry, hrow⟩ := List.mem_filterMap.mp ((hstate.rows row).mp hget)
    unfold committedRow at hrow
    cases houtcome : entry.outcome with
    | committed event =>
      rw [houtcome] at hrow
      obtain ⟨hentryOrganization, hentryHousehold⟩ := hids entry hentry event houtcome hrow
      exact ⟨entry, hentry, event, houtcome, hrow, hentryOrganization.trans horganization.symm,
        hentryHousehold.trans hhousehold.symm⟩
    | rolledBack message =>
      rw [houtcome] at hrow
      exact absurd hrow (by simp)
    | aborted =>
      rw [houtcome] at hrow
      exact absurd hrow (by simp)
  · rintro ⟨entry, hentry, event, hcommitted, hstored, horganization, hhousehold⟩
    obtain ⟨hentryOrganization, hentryHousehold⟩ := hids entry hentry event hcommitted hstored
    refine ⟨(hstate.rows row).mpr (List.mem_filterMap.mpr ⟨entry, hentry, ?_⟩),
      horganization.symm.trans hentryOrganization, hhousehold.symm.trans hentryHousehold⟩
    unfold committedRow
    rw [hcommitted]
    exact hstored

/-- A tenant's events verify exactly when each has its digest. -/
theorem AuditReachable.verify_iff {s : (auditProtocol columns hmac localeCompare auditKey).System}
    (h : AuditReachable columns hmac localeCompare auditKey s) {context : AuditTenantContext}
    (horganization : (columns.uuid context.organizationId).isSome)
    (hhousehold : (columns.uuid context.householdId).isSome) :
    verify columns hmac localeCompare auditKey context s.committed = .ok true ↔
      ∀ row ∈ context.visible columns s.committed, DigestAgrees hmac localeCompare auditKey row := by
  obtain ⟨household, hid⟩ := Option.isSome_iff_exists.mp hhousehold
  have hsettings : isSetting columns context.organizationId &&
      isSetting columns context.householdId := by
    simp [isSetting, horganization, hhousehold]
  rw [verify, readEvents, if_pos hsettings, verify_rows_iff (h.state.selectEvents_linked hid)]
  exact forall_congr' (fun row => by rw [mem_selectEvents])

/-- Events whose inputs all read back as they were given verify. -/
theorem AuditReachable.verified_of_readsBack
    {s : (auditProtocol columns hmac localeCompare auditKey).System}
    (h : AuditReachable columns hmac localeCompare auditKey s)
    (hjsonb : JsonbKeepsMembers columns) (hcompare : Consistent localeCompare)
    {context : AuditTenantContext} (horganization : (columns.uuid context.organizationId).isSome)
    (hhousehold : (columns.uuid context.householdId).isSome)
    (hback : ∀ entry ∈ s.log, ∀ event, entry.outcome = .committed event →
      SameTenant columns entry.request.context context →
      ReadsBack columns localeCompare entry.request) :
    verify columns hmac localeCompare auditKey context s.committed = .ok true := by
  refine (h.verify_iff horganization hhousehold).mpr (fun row hrow => ?_)
  obtain ⟨entry, hentry, event, hcommitted, hstored, htenant⟩ := h.visible_iff.mp hrow
  obtain ⟨_, _, hnext, -⟩ := h.committed hentry hcommitted
  exact digestAgrees_of_readsBack hjsonb hcompare hnext hstored
    (hback entry hentry event hcommitted htenant)

/-- The inputs of events that verify all read back as they were given. -/
theorem AuditReachable.readsBack_of_verified
    {s : (auditProtocol columns hmac localeCompare auditKey).System}
    (h : AuditReachable columns hmac localeCompare auditKey s)
    (hjsonb : JsonbKeepsMembers columns) (hcompare : Consistent localeCompare)
    (hcollision : CollisionFree columns hmac localeCompare auditKey s.log)
    {context : AuditTenantContext} (horganization : (columns.uuid context.organizationId).isSome)
    (hhousehold : (columns.uuid context.householdId).isSome)
    (hverified : verify columns hmac localeCompare auditKey context s.committed = .ok true) :
    ∀ entry ∈ s.log, ∀ event, entry.outcome = .committed event →
      SameTenant columns entry.request.context context →
      ReadsBack columns localeCompare entry.request := by
  intro entry hentry event hcommitted htenant
  obtain ⟨_, _, hnext, -⟩ := h.committed hentry hcommitted
  obtain ⟨_, row, -, hstored⟩ := h.committed hentry hcommitted
  have hrow : row ∈ context.visible columns s.committed :=
    h.visible_iff.mpr ⟨entry, hentry, event, hcommitted, hstored, htenant⟩
  exact readsBack_of_digestAgrees hjsonb hcompare hnext hstored
    (hcollision entry hentry event row hcommitted hstored)
    ((h.verify_iff horganization hhousehold).mp hverified row hrow)

section Example

/-- The HMACs of the call whose time has no milliseconds, and of what it reads back as. -/
def secondsHmac : Hmac := fun auditKey text =>
  if text = appendedEvent.text exampleCompare ∨
      text = "legacy-vault:audit-pseudonym:30000000-0000-4000-8000-000000000001" then
    appendHmac auditKey text
  else
    [236, 5, 203, 137, 154, 207, 226, 148, 217, 86, 157, 74, 93, 182, 143, 15,
      110, 67, 222, 165, 37, 104, 213, 34, 177, 55, 175, 204, 172, 209, 190, 161]

/-- The example call with a time that is written without milliseconds. -/
def secondsCall : AppendCall :=
  { exampleCall true with
    input := { (exampleCall true).input with occurredAt := "2026-08-05T20:00:00Z" } }

/-- The protocol of the call. -/
abbrev secondsProtocol : Protocol auditSchema :=
  auditProtocol exampleColumns secondsHmac exampleCompare exampleKey

/-- The rows after the call. -/
def secondsRows : AuditRows := (secondsProtocol.sequential [] Store.empty [secondsCall]).2

set_option maxRecDepth 100000 in
/-- The append is accepted. -/
theorem seconds_appended : ∃ s : secondsProtocol.System,
    AuditReachable exampleColumns secondsHmac exampleCompare exampleKey s ∧
      (∃ event, s.log = [⟨secondsCall, .committed event⟩]) ∧ s.committed = secondsRows := by
  have hcalls : secondsProtocol.Sequential [] Store.empty [secondsCall] := ⟨trivial, trivial⟩
  obtain ⟨s, hs, hlog, hcommitted⟩ := reachable_sequential hcalls
  exact ⟨s, hs, ⟨_, hlog⟩, hcommitted⟩

set_option maxRecDepth 100000 in
/-- What its time reads back as has another digest. -/
theorem verify_secondsRows : verify exampleColumns secondsHmac exampleCompare exampleKey
    secondsCall.context secondsRows = .ok false := by
  rfl

end Example

/-- After any run, a tenant's events verify, and can be read, exactly when the input of every
append to them reads back as it was given. -/
theorem verify_iff_readsBack {s : (auditProtocol columns hmac localeCompare auditKey).System}
    (h : AuditReachable columns hmac localeCompare auditKey s)
    (hjsonb : JsonbKeepsMembers columns) (hcompare : Consistent localeCompare)
    (hcollision : CollisionFree columns hmac localeCompare auditKey s.log)
    {context : AuditTenantContext} (horganization : (columns.uuid context.organizationId).isSome)
    (hhousehold : (columns.uuid context.householdId).isSome) :
    (verify columns hmac localeCompare auditKey context s.committed = .ok true ∧
      ∀ input : ReadInput, input.Valid → ∃ page,
        readVerified columns hmac localeCompare auditKey context input s.committed = .ok page) ↔
      ∀ entry ∈ s.log, ∀ event, entry.outcome = .committed event →
        SameTenant columns entry.request.context context →
        ReadsBack columns localeCompare entry.request := by
  constructor
  · rintro ⟨hverified, -⟩
    exact h.readsBack_of_verified hjsonb hcompare hcollision horganization hhousehold hverified
  · intro hback
    have hverified := h.verified_of_readsBack hjsonb hcompare horganization hhousehold hback
    exact ⟨hverified, fun input hinput => readVerified_of_verify hinput hverified⟩

/-- The database of the example keeps metadata as it is. -/
theorem exampleColumns_keeps : JsonbKeepsMembers exampleColumns := by
  intro metadata stored hstored
  rw [Option.some.inj hstored]

/-- The comparison of the example is an order. -/
theorem exampleCompare_consistent : Consistent exampleCompare := by
  have hle : ∀ a b, exampleCompare a b ≤ 0 ↔ a ≤ b := by
    intro a b
    unfold exampleCompare
    split <;> simp [*]
  exact ⟨fun a b => by rw [hle, hle]; exact le_total a b,
    fun a b c => by rw [hle, hle, hle]; exact le_trans⟩

/-- The call of the example is the only one there is. -/
theorem exampleCall_only {log : List AuditEntry}
    (hlog : log = [⟨exampleCall true, .committed appendedEvent⟩]) :
    ∀ entry ∈ log, ∀ event, entry.outcome = .committed event →
      entry.request = exampleCall true ∧ event = appendedEvent := by
  intro entry hentry event hcommitted
  rw [hlog, List.mem_singleton] at hentry
  subst hentry
  exact ⟨rfl, (Outcome.committed.inj hcommitted).symm⟩

set_option maxRecDepth 100000 in
/-- The input of the example reads back as it is given. -/
theorem exampleCall_readsBack {log : List AuditEntry}
    (hlog : log = [⟨exampleCall true, .committed appendedEvent⟩]) :
    ∀ entry ∈ log, ∀ event, entry.outcome = .committed event →
      SameTenant exampleColumns entry.request.context (exampleCall true).context →
      ReadsBack exampleColumns exampleCompare entry.request := by
  intro entry hentry event hcommitted _
  rw [(exampleCall_only hlog entry hentry event hcommitted).1]
  exact ⟨rfl, rfl, ⟨_, rfl, rfl⟩, ⟨_, rfl, fun _ _ _ _ hsub => hsub⟩⟩

theorem verify_iff_readsBack_example :
    ∃ s : exampleProtocol.System,
      AuditReachable exampleColumns appendHmac exampleCompare exampleKey s ∧
        s.log = [⟨exampleCall true, .committed appendedEvent⟩] ∧
        verify exampleColumns appendHmac exampleCompare exampleKey (exampleCall true).context
          s.committed = .ok true := by
  obtain ⟨s, hs, hlog⟩ := example_appended true
  have hcollision : CollisionFree exampleColumns appendHmac exampleCompare exampleKey s.log := by
    intro entry hentry event row hcommitted hstored read hread _
    obtain ⟨hrequest, rfl⟩ := exampleCall_only hlog entry hentry event hcommitted
    rw [hrequest] at hstored
    obtain rfl := Option.some.inj hstored
    rw [← Except.ok.inj hread]
    rfl
  refine ⟨s, hs, hlog, ((verify_iff_readsBack hs exampleColumns_keeps exampleCompare_consistent
    hcollision rfl rfl).mpr ?_).1⟩
  exact exampleCall_readsBack hlog

/-- An append with a time that is written without milliseconds is accepted, and its household's
chain does not verify. -/
theorem seconds_not_verified :
    ∃ s : secondsProtocol.System,
      AuditReachable exampleColumns secondsHmac exampleCompare exampleKey s ∧
        (∃ event, s.log = [⟨secondsCall, .committed event⟩]) ∧
        verify exampleColumns secondsHmac exampleCompare exampleKey secondsCall.context
          s.committed = .ok false := by
  obtain ⟨s, hs, hlog, hcommitted⟩ := seconds_appended
  exact ⟨s, hs, hlog, hcommitted ▸ verify_secondsRows⟩

end Runs

end LegacyVault.Audit
