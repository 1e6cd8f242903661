import LegacyVault.AuditRoundTrip
import LegacyVault.Library.CursorPages

/-!
# Reading the audit chain page by page

A reader starts `readVerified` after sequence 0 and follows `nextSequence`.
Every page is a snapshot of its own, and appends are committed in between. A
household's events only grow at their end, so the pages are those of a cursor
over lists of which each begins with the one before.

A page is returned only when the whole chain verifies, so reading goes on to
its end exactly when every input reads back as it was given.
-/

namespace LegacyVault.Audit

open CursorPages EcmaValues RowTransaction RowTransaction.Program RowTransaction.Protocol

/-- The position of an event. -/
def ChainedAuditEvent.position (event : ChainedAuditEvent) : Nat :=
  event.sequence.natValue?.getD 0

/-- An event is listed after a sequence when its position is. -/
theorem isAfter_eq (after : Nat) (event : ChainedAuditEvent) :
    isAfter after event = decide (after < event.position) := by
  unfold isAfter ChainedAuditEvent.position
  cases event.sequence.natValue? with
  | none => exact (decide_eq_false (Nat.not_lt_zero after)).symm
  | some sequence => rfl

section Snapshots

variable {columns : AuditColumns} {hmac : Hmac} {localeCompare : String → String → Int}
  {auditKey : List UInt8} {context : AuditTenantContext} {σ : AuditRows}

/-- The events of a snapshot are those of its rows, in order. -/
theorem readEvents_eq_ok {events : List ChainedAuditEvent}
    (h : readEvents columns context σ = .ok events) :
    (selectEvents columns context σ).mapM AuditEventRow.event = .ok events := by
  unfold readEvents at h
  split at h
  · exact h
  · exact absurd h (by simp)

/-- Every event has the position of its row. -/
theorem readEvents_positions {events : List ChainedAuditEvent}
    (h : readEvents columns context σ = .ok events) :
    events.map ChainedAuditEvent.position =
        (selectEvents columns context σ).map AuditEventRow.sequence ∧
      ∀ event ∈ events, event.sequence = .ofNat event.position := by
  have hrows := mapM_event_eq_ok.mp (readEvents_eq_ok h)
  clear h
  generalize selectEvents columns context σ = rows at hrows ⊢
  induction hrows with
  | nil => exact ⟨rfl, fun _ hin => absurd hin List.not_mem_nil⟩
  | @cons row event rows events hevent _ ih =>
    obtain ⟨hpositions, hsequences⟩ := ih
    have hsequence := (event_links hevent).1
    have hposition : event.position = row.sequence := by
      rw [ChainedAuditEvent.position, hsequence, Number.natValue?_ofNat, Option.getD_some]
    constructor
    · rw [List.map_cons, List.map_cons, hposition, hpositions]
    · intro other hother
      rcases List.mem_cons.mp hother with rfl | hin
      · rw [hposition]
        exact hsequence
      · exact hsequences other hin

/-- The sequence of the last event is its position. -/
theorem getLast_sequence {events : List ChainedAuditEvent}
    (h : ∀ event ∈ events, event.sequence = .ofNat event.position) :
    events.getLast?.map (fun event => event.sequence) =
      (events.getLast?.map ChainedAuditEvent.position).map Number.ofNat := by
  cases hlast : events.getLast? with
  | none => rfl
  | some event => exact congrArg some (h event (List.mem_of_getLast? hlast))

/-- What a page is read from. -/
theorem readVerified_eq_ok {input : ReadInput} {found : VerifiedAuditPage}
    (h : readVerified columns hmac localeCompare auditKey context input σ = .ok found) :
    ∃ after limit events, input.afterSequence = .ofNat after ∧ 1 ≤ limit ∧
      readEvents columns context σ = .ok events ∧
      verifyAuditChain hmac localeCompare events auditKey = .ok true ∧
      found.events = (page ChainedAuditEvent.position after limit events).items ∧
      found.nextSequence =
        (page ChainedAuditEvent.position after limit events).next.map Number.ofNat := by
  unfold readVerified at h
  cases hafter : input.afterSequence.natValue?.filter (· ≤ 9007199254740991) with
  | none =>
    rw [hafter] at h
    exact absurd h (by simp)
  | some after =>
    cases hlimit : input.limit.natValue?.filter (fun limit => 1 ≤ limit ∧ limit ≤ 100) with
    | none =>
      rw [hafter, hlimit] at h
      exact absurd h (by simp)
    | some limit =>
      cases hread : readEvents columns context σ with
      | error message =>
        simp only [hafter, hlimit, hread, Bind.bind, Except.bind] at h
        exact absurd h (by simp)
      | ok events =>
        cases hverify : verifyAuditChain hmac localeCompare events auditKey with
        | error message =>
          simp only [hafter, hlimit, hread, hverify, Bind.bind, Except.bind] at h
          exact absurd h (by simp)
        | ok verified =>
          cases verified with
          | false =>
            simp only [hafter, hlimit, hread, hverify, Bind.bind, Except.bind, if_true] at h
            exact absurd h (by simp)
          | true =>
            simp only [hafter, hlimit, hread, hverify, Bind.bind, Except.bind,
              Bool.true_eq_false, if_false, pure, Except.pure] at h
            obtain rfl := Except.ok.inj h
            obtain ⟨hgiven, -⟩ := Option.filter_eq_some_iff.mp hafter
            obtain ⟨-, hvalid⟩ := Option.filter_eq_some_iff.mp hlimit
            have hlower : 1 ≤ limit := (of_decide_eq_true hvalid).1
            have hfilter : events.filter (isAfter after) =
                events.filter (fun event => after < event.position) := by
              exact List.filter_congr fun event _ => isAfter_eq after event
            have hsequences : ∀ event ∈ (events.filter (fun event =>
                after < event.position)).take limit, event.sequence = .ofNat event.position :=
              fun event hevent => (readEvents_positions hread).2 event
                (List.mem_filter.mp (List.mem_of_mem_take hevent)).1
            refine ⟨after, limit, events, Number.natValue?_eq_some hgiven, hlower, rfl, hverify,
              ?_, ?_⟩
            · rw [page, hfilter]
            · simp only [page, hfilter]
              split
              · exact getLast_sequence hsequences
              · rfl

end Snapshots

/-! ## Growth -/

section Growth

variable {columns : AuditColumns} {hmac : Hmac} {localeCompare : String → String → Int}
  {auditKey : List UInt8} {context : AuditTenantContext}

/-- Later rows of a household come after its earlier ones. -/
theorem AuditReachable.selectEvents_grows
    {s s' : (auditProtocol columns hmac localeCompare auditKey).System}
    (h : AuditReachable columns hmac localeCompare auditKey s) (hlater : Later s s')
    {household : String} (hhousehold : columns.uuid context.householdId = some household) :
    selectEvents columns context s.committed <+: selectEvents columns context s'.committed := by
  have hreach' : AuditReachable columns hmac localeCompare auditKey s' := h.later hlater
  have hstay : RowsStay s.committed s'.committed := auditState_invariant.later h hlater
  have hkept : ∀ row ∈ selectEvents columns context s.committed,
      row ∈ selectEvents columns context s'.committed := by
    intro row hrow
    obtain ⟨⟨key, hget⟩, hsees⟩ := mem_visible.mp (mem_selectEvents.mp hrow)
    exact mem_selectEvents.mpr (mem_visible.mpr ⟨⟨key, hstay key row hget⟩, hsees⟩)
  obtain ⟨n, hn⟩ := h.state.visible_positions hhousehold
  obtain ⟨n', hn'⟩ := hreach'.state.visible_positions hhousehold
  refine prefix_of_appended (h.state.selectEvents_sorted hhousehold)
    (hreach'.state.selectEvents_sorted hhousehold) hkept fun row' hrow' hnot row hrow => ?_
  by_contra hbefore
  -- The position was taken before, by a row that stays.
  have hposition := (hn row.sequence).mp ⟨row, mem_selectEvents.mp hrow, rfl⟩
  have hposition' := (hn' row'.sequence).mp ⟨row', mem_selectEvents.mp hrow', rfl⟩
  obtain ⟨other, hother, hsame⟩ := (hn row'.sequence).mpr
    ⟨hposition'.1, Nat.le_trans (Nat.not_lt.mp hbefore) hposition.2⟩
  have hget := hstay _ _ (h.state.get_of_visible hhousehold hother)
  have hget' := hreach'.state.get_of_visible hhousehold (mem_selectEvents.mp hrow')
  rw [hsame, hget'] at hget
  obtain rfl := Option.some.inj hget
  exact hnot (mem_selectEvents.mpr hother)

/-- Later events of a household come after its earlier ones. -/
theorem AuditReachable.readEvents_grows
    {s s' : (auditProtocol columns hmac localeCompare auditKey).System}
    (h : AuditReachable columns hmac localeCompare auditKey s) (hlater : Later s s')
    (hhousehold : (columns.uuid context.householdId).isSome)
    {events events' : List ChainedAuditEvent}
    (hread : readEvents columns context s.committed = .ok events)
    (hread' : readEvents columns context s'.committed = .ok events') : events <+: events' := by
  obtain ⟨household, hid⟩ := Option.isSome_iff_exists.mp hhousehold
  obtain ⟨added, hrows⟩ := h.selectEvents_grows hlater hid
  have hlisted' := readEvents_eq_ok hread'
  rw [← hrows, List.mapM_append, readEvents_eq_ok hread] at hlisted'
  cases hadded : added.mapM AuditEventRow.event with
  | error message =>
    simp only [hadded, Bind.bind, Except.bind] at hlisted'
    exact absurd hlisted' (by simp)
  | ok more =>
    simp only [hadded, Bind.bind, Except.bind, pure, Except.pure] at hlisted'
    exact ⟨more, Except.ok.inj hlisted'⟩

/-- Linked rows stand at the positions that follow one another. -/
theorem linked_positions {n : Nat} {previous : String} {rows : List AuditEventRow}
    (h : HashChain.LinkedFrom rowLinks id n previous rows) :
    rows.map AuditEventRow.sequence = List.range' (n + 1) rows.length := by
  induction rows generalizing n previous with
  | nil => rfl
  | cons row rows ih =>
    obtain ⟨hposition, -, hrest⟩ := h
    have hfirst : row.sequence = n + 1 := hposition
    rw [List.map_cons, List.length_cons, List.range'_succ, ih hrest, hfirst]

/-- The events of a household have the sequences from 1 on. -/
theorem AuditReachable.readEvents_sequences
    {s : (auditProtocol columns hmac localeCompare auditKey).System}
    (h : AuditReachable columns hmac localeCompare auditKey s)
    (hhousehold : (columns.uuid context.householdId).isSome) {events : List ChainedAuditEvent}
    (hread : readEvents columns context s.committed = .ok events) :
    events.map ChainedAuditEvent.position = List.range' 1 events.length ∧
      events.length = (context.visible columns s.committed).length := by
  obtain ⟨household, hid⟩ := Option.isSome_iff_exists.mp hhousehold
  obtain ⟨hpositions, -⟩ := readEvents_positions hread
  have hlength : events.length = (selectEvents columns context s.committed).length := by
    have hmapped := congrArg List.length hpositions
    rwa [List.length_map, List.length_map] at hmapped
  rw [hpositions, linked_positions (h.state.selectEvents_linked hid), hlength]
  exact ⟨rfl, List.length_insertionSort _ _⟩

/-- A sequence fits its column. -/
theorem AuditColumns.row_sequence_le {id : String} {event : ChainedAuditEvent}
    {row : AuditEventRow} (h : columns.row id event = some row) : row.sequence ≤ 2147483647 := by
  simp only [AuditColumns.row, Option.bind_eq_bind, Option.bind_eq_some_iff, Option.pure_def] at h
  obtain ⟨_, -, _, -, _, -, sequence, -, _, hguard, _, -, _, -, _, -, hrow⟩ := h
  obtain rfl := Option.some.inj hrow
  by_contra hlarge
  rw [guard, if_neg fun hboth => hlarge hboth.2] at hguard
  exact absurd hguard (by simp)

/-- Stored sequences fit their column. -/
theorem AuditReachable.sequence_le
    {s : (auditProtocol columns hmac localeCompare auditKey).System}
    (h : AuditReachable columns hmac localeCompare auditKey s) {row : AuditEventRow}
    (hrow : row ∈ context.visible columns s.committed) : row.sequence ≤ 2147483647 := by
  obtain ⟨_, -, _, -, hstored, -⟩ := h.visible_iff.mp hrow
  exact AuditColumns.row_sequence_le hstored

end Growth

/-! ## Paging -/

section Paging

variable (columns : AuditColumns) (hmac : Hmac) (localeCompare : String → String → Int)
  (auditKey : List UInt8) (context : AuditTenantContext)

/-- Pages read from 0 on, each in a snapshot that is not before the last one, with limits of its
own: the system of the last page, the events read, the cursor, and the number of pages. -/
inductive Paging : (auditProtocol columns hmac localeCompare auditKey).System →
    List ChainedAuditEvent → Option Number → Nat → Prop
  | first {s : (auditProtocol columns hmac localeCompare auditKey).System} {limit : Number}
      {found : VerifiedAuditPage}
      (hreach : AuditReachable columns hmac localeCompare auditKey s)
      (hread : readVerified columns hmac localeCompare auditKey context ⟨.ofNat 0, limit⟩
        s.committed = .ok found) : Paging s found.events found.nextSequence 1
  | next {s s' : (auditProtocol columns hmac localeCompare auditKey).System}
      {events : List ChainedAuditEvent} {cursor limit : Number} {pages : Nat}
      {found : VerifiedAuditPage} (hpaging : Paging s events (some cursor) pages)
      (hlater : Later s s')
      (hread : readVerified columns hmac localeCompare auditKey context ⟨cursor, limit⟩
        s'.committed = .ok found) :
      Paging s' (events ++ found.events) found.nextSequence (pages + 1)

/-- Reading goes on to its end: the first page and every next one is returned, there are no more
pages than events, and one, and the last one completes the events present when it is read, which
have the sequences from 1 on. -/
structure PagesComplete (s : (auditProtocol columns hmac localeCompare auditKey).System) :
    Prop where
  starts : ∀ limit, 1 ≤ limit → limit ≤ 100 → ∃ found,
    readVerified columns hmac localeCompare auditKey context ⟨.ofNat 0, .ofNat limit⟩
      s.committed = .ok found
  continues : ∀ s₀ events cursor pages,
    Paging columns hmac localeCompare auditKey context s₀ events (some cursor) pages →
    Later s₀ s → ∀ limit, 1 ≤ limit → limit ≤ 100 → ∃ found,
      readVerified columns hmac localeCompare auditKey context ⟨cursor, .ofNat limit⟩
        s.committed = .ok found
  bounded : ∀ events cursor pages,
    Paging columns hmac localeCompare auditKey context s events cursor pages →
    pages ≤ (context.visible columns s.committed).length + 1
  complete : ∀ events pages,
    Paging columns hmac localeCompare auditKey context s events none pages →
    readEvents columns context s.committed = .ok events ∧
      events.map (fun event => event.sequence) =
        (List.range' 1 (context.visible columns s.committed).length).map Number.ofNat

variable {columns hmac localeCompare auditKey context}

/-- Pages of the chain are pages of a cursor over its events. -/
theorem Paging.reading {s : (auditProtocol columns hmac localeCompare auditKey).System}
    {events : List ChainedAuditEvent} {cursor : Option Number} {pages : Nat}
    (hhousehold : (columns.uuid context.householdId).isSome)
    (h : Paging columns hmac localeCompare auditKey context s events cursor pages) :
    AuditReachable columns hmac localeCompare auditKey s ∧ ∃ snapshot after,
      readEvents columns context s.committed = .ok snapshot ∧
        cursor = after.map Number.ofNat ∧
        Reading ChainedAuditEvent.position snapshot events after pages := by
  induction h with
  | @first s limit found hreach hread =>
    obtain ⟨after, count, snapshot, hafter, hlower, hsnapshot, -, hevents, hnext⟩ :=
      readVerified_eq_ok hread
    obtain rfl : 0 = after := Number.ofNat_injective hafter
    rw [hevents, hnext]
    exact ⟨hreach, snapshot, _, hsnapshot, rfl, .first hlower⟩
  | @next s s' events cursor limit pages found hpaging hlater hread ih =>
    obtain ⟨hreach, earlier, position, hearlier, hcursor, hreading⟩ := ih
    obtain ⟨after, count, snapshot, hafter, hlower, hsnapshot, -, hevents, hnext⟩ :=
      readVerified_eq_ok hread
    obtain ⟨position, rfl⟩ : ∃ value, position = some value := by
      cases position with
      | none => exact absurd hcursor (by simp)
      | some value => exact ⟨value, rfl⟩
    have hsame : cursor = .ofNat position := Option.some.inj hcursor
    obtain rfl : position = after := Number.ofNat_injective (hsame.symm.trans hafter)
    rw [hevents, hnext]
    have hgrows := hreach.readEvents_grows hlater hhousehold hearlier hsnapshot
    exact ⟨hreach.later hlater, snapshot, _, hsnapshot, rfl, hreading.next hgrows hlower⟩

/-- What pages of the chain come to. -/
theorem Paging.invariant {s : (auditProtocol columns hmac localeCompare auditKey).System}
    {events : List ChainedAuditEvent} {cursor : Option Number} {pages : Nat}
    (hhousehold : (columns.uuid context.householdId).isSome)
    (h : Paging columns hmac localeCompare auditKey context s events cursor pages) :
    pages ≤ (context.visible columns s.committed).length + 1 ∧
      (cursor = none → readEvents columns context s.committed = .ok events) ∧
      ∀ value, cursor = some value → ∃ after, value = .ofNat after ∧ after ≤ 2147483647 := by
  obtain ⟨hreach, snapshot, after, hsnapshot, hcursor, hreading⟩ := h.reading hhousehold
  obtain ⟨hpositions, hlength⟩ := hreach.readEvents_sequences hhousehold hsnapshot
  have hsorted : snapshot.Pairwise (fun a b => a.position < b.position) := by
    have hrange : (snapshot.map ChainedAuditEvent.position).Pairwise (· < ·) := by
      rw [hpositions]
      exact List.pairwise_lt_range'
    exact List.pairwise_map.mp hrange
  have hpositive : ∀ event ∈ snapshot, 0 < event.position := by
    intro event hevent
    have hmem := List.mem_map_of_mem (f := ChainedAuditEvent.position) hevent
    rw [hpositions, List.mem_range'_1] at hmem
    omega
  obtain ⟨hbegins, hall, hsome, hpages⟩ := hreading.invariant hsorted hpositive
  have hread := hbegins.length_le
  refine ⟨by omega, fun hnone => ?_, fun value hvalue => ?_⟩
  · have hend : after = none := by
      cases after with
      | none => rfl
      | some position => exact absurd (hcursor.symm.trans hnone) (by simp)
    rw [hall hend]
    exact hsnapshot
  · cases after with
    | none => exact absurd (hvalue.symm.trans hcursor) (by simp)
    | some position =>
      obtain ⟨hlast, -⟩ := hsome position rfl
      obtain ⟨last, hlast, hposition⟩ := Option.map_eq_some_iff.mp hlast
      have hmem := hbegins.subset (List.mem_of_getLast? hlast)
      have hlisted := List.mem_map_of_mem (f := ChainedAuditEvent.position) hmem
      rw [(readEvents_positions hsnapshot).1] at hlisted
      obtain ⟨row, hrow, hsequence⟩ := List.mem_map.mp hlisted
      refine ⟨position, Option.some.inj (hvalue.symm.trans hcursor), ?_⟩
      rw [← hposition, ← hsequence]
      exact hreach.sequence_le (mem_selectEvents.mp hrow)

/-- A page that is returned is read from a chain that verifies. -/
theorem verify_of_readVerified {input : ReadInput} {found : VerifiedAuditPage} {σ : AuditRows}
    (h : readVerified columns hmac localeCompare auditKey context input σ = .ok found) :
    verify columns hmac localeCompare auditKey context σ = .ok true := by
  obtain ⟨_, _, events, -, -, hread, hverify, -⟩ := readVerified_eq_ok h
  simp only [verify, hread, Bind.bind, Except.bind]
  exact hverify

/-- Reading goes on to its end when the events verify. -/
theorem pagesComplete_of_verify {s : (auditProtocol columns hmac localeCompare auditKey).System}
    (hreach : AuditReachable columns hmac localeCompare auditKey s)
    (hhousehold : (columns.uuid context.householdId).isSome)
    (h : verify columns hmac localeCompare auditKey context s.committed = .ok true) :
    PagesComplete columns hmac localeCompare auditKey context s := by
  constructor
  · intro limit hlower hupper
    exact readVerified_of_verify ⟨⟨0, rfl, Nat.zero_le _⟩, limit, rfl, hlower, hupper⟩ h
  · intro s₀ events cursor pages hpaging _ limit hlower hupper
    obtain ⟨-, -, hcursor⟩ := hpaging.invariant hhousehold
    obtain ⟨after, hafter, hle⟩ := hcursor cursor rfl
    have hsafe : after ≤ 9007199254740991 := by omega
    exact readVerified_of_verify ⟨⟨after, hafter, hsafe⟩, limit, rfl, hlower, hupper⟩ h
  · intro events cursor pages hpaging
    exact (hpaging.invariant hhousehold).1
  · intro events pages hpaging
    have hread := (hpaging.invariant hhousehold).2.1 rfl
    obtain ⟨hpositions, hlength⟩ := hreach.readEvents_sequences hhousehold hread
    obtain ⟨-, hsequences⟩ := readEvents_positions hread
    refine ⟨hread, ?_⟩
    rw [← hlength, ← hpositions, List.map_map]
    exact List.map_congr_left hsequences

/-- Reading goes on to its end in every run whose inputs all read back as they were given, and
only in those. -/
theorem audit_pages_complete_iff {s : (auditProtocol columns hmac localeCompare auditKey).System}
    (h : AuditReachable columns hmac localeCompare auditKey s)
    (hjsonb : JsonbKeepsMembers columns) (hcompare : Consistent localeCompare)
    (horganization : (columns.uuid context.organizationId).isSome)
    (hhousehold : (columns.uuid context.householdId).isSome) :
    ((∀ entry ∈ s.log, ∀ event, entry.outcome = .committed event →
        SameTenant columns entry.request.context context →
        ReadsBack columns localeCompare entry.request) →
      PagesComplete columns hmac localeCompare auditKey context s) ∧
    (CollisionFree columns hmac localeCompare auditKey s.log →
      PagesComplete columns hmac localeCompare auditKey context s →
      ∀ entry ∈ s.log, ∀ event, entry.outcome = .committed event →
        SameTenant columns entry.request.context context →
        ReadsBack columns localeCompare entry.request) := by
  constructor
  · intro hback
    exact pagesComplete_of_verify h hhousehold
      (h.verified_of_readsBack hjsonb hcompare horganization hhousehold hback)
  · intro hcollision hcomplete
    obtain ⟨found, hread⟩ := hcomplete.starts 1 (Nat.le_refl 1) (by omega)
    exact h.readsBack_of_verified hjsonb hcompare hcollision horganization hhousehold
      (verify_of_readVerified hread)

end Paging

theorem audit_pages_complete_example :
    ∃ s : exampleProtocol.System,
      AuditReachable exampleColumns appendHmac exampleCompare exampleKey s ∧
        s.log = [⟨exampleCall true, .committed appendedEvent⟩] ∧
        PagesComplete exampleColumns appendHmac exampleCompare exampleKey (exampleCall true).context
          s := by
  obtain ⟨s, hs, hlog⟩ := example_appended true
  refine ⟨s, hs, hlog, ?_⟩
  exact (audit_pages_complete_iff hs exampleColumns_keeps exampleCompare_consistent rfl rfl).1
    (exampleCall_readsBack hlog)

/-- Nothing can be read of a household after an append with a time that is written without
milliseconds. -/
theorem seconds_not_read :
    ∃ s : secondsProtocol.System,
      AuditReachable exampleColumns secondsHmac exampleCompare exampleKey s ∧
        (∃ event, s.log = [⟨secondsCall, .committed event⟩]) ∧
        ¬ PagesComplete exampleColumns secondsHmac exampleCompare exampleKey secondsCall.context
          s := by
  obtain ⟨s, hs, hlog, hcommitted⟩ := seconds_appended
  refine ⟨s, hs, hlog, fun hcomplete => ?_⟩
  obtain ⟨found, hread⟩ := hcomplete.starts 1 (Nat.le_refl 1) (by omega)
  have hverified := verify_of_readVerified hread
  rw [hcommitted, verify_secondsRows] at hverified
  exact absurd hverified (by simp)

end LegacyVault.Audit
