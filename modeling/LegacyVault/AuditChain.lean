import LegacyVault.Library.EcmaText
import LegacyVault.Library.EcmaValues
import LegacyVault.Library.HashChain
import LegacyVault.Library.HexText
import LegacyVault.Dlp

/-!
# The audit chain

Audit events carry the position they stand at, the hash of the event before
them, and an HMAC of their declared fields. `verifyAuditChain` accepts a list
when positions and hashes are linked and every recorded hash decodes to the
HMAC. The HMAC and the locale's comparison of member names are parameters.

Numbers that are not finite are written as `null`, and recorded hashes are
compared after decoding them, so both can differ where texts agree.
-/

namespace LegacyVault.Audit

open EcmaText EcmaValues HashChain HexText JsonText RegularExpressions

/-! ## Events -/

/-- A value of audit metadata. -/
inductive MetadataValue where
  | string (value : String)
  | number (value : Number)
  | boolean (value : Bool)
  | null
  deriving DecidableEq

/-- A metadata value as a value of the language. -/
def MetadataValue.value : MetadataValue → Value
  | string value => .str value
  | number value => .num value
  | boolean value => .bool value
  | null => .null

/-- The number of a value that is a number and not finite. -/
def MetadataValue.nonFinite? : MetadataValue → Option Number
  | number value => if value.isFinite then none else some value
  | _ => none

/-- The metadata of an event: its members, in the order of the object. -/
structure Metadata where
  entries : List (String × MetadataValue)
  distinct : (entries.map Prod.fst).Nodup
  deriving DecidableEq

/-- The value of a member. -/
def Metadata.get (metadata : Metadata) (name : String) : Option MetadataValue :=
  metadata.entries.lookup name

/-- The non-finite number a member has for its value. -/
def Metadata.nonFinite? (metadata : Metadata) (name : String) : Option Number :=
  (metadata.get name).bind MetadataValue.nonFinite?

/-- The metadata as an object. -/
def Metadata.members (metadata : Metadata) : List (String × Value) :=
  metadata.entries.map (fun entry => (entry.1, entry.2.value))

/-- `AuditEventInput`. -/
structure AuditEventInput where
  organizationId : String
  householdId : String
  sequence : Number
  occurredAt : String
  actorPseudonym : String
  action : String
  outcome : String
  metadata : Metadata
  previousHash : String
  deriving DecidableEq

/-- `ChainedAuditEvent`. -/
structure ChainedAuditEvent extends AuditEventInput where
  eventHash : String
  deriving DecidableEq

/-- The declared fields of an event. -/
def AuditEventInput.declared (input : AuditEventInput) : List (String × Value) :=
  [("organizationId", .str input.organizationId), ("householdId", .str input.householdId),
    ("sequence", .num input.sequence), ("occurredAt", .str input.occurredAt),
    ("actorPseudonym", .str input.actorPseudonym), ("action", .str input.action),
    ("outcome", .str input.outcome), ("metadata", .obj input.metadata.members),
    ("previousHash", .str input.previousHash)]

/-- `forbiddenMetadataKey`. -/
def forbiddenMetadataKey : Pattern :=
  oneOf (["payload", "document", "fact", "prompt", "output", "email", "name", "token", "secret",
    "password", "cookie", "authorization"].map anyCase)

/-- The error of the first member that is not allowed, if there is one. -/
def metadataError : List (String × MetadataValue) → Option String
  | [] => none
  | (key, value) :: entries =>
    if forbiddenMetadataKey.test key.toList then
      some ("audit metadata key is forbidden: " ++ key)
    else match value with
      | .string text =>
        if 120 < utf16Length text then some "audit metadata string exceeds safe bound"
        else metadataError entries
      | _ => metadataError entries

/-- `assertMetadata`. -/
def assertMetadata (metadata : Metadata) : Except String Unit :=
  match metadataError metadata.entries with
  | some message => .error message
  | none => .ok ()

/-- HMAC-SHA256 of a text under a key. -/
abbrev Hmac := List UInt8 → String → List UInt8

section Digests

variable (hmac : Hmac) (localeCompare : String → String → Int)

/-- `canonicalize`. -/
def canonicalize (value : Value) : String :=
  canonicalText (fun left right => localeCompare left right ≤ 0) value

/-- The text an event is authenticated by. -/
def AuditEventInput.text (input : AuditEventInput) : String :=
  canonicalize localeCompare (.obj input.declared)

/-- `eventDigest`. -/
def eventDigest (input : AuditEventInput) (auditKey : List UInt8) : Except String String := do
  if auditKey.length < 32 then
    throw "audit key must be at least 32 bytes"
  assertMetadata input.metadata
  return hex (hmac auditKey (input.text localeCompare))

/-- `createAuditEvent`. -/
def createAuditEvent (input : AuditEventInput) (auditKey : List UInt8) :
    Except String ChainedAuditEvent := do
  if input.sequence.isPositiveSafeInteger = false then
    throw "audit sequence must be positive"
  return { input with eventHash := ← eventDigest hmac localeCompare input auditKey }

/-- The loop of `verifyAuditChain`, after `index` events. -/
def verifyEvents (auditKey : List UInt8) :
    Nat → String → List ChainedAuditEvent → Except String Bool
  | _, _, [] => return true
  | index, previousHash, event :: events => do
    if event.sequence ≠ .ofNat (index + 1) ∨ event.previousHash ≠ previousHash then
      return false
    let expected := fromHex (← eventDigest hmac localeCompare event.toAuditEventInput auditKey)
    let actual := fromHex event.eventHash
    if actual.length ≠ expected.length ∨ actual ≠ expected then
      return false
    verifyEvents auditKey (index + 1) event.eventHash events

/-- `verifyAuditChain`. -/
def verifyAuditChain (events : List ChainedAuditEvent) (auditKey : List UInt8) :
    Except String Bool :=
  verifyEvents hmac localeCompare auditKey 0 "GENESIS" events

end Digests

/-! ## What the operations return -/

section Operations

variable {hmac : Hmac} {localeCompare : String → String → Int} {auditKey : List UInt8}

/-- A member of audit metadata is allowed. -/
def MemberAllowed (name : String) (value : MetadataValue) : Prop :=
  forbiddenMetadataKey.test name.toList = false ∧
    ∀ text, value = .string text → utf16Length text ≤ 120

theorem metadataError_cons {name : String} {value : MetadataValue}
    {entries : List (String × MetadataValue)} :
    metadataError ((name, value) :: entries) = none ↔
      MemberAllowed name value ∧ metadataError entries = none := by
  unfold MemberAllowed
  cases hname : forbiddenMetadataKey.test name.toList with
  | true => cases value <;> simp [metadataError, hname]
  | false =>
    cases value with
    | string text =>
      simp only [metadataError, hname, Bool.false_eq_true, if_false, true_and,
        MetadataValue.string.injEq, forall_eq']
      by_cases hlong : 120 < utf16Length text
      · have hnot : ¬ utf16Length text ≤ 120 := by omega
        rw [if_pos hlong]
        simp [hnot]
      · have hshort : utf16Length text ≤ 120 := by omega
        rw [if_neg hlong]
        simp [hshort]
    | _ => simp [metadataError, hname]

/-- Metadata are allowed when every member is. -/
theorem assertMetadata_eq_ok {metadata : Metadata} : assertMetadata metadata = .ok () ↔
    ∀ name value, (name, value) ∈ metadata.entries → MemberAllowed name value := by
  have herror : ∀ entries, metadataError entries = none ↔
      ∀ name value, (name, value) ∈ entries → MemberAllowed name value := by
    intro entries
    induction entries with
    | nil => simp [metadataError]
    | cons entry entries ih =>
      rw [metadataError_cons, ih]
      constructor
      · rintro ⟨hfirst, hrest⟩ name value hmem
        rcases List.mem_cons.mp hmem with hequal | hmem
        · rw [← hequal] at hfirst
          exact hfirst
        · exact hrest name value hmem
      · intro hall
        exact ⟨hall _ _ List.mem_cons_self,
          fun name value hmem => hall name value (List.mem_cons_of_mem _ hmem)⟩
  unfold assertMetadata
  rw [← herror]
  cases metadataError metadata.entries <;> simp

/-- A digest is the HMAC of an event with a long enough key and allowed metadata. -/
theorem eventDigest_eq_ok {input : AuditEventInput} {digest : String} :
    eventDigest hmac localeCompare input auditKey = .ok digest ↔
      32 ≤ auditKey.length ∧ assertMetadata input.metadata = .ok () ∧
        digest = hex (hmac auditKey (input.text localeCompare)) := by
  unfold eventDigest
  by_cases hkey : auditKey.length < 32
  · have hshort : ¬ 32 ≤ auditKey.length := by omega
    simp [hkey, hshort, bind, Except.bind, throw, throwThe, MonadExceptOf.throw]
  · have hlong : 32 ≤ auditKey.length := by omega
    cases hmetadata : assertMetadata input.metadata with
    | error message => simp [hkey, bind, Except.bind]
    | ok _ => simp [hkey, hlong, bind, Except.bind, pure, Except.pure, eq_comm]

/-- A created event has the fields it was created from and their digest. -/
theorem createAuditEvent_eq_ok {input : AuditEventInput} {event : ChainedAuditEvent} :
    createAuditEvent hmac localeCompare input auditKey = .ok event ↔
      input.sequence.isPositiveSafeInteger = true ∧ event.toAuditEventInput = input ∧
        eventDigest hmac localeCompare input auditKey = .ok event.eventHash := by
  unfold createAuditEvent
  cases hsequence : input.sequence.isPositiveSafeInteger with
  | false => simp [bind, Except.bind, throw, throwThe, MonadExceptOf.throw]
  | true =>
    cases hdigest : eventDigest hmac localeCompare input auditKey with
    | error message => simp [bind, Except.bind]
    | ok digest =>
      simp only [bind, Except.bind, pure, Except.pure, Bool.true_eq_false, if_false,
        Except.ok.injEq, true_and]
      constructor
      · intro hevent
        subst hevent
        exact ⟨rfl, rfl⟩
      · intro hfields
        rw [← hfields.1, hfields.2]

/-- What the chain reads of audit events. -/
def auditLinks : Links ChainedAuditEvent Number String where
  position event := event.sequence
  previous event := event.previousHash
  recorded event := event.eventHash

/-- A list is accepted when it is linked and every recorded hash decodes to the digest. -/
theorem verifyEvents_accepted {index : Nat} {previousHash : String}
    {events : List ChainedAuditEvent} :
    verifyEvents hmac localeCompare auditKey index previousHash events = .ok true ↔
      LinkedFrom auditLinks Number.ofNat index previousHash events ∧
        ∀ event ∈ events, ∃ digest,
          eventDigest hmac localeCompare event.toAuditEventInput auditKey = .ok digest ∧
            fromHex event.eventHash = fromHex digest := by
  induction events generalizing index previousHash with
  | nil => simp [verifyEvents, LinkedFrom, pure, Except.pure]
  | cons event events ih =>
    rw [verifyEvents, LinkedFrom, List.forall_mem_cons]
    by_cases hlinked : event.sequence = .ofNat (index + 1) ∧ event.previousHash = previousHash
    · have hguard : ¬ (event.sequence ≠ .ofNat (index + 1) ∨ event.previousHash ≠ previousHash) :=
        by simpa [not_or] using hlinked
      rw [if_neg hguard]
      cases hdigest : eventDigest hmac localeCompare event.toAuditEventInput auditKey with
      | error message => simp [bind, Except.bind]
      | ok digest =>
        by_cases hequal : fromHex event.eventHash = fromHex digest
        · simp only [bind, Except.bind, hequal, ne_eq, not_true_eq_false, or_self, if_false,
            Except.ok.injEq, exists_eq_left']
          rw [ih]
          simp only [auditLinks, hlinked, true_and]
        · simp [bind, Except.bind, hequal, pure, Except.pure]
    · have hguard : event.sequence ≠ .ofNat (index + 1) ∨ event.previousHash ≠ previousHash := by
        by_contra hnone
        push Not at hnone
        exact hlinked hnone
      rw [if_pos hguard]
      simp only [pure, Except.pure, Except.ok.injEq, Bool.false_eq_true, false_iff]
      rintro ⟨⟨hposition, hprevious, -⟩, -⟩
      exact hlinked ⟨hposition, hprevious⟩

end Operations

/-! ## Fields and texts -/

/-- Two events have the same declared fields. Metadata are compared member by member. -/
structure SameFields (a b : AuditEventInput) : Prop where
  organizationId : a.organizationId = b.organizationId
  householdId : a.householdId = b.householdId
  sequence : a.sequence = b.sequence
  occurredAt : a.occurredAt = b.occurredAt
  actorPseudonym : a.actorPseudonym = b.actorPseudonym
  action : a.action = b.action
  outcome : a.outcome = b.outcome
  metadata : ∀ name, a.metadata.get name = b.metadata.get name
  previousHash : a.previousHash = b.previousHash

/-- Two events agree in every declared field and in the recorded hash. -/
def SameEvent (a b : ChainedAuditEvent) : Prop :=
  SameFields a.toAuditEventInput b.toAuditEventInput ∧ a.eventHash = b.eventHash

/-- The metadata of two events have the same non-finite numbers. -/
def SameNonFinite (a b : ChainedAuditEvent) : Prop :=
  ∀ name, a.metadata.nonFinite? name = b.metadata.nonFinite? name

/-- Metadata values that are written alike are equal, up to numbers that are not finite. -/
theorem MetadataValue.eq_of_toJson {a b : MetadataValue} (h : a.value.toJson = b.value.toJson)
    (hnonFinite : a.nonFinite? = b.nonFinite?) : a = b := by
  have hnumber : ∀ {m n : Number}, m.toJson = n.toJson →
      (number m).nonFinite? = (number n).nonFinite? → m = n := by
    intro m n hwritten hsame
    cases m <;> cases n <;> simp_all [Number.toJson, nonFinite?, Number.isFinite]
  cases a with
  | number m =>
    cases b with
    | number n => exact congrArg number (hnumber h hnonFinite)
    | null => cases m <;> simp_all [value, Value.toJson, Number.toJson, nonFinite?, Number.isFinite]
    | _ => cases m <;> simp_all [value, Value.toJson, Number.toJson]
  | null =>
    cases b with
    | number n => cases n <;> simp_all [value, Value.toJson, Number.toJson, nonFinite?, Number.isFinite]
    | _ => simp_all [value, Value.toJson]
  | string text =>
    cases b with
    | number n => cases n <;> simp_all [value, Value.toJson, Number.toJson]
    | _ => simp_all [value, Value.toJson]
  | boolean flag =>
    cases b with
    | number n => cases n <;> simp_all [value, Value.toJson, Number.toJson]
    | _ => simp_all [value, Value.toJson]

section Texts

variable {localeCompare : String → String → Int}

/-- Sorting leaves what is written for a metadata value. -/
@[simp] theorem sortMembers_metadataValue (le : String → String → Bool) (value : MetadataValue) :
    sortMembers le value.value.toJson = value.value.toJson := by
  cases value with
  | number n => cases n <;> simp [MetadataValue.value, Value.toJson, Number.toJson, sortMembers]
  | _ => simp [MetadataValue.value, Value.toJson, sortMembers]

/-- Events with one text have the same members, as far as they are written. -/
theorem member_of_text {a b : AuditEventInput} (h : a.text localeCompare = b.text localeCompare)
    (name : String) :
    canonicalMember (fun left right => localeCompare left right ≤ 0) name a.declared =
      canonicalMember (fun left right => localeCompare left right ≤ 0) name b.declared := by
  have hdistinct : ∀ input : AuditEventInput, (input.declared.map Prod.fst).Nodup := by
    intro input
    simp [AuditEventInput.declared]
  exact canonicalMember_eq (hdistinct a) (hdistinct b) (canonicalText_inj.mp h) name

/-- Members that are strings agree where the texts do. -/
theorem string_of_text {a b : AuditEventInput} (h : a.text localeCompare = b.text localeCompare)
    (name : String) {x y : String} (hx : a.declared.lookup name = some (.str x))
    (hy : b.declared.lookup name = some (.str y)) : x = y := by
  have hmember := member_of_text h name
  simp only [canonicalMember, hx, hy, Option.map_some, Value.toJson, sortMembers,
    Option.some.injEq, Json.str.injEq] at hmember
  exact hmember

/-- Finite sequences agree where the texts do. -/
theorem sequence_of_text {a b : AuditEventInput} (h : a.text localeCompare = b.text localeCompare)
    (hfinite : a.sequence.isFinite = true) : a.sequence = b.sequence := by
  have hmember : some (sortMembers _ a.sequence.toJson) = some (sortMembers _ b.sequence.toJson) :=
    member_of_text h "sequence"
  cases ha : a.sequence with
  | finite literal =>
    cases hb : b.sequence with
    | finite other =>
      simp only [ha, hb, Number.toJson, sortMembers, Option.some.injEq, Json.num.injEq] at hmember
      rw [hmember]
    | _ => simp [ha, hb, Number.toJson, sortMembers] at hmember
  | _ => simp [ha, Number.isFinite] at hfinite

/-- Metadata agree where the texts do, up to numbers that are not finite. -/
theorem metadata_of_text {a b : AuditEventInput} (h : a.text localeCompare = b.text localeCompare)
    (hnonFinite : ∀ name, a.metadata.nonFinite? name = b.metadata.nonFinite? name)
    (name : String) : a.metadata.get name = b.metadata.get name := by
  have hobject : some (sortMembers _ (Value.toJson (.obj a.metadata.members))) =
      some (sortMembers _ (Value.toJson (.obj b.metadata.members))) :=
    member_of_text h "metadata"
  have hdistinct : ∀ metadata : Metadata, (metadata.members.map Prod.fst).Nodup := by
    intro metadata
    rw [Metadata.members, List.map_map]
    exact metadata.distinct
  have hmember := canonicalMember_eq (hdistinct a.metadata) (hdistinct b.metadata)
    (Option.some.inj hobject) name
  have hwritten : ∀ metadata : Metadata, canonicalMember (fun left right =>
      localeCompare left right ≤ 0) name metadata.members =
        (metadata.get name).map (fun value => value.value.toJson) := by
    intro metadata
    rw [canonicalMember, Metadata.members, lookup_map_value, Option.map_map, Metadata.get]
    congr 1
    funext value
    exact sortMembers_metadataValue _ value
  rw [hwritten, hwritten] at hmember
  have hsame := hnonFinite name
  simp only [Metadata.nonFinite?] at hsame
  cases hleft : a.metadata.get name with
  | none =>
    rw [hleft, Option.map_none] at hmember
    exact (Option.map_eq_none_iff.mp hmember.symm).symm
  | some x =>
    cases hright : b.metadata.get name with
    | none => simp [hleft, hright] at hmember
    | some y =>
      simp only [hleft, hright, Option.map_some, Option.some.injEq] at hmember
      simp only [hleft, hright, Option.bind_some] at hsame
      rw [MetadataValue.eq_of_toJson hmember hsame]

/-- Events with one text have the same declared fields, up to numbers that are not finite. -/
theorem sameFields_of_text {a b : AuditEventInput} (h : a.text localeCompare = b.text localeCompare)
    (hnonFinite : ∀ name, a.metadata.nonFinite? name = b.metadata.nonFinite? name)
    (hfinite : a.sequence.isFinite = true) : SameFields a b where
  organizationId := string_of_text h "organizationId" rfl rfl
  householdId := string_of_text h "householdId" rfl rfl
  sequence := sequence_of_text h hfinite
  occurredAt := string_of_text h "occurredAt" rfl rfl
  actorPseudonym := string_of_text h "actorPseudonym" rfl rfl
  action := string_of_text h "action" rfl rfl
  outcome := string_of_text h "outcome" rfl rfl
  metadata := metadata_of_text h hnonFinite
  previousHash := string_of_text h "previousHash" rfl rfl

end Texts

/-! ## Tamper evidence -/

section Tampering

variable (hmac : Hmac) (localeCompare : String → String → Int) (auditKey : List UInt8)

/-- A chain as it was appended: linked, each event created from its own fields. -/
def AppendedChain (chain : List ChainedAuditEvent) : Prop :=
  LinkedFrom auditLinks Number.ofNat 0 "GENESIS" chain ∧
    ∀ event ∈ chain,
      createAuditEvent hmac localeCompare event.toAuditEventInput auditKey = .ok event

/-- Every valid digest among the events was issued for an event of the chain. -/
def Unforged (chain events : List ChainedAuditEvent) : Prop :=
  ∀ event ∈ events, fromHex event.eventHash = hmac auditKey (event.text localeCompare) →
    ∃ issued ∈ chain, issued.text localeCompare = event.text localeCompare

/-- The events equal a prefix of the chain, field by field. -/
def EqualsPrefix (events chain : List ChainedAuditEvent) : Prop :=
  ∃ issued rest, chain = issued ++ rest ∧ List.Forall₂ SameEvent events issued

/-- The hash recorded last is the text that is written for the bytes it is read as. -/
def LastHashExact (events : List ChainedAuditEvent) : Prop :=
  ∀ event ∈ events.getLast?, hex (fromHex event.eventHash) = event.eventHash

/-- Events at the same position have the same non-finite numbers in their metadata. -/
def NonFiniteAgree (events chain : List ChainedAuditEvent) : Prop :=
  ∀ (n : Nat) (event issued : ChainedAuditEvent), events[n]? = some event →
    chain[n]? = some issued → SameNonFinite event issued

variable {hmac localeCompare auditKey}

/-- The hash of a created event is the text of its digest. -/
theorem createAuditEvent_hash {event : ChainedAuditEvent}
    (h : createAuditEvent hmac localeCompare event.toAuditEventInput auditKey = .ok event) :
    hex (fromHex event.eventHash) = event.eventHash := by
  obtain ⟨-, -, hdigest⟩ := createAuditEvent_eq_ok.mp h
  rw [(eventDigest_eq_ok.mp hdigest).2.2, fromHex_hex]

/-- An accepted event has the HMAC of its text for its recorded bytes. -/
theorem fromHex_of_accepted {event : ChainedAuditEvent} {digest : String}
    (hdigest : eventDigest hmac localeCompare event.toAuditEventInput auditKey = .ok digest)
    (hequal : fromHex event.eventHash = fromHex digest) :
    fromHex event.eventHash = hmac auditKey (event.text localeCompare) := by
  rw [hequal, (eventDigest_eq_ok.mp hdigest).2.2, fromHex_hex]

/-- Where one list equals a prefix of a chain, events at one position are the same. -/
theorem EqualsPrefix.sameEvent {chain events : List ChainedAuditEvent}
    (h : EqualsPrefix events chain) {n : Nat} {event : ChainedAuditEvent}
    (hevent : events[n]? = some event) :
    ∃ issued, chain[n]? = some issued ∧ SameEvent event issued := by
  obtain ⟨issued, rest, rfl, hall⟩ := h
  obtain ⟨hlength, hget⟩ := List.forall₂_iff_get.mp hall
  obtain ⟨hn, rfl⟩ := List.getElem?_eq_some_iff.mp hevent
  have hissued : n < issued.length := hlength ▸ hn
  refine ⟨issued[n], ?_, hget n hn hissued⟩
  rw [List.getElem?_append_left hissued, List.getElem?_eq_getElem hissued]

end Tampering

/-- A key of 32 bytes. -/
def exampleKey : List UInt8 := List.replicate 32 0

/-- The HMAC of the example event under the example key. -/
def exampleHmac : Hmac := fun _ _ =>
  [146, 121, 116, 60, 94, 63, 124, 129, 32, 196, 25, 196, 92, 33, 207, 230,
    228, 181, 233, 242, 255, 112, 72, 173, 4, 196, 50, 223, 96, 72, 71, 17]

/-- The comparison of lower-case names. -/
def exampleCompare : String → String → Int := fun left right => if left ≤ right then -1 else 1

/-- The first event of a chain. -/
def exampleEvent : ChainedAuditEvent where
  organizationId := "10000000-0000-4000-8000-000000000001"
  householdId := "10000000-0000-4000-8000-000000000002"
  sequence := .ofNat 1
  occurredAt := "2026-08-05T00:00:00.000Z"
  actorPseudonym := "0123456789abcdef0123456789abcdef"
  action := "fact.confirm"
  outcome := "allowed"
  metadata := ⟨[("category", .string "insurance")], by decide⟩
  previousHash := "GENESIS"
  eventHash := "9279743c5e3f7c8120c419c45c21cfe6e4b5e9f2ff7048ad04c432df60484711"

/-- The event with its recorded hash in upper case. -/
def tamperedEvent : ChainedAuditEvent :=
  { exampleEvent with
    eventHash := "9279743C5E3F7C8120C419C45C21CFE6E4B5E9F2FF7048AD04C432DF60484711" }

theorem exampleChain : AppendedChain exampleHmac exampleCompare exampleKey [exampleEvent] :=
  ⟨⟨rfl, rfl, trivial⟩, by
    intro event hevent
    rw [List.mem_singleton.mp hevent]
    rfl⟩

theorem tampered_unforged :
    Unforged exampleHmac exampleCompare exampleKey [exampleEvent] [tamperedEvent] := by
  intro event hevent _
  rw [List.mem_singleton.mp hevent]
  exact ⟨exampleEvent, List.mem_singleton_self _, rfl⟩

theorem tampered_accepted :
    verifyAuditChain exampleHmac exampleCompare [tamperedEvent] exampleKey = .ok true := rfl

/-- An accepted list equals a prefix of the appended chain exactly when its last recorded hash is
written exactly and metadata have the same non-finite numbers. -/
theorem verified_prefix_iff {hmac : Hmac} {localeCompare : String → String → Int}
    {auditKey : List UInt8} {chain events : List ChainedAuditEvent}
    (hchain : AppendedChain hmac localeCompare auditKey chain)
    (hunforged : Unforged hmac localeCompare auditKey chain events)
    (haccepted : verifyAuditChain hmac localeCompare events auditKey = .ok true) :
    EqualsPrefix events chain ↔ LastHashExact events ∧ NonFiniteAgree events chain := by
  obtain ⟨hlinked, hdigests⟩ := verifyEvents_accepted.mp haccepted
  have hhash : ∀ event ∈ events,
      fromHex event.eventHash = hmac auditKey (event.text localeCompare) := by
    intro event hevent
    obtain ⟨digest, hdigest, hequal⟩ := hdigests event hevent
    exact fromHex_of_accepted hdigest hequal
  have hissuedHash : ∀ issued ∈ chain, issued.eventHash =
      hex (hmac auditKey (issued.text localeCompare)) := by
    intro issued hissued
    obtain ⟨-, -, hdigest⟩ := createAuditEvent_eq_ok.mp (hchain.2 issued hissued)
    exact (eventDigest_eq_ok.mp hdigest).2.2
  constructor
  · intro hprefix
    refine ⟨fun event hlast => ?_, fun n event issued hevent hissued => ?_⟩
    · have hindex : events[events.length - 1]? = some event := by
        rw [← List.getLast?_eq_getElem?]
        exact hlast
      obtain ⟨issued, hissued, hsame⟩ := hprefix.sameEvent hindex
      rw [hsame.2, createAuditEvent_hash (hchain.2 issued (List.mem_of_getElem? hissued))]
    · obtain ⟨found, hfound, hsame⟩ := hprefix.sameEvent hevent
      have hequal : found = issued := Option.some.inj (hfound.symm.trans hissued)
      subst hequal
      intro name
      rw [Metadata.nonFinite?, Metadata.nonFinite?, hsame.1.metadata]
  · rintro ⟨hexact, hagree⟩
    have hfinite : ∀ event ∈ events, event.sequence.isFinite = true := by
      intro event hevent
      obtain ⟨m, -, -, hposition⟩ := hlinked.position_mem hevent
      have hsequence : event.sequence = Number.ofNat m := hposition
      rw [hsequence]
      rfl
    -- correspondence by text; a finite sequence and the predecessor are read off the text
    obtain ⟨issued, rest, rfl, hall, hrecorded⟩ := hlinked.prefix_of_issued
      (S := fun event issued => event.sequence.isFinite = true ∧
        event.text localeCompare = issued.text localeCompare)
      Number.ofNat_injective
      (fun event issued hsame => ⟨sequence_of_text hsame.2 hsame.1,
        string_of_text hsame.2 "previousHash" rfl rfl⟩) hchain.1
      (fun event hevent => by
        obtain ⟨issued, hissued, htext⟩ := hunforged event hevent (hhash event hevent)
        exact ⟨issued, hissued, hfinite event hevent, htext.symm⟩)
    refine ⟨issued, rest, rfl, List.forall₂_iff_get.mpr ⟨hall.length_eq, ?_⟩⟩
    intro n hn hissued
    obtain ⟨-, htext⟩ := (List.forall₂_iff_get.mp hall).2 n hn hissued
    simp only [List.get_eq_getElem] at htext ⊢
    have hnonFinite : SameNonFinite events[n] issued[n] := by
      refine hagree n _ _ (List.getElem?_eq_getElem hn) ?_
      rw [List.getElem?_append_left hissued, List.getElem?_eq_getElem hissued]
    refine ⟨sameFields_of_text htext hnonFinite (hfinite _ (List.getElem_mem hn)), ?_⟩
    by_cases hlast : n + 1 < events.length
    · have hlastIssued : n + 1 < issued.length := hall.length_eq ▸ hlast
      have hat : (events.dropLast.map auditLinks.recorded)[n]? =
          (issued.dropLast.map auditLinks.recorded)[n]? := by rw [hrecorded]
      rw [List.getElem?_map, List.getElem?_map, List.getElem?_dropLast, List.getElem?_dropLast,
        if_pos (by omega), if_pos (by omega), List.getElem?_eq_getElem hn,
        List.getElem?_eq_getElem hissued] at hat
      exact Option.some.inj hat
    · have hindex : n = events.length - 1 := by omega
      have hgetLast : events.getLast? = some events[n] := by
        rw [List.getLast?_eq_getElem?, ← hindex, List.getElem?_eq_getElem hn]
      rw [← hexact _ hgetLast, hhash _ (List.getElem_mem hn), htext,
        hissuedHash _ (List.mem_append_left _ (List.getElem_mem hissued))]

theorem verified_prefix_iff_example :
    verifyAuditChain exampleHmac exampleCompare [exampleEvent] exampleKey = .ok true ∧
      EqualsPrefix [exampleEvent] [exampleEvent] := by
  have hunforged : Unforged exampleHmac exampleCompare exampleKey [exampleEvent] [exampleEvent] :=
    fun event hevent _ => ⟨event, hevent, rfl⟩
  have haccepted :
      verifyAuditChain exampleHmac exampleCompare [exampleEvent] exampleKey = .ok true := rfl
  have hexact : LastHashExact [exampleEvent] := by
    intro event hevent
    rw [← Option.some.inj hevent]
    rfl
  have hagree : NonFiniteAgree [exampleEvent] [exampleEvent] := by
    intro n event issued hevent hissued
    rw [Option.some.inj (hevent.symm.trans hissued)]
    exact fun _ => rfl
  exact ⟨haccepted, (verified_prefix_iff exampleChain hunforged haccepted).mpr ⟨hexact, hagree⟩⟩

/-- A recorded hash that was changed is accepted. -/
theorem tampered_hash_accepted :
    AppendedChain exampleHmac exampleCompare exampleKey [exampleEvent] ∧
      Unforged exampleHmac exampleCompare exampleKey [exampleEvent] [tamperedEvent] ∧
      verifyAuditChain exampleHmac exampleCompare [tamperedEvent] exampleKey = .ok true ∧
      ¬ EqualsPrefix [tamperedEvent] [exampleEvent] := by
  refine ⟨exampleChain, tampered_unforged, tampered_accepted, ?_⟩
  intro hprefix
  obtain ⟨issued, hissued, hsame⟩ := hprefix.sameEvent (n := 0) rfl
  have hequal : exampleEvent = issued := Option.some.inj hissued
  rw [← hequal] at hsame
  exact absurd hsame.2 (by decide)

end LegacyVault.Audit
