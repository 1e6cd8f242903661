import LegacyVault.ExportCodec
import LegacyVault.Library.HexText

/-!
# What is exported is opened again

A container that `createPortableExport` returns is accepted under its export
key and its signer's key, and what is opened names the archive, the
organization, the household and the time of the export and holds its entries
in the order of their paths.

The JSON text of the container is parsed to the container with its members
sorted. Sorting keeps what every name stands for and the canonical text, so
the digest and the signature are over the same bytes again, and so is the
plaintext the inner manifest is parsed from.
-/

namespace LegacyVault.ExportCodec

open Buffers EcmaText EcmaValues JsonText

/-! ## What is read of an opened export -/

/-- An entry of an opened export. -/
structure OpenedEntry where
  path : String
  mediaType : String
  bytes : Bytes
  deriving DecidableEq

/-- An opened export. -/
structure OpenedExport where
  archiveId : String
  organizationId : String
  householdId : String
  createdAt : String
  entries : List OpenedEntry
  deriving DecidableEq

/-- The member of a value that is a string. -/
def textOf (name : String) (value : Value) : Option String :=
  match value.get name with
  | some (.str text) => some text
  | _ => none

/-- An entry of an inner manifest. -/
def readEntry (entry : Value) : Option OpenedEntry := do
  let path ← textOf "path" entry
  let mediaType ← textOf "mediaType" entry
  let content ← textOf "contentBase64" entry
  return ⟨path, mediaType, fromBase64 content⟩

/-- An inner manifest. -/
def readExport (inner : Value) : Option OpenedExport := do
  let archiveId ← textOf "archiveId" inner
  let organizationId ← textOf "organizationId" inner
  let householdId ← textOf "householdId" inner
  let createdAt ← textOf "createdAt" inner
  match inner.get "entries" with
  | some (.arr entries) =>
    return ⟨archiveId, organizationId, householdId, createdAt, ← entries.mapM readEntry⟩
  | _ => none

/-- An entry as it is opened. -/
def PortableExportEntry.opened (entry : PortableExportEntry) : OpenedEntry :=
  ⟨entry.path, entry.mediaType, entry.bytes⟩

/-- An export as it is opened. -/
def ExportInput.opened (platform : Platform) (input : ExportInput) : OpenedExport :=
  ⟨input.archiveId, input.organizationId, input.householdId, input.createdAt,
    (input.sortedEntries platform).map PortableExportEntry.opened⟩

/-- What a platform does that behaves as specified. -/
structure Platform.Correct (platform : Platform) : Prop where
  names : NamesOrdered platform.nameOrder
  /-- The literal of a safe integer denotes it. -/
  doubles : ∀ n ≤ 9007199254740991, platform.double (.ofNat n) = .ofNat n
  /-- What was encrypted is decrypted under the same key, IV and associated data. -/
  decrypts : ∀ key iv data plaintext : Bytes, key.length = 32 → iv.length = 12 →
    platform.decrypt key iv data (platform.encrypt key iv data plaintext).1
      (platform.encrypt key iv data plaintext).2 = some plaintext
  /-- What was signed is verified under the key of the signer. -/
  verifies : ∀ der signer, platform.signer der = some signer → ∀ message,
    platform.verify signer.publicKeySpki message (signer.sign message) = true

/-- A value with its members sorted, as its canonical text is parsed. -/
abbrev Platform.sorted (platform : Platform) (value : Value) : Value :=
  sortValue platform.nameOrder value

section RoundTrip

variable {platform : Platform}

/-! ## The members of what is exported -/

theorem plain_ofNat (hcorrect : platform.Correct) {n : Nat} (hn : n ≤ 9007199254740991) :
    (Value.num (.ofNat n)).Plain platform.double :=
  ⟨.ofNat n, rfl, hcorrect.doubles n hn⟩

theorem entryNames_nodup : ["path", "mediaType", "sha256", "size", "contentBase64"].Nodup := by
  decide

theorem innerNames_nodup : ["format", "archiveId", "organizationId", "householdId", "createdAt",
    "entries"].Nodup := by
  decide

theorem envelopeNames_nodup :
    ["algorithm", "keyVersion", "iv", "ciphertext", "authenticationTag"].Nodup := by
  decide

theorem manifestNames_nodup : ["format", "archiveId", "createdAt", "encryption", "keyVersion",
    "envelopeSha256"].Nodup := by
  decide

theorem containerNames_nodup :
    ["manifest", "envelope", "signature", "signerPublicKey"].Nodup := by
  decide

theorem plain_entry (hcorrect : platform.Correct) (entry : PortableExportEntry) :
    (entry.inner platform).Plain platform.double := by
  have hsize := plain_ofNat hcorrect entry.size_safe
  exact ⟨entryNames_nodup, by decide, trivial, by decide, trivial, by decide, trivial, by decide,
    hsize, by decide, trivial, trivial⟩

theorem plain_inner (hcorrect : platform.Correct) (input : ExportInput) :
    (input.inner platform).Plain platform.double := by
  have hentries : PlainItems platform.double
      ((input.sortedEntries platform).map (PortableExportEntry.inner platform)) := by
    refine plainItems_of_forall (fun item hitem => ?_)
    obtain ⟨entry, -, rfl⟩ := List.mem_map.mp hitem
    exact plain_entry hcorrect entry
  exact ⟨innerNames_nodup, by decide, trivial, by decide, trivial, by decide, trivial, by decide,
    trivial, by decide, trivial, by decide, hentries, trivial⟩

/-- A key version that is accepted is a safe integer. -/
theorem keyVersion_eq_ofNat {keyVersion : Number} (h : keyVersion.isPositiveSafeInteger = true) :
    ∃ version ≤ 9007199254740991, keyVersion = .ofNat version := by
  unfold Number.isPositiveSafeInteger at h
  cases hvalue : keyVersion.natValue? with
  | none => simp [hvalue] at h
  | some version =>
    rw [hvalue, Option.any_some, Bool.and_eq_true, decide_eq_true_eq, decide_eq_true_eq] at h
    exact ⟨version, h.2, Number.natValue?_eq_some hvalue⟩

theorem plain_keyVersion (hcorrect : platform.Correct) {keyVersion : Number}
    (h : keyVersion.isPositiveSafeInteger = true) :
    (Value.num keyVersion).Plain platform.double := by
  obtain ⟨version, hbound, rfl⟩ := keyVersion_eq_ofNat h
  exact plain_ofNat hcorrect hbound

theorem plain_manifest (hcorrect : platform.Correct) {input : ExportInput}
    (h : input.keyVersion.isPositiveSafeInteger = true) :
    (input.manifest platform).Plain platform.double := by
  have hversion := plain_keyVersion hcorrect h
  exact ⟨manifestNames_nodup, by decide, trivial, by decide, trivial, by decide, trivial,
    by decide, trivial, by decide, hversion, by decide, trivial, trivial⟩

theorem plain_envelope (hcorrect : platform.Correct) {input : ExportInput}
    (h : input.keyVersion.isPositiveSafeInteger = true) :
    (input.envelope platform).Plain platform.double := by
  have hversion := plain_keyVersion hcorrect h
  exact ⟨envelopeNames_nodup, by decide, trivial, by decide, hversion, by decide, trivial,
    by decide, trivial, by decide, trivial, trivial⟩

theorem plain_container (hcorrect : platform.Correct) {input : ExportInput}
    (h : input.keyVersion.isPositiveSafeInteger = true) (signer : Signer) :
    (input.container platform signer).Plain platform.double := by
  have hmanifest := plain_manifest hcorrect h
  have henvelope := plain_envelope hcorrect h
  exact ⟨containerNames_nodup, by decide, hmanifest, by decide, henvelope, by decide, trivial,
    by decide, trivial, trivial⟩

/-! ## What is read -/

/-- A member that is a string is read of the sorted value too. -/
theorem textOf_sortValue {value : Value} {name text : String}
    (hplain : value.Plain platform.double) (h : value.get name = some (.str text)) :
    textOf name (platform.sorted value) = some text := by
  rw [textOf, get_sortValue_of_plain hplain h, sortValue_str]

theorem readEntry_inner (hcorrect : platform.Correct) (entry : PortableExportEntry) :
    readEntry (platform.sorted (entry.inner platform)) = some entry.opened := by
  have hplain := plain_entry hcorrect entry
  have hpath : textOf "path" _ = some entry.path := textOf_sortValue hplain rfl
  have hmediaType : textOf "mediaType" _ = some entry.mediaType := textOf_sortValue hplain rfl
  have hcontent : textOf "contentBase64" _ = some (base64 entry.bytes) :=
    textOf_sortValue hplain rfl
  rw [readEntry, hpath, hmediaType, hcontent]
  simp [PortableExportEntry.opened]

/-- Sorting an array sorts its items. -/
theorem sortValue_arr (le : String → String → Bool) (items : List Value) :
    sortValue le (.arr items) = .arr (items.map (sortValue le)) := by
  rw [sortValue, sortValueItems_eq_map]

theorem readExport_inner (hcorrect : platform.Correct) (input : ExportInput) :
    readExport (platform.sorted (input.inner platform)) =
      some (input.opened platform) := by
  have hplain := plain_inner hcorrect input
  have harchive : textOf "archiveId" _ = some input.archiveId := textOf_sortValue hplain rfl
  have horganization : textOf "organizationId" _ = some input.organizationId :=
    textOf_sortValue hplain rfl
  have hhousehold : textOf "householdId" _ = some input.householdId := textOf_sortValue hplain rfl
  have hcreated : textOf "createdAt" _ = some input.createdAt := textOf_sortValue hplain rfl
  have hentries : (platform.sorted (input.inner platform)).get "entries" = _ :=
    get_sortValue_of_plain hplain rfl
  have hread : ∀ entries : List PortableExportEntry,
      ((entries.map (PortableExportEntry.inner platform)).map
        platform.sorted).mapM readEntry =
          some (entries.map PortableExportEntry.opened) := by
    intro entries
    induction entries with
    | nil => rfl
    | cons entry entries ih =>
      rw [List.map_cons, List.map_cons, List.mapM_cons, readEntry_inner hcorrect, ih]
      rfl
  rw [sortValue_arr] at hentries
  rw [readExport, harchive, horganization, hhousehold, hcreated, hentries]
  simp only [Option.bind_eq_bind, Option.bind_some, hread]
  rfl

/-! ## Every check passes -/

theorem isTrustedMetadata_sorted (hcorrect : platform.Correct) {input : ExportInput}
    (h : input.keyVersion.isPositiveSafeInteger = true) (signer : Signer) :
    isTrustedMetadata (platform.sorted (input.container platform signer))
      (platform.sorted (input.manifest platform))
      (platform.sorted (input.envelope platform))
      (base64 signer.publicKeySpki) = true := by
  have hmanifest := plain_manifest hcorrect h
  have henvelope := plain_envelope hcorrect h
  have hcontainer := plain_container hcorrect h signer
  obtain ⟨version, -, hversion⟩ := keyVersion_eq_ofNat h
  have hformat : (platform.sorted (input.manifest platform)).get "format" = _ :=
    get_sortValue_of_plain hmanifest rfl
  have hencryption : (platform.sorted (input.manifest platform)).get "encryption" = _ :=
    get_sortValue_of_plain hmanifest rfl
  have hmanifestVersion :
      (platform.sorted (input.manifest platform)).get "keyVersion" = _ :=
    get_sortValue_of_plain hmanifest rfl
  have halgorithm : (platform.sorted (input.envelope platform)).get "algorithm" = _ :=
    get_sortValue_of_plain henvelope rfl
  have henvelopeVersion :
      (platform.sorted (input.envelope platform)).get "keyVersion" = _ :=
    get_sortValue_of_plain henvelope rfl
  have hpublicKey :
      (platform.sorted (input.container platform signer)).get "signerPublicKey" = _ :=
    get_sortValue_of_plain hcontainer rfl
  rw [isTrustedMetadata, hformat, hencryption, hmanifestVersion, halgorithm, henvelopeVersion,
    hpublicKey]
  simp [isText, strictEquals, hversion, Number.ofNat]

theorem canonicalReportValue_sorted (hcorrect : platform.Correct) (value : Value) :
    canonicalReportValue platform (platform.sorted value) = canonicalReportValue platform value :=
  canonicalText_sortValue hcorrect.names value

theorem parseJson_canonical {value : Value} (hplain : value.Plain platform.double) :
    parseJson platform.double (fromUtf8 platform.replaced
      (utf8 (canonicalReportValue platform value))) = some (platform.sorted value) := by
  rw [fromUtf8_utf8]
  exact parseJson_canonicalText hplain

theorem decryptEnvelope_sorted (hcorrect : platform.Correct) {input : ExportInput}
    (hkey : input.exportKey.length = 32) (h : input.keyVersion.isPositiveSafeInteger = true) :
    decryptEnvelope platform (platform.sorted (input.envelope platform))
      (platform.sorted (input.manifest platform)) input.exportKey =
        some (input.plaintext platform) := by
  have hmanifest := plain_manifest hcorrect h
  have henvelope := plain_envelope hcorrect h
  obtain ⟨version, -, hversion⟩ := keyVersion_eq_ofNat h
  have halgorithm : (platform.sorted (input.envelope platform)).get "algorithm" = _ :=
    get_sortValue_of_plain henvelope rfl
  have henvelopeVersion : (platform.sorted (input.envelope platform)).get "keyVersion" = _ :=
    get_sortValue_of_plain henvelope rfl
  have hiv : (platform.sorted (input.envelope platform)).get "iv" = _ :=
    get_sortValue_of_plain henvelope rfl
  have hciphertext : (platform.sorted (input.envelope platform)).get "ciphertext" = _ :=
    get_sortValue_of_plain henvelope rfl
  have htag : (platform.sorted (input.envelope platform)).get "authenticationTag" = _ :=
    get_sortValue_of_plain henvelope rfl
  have hmanifestVersion : (platform.sorted (input.manifest platform)).get "keyVersion" = _ :=
    get_sortValue_of_plain hmanifest rfl
  have harchive : (platform.sorted (input.manifest platform)).get "archiveId" = _ :=
    get_sortValue_of_plain hmanifest rfl
  have hsame : strictEquals (some (.num input.keyVersion)) (some (.num input.keyVersion)) = true := by
    simp [strictEquals, hversion, Number.ofNat]
  have hdecrypted := hcorrect.decrypts input.exportKey input.iv
    (associatedData input.archiveId input.keyVersion) (input.plaintext platform) hkey
    input.iv_length
  rw [decryptEnvelope, halgorithm, henvelopeVersion, hiv, hciphertext, htag, hmanifestVersion,
    harchive]
  simp only [sortValue_str, sortValue_num, isText, hsame, hkey, h, toBuffer, joinedText, valueText,
    fromBase64_base64, beq_self_eq_true, guard_true, Option.bind_eq_bind, Option.bind_some, Option.pure_def]
  exact hdecrypted

/-- An entry that is exported is accepted when it is opened. -/
theorem acceptedEntry_inner (hcorrect : platform.Correct) {entry : PortableExportEntry}
    (h : assertEntry entry.path entry.mediaType = .ok ()) :
    AcceptedEntry platform (platform.sorted (entry.inner platform)) entry.path := by
  have hplain := plain_entry hcorrect entry
  have hpath : (platform.sorted (entry.inner platform)).get "path" = _ :=
    get_sortValue_of_plain hplain rfl
  have hmediaType : (platform.sorted (entry.inner platform)).get "mediaType" = _ :=
    get_sortValue_of_plain hplain rfl
  have hcontent : (platform.sorted (entry.inner platform)).get "contentBase64" = _ :=
    get_sortValue_of_plain hplain rfl
  have hsize : (platform.sorted (entry.inner platform)).get "size" = _ :=
    get_sortValue_of_plain hplain rfl
  have hdigest : (platform.sorted (entry.inner platform)).get "sha256" = _ :=
    get_sortValue_of_plain hplain rfl
  rw [sortValue_str] at hpath hmediaType hcontent hdigest
  rw [sortValue_num] at hsize
  refine ⟨hpath, ?_, entry.bytes, ?_, ?_⟩
  · rw [hmediaType]
    exact h
  · rw [hcontent, toBuffer, fromBase64_base64]
  · rw [isDeclaredContent, hsize, hdigest]
    simp [strictEquals, isText, Number.ofNat]

theorem checkInner_sorted (hcorrect : platform.Correct) {input : ExportInput}
    (hversion : input.keyVersion.isPositiveSafeInteger = true)
    (hentries : checkEntries [] input.entries = .ok ()) :
    checkInner platform (platform.sorted (input.inner platform))
      (platform.sorted (input.manifest platform)) =
        .ok (platform.sorted (input.inner platform)) := by
  have hinner := plain_inner hcorrect input
  have hmanifest := plain_manifest hcorrect hversion
  have hformat : (platform.sorted (input.inner platform)).get "format" = _ :=
    get_sortValue_of_plain hinner rfl
  have harchive : (platform.sorted (input.inner platform)).get "archiveId" = _ :=
    get_sortValue_of_plain hinner rfl
  have hcreated : (platform.sorted (input.inner platform)).get "createdAt" = _ :=
    get_sortValue_of_plain hinner rfl
  have hitems : (platform.sorted (input.inner platform)).get "entries" = _ :=
    get_sortValue_of_plain hinner rfl
  have hmanifestArchive : (platform.sorted (input.manifest platform)).get "archiveId" = _ :=
    get_sortValue_of_plain hmanifest rfl
  have hmanifestCreated : (platform.sorted (input.manifest platform)).get "createdAt" = _ :=
    get_sortValue_of_plain hmanifest rfl
  rw [sortValue_str] at hformat harchive hcreated hmanifestArchive hmanifestCreated
  rw [sortValue_arr] at hitems
  obtain ⟨hsafe, hdistinct⟩ := checkEntries_eq_ok.mp hentries
  have hperm : (input.sortedEntries platform).Perm input.entries := List.perm_insertionSort _ _
  refine checkInner_eq_ok.mpr ⟨rfl, ?_, ?_, ?_, _, hitems, ?_⟩
  · rw [hformat, isText, beq_self_eq_true]
  · rw [harchive, hmanifestArchive, strictEquals, beq_self_eq_true]
  · rw [hcreated, hmanifestCreated, strictEquals, beq_self_eq_true]
  · refine checkParsedEntries_eq_ok.mpr
      ⟨(input.sortedEntries platform).map PortableExportEntry.path, ?_, ?_, ?_⟩
    · rw [List.map_map, List.forall₂_map_left_iff, List.forall₂_map_right_iff,
        List.forall₂_same]
      intro entry hentry
      exact acceptedEntry_inner hcorrect (hsafe entry (hperm.mem_iff.mp hentry)).1
    · exact (hperm.map _).nodup_iff.mpr hdistinct
    · exact fun path _ => List.not_mem_nil

/-- What `encryptEnvelope` accepts. -/
theorem encryptEnvelope_eq_ok {input : ExportInput} {envelope : Value} :
    encryptEnvelope platform input = .ok envelope ↔ input.exportKey.length = 32 ∧
      input.keyVersion.isPositiveSafeInteger = true ∧ envelope = input.envelope platform := by
  unfold encryptEnvelope
  by_cases hkey : input.exportKey.length = 32
  · cases hversion : input.keyVersion.isPositiveSafeInteger with
    | false => simp [hkey]
    | true => simp [hkey, eq_comm]
  · simp [hkey]

/-- What `createPortableExport` accepts, and what it returns. -/
theorem createPortableExport_eq_ok {input : ExportInput} {container : Bytes} :
    createPortableExport platform input = .ok container ↔
      ¬ (input.archiveId = "" ∨ input.organizationId = "" ∨ input.householdId = "") ∧
      platform.isDate input.createdAt ≠ false ∧ checkEntries [] input.entries = .ok () ∧
      input.exportKey.length = 32 ∧ input.keyVersion.isPositiveSafeInteger = true ∧
      ∃ signer, input.signer platform = some signer ∧
        container = utf8 (canonicalReportValue platform (input.container platform signer)) := by
  rw [createPortableExport]
  dsimp only
  rw [guarded_eq_ok, guarded_eq_ok, bind_eq_ok]
  refine and_congr_right (fun _ => and_congr_right (fun _ => ?_))
  constructor
  · rintro ⟨_, hentries, h⟩
    obtain ⟨envelope, henvelope, h⟩ := bind_eq_ok.mp h
    obtain ⟨hkey, hversion, -⟩ := encryptEnvelope_eq_ok.mp henvelope
    refine ⟨hentries, hkey, hversion, ?_⟩
    cases hsigner : input.signer platform with
    | none =>
      rw [hsigner] at h
      cases h
    | some signer =>
      rw [hsigner] at h
      exact ⟨signer, rfl, (Except.ok.inj h).symm⟩
  · rintro ⟨hentries, hkey, hversion, signer, hsigner, rfl⟩
    refine ⟨(), hentries, bind_eq_ok.mpr ⟨_, encryptEnvelope_eq_ok.mpr ⟨hkey, hversion, rfl⟩, ?_⟩⟩
    rw [hsigner]
    rfl

/-! ## The round trip -/

/-- What is exported is opened as it was sealed. -/
theorem verifyAndOpen_create (hcorrect : platform.Correct) {input : ExportInput}
    {container : Bytes} {signer : Signer}
    (hcreated : createPortableExport platform input = .ok container)
    (hsigner : input.signer platform = some signer) :
    verifyAndOpenPortableExport platform
      ⟨container, input.exportKey, base64 signer.publicKeySpki⟩ =
        .ok (platform.sorted (input.inner platform)) := by
  obtain ⟨-, -, hentries, hkey, hversion, found, hfound, rfl⟩ :=
    createPortableExport_eq_ok.mp hcreated
  obtain rfl := Option.some.inj (hsigner.symm.trans hfound)
  have hcontainer := plain_container hcorrect hversion signer
  have hmanifest := plain_manifest hcorrect hversion
  have hgetManifest : (platform.sorted (input.container platform signer)).get "manifest" = _ :=
    get_sortValue_of_plain hcontainer rfl
  have hgetEnvelope : (platform.sorted (input.container platform signer)).get "envelope" = _ :=
    get_sortValue_of_plain hcontainer rfl
  have hsignature : (platform.sorted (input.container platform signer)).get "signature" = _ :=
    get_sortValue_of_plain hcontainer rfl
  have hdigest : (platform.sorted (input.manifest platform)).get "envelopeSha256" = _ :=
    get_sortValue_of_plain hmanifest rfl
  rw [sortValue_str] at hsignature hdigest
  rw [verifyAndOpenPortableExport, parseJson_canonical hcontainer]
  refine openContainer_eq_ok.mpr ⟨platform.sorted (input.manifest platform),
    platform.sorted (input.envelope platform), platform.sorted (input.inner platform),
    input.plaintext platform, hgetManifest, hgetEnvelope,
    isTrustedMetadata_sorted hcorrect hversion signer, ?_, ?_,
    decryptEnvelope_sorted hcorrect hkey hversion, parseJson_canonical (plain_inner hcorrect input),
    checkInner_sorted hcorrect hversion hentries⟩
  · rw [hdigest, isText, canonicalDigest, canonicalDigest, canonicalReportValue_sorted hcorrect,
      beq_self_eq_true]
  · rw [hsignature, verifySignature, toBuffer, fromBase64_base64, fromBase64_base64,
      canonicalReportValue_sorted hcorrect]
    exact hcorrect.verifies _ signer hsigner _

/-- The entries of an export are opened in the order of their paths. -/
theorem opened_entries_perm (input : ExportInput) :
    (input.opened platform).entries.Perm (input.entries.map PortableExportEntry.opened) :=
  (List.perm_insertionSort _ _).map _

theorem opened_entries_sorted (hcorrect : platform.Correct) (input : ExportInput) :
    (input.opened platform).entries.Pairwise
      (fun left right => platform.nameOrder left.path right.path = true) := by
  have : Std.Total (fun left right : PortableExportEntry =>
      platform.nameOrder left.path right.path = true) :=
    ⟨fun left right => hcorrect.names.total left.path right.path⟩
  have : IsTrans PortableExportEntry
      (fun left right => platform.nameOrder left.path right.path = true) :=
    ⟨fun left middle right => hcorrect.names.trans left.path middle.path right.path⟩
  exact List.pairwise_map.mpr (List.pairwise_insertionSort
    (fun left right => platform.nameOrder left.path right.path = true) input.entries)

end RoundTrip

/-! ## An example -/

/-- The signing key of the example. -/
def exampleSigningKey : String := "MC4CAQAwBQYDK2VwBCIEIAAAAAAAAAAAAAAAAAAAAAAAAAAAAAAAAAAAAAAAAAAA"

/-- The inner manifest of the example. -/
def exampleInnerText : String :=
  "\x7b\"archiveId\":\"a\",\"createdAt\":\"2026-08-05\",\"entries\":[\x7b\"contentBase64\":\"aGk=\",\"mediaType\":\"text/plain\",\"path\":\"a.txt\",\"sha256\":\"8f434346648f6b96df89dda901c5176b10a6d83961dd3c1ac88b59b2dc327aa4\",\"size\":2\x7d],\"format\":\"legacy-vault-portable-export/v1\",\"householdId\":\"h\",\"organizationId\":\"o\"\x7d"

/-- The envelope of the example. -/
def exampleEnvelopeText : String :=
  "\x7b\"algorithm\":\"A256GCM\",\"authenticationTag\":\"YZVrpjETR+xrOODeKmJXvg==\",\"ciphertext\":\"tYUhTy4IAhhiB6HxgNH8Ol5CYLhSx14RteOBrE8kB77vfJwYdWfRTmPEe0EpeESeIjLp29rAXVMOEmmGxXh4fqOhuUcDkg9WJ/6Rwm2zCsXYxijkub7DD9yeaAMsKjLdx5seo0yp+FQ+xNXn3w6dB85ylYkEFZObArWCOLEtQiolVvGPVezChwPEjgJOpeXixyx78oYTUZjUbsAGnzO3SItA3dnLZNQCjjzRsBJhvKnLWkBrW2hSFM9txx6aMxBEWqkLqTExxyTHh1rJJMUwtN3WZAampEqEzgu2AQWh31t45I0qE5w33IvnM85spHFJPKLwGLPjk+VCNtggzKiLWBklNlpqWyiF8tTV4Y/XwXc8MgYfDnWOArdmehISZg==\",\"iv\":\"AAAAAAAAAAAAAAAA\",\"keyVersion\":1\x7d"

/-- The ciphertext and the tag of the example. -/
def exampleSealed : Bytes × Bytes :=
  (fromBase64
    "tYUhTy4IAhhiB6HxgNH8Ol5CYLhSx14RteOBrE8kB77vfJwYdWfRTmPEe0EpeESeIjLp29rAXVMOEmmGxXh4fqOhuUcDkg9WJ/6Rwm2zCsXYxijkub7DD9yeaAMsKjLdx5seo0yp+FQ+xNXn3w6dB85ylYkEFZObArWCOLEtQiolVvGPVezChwPEjgJOpeXixyx78oYTUZjUbsAGnzO3SItA3dnLZNQCjjzRsBJhvKnLWkBrW2hSFM9txx6aMxBEWqkLqTExxyTHh1rJJMUwtN3WZAampEqEzgu2AQWh31t45I0qE5w33IvnM85spHFJPKLwGLPjk+VCNtggzKiLWBklNlpqWyiF8tTV4Y/XwXc8MgYfDnWOArdmehISZg==",
  fromBase64 "YZVrpjETR+xrOODeKmJXvg==")

/-- The key, the IV, the associated data and the plaintext of the example. -/
def exampleSealing : Bytes × Bytes × Bytes × Bytes :=
  (List.replicate 32 0, List.replicate 12 0,
    utf8 "legacy-vault:portable-export:portable-export:a:portable-export:v1",
    utf8 exampleInnerText)

/-- The manifest of the example. -/
def exampleManifestText : String :=
  "\x7b\"archiveId\":\"a\",\"createdAt\":\"2026-08-05\",\"encryption\":\"A256GCM\",\"envelopeSha256\":\"7a80924d6d4651f063e6319cccebb06f1a4b16fea8ff6b1c9b8dac49602da07c\",\"format\":\"legacy-vault-encrypted-export/v1\",\"keyVersion\":1\x7d"

/-- The signer of the example, under the key of 32 zero bytes. -/
def exampleSigner : Signer where
  sign message :=
    if message = utf8 exampleManifestText then
      fromBase64 "JGq29jPwlE47CXl36NWGKrHCRH7FftnJuwrXVOVsCGKoxjfiTqMfMTZy9KTP2xPyC2+5AY/KcrPt1r80LhZrAw=="
    else message
  publicKeySpki := fromBase64 "MCowBQYDK2VwAyEAO2onvM62pC1io6jQKm8Nc2UyFXcd4kOmOsBIoYtZ2ik="

/-- A platform that computes what the example needs as the real one does. -/
def examplePlatform : Platform where
  localeCompare left right := if left < right then -1 else if left = right then 0 else 1
  double := .finite
  replaced _ := ""
  bufferFrom _ := none
  isDate text := text == "2026-08-05"
  sha256 bytes :=
    if bytes = utf8 "hi" then
      "8f434346648f6b96df89dda901c5176b10a6d83961dd3c1ac88b59b2dc327aa4"
    else if bytes = utf8 exampleEnvelopeText then
      "7a80924d6d4651f063e6319cccebb06f1a4b16fea8ff6b1c9b8dac49602da07c"
    else HexText.hex bytes
  encrypt key iv data plaintext :=
    if (key, iv, data, plaintext) = exampleSealing then exampleSealed
    else (plaintext, key ++ iv ++ data)
  decrypt key iv data ciphertext tag :=
    if (key, iv, data) = (exampleSealing.1, exampleSealing.2.1, exampleSealing.2.2.1) ∧
      (ciphertext, tag) = exampleSealed then some (utf8 exampleInnerText)
    else if tag = key ++ iv ++ data then some ciphertext else none
  signer der := if der = fromBase64 exampleSigningKey then some exampleSigner else none
  verify key message signature :=
    key == exampleSigner.publicKeySpki && signature == exampleSigner.sign message

/-- An export of one entry. -/
def exampleInput : ExportInput where
  archiveId := "a"
  organizationId := "o"
  householdId := "h"
  createdAt := "2026-08-05"
  keyVersion := .ofNat 1
  exportKey := List.replicate 32 0
  signingKeyPkcs8Base64 := exampleSigningKey
  entries := [⟨"a.txt", "text/plain", utf8 "hi", by decide⟩]
  iv := List.replicate 12 0
  iv_length := rfl

theorem exampleNames_ordered : NamesOrdered examplePlatform.nameOrder := by
  have hle : ∀ {a b : String}, examplePlatform.nameOrder a b = true ↔ a ≤ b := by
    intro a b
    rw [Platform.nameOrder, decide_eq_true_eq]
    change (if a < b then (-1 : Int) else if a = b then 0 else 1) ≤ 0 ↔ a ≤ b
    rcases lt_trichotomy a b with hlt | rfl | hgt
    · rw [if_pos hlt]
      exact iff_of_true (by decide) hlt.le
    · rw [if_neg (lt_irrefl a), if_pos rfl]
      exact iff_of_true (le_refl 0) le_rfl
    · rw [if_neg hgt.not_gt, if_neg hgt.ne']
      exact iff_of_false (by decide) hgt.not_ge
  exact ⟨fun a b => by rw [hle, hle]; exact le_total a b,
    fun a b c => by rw [hle, hle, hle]; exact le_trans⟩

/-- A tag that is not the one of the example is longer. -/
theorem exampleTag_ne {key iv data : Bytes} (hkey : key.length = 32) (hiv : iv.length = 12) :
    key ++ iv ++ data ≠ exampleSealed.2 := by
  intro hequal
  have hlength := congrArg List.length hequal
  have htag : exampleSealed.2.length = 16 := by decide
  rw [List.length_append, List.length_append, htag] at hlength
  omega

theorem examplePlatform_decrypts (key iv data plaintext : Bytes) (hkey : key.length = 32)
    (hiv : iv.length = 12) :
    examplePlatform.decrypt key iv data (examplePlatform.encrypt key iv data plaintext).1
      (examplePlatform.encrypt key iv data plaintext).2 = some plaintext := by
  simp only [examplePlatform]
  by_cases hexample : (key, iv, data, plaintext) = exampleSealing
  · have hcontext : (key, iv, data) =
        (exampleSealing.1, exampleSealing.2.1, exampleSealing.2.2.1) :=
      congrArg (fun sealing => (sealing.1, sealing.2.1, sealing.2.2.1)) hexample
    have hplaintext : plaintext = exampleSealing.2.2.2 :=
      congrArg (fun sealing => sealing.2.2.2) hexample
    rw [if_pos hexample, if_pos ⟨hcontext, Prod.mk.eta⟩, hplaintext, exampleSealing]
  · have htag : (plaintext, key ++ iv ++ data) ≠ exampleSealed :=
      fun hequal => exampleTag_ne hkey hiv (congrArg Prod.snd hequal)
    rw [if_neg hexample, if_neg (fun h => htag h.2), if_pos rfl]

theorem examplePlatform_correct : examplePlatform.Correct where
  names := exampleNames_ordered
  doubles _ _ := rfl
  decrypts := examplePlatform_decrypts
  verifies := by
    intro der signer hsigner message
    have hsame : signer = exampleSigner := by
      simp only [examplePlatform] at hsigner
      split at hsigner
      · exact (Option.some.inj hsigner).symm
      · cases hsigner
    rw [hsame]
    simp [examplePlatform]

theorem exampleInput_signer : exampleInput.signer examplePlatform = some exampleSigner := by
  simp [ExportInput.signer, examplePlatform, exampleInput]

/-- The container of the example. -/
def exampleContainer : Bytes :=
  utf8 (canonicalReportValue examplePlatform (exampleInput.container examplePlatform exampleSigner))

theorem exampleInput_created :
    createPortableExport examplePlatform exampleInput = .ok exampleContainer :=
  createPortableExport_eq_ok.mpr
    ⟨by decide, by decide, by decide, rfl, by decide, exampleSigner, exampleInput_signer, rfl⟩

section RoundTrip

variable {platform : Platform}

/-- A container that is created is opened under its export key and its signer's key, with the ids
and the time of the export and exactly its entries, sorted by path. -/
theorem portable_export_roundTrip (hcorrect : platform.Correct) (input : ExportInput)
    (container : Bytes) (signer : Signer)
    (hcreated : createPortableExport platform input = .ok container)
    (hsigner : input.signer platform = some signer) :
    ∃ inner opened, verifyAndOpenPortableExport platform
        ⟨container, input.exportKey, base64 signer.publicKeySpki⟩ = .ok inner ∧
      readExport inner = some opened ∧ opened.archiveId = input.archiveId ∧
      opened.organizationId = input.organizationId ∧ opened.householdId = input.householdId ∧
      opened.createdAt = input.createdAt ∧
      opened.entries.Perm (input.entries.map PortableExportEntry.opened) ∧
      opened.entries.Pairwise
        (fun left right => platform.localeCompare left.path right.path ≤ 0) := by
  have hsorted := opened_entries_sorted hcorrect input
  refine ⟨_, _, verifyAndOpen_create hcorrect hcreated hsigner, readExport_inner hcorrect input,
    rfl, rfl, rfl, rfl, opened_entries_perm input, hsorted.imp ?_⟩
  intro left right hle
  exact of_decide_eq_true hle

theorem portable_export_roundTrip_example :
    ∃ inner opened, verifyAndOpenPortableExport examplePlatform
        ⟨exampleContainer, List.replicate 32 0, base64 exampleSigner.publicKeySpki⟩ = .ok inner ∧
      readExport inner = some opened ∧ opened.archiveId = "a" ∧
      opened.organizationId = "o" ∧ opened.householdId = "h" ∧ opened.createdAt = "2026-08-05" ∧
      opened.entries.Perm [⟨"a.txt", "text/plain", utf8 "hi"⟩] ∧
      opened.entries.Pairwise
        (fun left right => examplePlatform.localeCompare left.path right.path ≤ 0) :=
  portable_export_roundTrip examplePlatform_correct exampleInput exampleContainer exampleSigner
    exampleInput_created exampleInput_signer

end RoundTrip

end LegacyVault.ExportCodec
