import LegacyVault.Library.Buffers
import LegacyVault.Library.ParsedValues
import LegacyVault.Dlp

/-!
# The portable export codec

`createPortableExport` and `verifyAndOpenPortableExport` over bytes. An inner
manifest holds the entries, is encrypted under the export key, and the outer
manifest binds a digest of the envelope and is signed. The container is parsed
from bytes that need not come from `createPortableExport`, so every property
that is read may be missing or of another type.

AES-GCM, SHA-256, Ed25519, the locale's comparison of names, the doubles of
number literals and what `Buffer.from` makes of other values are parameters.
-/

namespace LegacyVault.ExportCodec

open Buffers EcmaText EcmaValues JsonText

/-- `ExportManifestSigner`: a private key that was read. -/
structure Signer where
  sign : Bytes → Bytes
  publicKeySpki : Bytes

/-- What the codec uses of its platform. -/
structure Platform where
  localeCompare : String → String → Int
  /-- The double a number literal denotes. -/
  double : NumberLiteral → Number
  /-- The text of bytes that are not well-formed UTF-8. -/
  replaced : Bytes → String
  /-- `Buffer.from` of a value that is not a string. -/
  bufferFrom : Value → Option Bytes
  /-- `Number.isFinite(Date.parse(text))`. -/
  isDate : String → Bool
  /-- The hexadecimal digest of SHA-256. -/
  sha256 : Bytes → String
  /-- AES-256-GCM under key, IV and associated data: ciphertext and tag. -/
  encrypt : Bytes → Bytes → Bytes → Bytes → Bytes × Bytes
  /-- The plaintext under key, IV and associated data of a ciphertext and tag. -/
  decrypt : Bytes → Bytes → Bytes → Bytes → Bytes → Option Bytes
  /-- The Ed25519 key of a PKCS8 value. -/
  signer : Bytes → Option Signer
  /-- Verification under an SPKI value of a message and its signature. -/
  verify : Bytes → Bytes → Bytes → Bool

/-! ## Values -/

/-- A number as text. -/
def numberText : Number → String
  | .finite literal => String.ofList (literal.first :: literal.rest)
  | .nan => "NaN"
  | .infinity => "Infinity"
  | .negInfinity => "-Infinity"

mutual

/-- `String(value)`. -/
def valueText : Value → String
  | .null => "null"
  | .bool true => "true"
  | .bool false => "false"
  | .num value => numberText value
  | .str value => value
  | .arr items => ",".intercalate (itemTexts items)
  | .obj _ => "[object Object]"

/-- The texts an array is joined from. -/
def itemTexts : List Value → List String
  | [] => []
  | .null :: items => "" :: itemTexts items
  | item :: items => valueText item :: itemTexts items

end

/-- What `join` writes for an element that may be missing. -/
def joinedText : Option Value → String
  | none => ""
  | some .null => ""
  | some value => valueText value

/-- A value that may be missing is the given string. -/
def isText (text : String) : Option Value → Bool
  | some (.str value) => value == text
  | _ => false

/-- `a === b` for values of two parsed texts: objects are never the same. -/
def strictEquals : Option Value → Option Value → Bool
  | none, none => true
  | some .null, some .null => true
  | some (.bool a), some (.bool b) => a == b
  | some (.num a), some (.num b) => a == b && a != .nan
  | some (.str a), some (.str b) => a == b
  | _, _ => false

/-- A value that may be missing is false. -/
def isFalsy : Option Value → Bool
  | none => true
  | some .null => true
  | some (.bool value) => !value
  | some (.num value) => value == .ofNat 0 || value == .nan
  | some (.str value) => value == ""
  | some _ => false

/-! ## Entries -/

/-- `PortableExportEntry`. Buffers are no longer than a safe integer. -/
structure PortableExportEntry where
  path : String
  mediaType : String
  bytes : Bytes
  size_safe : bytes.length ≤ 9007199254740991

/-- A path that leaves the archive, or has no name for one of its segments. -/
def isUnsafePath (path : String) : Bool :=
  path == "" || path.toList.head? == some '/' || path.toList.contains '\\' ||
    (path.toList.splitOn '/').any (fun segment =>
      segment == [] || segment == ['.'] || segment == ['.', '.'])

/-- `[a-z0-9]` in any case. -/
def isTokenStart (c : Char) : Bool := (foldCase c).isLower || c.isDigit

/-- `[a-z0-9][a-z0-9.+-]+` in any case. -/
def isToken : List Char → Bool
  | first :: second :: rest => isTokenStart first &&
      (second :: rest).all (fun c => isTokenStart c || c == '.' || c == '+' || c == '-')
  | _ => false

/-- The pattern of media types. -/
def isMediaType (mediaType : String) : Bool :=
  match mediaType.toList.splitOn '/' with
  | [type, subtype] => isToken type && isToken subtype
  | _ => false

/-- `assertEntry` of a path and a media type that are strings. -/
def assertEntry (path mediaType : String) : Except String Unit :=
  if isUnsafePath path then .error "export entry path is unsafe"
  else if isMediaType mediaType = false then .error "export entry media type is invalid"
  else .ok ()

/-- The checks of the entries of an export, after the given paths. -/
def checkEntries : List String → List PortableExportEntry → Except String Unit
  | _, [] => return ()
  | paths, entry :: entries => do
    assertEntry entry.path entry.mediaType
    if entry.path ∈ paths then
      throw "export entry path is duplicated"
    checkEntries (entry.path :: paths) entries

/-! ## Creating -/

/-- The input of `createPortableExport`, with the IV its encryption draws. -/
structure ExportInput where
  archiveId : String
  organizationId : String
  householdId : String
  createdAt : String
  keyVersion : Number
  exportKey : Bytes
  signingKeyPkcs8Base64 : String
  entries : List PortableExportEntry
  iv : Bytes
  iv_length : iv.length = 12

/-- `associatedData` of the export context. -/
def associatedData (recordId : String) (keyVersion : Number) : Bytes :=
  utf8 (":".intercalate ["legacy-vault", "portable-export", "portable-export", recordId,
    "portable-export", "v" ++ numberText keyVersion])

section Codec

variable (platform : Platform)

/-- The order of names. -/
def Platform.nameOrder (left right : String) : Bool := platform.localeCompare left right ≤ 0

/-- `canonicalReportValue`. -/
def canonicalReportValue (value : Value) : String := canonicalText platform.nameOrder value

/-- The digest of a value's canonical text. -/
def canonicalDigest (value : Value) : String :=
  platform.sha256 (utf8 (canonicalReportValue platform value))

/-- An entry of the inner manifest. -/
def PortableExportEntry.inner (entry : PortableExportEntry) : Value :=
  .obj [("path", .str entry.path), ("mediaType", .str entry.mediaType),
    ("sha256", .str (platform.sha256 entry.bytes)), ("size", .num (.ofNat entry.bytes.length)),
    ("contentBase64", .str (base64 entry.bytes))]

/-- The entries in the order of their paths. -/
def ExportInput.sortedEntries (input : ExportInput) : List PortableExportEntry :=
  input.entries.insertionSort (fun left right => platform.nameOrder left.path right.path = true)

/-- `InnerExportManifest`. -/
def ExportInput.inner (input : ExportInput) : Value :=
  .obj [("format", .str "legacy-vault-portable-export/v1"), ("archiveId", .str input.archiveId),
    ("organizationId", .str input.organizationId), ("householdId", .str input.householdId),
    ("createdAt", .str input.createdAt),
    ("entries", .arr ((input.sortedEntries platform).map (PortableExportEntry.inner platform)))]

/-- What the envelope of an export holds. -/
def ExportInput.plaintext (input : ExportInput) : Bytes :=
  utf8 (canonicalReportValue platform (input.inner platform))

/-- The ciphertext and tag of an export. -/
def ExportInput.sealed (input : ExportInput) : Bytes × Bytes :=
  platform.encrypt input.exportKey input.iv (associatedData input.archiveId input.keyVersion)
    (input.plaintext platform)

/-- `EncryptedEnvelope`. -/
def ExportInput.envelope (input : ExportInput) : Value :=
  .obj [("algorithm", .str "A256GCM"), ("keyVersion", .num input.keyVersion),
    ("iv", .str (base64 input.iv)), ("ciphertext", .str (base64 (input.sealed platform).1)),
    ("authenticationTag", .str (base64 (input.sealed platform).2))]

/-- `encryptEnvelope` of the inner manifest. -/
def encryptEnvelope (input : ExportInput) : Except String Value :=
  if input.exportKey.length ≠ 32 then .error "data encryption key must be exactly 32 bytes"
  else if input.keyVersion.isPositiveSafeInteger = false then
    .error "key version must be a positive integer"
  else .ok (input.envelope platform)

/-- `PublicExportManifest`. -/
def ExportInput.manifest (input : ExportInput) : Value :=
  .obj [("format", .str "legacy-vault-encrypted-export/v1"), ("archiveId", .str input.archiveId),
    ("createdAt", .str input.createdAt), ("encryption", .str "A256GCM"),
    ("keyVersion", .num input.keyVersion),
    ("envelopeSha256", .str (canonicalDigest platform (input.envelope platform)))]

/-- The bytes that are signed. -/
def ExportInput.manifestBytes (input : ExportInput) : Bytes :=
  utf8 (canonicalReportValue platform (input.manifest platform))

/-- `PortableExportContainer`. -/
def ExportInput.container (input : ExportInput) (signer : Signer) : Value :=
  .obj [("manifest", input.manifest platform), ("envelope", input.envelope platform),
    ("signature", .str (base64 (signer.sign (input.manifestBytes platform)))),
    ("signerPublicKey", .str (base64 signer.publicKeySpki))]

/-- The key a signing key is read as. -/
def ExportInput.signer (input : ExportInput) : Option Signer :=
  platform.signer (fromBase64 input.signingKeyPkcs8Base64)

/-- `createPortableExport`. -/
def createPortableExport (input : ExportInput) : Except String Bytes := do
  if input.archiveId = "" ∨ input.organizationId = "" ∨ input.householdId = "" then
    throw "export identity is incomplete"
  if platform.isDate input.createdAt = false then
    throw "export creation time is invalid"
  checkEntries [] input.entries
  let _ ← encryptEnvelope platform input
  match input.signer platform with
  | none =>
    throw "export signing key must be an Ed25519 PKCS8 DER value encoded as base64"
  | some signer =>
    return utf8 (canonicalReportValue platform (input.container platform signer))

/-! ## Opening -/

/-- The input of `verifyAndOpenPortableExport`. -/
structure OpenInput where
  container : Bytes
  exportKey : Bytes
  trustedPublicKeySpkiBase64 : String

/-- `Buffer.from(value, "base64")`, unless it throws. -/
def toBuffer : Option Value → Option Bytes
  | some (.str text) => some (fromBase64 text)
  | some value => platform.bufferFrom value
  | none => none

/-- `ExportManifestSigner.verify`. -/
def verifySignature (manifest : Bytes) (signature : Option Value) (publicKey : String) : Bool :=
  match toBuffer platform signature with
  | some signature => platform.verify (fromBase64 publicKey) manifest signature
  | none => false

/-- `decryptEnvelope` in the context of a manifest, unless it throws. -/
def decryptEnvelope (envelope manifest : Value) (key : Bytes) : Option Bytes := do
  guard (key.length = 32)
  guard (isText "A256GCM" (envelope.get "algorithm"))
  guard (strictEquals (envelope.get "keyVersion") (manifest.get "keyVersion"))
  match manifest.get "keyVersion" with
  | some (.num keyVersion) => do
    guard keyVersion.isPositiveSafeInteger
    let iv ← toBuffer platform (envelope.get "iv")
    let tag ← toBuffer platform (envelope.get "authenticationTag")
    let ciphertext ← toBuffer platform (envelope.get "ciphertext")
    platform.decrypt key iv (associatedData (joinedText (manifest.get "archiveId")) keyVersion)
      ciphertext tag
  | _ => none

/-- `assertEntry` of a parsed entry. Returns the path. -/
def assertParsedEntry (entry : Value) : Except String String :=
  match entry.get "path" with
  | some (.str path) => do
    assertEntry path (((entry.get "mediaType").map valueText).getD "undefined")
    return path
  | path =>
    if isFalsy path then .error "export entry path is unsafe"
    else .error "entry.path.startsWith is not a function"

/-- The content of a parsed entry has the size and the digest it declares. -/
def isDeclaredContent (entry : Value) (content : Bytes) : Bool :=
  strictEquals (some (.num (.ofNat content.length))) (entry.get "size") &&
    isText (platform.sha256 content) (entry.get "sha256")

/-- The checks of the entries of an inner manifest, after the given paths. -/
def checkParsedEntries : List String → List Value → Except String Unit
  | _, [] => return ()
  | _, .null :: _ => throw "Cannot read properties of null"
  | seen, entry :: entries => do
    let path ← assertParsedEntry entry
    if path ∈ seen then
      throw "export payload path is duplicated"
    match toBuffer platform (entry.get "contentBase64") with
    | none => throw "The first argument must be of type string or a buffer"
    | some content =>
      if isDeclaredContent platform entry content = false then
        throw "export entry digest is invalid"
      checkParsedEntries (path :: seen) entries

/-- The checks of an inner manifest against the outer one. -/
def checkInner (inner manifest : Value) : Except String Value :=
  match inner, inner.get "entries" with
  | .null, _ => .error "Cannot read properties of null"
  | inner, some (.arr entries) => do
    if (isText "legacy-vault-portable-export/v1" (inner.get "format") &&
        strictEquals (inner.get "archiveId") (manifest.get "archiveId") &&
        strictEquals (inner.get "createdAt") (manifest.get "createdAt")) = false then
      throw "export payload manifest is invalid"
    checkParsedEntries platform [] entries
    return inner
  | _, _ => .error "export payload manifest is invalid"

/-- The metadata of a container are those of an export under the trusted key. -/
def isTrustedMetadata (container manifest envelope : Value) (trusted : String) : Bool :=
  isText "legacy-vault-encrypted-export/v1" (manifest.get "format") &&
    isText "A256GCM" (envelope.get "algorithm") &&
    isText "A256GCM" (manifest.get "encryption") &&
    strictEquals (manifest.get "keyVersion") (envelope.get "keyVersion") &&
    isText trusted (container.get "signerPublicKey")

/-- `verifyAndOpenPortableExport` of a parsed container. -/
def openContainer (container : Value) (input : OpenInput) : Except String Value :=
  match container, container.get "manifest", container.get "envelope" with
  | .null, _, _ => .error "Cannot read properties of null"
  | container, some manifest, some envelope => do
    if isTrustedMetadata container manifest envelope input.trustedPublicKeySpkiBase64 = false then
      throw "export container metadata is invalid"
    if isText (canonicalDigest platform envelope) (manifest.get "envelopeSha256") = false then
      throw "export envelope digest is invalid"
    if verifySignature platform (utf8 (canonicalReportValue platform manifest))
        (container.get "signature") input.trustedPublicKeySpkiBase64 = false then
      throw "export manifest signature is invalid"
    match decryptEnvelope platform envelope manifest input.exportKey >>= fun plaintext =>
        parseJson platform.double (fromUtf8 platform.replaced plaintext) with
    | none => throw "export decryption failed"
    | some inner => checkInner platform inner manifest
  | _, _, _ => .error "export container metadata is invalid"

/-- `verifyAndOpenPortableExport`. -/
def verifyAndOpenPortableExport (input : OpenInput) : Except String Value :=
  match parseJson platform.double (fromUtf8 platform.replaced input.container) with
  | none => .error "export container is invalid"
  | some container => openContainer platform container input

end Codec

/-! ## What is accepted -/

section Accepted

variable {platform : Platform}

/-- A check that throws is passed. -/
theorem guarded_eq_ok {c : Prop} [Decidable c] {message : String} {α β : Type}
    {rest : Except String β} {result : β} :
    (if c then (throw message : Except String α) >>= fun _ => rest else rest) = .ok result ↔
      ¬ c ∧ rest = .ok result := by
  by_cases hc : c
  · simp [hc, throw, throwThe, MonadExceptOf.throw, bind, Except.bind]
  · rw [if_neg hc]
    exact (and_iff_right hc).symm

/-- Both steps of a sequence return. -/
theorem bind_eq_ok {α β : Type} {first : Except String α} {rest : α → Except String β}
    {result : β} : first >>= rest = .ok result ↔ ∃ value, first = .ok value ∧
      rest value = .ok result := by
  cases first with
  | error message => simp [bind, Except.bind]
  | ok value => simp [bind, Except.bind]

/-- Entries are accepted when each is safe and no path is repeated. -/
theorem checkEntries_eq_ok {seen : List String} {entries : List PortableExportEntry} :
    checkEntries seen entries = .ok () ↔
      (∀ entry ∈ entries, assertEntry entry.path entry.mediaType = .ok () ∧ entry.path ∉ seen) ∧
        (entries.map PortableExportEntry.path).Nodup := by
  induction entries generalizing seen with
  | nil => simp [checkEntries, pure, Except.pure]
  | cons entry entries ih =>
    rw [checkEntries, List.forall_mem_cons, List.map_cons, List.nodup_cons]
    cases hassert : assertEntry entry.path entry.mediaType with
    | error message => simp [bind, Except.bind]
    | ok _ =>
      by_cases hseen : entry.path ∈ seen
      · simp [bind, Except.bind, hseen, throw, throwThe, MonadExceptOf.throw]
      · simp only [bind, Except.bind, hseen, if_false]
        rw [ih]
        constructor
        · rintro ⟨hall, hnodup⟩
          refine ⟨⟨⟨trivial, not_false⟩, fun other hother => ?_⟩, fun hmem => ?_, hnodup⟩
          · obtain ⟨hother, hfresh⟩ := hall other hother
            exact ⟨hother, fun hmem => hfresh (List.mem_cons_of_mem _ hmem)⟩
          · obtain ⟨other, hother, hequal⟩ := List.mem_map.mp hmem
            exact (hall other hother).2 (by rw [hequal]; exact List.mem_cons_self)
        · rintro ⟨⟨-, hall⟩, hfresh, hnodup⟩
          refine ⟨fun other hother => ⟨(hall other hother).1, fun hmem => ?_⟩, hnodup⟩
          rcases List.mem_cons.mp hmem with hequal | hmem
          · exact hfresh (by rw [← hequal]; exact List.mem_map_of_mem hother)
          · exact (hall other hother).2 hmem

/-- What a parsed entry is accepted with. -/
structure AcceptedEntry (platform : Platform) (entry : Value) (path : String) : Prop where
  get_path : entry.get "path" = some (.str path)
  safe : assertEntry path (((entry.get "mediaType").map valueText).getD "undefined") = .ok ()
  content : ∃ content, toBuffer platform (entry.get "contentBase64") = some content ∧
    isDeclaredContent platform entry content = true

theorem assertParsedEntry_eq_ok {entry : Value} {path : String} :
    assertParsedEntry entry = .ok path ↔ entry.get "path" = some (.str path) ∧
      assertEntry path (((entry.get "mediaType").map valueText).getD "undefined") = .ok () := by
  unfold assertParsedEntry
  cases hpath : entry.get "path" with
  | none => simp [isFalsy]
  | some value =>
    cases value with
    | str found =>
      simp only [Option.some.injEq, Value.str.injEq]
      cases hassert : assertEntry found
          (((entry.get "mediaType").map valueText).getD "undefined") with
      | error message =>
        simp only [bind, Except.bind, reduceCtorEq, false_iff, not_and]
        rintro rfl
        simp [hassert]
      | ok _ =>
        simp only [bind, Except.bind, pure, Except.pure, Except.ok.injEq]
        constructor
        · rintro rfl
          exact ⟨rfl, hassert⟩
        · exact And.left
    | _ => simp only [reduceCtorEq, Option.some.injEq, false_and, iff_false]; split <;> simp

/-- The first of several parsed entries is accepted, and then the others. -/
theorem checkParsedEntries_cons {seen : List String} {entry : Value} {entries : List Value} :
    checkParsedEntries platform seen (entry :: entries) = .ok () ↔
      ∃ path, AcceptedEntry platform entry path ∧ path ∉ seen ∧
        checkParsedEntries platform (path :: seen) entries = .ok () := by
  by_cases hnull : entry = .null
  · subst hnull
    simp only [checkParsedEntries, throw, throwThe, MonadExceptOf.throw, reduceCtorEq, false_iff]
    rintro ⟨path, haccepted, -⟩
    exact absurd haccepted.get_path (by simp [Value.get])
  · rw [checkParsedEntries.eq_3 _ _ _ _ hnull]
    cases hpath : assertParsedEntry entry with
    | error message =>
      simp only [bind, Except.bind, reduceCtorEq, false_iff]
      rintro ⟨path, haccepted, -⟩
      rw [assertParsedEntry_eq_ok.mpr ⟨haccepted.get_path, haccepted.safe⟩] at hpath
      cases hpath
    | ok path =>
      obtain ⟨hget, hsafe⟩ := assertParsedEntry_eq_ok.mp hpath
      have hunique : ∀ {other}, AcceptedEntry platform entry other → other = path := by
        intro other haccepted
        have hequal := Option.some.inj (haccepted.get_path.symm.trans hget)
        exact Value.str.inj hequal
      by_cases hseen : path ∈ seen
      · simp only [bind, Except.bind, hseen, if_true, throw, throwThe, MonadExceptOf.throw,
          reduceCtorEq, false_iff]
        rintro ⟨other, haccepted, hfresh, -⟩
        rw [hunique haccepted] at hfresh
        exact hfresh hseen
      · cases hcontent : toBuffer platform (entry.get "contentBase64") with
        | none =>
          simp only [bind, Except.bind, hseen, if_false, throw, throwThe, MonadExceptOf.throw,
            reduceCtorEq, false_iff]
          rintro ⟨other, haccepted, -⟩
          obtain ⟨content, hfound, -⟩ := haccepted.content
          rw [hcontent] at hfound
          cases hfound
        | some content =>
          cases hdeclared : isDeclaredContent platform entry content with
          | false =>
            simp only [bind, Except.bind, hseen, if_false, hdeclared, if_true, throw, throwThe,
              MonadExceptOf.throw, reduceCtorEq, false_iff]
            rintro ⟨other, haccepted, -⟩
            obtain ⟨found, hfound, hok⟩ := haccepted.content
            rw [hcontent] at hfound
            rw [← Option.some.inj hfound, hdeclared] at hok
            cases hok
          | true =>
            simp only [bind, Except.bind, hseen, if_false, hdeclared, Bool.true_eq_false]
            constructor
            · intro hrest
              exact ⟨path, ⟨hget, hsafe, content, hcontent, hdeclared⟩, hseen, hrest⟩
            · rintro ⟨other, haccepted, -, hrest⟩
              rw [hunique haccepted] at hrest
              exact hrest

/-- Parsed entries are accepted when each is and no path is repeated. -/
theorem checkParsedEntries_eq_ok {seen : List String} {entries : List Value} :
    checkParsedEntries platform seen entries = .ok () ↔
      ∃ paths, List.Forall₂ (AcceptedEntry platform) entries paths ∧ paths.Nodup ∧
        ∀ path ∈ paths, path ∉ seen := by
  induction entries generalizing seen with
  | nil =>
    simp only [checkParsedEntries, pure, Except.pure, true_iff]
    exact ⟨[], .nil, List.nodup_nil, fun path hmem => absurd hmem List.not_mem_nil⟩
  | cons entry entries ih =>
    rw [checkParsedEntries_cons]
    constructor
    · rintro ⟨path, haccepted, hfresh, hrest⟩
      obtain ⟨paths, hall, hnodup, hothers⟩ := ih.mp hrest
      refine ⟨path :: paths, .cons haccepted hall, List.nodup_cons.mpr ⟨?_, hnodup⟩, ?_⟩
      · exact fun hmem => hothers path hmem List.mem_cons_self
      · intro other hmem
        rcases List.mem_cons.mp hmem with rfl | hmem
        · exact hfresh
        · exact fun hseen => hothers other hmem (List.mem_cons_of_mem _ hseen)
    · rintro ⟨paths, hall, hnodup, hothers⟩
      cases hall with
      | @cons _ path _ paths haccepted hall =>
        obtain ⟨hfresh, hnodup⟩ := List.nodup_cons.mp hnodup
        refine ⟨path, haccepted, hothers path List.mem_cons_self,
          ih.mpr ⟨paths, hall, hnodup, fun other hmem hseen => ?_⟩⟩
        rcases List.mem_cons.mp hseen with rfl | hseen
        · exact hfresh hmem
        · exact hothers other (List.mem_cons_of_mem _ hmem) hseen

/-- An inner manifest is accepted when it agrees with the outer one and its entries are. -/
theorem checkInner_eq_ok {inner manifest opened : Value} :
    checkInner platform inner manifest = .ok opened ↔ opened = inner ∧
      isText "legacy-vault-portable-export/v1" (inner.get "format") = true ∧
      strictEquals (inner.get "archiveId") (manifest.get "archiveId") = true ∧
      strictEquals (inner.get "createdAt") (manifest.get "createdAt") = true ∧
      ∃ entries, inner.get "entries" = some (.arr entries) ∧
        checkParsedEntries platform [] entries = .ok () := by
  have hnone : ∀ {message : String}, (∀ entries, inner.get "entries" ≠ some (.arr entries)) →
      ((.error message : Except String Value) = .ok opened ↔ opened = inner ∧
        isText "legacy-vault-portable-export/v1" (inner.get "format") = true ∧
        strictEquals (inner.get "archiveId") (manifest.get "archiveId") = true ∧
        strictEquals (inner.get "createdAt") (manifest.get "createdAt") = true ∧
        ∃ entries, inner.get "entries" = some (.arr entries) ∧
          checkParsedEntries platform [] entries = .ok ()) := by
    intro message hno
    simp only [reduceCtorEq, false_iff]
    rintro ⟨-, -, -, -, entries, hentries, -⟩
    exact hno entries hentries
  unfold checkInner
  split
  · exact hnone (fun entries => by simp [Value.get])
  · rename_i entries hnotNull hentries
    dsimp only
    rw [guarded_eq_ok, Bool.not_eq_false, Bool.and_eq_true, Bool.and_eq_true, hentries]
    constructor
    · rintro ⟨⟨⟨hformat, harchive⟩, hcreated⟩, hchecked⟩
      obtain ⟨_, hentries, hreturned⟩ := bind_eq_ok.mp hchecked
      exact ⟨(Except.ok.inj hreturned).symm, hformat, harchive, hcreated, entries, rfl, hentries⟩
    · rintro ⟨rfl, hformat, harchive, hcreated, found, hfound, hchecked⟩
      obtain rfl := Value.arr.inj (Option.some.inj hfound)
      exact ⟨⟨⟨hformat, harchive⟩, hcreated⟩, bind_eq_ok.mpr ⟨(), hchecked, rfl⟩⟩
  · rename_i hnotNull hnotArray
    exact hnone (fun entries => hnotArray entries)

/-- What a container is opened with. -/
structure Opens (platform : Platform) (container : Value) (input : OpenInput) (opened : Value)
    (manifest envelope inner : Value) (plaintext : Bytes) : Prop where
  get_manifest : container.get "manifest" = some manifest
  get_envelope : container.get "envelope" = some envelope
  metadata : isTrustedMetadata container manifest envelope input.trustedPublicKeySpkiBase64 = true
  digest : isText (canonicalDigest platform envelope) (manifest.get "envelopeSha256") = true
  signature : verifySignature platform (utf8 (canonicalReportValue platform manifest))
    (container.get "signature") input.trustedPublicKeySpkiBase64 = true
  decrypted : decryptEnvelope platform envelope manifest input.exportKey = some plaintext
  parsed : parseJson platform.double (fromUtf8 platform.replaced plaintext) = some inner
  checked : checkInner platform inner manifest = .ok opened

/-- A container is opened exactly with what passes every check. -/
theorem openContainer_eq_ok {container opened : Value} {input : OpenInput} :
    openContainer platform container input = .ok opened ↔ ∃ manifest envelope inner plaintext,
      Opens platform container input opened manifest envelope inner plaintext := by
  unfold openContainer
  split
  · simp only [reduceCtorEq, false_iff]
    rintro ⟨manifest, envelope, inner, plaintext, hopens⟩
    exact absurd hopens.get_manifest (by simp [Value.get])
  · rename_i manifest envelope hnotNull hmanifest henvelope
    constructor
    · intro h
      dsimp only at h
      obtain ⟨hmetadata, h⟩ := guarded_eq_ok.mp h
      obtain ⟨hdigest, h⟩ := guarded_eq_ok.mp h
      obtain ⟨hsignature, h⟩ := guarded_eq_ok.mp h
      split at h
      · exact absurd h (by simp)
      · rename_i inner hinner
        obtain ⟨plaintext, hdecrypted, hparsed⟩ := Option.bind_eq_some_iff.mp hinner
        exact ⟨manifest, envelope, inner, plaintext, hmanifest, henvelope,
          Bool.eq_true_of_not_eq_false hmetadata, Bool.eq_true_of_not_eq_false hdigest,
          Bool.eq_true_of_not_eq_false hsignature, hdecrypted, hparsed, h⟩
    · rintro ⟨foundManifest, foundEnvelope, inner, plaintext, hopens⟩
      have hsameManifest := Option.some.inj (hopens.get_manifest.symm.trans hmanifest)
      have hsameEnvelope := Option.some.inj (hopens.get_envelope.symm.trans henvelope)
      subst hsameManifest hsameEnvelope
      simp only [hopens.metadata, hopens.digest, hopens.signature, hopens.decrypted,
        hopens.parsed, Option.bind_eq_bind, Option.bind_some, Bool.true_eq_false, if_false]
      exact hopens.checked
  · rename_i hnotNull hnotBoth
    simp only [reduceCtorEq, false_iff]
    rintro ⟨manifest, envelope, inner, plaintext, hopens⟩
    exact hnotBoth manifest envelope hopens.get_manifest hopens.get_envelope

end Accepted

end LegacyVault.ExportCodec
