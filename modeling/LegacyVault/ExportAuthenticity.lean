import LegacyVault.ExportRoundTrip

/-!
# An opened export is one that was created

A container that is opened under a trusted key is given by whoever sends it.
The signature is over the manifest as it is written again, the manifest binds
the digest of the envelope as it is written again, and the envelope is
authenticated. So what is opened is what one call sealed: members that are
added next to these, their order and the writing of the texts do not count.

What the platform is relied on is stated of the container at hand: a signature
that is verified was made by a call, an envelope with the digest of a call's
envelope is written like it, and an envelope of a call is decrypted under its
own key and associated data only.
-/

namespace LegacyVault.ExportCodec

open Buffers EcmaText EcmaValues JsonText

section Authenticity

variable {platform : Platform}

/-- The container that an input is parsed as. -/
def OpenInput.parsed (platform : Platform) (input : OpenInput) : Option Value :=
  parseJson platform.double (fromUtf8 platform.replaced input.container)

/-- The manifest of an input as it is signed. -/
def OpenInput.manifestBytes (platform : Platform) (input : OpenInput) : Option Bytes := do
  let container ← input.parsed platform
  let manifest ← container.get "manifest"
  return utf8 (canonicalReportValue platform manifest)

/-- The envelope of an input as it is digested. -/
def OpenInput.envelopeBytes (platform : Platform) (input : OpenInput) : Option Bytes := do
  let container ← input.parsed platform
  let envelope ← container.get "envelope"
  return utf8 (canonicalReportValue platform envelope)

/-- The signature of an input. -/
def OpenInput.signature (platform : Platform) (input : OpenInput) : Option Bytes := do
  let container ← input.parsed platform
  toBuffer platform (container.get "signature")

/-- The calls made the signatures that can be had, and no one can forge, collide or reseal. -/
structure Authentic (platform : Platform) (calls : Set ExportInput) (input : OpenInput) : Prop where
  /-- The signature of the input, when it is verified, was made by a call. -/
  signed : ∀ message signature, input.manifestBytes platform = some message →
    input.signature platform = some signature →
    platform.verify (fromBase64 input.trustedPublicKeySpkiBase64) message signature = true →
    ∃ call ∈ calls, message = call.manifestBytes platform
  /-- The envelope of the input has the digest of a call's envelope only as that envelope. -/
  digested : ∀ call ∈ calls, ∀ bytes, input.envelopeBytes platform = some bytes →
    platform.sha256 bytes = canonicalDigest platform (call.envelope platform) →
    bytes = utf8 (canonicalReportValue platform (call.envelope platform))
  /-- What a call sealed is authenticated under its own key and associated data only. -/
  sealed : ∀ call ∈ calls, ∀ data plaintext,
    platform.decrypt input.exportKey call.iv data (call.sealed platform).1
      (call.sealed platform).2 = some plaintext →
    input.exportKey = call.exportKey ∧ data = associatedData call.archiveId call.keyVersion

/-- A relative path without empty segments, `.`, `..` and backslashes. -/
def IsSafePath (path : String) : Prop :=
  path ≠ "" ∧ path.toList.head? ≠ some '/' ∧ '\\' ∉ path.toList ∧
    ∀ segment ∈ path.toList.splitOn '/', segment ≠ [] ∧ segment ≠ ['.'] ∧ segment ≠ ['.', '.']

theorem isSafePath_of_assertEntry {path mediaType : String}
    (h : assertEntry path mediaType = .ok ()) : IsSafePath path := by
  unfold assertEntry at h
  split at h
  · cases h
  · rename_i hsafe
    simp only [isUnsafePath, Bool.or_eq_true, not_or, beq_iff_eq, List.any_eq_true, not_exists,
      not_and, List.contains_iff_mem] at hsafe
    obtain ⟨⟨⟨hempty, habsolute⟩, hbackslash⟩, hsegments⟩ := hsafe
    refine ⟨hempty, habsolute, hbackslash, fun segment hsegment => ?_⟩
    obtain ⟨⟨hnil, hdot⟩, hdots⟩ := hsegments segment hsegment
    exact ⟨hnil, hdot, hdots⟩

/-! ## The opened call -/

/-- What is opened was decrypted of the container. -/
theorem verifyAndOpen_eq_ok {input : OpenInput} {inner : Value} :
    verifyAndOpenPortableExport platform input = .ok inner ↔ ∃ container,
      input.parsed platform = some container ∧ ∃ manifest envelope parsed plaintext,
        Opens platform container input inner manifest envelope parsed plaintext := by
  rw [verifyAndOpenPortableExport, OpenInput.parsed]
  cases parseJson platform.double (fromUtf8 platform.replaced input.container) with
  | none => simp
  | some container => simp [openContainer_eq_ok]

/-- What is parsed is a value of a JSON text. -/
theorem parsed_eq_evaluate {input : OpenInput} {container : Value}
    (h : input.parsed platform = some container) :
    ∃ json, container = evaluate platform.double json := by
  obtain ⟨json, -, hjson⟩ := Option.map_eq_some_iff.mp h
  exact ⟨json, hjson.symm⟩

/-- A manifest that is written like a call's has its archive, key version and digest. -/
structure WrittenManifest (platform : Platform) (call : ExportInput) (manifest : Value) : Prop where
  archiveId : manifest.get "archiveId" = some (.str call.archiveId)
  keyVersion : manifest.get "keyVersion" = some (.num call.keyVersion)
  digest : manifest.get "envelopeSha256" =
    some (.str (canonicalDigest platform (call.envelope platform)))

theorem writtenManifest_of_text {call : ExportInput} {json : Json}
    (hversion : call.keyVersion.isPositiveSafeInteger = true)
    (h : canonicalReportValue platform (evaluate platform.double json) =
      canonicalReportValue platform (call.manifest platform)) :
    WrittenManifest platform call (evaluate platform.double json) := by
  obtain ⟨version, -, hnumber⟩ := keyVersion_eq_ofNat hversion
  refine ⟨get_str_of_canonicalText h manifestNames_nodup rfl, ?_,
    get_str_of_canonicalText h manifestNames_nodup rfl⟩
  rw [hnumber]
  refine get_num_of_canonicalText h manifestNames_nodup ?_
  rw [← Number.ofNat, ← hnumber]
  rfl

/-- An envelope that is written like a call's has its IV, ciphertext and tag. -/
structure WrittenEnvelope (platform : Platform) (call : ExportInput) (envelope : Value) : Prop where
  iv : envelope.get "iv" = some (.str (base64 call.iv))
  ciphertext : envelope.get "ciphertext" = some (.str (base64 (call.sealed platform).1))
  tag : envelope.get "authenticationTag" = some (.str (base64 (call.sealed platform).2))

theorem writtenEnvelope_of_text {call : ExportInput} {json : Json}
    (h : canonicalReportValue platform (evaluate platform.double json) =
      canonicalReportValue platform (call.envelope platform)) :
    WrittenEnvelope platform call (evaluate platform.double json) :=
  ⟨get_str_of_canonicalText h envelopeNames_nodup rfl,
    get_str_of_canonicalText h envelopeNames_nodup rfl,
    get_str_of_canonicalText h envelopeNames_nodup rfl⟩

/-- What is decrypted of a call's manifest and envelope is decrypted of what the call sealed. -/
theorem decrypt_of_written {call : ExportInput} {envelope manifest : Value} {key plaintext : Bytes}
    (hmanifest : WrittenManifest platform call manifest)
    (henvelope : WrittenEnvelope platform call envelope)
    (h : decryptEnvelope platform envelope manifest key = some plaintext) :
    platform.decrypt key call.iv (associatedData call.archiveId call.keyVersion)
      (call.sealed platform).1 (call.sealed platform).2 = some plaintext := by
  rw [decryptEnvelope, hmanifest.archiveId, hmanifest.keyVersion, henvelope.iv,
    henvelope.ciphertext, henvelope.tag] at h
  simp only [Option.bind_eq_bind, Option.bind_eq_some_iff, toBuffer, fromBase64_base64,
    Option.some.injEq, exists_eq_left', joinedText, valueText] at h
  obtain ⟨_, -, _, -, _, -, _, -, hdecrypted⟩ := h
  exact hdecrypted

/-- A container whose manifest is a call's is opened as what the call sealed. -/
theorem opened_of_manifest (hcorrect : platform.Correct) {calls : Set ExportInput}
    {input : OpenInput} (hauthentic : Authentic platform calls input) {call : ExportInput}
    (hcall : call ∈ calls) (hcreated : ∃ made, createPortableExport platform call = .ok made)
    {inner : Value} (hopened : verifyAndOpenPortableExport platform input = .ok inner)
    (hmanifest : input.manifestBytes platform = some (call.manifestBytes platform)) :
    inner = platform.sorted (call.inner platform) := by
  obtain ⟨made, hmade⟩ := hcreated
  obtain ⟨-, -, -, hkey, hversion, -⟩ := createPortableExport_eq_ok.mp hmade
  obtain ⟨container, hparsed, manifest, envelope, parsed, plaintext, hopens⟩ :=
    verifyAndOpen_eq_ok.mp hopened
  obtain ⟨json, hjson⟩ := parsed_eq_evaluate hparsed
  obtain ⟨manifestJson, hmanifestJson⟩ := evaluate_get (hjson ▸ hopens.get_manifest)
  obtain ⟨envelopeJson, henvelopeJson⟩ := evaluate_get (hjson ▸ hopens.get_envelope)
  have hmanifestText : canonicalReportValue platform manifest =
      canonicalReportValue platform (call.manifest platform) := by
    simp only [OpenInput.manifestBytes, hparsed, hopens.get_manifest, Option.bind_eq_bind,
      Option.bind_some, Option.pure_def, Option.some.injEq] at hmanifest
    exact utf8_injective hmanifest
  have hwritten : WrittenManifest platform call manifest := by
    rw [hmanifestJson] at hmanifestText ⊢
    exact writtenManifest_of_text hversion hmanifestText
  have hdigest : canonicalDigest platform envelope =
      canonicalDigest platform (call.envelope platform) := by
    have hbound := hopens.digest
    rw [hwritten.digest, isText, beq_iff_eq] at hbound
    exact hbound.symm
  have hbytes : input.envelopeBytes platform =
      some (utf8 (canonicalReportValue platform envelope)) := by
    simp [OpenInput.envelopeBytes, hparsed, hopens.get_envelope]
  have henvelopeText := utf8_injective (hauthentic.digested call hcall _ hbytes hdigest)
  have hsealed : WrittenEnvelope platform call envelope := by
    rw [henvelopeJson] at henvelopeText ⊢
    exact writtenEnvelope_of_text henvelopeText
  have hdecrypted := decrypt_of_written hwritten hsealed hopens.decrypted
  obtain ⟨hsameKey, -⟩ := hauthentic.sealed call hcall _ _ hdecrypted
  have hplaintext : plaintext = call.plaintext platform := by
    rw [hsameKey] at hdecrypted
    have hcall := hcorrect.decrypts call.exportKey call.iv
      (associatedData call.archiveId call.keyVersion) (call.plaintext platform) hkey call.iv_length
    exact Option.some.inj (hdecrypted.symm.trans hcall)
  have hinner := hopens.parsed
  rw [hplaintext, ExportInput.plaintext, parseJson_canonical (plain_inner hcorrect call)] at hinner
  obtain ⟨hreturned, -⟩ := checkInner_eq_ok.mp hopens.checked
  rw [hreturned]
  exact (Option.some.inj hinner).symm

/-- What is opened is what some call sealed. -/
theorem exists_call (hcorrect : platform.Correct) {calls : Set ExportInput}
    (hcalls : ∀ call ∈ calls, ∃ made, createPortableExport platform call = .ok made)
    {input : OpenInput} (hauthentic : Authentic platform calls input) {inner : Value}
    (hopened : verifyAndOpenPortableExport platform input = .ok inner) :
    ∃ call ∈ calls, input.manifestBytes platform = some (call.manifestBytes platform) ∧
      inner = platform.sorted (call.inner platform) := by
  obtain ⟨container, hparsed, manifest, envelope, parsed, plaintext, hopens⟩ :=
    verifyAndOpen_eq_ok.mp hopened
  have hmessage : input.manifestBytes platform =
      some (utf8 (canonicalReportValue platform manifest)) := by
    simp [OpenInput.manifestBytes, hparsed, hopens.get_manifest]
  have hsignature := hopens.signature
  unfold verifySignature at hsignature
  split at hsignature
  · rename_i signature hsigned
    have hpresented : input.signature platform = some signature := by
      simp [OpenInput.signature, hparsed, hsigned]
    obtain ⟨call, hcall, hequal⟩ := hauthentic.signed _ signature hmessage hpresented hsignature
    rw [hequal] at hmessage
    exact ⟨call, hcall, hmessage,
      opened_of_manifest hcorrect hauthentic hcall (hcalls call hcall) hopened hmessage⟩
  · cases hsignature

/-- The paths of what is opened are distinct and safe, whoever made it. -/
theorem opened_paths {input : OpenInput} {inner : Value}
    (hopened : verifyAndOpenPortableExport platform input = .ok inner) :
    ∃ entries paths, inner.get "entries" = some (.arr entries) ∧
      List.Forall₂ (fun entry path => entry.get "path" = some (.str path) ∧ IsSafePath path)
        entries paths ∧ paths.Nodup := by
  obtain ⟨_, -, _, _, _, _, hopens⟩ := verifyAndOpen_eq_ok.mp hopened
  obtain ⟨hreturned, -, -, -, entries, hentries, hchecked⟩ := checkInner_eq_ok.mp hopens.checked
  obtain ⟨paths, haccepted, hdistinct, -⟩ := checkParsedEntries_eq_ok.mp hchecked
  refine ⟨entries, paths, hreturned ▸ hentries, haccepted.imp ?_, hdistinct⟩
  intro entry path hentry
  exact ⟨hentry.get_path, isSafePath_of_assertEntry hentry.safe⟩

/-- The manifest and the envelope of a created container are those of its call. -/
theorem manifestBytes_container (hcorrect : platform.Correct) (call : ExportInput)
    (h : call.keyVersion.isPositiveSafeInteger = true) (signer : Signer) (key : Bytes)
    (trusted : String) :
    OpenInput.manifestBytes platform
      ⟨utf8 (canonicalReportValue platform (call.container platform signer)), key, trusted⟩ =
        some (call.manifestBytes platform) := by
  have hcontainer := plain_container hcorrect h signer
  have hget : (platform.sorted (call.container platform signer)).get "manifest" = _ :=
    get_sortValue_of_plain hcontainer rfl
  rw [OpenInput.manifestBytes, OpenInput.parsed, parseJson_canonical hcontainer]
  simp [hget, ExportInput.manifestBytes, canonicalReportValue_sorted hcorrect]

theorem envelopeBytes_container (hcorrect : platform.Correct) (call : ExportInput)
    (h : call.keyVersion.isPositiveSafeInteger = true) (signer : Signer) (key : Bytes)
    (trusted : String) :
    OpenInput.envelopeBytes platform
      ⟨utf8 (canonicalReportValue platform (call.container platform signer)), key, trusted⟩ =
        some (utf8 (canonicalReportValue platform (call.envelope platform))) := by
  have hcontainer := plain_container hcorrect h signer
  have hget : (platform.sorted (call.container platform signer)).get "envelope" = _ :=
    get_sortValue_of_plain hcontainer rfl
  rw [OpenInput.envelopeBytes, OpenInput.parsed, parseJson_canonical hcontainer]
  simp [hget, canonicalReportValue_sorted hcorrect]

end Authenticity

/-! ## The example -/

/-- The platform of the example authenticates the key, the IV and the associated data. -/
theorem examplePlatform_authenticates {key iv data other plaintext opened : Bytes}
    (hkey : key.length = 32) (hiv : iv.length = 12)
    (h : examplePlatform.decrypt key iv other (examplePlatform.encrypt key iv data plaintext).1
      (examplePlatform.encrypt key iv data plaintext).2 = some opened) : other = data := by
  simp only [examplePlatform] at h
  by_cases hexample : (key, iv, data, plaintext) = exampleSealing
  · have hdata : data = exampleSealing.2.2.1 := congrArg (fun sealing => sealing.2.2.1) hexample
    rw [if_pos hexample] at h
    split at h
    · rename_i hcontext
      rw [hdata]
      exact congrArg (fun context => context.2.2) hcontext.1
    · rw [if_neg (fun htag => exampleTag_ne hkey hiv htag.symm)] at h
      cases h
  · rw [if_neg hexample] at h
    split at h
    · rename_i hcontext
      exact absurd (congrArg Prod.snd hcontext.2) (exampleTag_ne hkey hiv)
    · split at h
      · rename_i htag
        exact (List.append_cancel_left htag).symm
      · cases h

/-- The container of the example as it is opened. -/
def exampleOpening : OpenInput where
  container := exampleContainer
  exportKey := List.replicate 32 0
  trustedPublicKeySpkiBase64 := base64 exampleSigner.publicKeySpki

theorem exampleOpening_authentic : Authentic examplePlatform {exampleInput} exampleOpening where
  signed := by
    intro message _ hmessage _ _
    have hmanifest := manifestBytes_container examplePlatform_correct exampleInput
      (by decide) exampleSigner (List.replicate 32 0)
      (base64 exampleSigner.publicKeySpki)
    exact ⟨exampleInput, rfl, Option.some.inj (hmessage.symm.trans hmanifest)⟩
  digested := by
    rintro _ rfl bytes hbytes _
    have henvelope := envelopeBytes_container examplePlatform_correct exampleInput
      (by decide) exampleSigner (List.replicate 32 0)
      (base64 exampleSigner.publicKeySpki)
    exact Option.some.inj (hbytes.symm.trans henvelope)
  sealed := by
    rintro _ rfl data plaintext hdecrypted
    exact ⟨rfl, examplePlatform_authenticates (by decide) (by decide) hdecrypted⟩

theorem exampleOpening_opened : verifyAndOpenPortableExport examplePlatform exampleOpening =
    .ok (examplePlatform.sorted (exampleInput.inner examplePlatform)) := by
  have hopened := verifyAndOpen_create examplePlatform_correct exampleInput_created
    exampleInput_signer
  exact hopened

section Authenticity

variable {platform : Platform}

end Authenticity

end LegacyVault.ExportCodec
