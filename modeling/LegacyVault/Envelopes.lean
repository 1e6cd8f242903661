import LegacyVault.Entities
import LegacyVault.ExportCodec

/-!
# Envelopes

`encryptEnvelope` and `decryptEnvelope`: AES-256-GCM under a key of 32 bytes,
with a context as the associated data. The context is joined by colons
without any escape, so its fields have to be told apart from both ends: three
identifiers without a colon from the left, the key version from the right, and
whatever is between them is the purpose.

AES-GCM is a parameter.
-/

namespace LegacyVault.Envelopes

open Buffers EcmaText EcmaValues

/-- `EncryptionContext`. -/
structure EncryptionContext where
  organizationId : String
  householdId : String
  recordId : String
  purpose : String
  keyVersion : Number
  deriving DecidableEq

/-- `EncryptedEnvelope`. -/
structure EncryptedEnvelope where
  algorithm : String
  keyVersion : Number
  iv : String
  ciphertext : String
  authenticationTag : String

/-- AES-256-GCM under key, IV and associated data. -/
structure AesGcm where
  /-- Ciphertext and tag of a plaintext. -/
  encrypt : Bytes → Bytes → Bytes → Bytes → Bytes × Bytes
  /-- The plaintext of a ciphertext and its tag. -/
  decrypt : Bytes → Bytes → Bytes → Bytes → Bytes → Option Bytes

/-- What was encrypted is decrypted under the associated data it was encrypted with, and under
no other. -/
def AesGcm.OpensExactly (aes : AesGcm) : Prop :=
  ∀ key iv data data' plaintext : Bytes, key.length = 32 → iv.length = 12 →
    aes.decrypt key iv data' (aes.encrypt key iv data plaintext).1
      (aes.encrypt key iv data plaintext).2 = if data' = data then some plaintext else none

/-- The bytes that `randomBytes(12)` draws. -/
structure InitializationVector where
  bytes : Bytes
  length_bytes : bytes.length = 12

/-- `assertAesKey`. -/
def assertAesKey (key : Bytes) (name : String) : Except String Unit :=
  if key.length = 32 then .ok () else .error (name ++ " must be exactly 32 bytes")

/-- The text of a context. -/
def EncryptionContext.text (context : EncryptionContext) : String :=
  ":".intercalate ["legacy-vault", context.organizationId, context.householdId, context.recordId,
    context.purpose, "v" ++ ExportCodec.numberText context.keyVersion]

/-- `associatedData`. -/
def associatedData (context : EncryptionContext) : Except String Bytes :=
  if context.keyVersion.isPositiveSafeInteger then .ok (utf8 context.text)
  else .error "key version must be a positive integer"

/-- `encryptEnvelope`, with the IV it draws. -/
def encryptEnvelope (aes : AesGcm) (plaintext key : Bytes) (context : EncryptionContext)
    (iv : InitializationVector) : Except String EncryptedEnvelope := do
  assertAesKey key "data encryption key"
  let data ← associatedData context
  let (ciphertext, tag) := aes.encrypt key iv.bytes data plaintext
  return {
    algorithm := "A256GCM"
    keyVersion := context.keyVersion
    iv := base64 iv.bytes
    ciphertext := base64 ciphertext
    authenticationTag := base64 tag }

/-- `decryptEnvelope`. -/
def decryptEnvelope (aes : AesGcm) (envelope : EncryptedEnvelope) (key : Bytes)
    (context : EncryptionContext) : Except String Bytes := do
  assertAesKey key "data encryption key"
  if envelope.algorithm ≠ "A256GCM" ∨ envelope.keyVersion ≠ context.keyVersion ∨
      context.keyVersion = .nan then
    throw "envelope algorithm or key version mismatch"
  else
    match (associatedData context).toOption.bind (fun data =>
      aes.decrypt key (fromBase64 envelope.iv) data (fromBase64 envelope.ciphertext)
        (fromBase64 envelope.authenticationTag)) with
    | some plaintext => return plaintext
    | none => throw "envelope authentication failed"

/-- A context whose identifiers hold no colon and whose key version is one of a key. The purpose
is any text. -/
structure EncryptionContext.WellFormed (context : EncryptionContext) : Prop where
  organizationId : ':' ∉ context.organizationId.toList
  householdId : ':' ∉ context.householdId.toList
  recordId : ':' ∉ context.recordId.toList
  keyVersion : context.keyVersion.isPositiveSafeInteger = true

/-- Texts before a first separator are the same, and so are those after it. -/
theorem append_cons_inj {α : Type} {separator : α} {left left' right right' : List α}
    (hleft : separator ∉ left) (hleft' : separator ∉ left')
    (h : left ++ separator :: right = left' ++ separator :: right') :
    left = left' ∧ right = right' := by
  induction left generalizing left' with
  | nil =>
    cases left' with
    | nil => exact ⟨rfl, List.tail_eq_of_cons_eq h⟩
    | cons first rest =>
      obtain rfl := List.head_eq_of_cons_eq h
      exact absurd List.mem_cons_self hleft'
  | cons first rest ih =>
    cases left' with
    | nil =>
      obtain rfl := List.head_eq_of_cons_eq h
      exact absurd List.mem_cons_self hleft
    | cons first' rest' =>
      obtain ⟨hfirst, hrest⟩ := List.cons.inj h
      obtain ⟨hsame, hright⟩ := ih (fun hmem => hleft (List.mem_cons_of_mem _ hmem))
        (fun hmem => hleft' (List.mem_cons_of_mem _ hmem)) hrest
      exact ⟨by rw [hfirst, hsame], hright⟩

/-- Texts after a last separator are the same, and so are those before it. -/
theorem append_cons_inj_right {α : Type} {separator : α} {left left' right right' : List α}
    (hright : separator ∉ right) (hright' : separator ∉ right')
    (h : left ++ separator :: right = left' ++ separator :: right') :
    left = left' ∧ right = right' := by
  have hreverse := congrArg List.reverse h
  rw [List.reverse_append, List.reverse_append, List.reverse_cons, List.reverse_cons,
    List.append_assoc, List.append_assoc] at hreverse
  obtain ⟨hsame, hrest⟩ := append_cons_inj (fun hmem => hright (List.mem_reverse.mp hmem))
    (fun hmem => hright' (List.mem_reverse.mp hmem)) hreverse
  exact ⟨List.reverse_injective hrest, List.reverse_injective hsame⟩

/-- A positive safe integer is written in digits. -/
theorem numberText_digits {n : Number} (h : n.isPositiveSafeInteger = true) :
    ∃ value, n = .ofNat value ∧
      (ExportCodec.numberText n).toList = Nat.toDigits 10 value := by
  obtain ⟨value, hvalue, -⟩ := (Option.any_eq_true _ _).mp h
  obtain rfl := Number.natValue?_eq_some hvalue
  refine ⟨value, rfl, ?_⟩
  rw [Number.ofNat, ExportCodec.numberText, String.toList_ofList, digits_ofNat]

/-- Digits hold no colon. -/
theorem colon_notMem_digits (value : Nat) : ':' ∉ Nat.toDigits 10 value := by
  intro hmem
  have hdigit := Nat.isDigit_of_mem_toDigits (by decide) (by decide) hmem
  exact absurd hdigit (by decide)

/-- The characters of a context. -/
theorem EncryptionContext.text_toList (context : EncryptionContext) :
    context.text.toList = "legacy-vault:".toList ++ (context.organizationId.toList ++ ':' ::
      (context.householdId.toList ++ ':' :: (context.recordId.toList ++ ':' ::
        (context.purpose.toList ++ ':' ::
          ('v' :: (ExportCodec.numberText context.keyVersion).toList))))) := by
  have htext : context.text = "legacy-vault" ++ ":" ++ context.organizationId ++ ":" ++
      context.householdId ++ ":" ++ context.recordId ++ ":" ++ context.purpose ++ ":" ++
      ("v" ++ ExportCodec.numberText context.keyVersion) := rfl
  simp [htext]

/-- Contexts of one text are the same. -/
theorem EncryptionContext.text_injOn : Set.InjOn EncryptionContext.text {c | c.WellFormed} := by
  intro c hc c' hc' h
  have hlist := congrArg String.toList h
  rw [text_toList, text_toList] at hlist
  obtain ⟨horganization, hlist⟩ := append_cons_inj hc.organizationId hc'.organizationId
    (List.append_cancel_left hlist)
  obtain ⟨hhousehold, hlist⟩ := append_cons_inj hc.householdId hc'.householdId hlist
  obtain ⟨hrecord, hlist⟩ := append_cons_inj hc.recordId hc'.recordId hlist
  -- The purpose may hold colons, but the key version after it does not.
  obtain ⟨version, hversion, hdigits⟩ := numberText_digits hc.keyVersion
  obtain ⟨version', hversion', hdigits'⟩ := numberText_digits hc'.keyVersion
  have hcolon : ∀ value, ':' ∉ 'v' :: Nat.toDigits 10 value := by
    intro value hmem
    rcases List.mem_cons.mp hmem with hv | hmem
    · exact absurd hv (by decide)
    · exact colon_notMem_digits value hmem
  rw [hdigits, hdigits'] at hlist
  obtain ⟨hpurpose, hlist⟩ := append_cons_inj_right (hcolon version) (hcolon version') hlist
  have hnumber : c.keyVersion = c'.keyVersion := by
    have hdigits := congrArg (fun digits => Nat.ofDigitChars 10 digits 0) (List.cons.inj hlist).2
    simp only [Nat.ofDigitChars_ten_toDigits] at hdigits
    rw [hversion, hversion', hdigits]
  cases c
  cases c'
  simp only [EncryptionContext.mk.injEq]
  exact ⟨String.toList_injective horganization, String.toList_injective hhousehold,
    String.toList_injective hrecord, String.toList_injective hpurpose, hnumber⟩

/-- The associated data of a well-formed context. -/
theorem associatedData_eq {context : EncryptionContext} (h : context.WellFormed) :
    associatedData context = .ok (utf8 context.text) := if_pos h.keyVersion

/-- Well-formed contexts have associated data of their own. -/
theorem associatedData_injOn : Set.InjOn associatedData {c | c.WellFormed} := by
  intro c hc c' hc' h
  rw [associatedData_eq hc, associatedData_eq hc'] at h
  exact EncryptionContext.text_injOn hc hc' (utf8_injective (Except.ok.inj h))

/-- What encryption returns. -/
theorem encryptEnvelope_eq (aes : AesGcm) (plaintext : Bytes) {key : Bytes}
    {context : EncryptionContext} (iv : InitializationVector) (hkey : key.length = 32)
    (h : context.WellFormed) :
    encryptEnvelope aes plaintext key context iv = .ok {
      algorithm := "A256GCM"
      keyVersion := context.keyVersion
      iv := base64 iv.bytes
      ciphertext := base64 (aes.encrypt key iv.bytes (utf8 context.text) plaintext).1
      authenticationTag := base64 (aes.encrypt key iv.bytes (utf8 context.text) plaintext).2 } := by
  rw [encryptEnvelope, assertAesKey, if_pos hkey, associatedData_eq h]
  rfl

/-- An envelope opens under the context it was encrypted in, and under no other. -/
theorem decryptEnvelope_encrypted {aes : AesGcm} (hexact : aes.OpensExactly) {plaintext key : Bytes}
    {context context' : EncryptionContext} {iv : InitializationVector}
    {envelope : EncryptedEnvelope} (hkey : key.length = 32) (h : context.WellFormed)
    (h' : context'.WellFormed)
    (hencrypted : encryptEnvelope aes plaintext key context iv = .ok envelope) :
    decryptEnvelope aes envelope key context' =
      if context' = context then .ok plaintext
      else if context'.keyVersion = context.keyVersion then .error "envelope authentication failed"
      else .error "envelope algorithm or key version mismatch" := by
  rw [encryptEnvelope_eq aes plaintext iv hkey h] at hencrypted
  obtain rfl := Except.ok.inj hencrypted
  have hfinite : context'.keyVersion ≠ .nan := by
    intro hnan
    have hsafe := h'.keyVersion
    rw [hnan] at hsafe
    exact absurd hsafe (by decide)
  rw [decryptEnvelope, assertAesKey, if_pos hkey]
  change (if "A256GCM" ≠ "A256GCM" ∨ context.keyVersion ≠ context'.keyVersion ∨
    context'.keyVersion = .nan then _ else _) = _
  by_cases hversion : context'.keyVersion = context.keyVersion
  · have hopened := hexact key iv.bytes (utf8 context.text) (utf8 context'.text) plaintext hkey
      iv.length_bytes
    have hsame : utf8 context'.text = utf8 context.text ↔ context' = context := by
      constructor
      · exact fun htext => EncryptionContext.text_injOn h' h (utf8_injective htext)
      · exact fun hcontext => by rw [hcontext]
    have hmatches : ¬("A256GCM" ≠ "A256GCM" ∨ context.keyVersion ≠ context'.keyVersion ∨
        context'.keyVersion = .nan) := by
      simp [hversion, hversion ▸ hfinite]
    rw [if_neg hmatches, if_pos hversion, associatedData_eq h']
    simp only [Except.toOption, Option.bind_some, fromBase64_base64, hopened, hsame]
    by_cases hcontext : context' = context
    · rw [if_pos hcontext, if_pos hcontext]
      rfl
    · rw [if_neg hcontext, if_neg hcontext]
      rfl
  · have hcontext : context' ≠ context := fun hcontext => hversion (by rw [hcontext])
    have hmismatch : "A256GCM" ≠ "A256GCM" ∨ context.keyVersion ≠ context'.keyVersion ∨
        context'.keyVersion = .nan := Or.inr (Or.inl (ne_comm.mp hversion))
    rw [if_pos hmismatch, if_neg hcontext, if_neg hversion]
    rfl

/-- A context as the rest of the vault names it. -/
def EncryptionContext.ofNamed (context : LegacyVault.EncryptionContext) : EncryptionContext where
  organizationId := context.organizationId
  householdId := context.householdId
  recordId := context.recordId
  purpose := context.purpose
  keyVersion := .ofNat context.keyVersion

theorem EncryptionContext.ofNamed_injective : Function.Injective EncryptionContext.ofNamed := by
  intro a b h
  simp only [ofNamed, EncryptionContext.mk.injEq] at h
  obtain ⟨horganization, hhousehold, hrecord, hpurpose, hversion⟩ := h
  cases a
  cases b
  simp only [LegacyVault.EncryptionContext.mk.injEq]
  exact ⟨horganization, hhousehold, hrecord, hpurpose, Number.ofNat_injective hversion⟩

/-- The bytes of an envelope open when the sealed message that stands for it elsewhere opens. -/
theorem decryptEnvelope_named {aes : AesGcm} (hexact : aes.OpensExactly) {plaintext key : Bytes}
    {context context' : LegacyVault.EncryptionContext} {iv : InitializationVector}
    {envelope : EncryptedEnvelope} (hkey : key.length = 32)
    (h : (EncryptionContext.ofNamed context).WellFormed)
    (h' : (EncryptionContext.ofNamed context').WellFormed)
    (hencrypted : encryptEnvelope aes plaintext key (.ofNamed context) iv = .ok envelope)
    (message : Sealed) (keyName : SymmetricKey) (nonce : Nat) :
    (decryptEnvelope aes envelope key (.ofNamed context')).toOption =
      (LegacyVault.decryptEnvelope (LegacyVault.encryptEnvelope message keyName context nonce)
        keyName context').map (fun _ => plaintext) := by
  have hopens := decryptEnvelope_encrypted hexact hkey h h' hencrypted
  rw [hopens, LegacyVault.decryptEnvelope, LegacyVault.encryptEnvelope, SymbolicSeal.Term.opened]
  by_cases hcontext : context = context'
  · rw [if_pos (congrArg _ hcontext.symm), if_pos ⟨rfl, hcontext⟩]
    rfl
  · have hother : EncryptionContext.ofNamed context' ≠ EncryptionContext.ofNamed context :=
      fun hsame => hcontext (EncryptionContext.ofNamed_injective hsame).symm
    have hsealed : ¬(keyName = keyName ∧ context = context') := fun hsame => hcontext hsame.2
    rw [if_neg hother, if_neg hsealed]
    split
    · rfl
    · rfl

/-- An envelope is bound to its context, and no two well-formed contexts share associated data. -/
theorem envelope_bound_to_context (aes : AesGcm) (hexact : aes.OpensExactly)
    (plaintext key : Bytes) (hkey : key.length = 32) (iv : InitializationVector) :
    (∀ context context' : EncryptionContext, context.WellFormed → context'.WellFormed →
      ∃ envelope, encryptEnvelope aes plaintext key context iv = .ok envelope ∧
        (context = context' → decryptEnvelope aes envelope key context' = .ok plaintext) ∧
        (context ≠ context' →
          ∃ error, decryptEnvelope aes envelope key context' = .error error)) ∧
      Set.InjOn associatedData {context | context.WellFormed} := by
  refine ⟨?_, associatedData_injOn⟩
  intro context context' h h'
  have hencrypted := encryptEnvelope_eq aes plaintext iv hkey h
  have hopens := decryptEnvelope_encrypted hexact hkey h h' hencrypted
  refine ⟨_, hencrypted, ?_, ?_⟩
  · intro hcontext
    rw [hopens, if_pos hcontext.symm]
  · intro hcontext
    rw [hopens, if_neg (Ne.symm hcontext)]
    split
    · exact ⟨_, rfl⟩
    · exact ⟨_, rfl⟩

/-- A cipher whose tag is the associated data. -/
def exampleAes : AesGcm where
  encrypt _ _ data plaintext := (plaintext, data)
  decrypt _ _ data ciphertext tag := if data = tag then some ciphertext else none

/-- The context of a confirmed fact's value. -/
def exampleContext : EncryptionContext where
  organizationId := "o1"
  householdId := "h1"
  recordId := "f1"
  purpose := "fact-value:documents:will"
  keyVersion := .ofNat 1

theorem envelope_bound_to_context_example :
    exampleContext.WellFormed ∧
    (∀ context context' : EncryptionContext, context.WellFormed → context'.WellFormed →
      ∃ envelope, encryptEnvelope exampleAes [1, 2, 3] (List.replicate 32 0) context
          ⟨List.replicate 12 0, rfl⟩ = .ok envelope ∧
        (context = context' →
          decryptEnvelope exampleAes envelope (List.replicate 32 0) context' = .ok [1, 2, 3]) ∧
        (context ≠ context' → ∃ error,
          decryptEnvelope exampleAes envelope (List.replicate 32 0) context' = .error error)) ∧
      Set.InjOn associatedData {context | context.WellFormed} :=
  ⟨⟨by decide, by decide, by decide, by decide⟩,
    envelope_bound_to_context exampleAes (fun _ _ _ _ _ _ _ => rfl) [1, 2, 3]
      (List.replicate 32 0) rfl ⟨List.replicate 12 0, rfl⟩⟩

end LegacyVault.Envelopes
