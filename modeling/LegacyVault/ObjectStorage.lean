import LegacyVault.Database

/-!
# Object storage

The object store of documents, derivatives and exports. Each operation acts
on one key at one moment, so it is a transaction of one statement. An upload
through a presigned URL is bound to the checksum in the URL and arrives with
the tag `quarantined`.

A ciphertext is the JSON text of its envelope; equal texts are equal
ciphertexts.
-/

namespace LegacyVault

open JsonText RowTransaction RowTransaction.Program

/-- A context as a JSON value. -/
def EncryptionContext.toJson (context : EncryptionContext) : Json :=
  .arr [.str context.organizationId, .str context.householdId, .str context.recordId,
    .str context.purpose, .nat context.keyVersion]

/-- A ciphertext as a JSON value that determines it. -/
def ciphertextJson : Sealed → Json
  | .data value => .arr [.str value]
  | .key value => .arr [.str "key", .str value]
  | .sealed sealKey context nonce body =>
    .arr [.str sealKey, context.toJson, .nat nonce, ciphertextJson body]

theorem EncryptionContext.toJson_injective : Function.Injective EncryptionContext.toJson := by
  intro a b h
  cases a
  cases b
  simpa [EncryptionContext.toJson] using h

theorem ciphertextJson_injective : Function.Injective ciphertextJson := by
  intro a
  induction a with
  | data value =>
    intro b h
    cases b <;> simp [ciphertextJson] at h
    rw [h]
  | key value =>
    intro b h
    cases b <;> simp [ciphertextJson] at h
    rw [h]
  | «sealed» sealKey context nonce body ih =>
    intro b h
    cases b with
    | data value => simp [ciphertextJson] at h
    | key value => simp [ciphertextJson] at h
    | «sealed» sealKey' context' nonce' body' =>
      simp only [ciphertextJson, Json.arr.injEq, List.cons.injEq, Json.str.injEq, Json.nat_inj,
        and_true] at h
      obtain ⟨rfl, hcontext, rfl, hbody⟩ := h
      rw [EncryptionContext.toJson_injective hcontext, ih hbody]

/-- The checksum of a ciphertext. -/
def Sha256.ofCiphertext (sha256 : Sha256) (ciphertext : Sealed) : String :=
  sha256.ofJson (ciphertextJson ciphertext)

/-- Equal checksums come from equal ciphertexts. -/
theorem Sha256.ofCiphertext_inj (sha256 : Sha256) {a b : Sealed} :
    sha256.ofCiphertext a = sha256.ofCiphertext b ↔ a = b :=
  sha256.ofJson_inj.trans ciphertextJson_injective.eq_iff

/-- `DocumentObjectStore.getCiphertext`. -/
def getCiphertext (objectKey : String) : Transaction Sealed := do
  let found : Option StoredObject ← select (fun σ : Vault => σ.get .objects objectKey)
  match found with
  | some object => pure object.ciphertext
  | none => failWith "NoSuchKey"

/-- `DocumentObjectStore.objectStatus`. -/
def objectStatus (objectKey : String) : Transaction ObjectStatus := do
  let found : Option StoredObject ← select (fun σ : Vault => σ.get .objects objectKey)
  match found with
  | some object => pure object.status
  | none => failWith "NoSuchKey"

/-- `DocumentObjectStore.assertStoredChecksum`. -/
def assertStoredChecksum (sha256 : Sha256) (objectKey checksum : String) : Transaction Unit := do
  let found : Option StoredObject ← select (fun σ : Vault => σ.get .objects objectKey)
  match found with
  | some object =>
    if sha256.ofCiphertext object.ciphertext = checksum then pure ()
    else failWith "stored object checksum mismatch"
  | none => failWith "NotFound"

/-- A PUT of an object with its tag. -/
def putObject (objectKey : String) (object : StoredObject) : Transaction Unit := do
  let _ ← putRow (S := vaultSchema) .objects objectKey (fun _ => some object)
  pure ()

/-- `DocumentObjectStore.markClean`. -/
def markClean (objectKey : String) : Transaction Unit := do
  let marked : Option StoredObject ← updateRow (S := vaultSchema) .objects objectKey
    (fun object : StoredObject => some { object with status := .clean })
  match marked with
  | some _ => pure ()
  | none => failWith "NoSuchKey"

/-- `DocumentObjectStore.deleteObject`. -/
def deleteObject (objectKey : String) : Transaction Unit := do
  let _ ← deleteRow (S := vaultSchema) .objects objectKey (fun _ => true)
  pure ()

section Leaves

variable {t : VaultTable}

theorem getCiphertext_readOnly (objectKey : String) : (getCiphertext objectKey).ReadOnly := by
  refine writes_bind (writes_select _) (fun found => ?_)
  cases found
  · exact writes_rollback _
  · exact writes_commit _

theorem objectStatus_readOnly (objectKey : String) : (objectStatus objectKey).ReadOnly := by
  refine writes_bind (writes_select _) (fun found => ?_)
  cases found
  · exact writes_rollback _
  · exact writes_commit _

theorem assertStoredChecksum_readOnly (sha256 : Sha256) (objectKey checksum : String) :
    (assertStoredChecksum sha256 objectKey checksum).ReadOnly := by
  refine writes_bind (writes_select _) (fun found => ?_)
  cases found
  · exact writes_rollback _
  · simp only
    split
    · exact writes_commit _
    · exact writes_rollback _

theorem putObject_leaves (h : t ≠ .objects) (objectKey : String) (object : StoredObject) :
    (putObject objectKey object).Leaves t :=
  writes_bind (writes_putRow (fun _ _ _ => h)) (fun _ => writes_commit _)

theorem markClean_leaves (h : t ≠ .objects) (objectKey : String) :
    (markClean objectKey).Leaves t := by
  refine writes_bind (writes_updateRow (fun _ _ _ => h)) (fun marked => ?_)
  cases marked
  · exact writes_rollback _
  · exact writes_commit _

theorem deleteObject_leaves (h : t ≠ .objects) (objectKey : String) :
    (deleteObject objectKey).Leaves t :=
  writes_bind (writes_deleteRow (fun _ _ => h)) (fun _ => writes_commit _)

end Leaves

section Executes

variable {seen : Vault → Prop} {σ : Vault} {ws ws' : List (Write vaultSchema)}

/-- A fetched ciphertext was stored under its key. -/
theorem executes_getCiphertext {objectKey : String} {ciphertext : Sealed}
    (h : (getCiphertext objectKey).Executes seen σ ws (.ok ciphertext) ws') :
    ∃ (σ₀ : Vault) (object : StoredObject), seen σ₀ ∧
      (σ₀.overlay ws).get .objects objectKey = some object ∧ object.ciphertext = ciphertext := by
  obtain ⟨found, ws₁, hselect, h⟩ := executes_bind_ok.mp h
  obtain ⟨σ₀, hseen, hfound, -⟩ := executes_select.mp hselect
  cases found with
  | none => exact absurd h.1 (by simp)
  | some object =>
    exact ⟨σ₀, object, hseen, (Except.ok.inj hfound).symm, (Except.ok.inj h.1).symm⟩

/-- A passed checksum test has found an object with that checksum. -/
theorem executes_assertStoredChecksum {sha256 : Sha256} {objectKey checksum : String} {u : Unit}
    (h : (assertStoredChecksum sha256 objectKey checksum).Executes seen σ ws (.ok u) ws') :
    ∃ (σ₀ : Vault) (object : StoredObject), seen σ₀ ∧
      (σ₀.overlay ws).get .objects objectKey = some object ∧
      sha256.ofCiphertext object.ciphertext = checksum := by
  obtain ⟨found, ws₁, hselect, h⟩ := executes_bind_ok.mp h
  obtain ⟨σ₀, hseen, hfound, -⟩ := executes_select.mp hselect
  cases found with
  | none => exact absurd h.1 (by simp)
  | some object =>
    simp only at h
    split at h
    · rename_i hchecksum
      exact ⟨σ₀, object, hseen, (Except.ok.inj hfound).symm, hchecksum⟩
    · exact absurd h.1 (by simp)

/-- A PUT stores its object. -/
theorem executes_putObject {objectKey : String} {object : StoredObject} {u : Unit}
    (h : (putObject objectKey object).Executes seen σ ws (.ok u) ws') :
    ws' = ⟨VaultTable.objects, objectKey, some object⟩ :: ws := by
  obtain ⟨stored, ws₁, hput, -, hws⟩ := executes_bind_ok.mp h
  rcases executes_putRow.mp hput with ⟨row, hrow, -, hwritten⟩ | ⟨_, _, hnone, _⟩
  · obtain rfl := Option.some.inj hrow
    exact hws.trans hwritten
  · exact absurd hnone (by simp)

/-- Marking an object changes its tag. -/
theorem executes_markClean {objectKey : String} {u : Unit}
    (h : (markClean objectKey).Executes seen σ ws (.ok u) ws') :
    ∃ object : StoredObject, (σ.overlay ws).get .objects objectKey = some object ∧
      ws' = ⟨VaultTable.objects, objectKey, some { object with status := .clean }⟩ :: ws := by
  obtain ⟨marked, ws₁, hupdate, h⟩ := executes_bind_ok.mp h
  cases marked with
  | none => exact absurd h.1 (by simp)
  | some after =>
    obtain ⟨object, hobject, hchange, hws⟩ := executes_updateRow_some hupdate
    obtain rfl := Option.some.inj hchange
    exact ⟨object, hobject, h.2.trans hws⟩

/-- A deletion leaves no object, or has found none. -/
theorem executes_deleteObject {objectKey : String} {u : Unit}
    (h : (deleteObject objectKey).Executes seen σ ws (.ok u) ws') :
    ws' = ⟨VaultTable.objects, objectKey, none⟩ :: ws ∨ ws' = ws := by
  obtain ⟨deleted, ws₁, hdelete, -, hws⟩ := executes_bind_ok.mp h
  rcases executes_deleteRow.mp hdelete with ⟨_, _, _, _, hwritten⟩ | ⟨_, _, _, _, hwritten⟩
  · exact Or.inl (hws.trans hwritten)
  · exact Or.inr (hws.trans hwritten)

end Executes

end LegacyVault
