import Mathlib.Logic.Function.Basic
import Mathlib.Order.WithBot
import Mathlib.Tactic.Common

/-!
# A keyspace whose keys expire

Strings and sets under keys that expire, with the commands that write them.
A key that has expired is not there. A command on a key of the other kind
leaves it alone.
-/

namespace LegacyVault

/-- What is under a key. -/
inductive StoredValue where
  | string (value : String)
  | set (members : List String)
  deriving DecidableEq

/-- A value and the last moment it is there. -/
structure StoredEntry where
  /-- The value. -/
  value : StoredValue
  /-- The last moment, if there is one. -/
  expiresAt : WithTop Nat
  deriving DecidableEq

/-- The keys at a moment, expired ones included. -/
structure ExpiringStore where
  /-- The moment. -/
  now : Nat
  /-- What is under a key. -/
  data : String → Option StoredEntry

namespace ExpiringStore

/-- No key is there. -/
def empty (now : Nat) : ExpiringStore := ⟨now, fun _ => none⟩

/-- What is under a key that has not expired. -/
def live (σ : ExpiringStore) (key : String) : Option StoredEntry :=
  (σ.data key).filter (fun entry => decide (WithTop.some σ.now ≤ entry.expiresAt))

/-- Time passes. -/
def wait (σ : ExpiringStore) (later : Nat) : ExpiringStore := { σ with now := later }

/-- Replace or remove what is under a key. -/
def put (σ : ExpiringStore) (key : String) (entry : Option StoredEntry) : ExpiringStore :=
  { σ with data := Function.update σ.data key entry }

/-- The moment a number of seconds from now, in milliseconds. -/
def after (σ : ExpiringStore) (seconds : Nat) : Nat := σ.now + seconds * 1000

/-- GET. -/
def get (σ : ExpiringStore) (key : String) : Option String :=
  match σ.live key with
  | some ⟨.string value, _⟩ => some value
  | _ => none

/-- SET with EX. -/
def setEx (σ : ExpiringStore) (key value : String) (seconds : Nat) : ExpiringStore :=
  σ.put key (some ⟨.string value, WithTop.some (σ.after seconds)⟩)

/-- SADD of one member. -/
def sadd (σ : ExpiringStore) (key member : String) : ExpiringStore :=
  match σ.live key with
  | some ⟨.set members, expiresAt⟩ => σ.put key (some ⟨.set (members.insert member), expiresAt⟩)
  | some ⟨.string _, _⟩ => σ
  | none => σ.put key (some ⟨.set [member], ⊤⟩)

/-- EXPIRE. -/
def expire (σ : ExpiringStore) (key : String) (seconds : Nat) : ExpiringStore :=
  match σ.live key with
  | some entry => σ.put key (some { entry with expiresAt := WithTop.some (σ.after seconds) })
  | none => σ

/-- SMEMBERS. -/
def smembers (σ : ExpiringStore) (key : String) : List String :=
  match σ.live key with
  | some ⟨.set members, _⟩ => members
  | _ => []

/-- DEL. -/
def del (σ : ExpiringStore) (keys : List String) : ExpiringStore :=
  { σ with data := fun key => if key ∈ keys then none else σ.data key }

variable {σ : ExpiringStore} {key other : String} {entry : StoredEntry}

@[simp] theorem now_put (v : Option StoredEntry) : (σ.put key v).now = σ.now := rfl

theorem live_eq_some : σ.live key = some entry ↔
    σ.data key = some entry ∧ WithTop.some σ.now ≤ entry.expiresAt := by
  simp [live, Option.filter_eq_some_iff]

@[simp] theorem live_empty (now : Nat) : (empty now).live key = none := rfl

/-- What is there later was there before. -/
theorem live_of_wait {later : Nat} (hlater : σ.now ≤ later)
    (h : (σ.wait later).live key = some entry) : σ.live key = some entry := by
  obtain ⟨hdata, hexpires⟩ := live_eq_some.mp h
  exact live_eq_some.mpr ⟨hdata, le_trans (WithTop.coe_le_coe.mpr hlater) hexpires⟩

@[simp] theorem live_put_self : (σ.put key (some entry)).live key =
    if WithTop.some σ.now ≤ entry.expiresAt then some entry else none := by
  have hdata : (σ.put key (some entry)).data key = some entry := Function.update_self _ _ _
  rw [live, hdata, Option.filter_some]
  simp only [decide_eq_true_eq]
  rfl

theorem live_put_of_ne (v : Option StoredEntry) (h : other ≠ key) :
    (σ.put key v).live other = σ.live other := by
  have hdata : (σ.put key v).data other = σ.data other := Function.update_of_ne h _ _
  rw [live, hdata]
  rfl

theorem now_le_after (seconds : Nat) : WithTop.some σ.now ≤ WithTop.some (σ.after seconds) :=
  WithTop.coe_le_coe.mpr (Nat.le_add_right _ _)

@[simp] theorem live_setEx_self (value : String) (seconds : Nat) :
    (σ.setEx key value seconds).live key =
      some ⟨.string value, WithTop.some (σ.after seconds)⟩ := by
  rw [setEx, live_put_self, if_pos (now_le_after seconds)]

theorem live_setEx_of_ne (value : String) (seconds : Nat) (h : other ≠ key) :
    (σ.setEx key value seconds).live other = σ.live other := live_put_of_ne _ h

theorem live_sadd_of_ne (member : String) (h : other ≠ key) :
    (σ.sadd key member).live other = σ.live other := by
  unfold sadd
  split
  · exact live_put_of_ne _ h
  · rfl
  · exact live_put_of_ne _ h

theorem live_expire_of_ne (seconds : Nat) (h : other ≠ key) :
    (σ.expire key seconds).live other = σ.live other := by
  unfold expire
  split
  · exact live_put_of_ne _ h
  · rfl

/-- A key that is not a string holds, after SADD and EXPIRE, the member and what it held. -/
theorem live_sadd_expire (member : String) (seconds : Nat)
    (hset : ∀ entry, σ.live key = some entry → ∃ members, entry.value = .set members) :
    ∃ members, ((σ.sadd key member).expire key seconds).live key =
        some ⟨.set members, WithTop.some (σ.after seconds)⟩ ∧ member ∈ members ∧
      ∀ other, other ∈ members ↔ other = member ∨ other ∈ σ.smembers key := by
  have hexpire : ∀ (τ : ExpiringStore) (entry : StoredEntry), τ.now = σ.now →
      τ.live key = some entry → (τ.expire key seconds).live key =
        some { entry with expiresAt := WithTop.some (σ.after seconds) } := by
    intro τ entry hnow hlive
    rw [expire, hlive]
    dsimp only
    rw [live_put_self, after, hnow]
    exact if_pos (now_le_after seconds)
  cases hlive : σ.live key with
  | none =>
    have hadded : (σ.sadd key member).live key = some ⟨.set [member], ⊤⟩ := by
      rw [sadd, hlive]
      simp
    have hnow : (σ.sadd key member).now = σ.now := by rw [sadd, hlive]; rfl
    refine ⟨[member], hexpire _ _ hnow hadded, List.mem_cons_self, fun other => ?_⟩
    rw [smembers, hlive]
    simp
  | some entry =>
    obtain ⟨value, expiresAt⟩ := entry
    obtain ⟨members, rfl : value = .set members⟩ := hset _ hlive
    have hadded : (σ.sadd key member).live key =
        some ⟨.set (members.insert member), expiresAt⟩ := by
      rw [sadd, hlive]
      dsimp only
      rw [live_put_self]
      exact if_pos (live_eq_some.mp hlive).2
    have hnow : (σ.sadd key member).now = σ.now := by rw [sadd, hlive]; rfl
    refine ⟨members.insert member, hexpire _ _ hnow hadded, List.mem_insert_self, fun other => ?_⟩
    rw [smembers, hlive]
    exact List.mem_insert_iff

theorem live_del (keys : List String) :
    (σ.del keys).live key = if key ∈ keys then none else σ.live key := by
  by_cases h : key ∈ keys
  · simp [live, del, h]
  · have hdata : (σ.del keys).data key = σ.data key := if_neg h
    rw [live, hdata, if_neg h]
    rfl

theorem get_eq_none_of_live (h : σ.live key = none) : σ.get key = none := by
  rw [get, h]

theorem smembers_of_live {members : List String} {expiresAt : WithTop Nat}
    (h : σ.live key = some ⟨.set members, expiresAt⟩) : σ.smembers key = members := by
  rw [smembers, h]

end ExpiringStore

end LegacyVault
