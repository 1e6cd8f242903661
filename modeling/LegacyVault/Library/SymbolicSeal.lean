import Mathlib.Tactic.Common

/-!
# Symbolic authenticated encryption

Messages built from plain data, symmetric keys and sealed messages. A sealed
message opens under exactly the key and context it was sealed with; nothing
else relates it to what it holds. What an observer can derive from a set of
messages is the least set closed under opening with derived keys in the
contexts the observer can form.

A message that is sealed under a key the observer can never derive tells the
observer nothing about its body: see `Derives.of_closed`.
-/

namespace LegacyVault.SymbolicSeal

/-- A message over the given keys, contexts and plain data. -/
inductive Term (Key Context Data : Type) where
  /-- Plain data. -/
  | data (value : Data)
  /-- A key as a message. -/
  | key (value : Key)
  /-- A body sealed under a key in a context, with the nonce of that sealing. -/
  | sealed (sealKey : Key) (context : Context) (nonce : Nat) (body : Term Key Context Data)
  deriving DecidableEq

variable {Key Context Data : Type}

/-- Open a sealed message. -/
def Term.opened [DecidableEq Key] [DecidableEq Context] (key : Key) (context : Context) :
    Term Key Context Data → Option (Term Key Context Data)
  | .sealed sealKey sealContext _ body =>
    if sealKey = key ∧ sealContext = context then some body else none
  | _ => none

/-- A message opens to a body exactly when it was sealed from it under that key and context. -/
theorem Term.opened_eq_some [DecidableEq Key] [DecidableEq Context] {key : Key}
    {context : Context} {message body : Term Key Context Data} :
    message.opened key context = some body ↔
      ∃ nonce, message = .sealed key context nonce body := by
  constructor
  · intro h
    cases message with
    | data value => simp [opened] at h
    | key value => simp [opened] at h
    | sealed sealKey sealContext nonce inner =>
      by_cases hc : sealKey = key ∧ sealContext = context
      · obtain ⟨rfl, rfl⟩ := hc
        obtain rfl : inner = body := by simpa [opened] using h
        exact ⟨nonce, rfl⟩
      · simp [opened, hc] at h
  · rintro ⟨nonce, rfl⟩
    simp [opened]

/-- What an observer derives from known messages, opening in contexts it can form. -/
inductive Derives (known : Term Key Context Data → Prop) (formable : Context → Prop) :
    Term Key Context Data → Prop
  /-- A known message. -/
  | known {message : Term Key Context Data} (h : known message) : Derives known formable message
  /-- The body of a derived message under a derived key. -/
  | opened {sealKey : Key} {context : Context} {nonce : Nat} {body : Term Key Context Data}
      (hmessage : Derives known formable (.sealed sealKey context nonce body))
      (hkey : Derives known formable (.key sealKey)) (hcontext : formable context) :
      Derives known formable body

variable {known : Term Key Context Data → Prop} {formable : Context → Prop}

/-- A set of messages that holds the known ones and is closed under opening holds
everything derived. -/
theorem Derives.of_closed {closed : Term Key Context Data → Prop}
    (hknown : ∀ message, known message → closed message)
    (hopened : ∀ sealKey context nonce body, closed (.sealed sealKey context nonce body) →
      closed (.key sealKey) → formable context → closed body)
    {message : Term Key Context Data} (h : Derives known formable message) : closed message := by
  induction h with
  | known h => exact hknown _ h
  | opened _ _ hcontext ihmessage ihkey => exact hopened _ _ _ _ ihmessage ihkey hcontext

end LegacyVault.SymbolicSeal
