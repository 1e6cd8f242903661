import LegacyVault.Library.InterleavedTransactions
import LegacyVault.Library.RowStatements

/-!
# Row-wise invariants

When every program of a protocol makes only writes of one kind, and writes of
that kind compose, then every row of a reachable store came from its initial
row by a write of that kind, and every step changes rows in that way.
-/

namespace LegacyVault.RowTransaction.Protocol

open Program

variable {S : Schema} {P : Protocol S} {init : Store S}
  {Q : (t : S.Table) → S.Key t → Option (S.Row t) → Option (S.Row t) → Prop}

/-- The rows of the second store come from those of the first by writes of one kind. -/
def RowsBecome (Q : (t : S.Table) → S.Key t → Option (S.Row t) → Option (S.Row t) → Prop)
    (σ σ' : Store S) : Prop :=
  ∀ t k, Q t k (σ.get t k) (σ'.get t k)

/-- A program that makes writes of one kind and runs alone makes rows of their kind. -/
theorem rowsBecome_transact {ε α : Type} (hrefl : ∀ t k v, Q t k v v)
    (htrans : ∀ t k u v w, Q t k u v → Q t k v w → Q t k u w) {p : Program S ε α}
    (hwrites : p.Writes Q) (σ : Store S) : RowsBecome Q σ (p.transact σ).2 := by
  obtain ⟨ws, hexec, hws⟩ := run_executes p σ []
  rw [Store.overlay_nil] at hexec hws
  have hrun : RowsBecome Q σ (p.run σ).2 := by
    intro t k
    have hrow := hwrites.executes hrefl htrans hexec t k
    rwa [Store.overlay_nil, hws] at hrow
  rw [Program.transact]
  cases h : p.run σ with
  | mk result σ' =>
    rw [h] at hrun
    cases result with
    | ok a => exact hrun
    | error e => exact fun t k => hrefl t k _

/-- Programs that make writes of one kind keep every row within that kind. -/
theorem rowsBecome_invariant (hrefl : ∀ t k v, Q t k v v)
    (htrans : ∀ t k u v w, Q t k u v → Q t k v w → Q t k u w)
    (hwrites : ∀ r, (P.program r).Writes Q) :
    P.Invariant init (fun _ σ => RowsBecome Q init σ) (RowsBecome Q) where
  refl := fun σ t k => hrefl t k _
  trans := fun h h' t k => htrans t k _ _ _ (h t k) (h' t k)
  start := fun t k => hrefl t k _
  commit := by
    intro log begun seen σ r a ws h _ _ _ _ hexec
    have hstep : RowsBecome Q σ (σ.overlay ws) := by
      intro t k
      have hrow := (hwrites r).executes hrefl htrans hexec t k
      rwa [Store.overlay_nil] at hrow
    exact ⟨fun t k => htrans t k _ _ _ (h t k) (hstep t k), hstep⟩
  rollback := fun h _ _ _ _ _ => h
  abort := fun h _ _ => h

/-- Every row of a reachable store came from its initial row by a write of the kind. -/
theorem Reachable.rowsBecome (hrefl : ∀ t k v, Q t k v v)
    (htrans : ∀ t k u v w, Q t k u v → Q t k v w → Q t k u w)
    (hwrites : ∀ r, (P.program r).Writes Q) {s : P.System} (h : Reachable init s) :
    RowsBecome Q init s.committed :=
  (rowsBecome_invariant hrefl htrans hwrites).reachable h

end LegacyVault.RowTransaction.Protocol
