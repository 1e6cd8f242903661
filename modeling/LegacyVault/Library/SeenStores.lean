import LegacyVault.Library.InterleavedTransactions

/-!
# The stores a session has seen

A session reads committed stores only, so what a committed transaction has
read was committed at an earlier moment of the same run. Whatever is true of
reachable systems may be said of the stores that its reads have seen.
-/

namespace LegacyVault.RowTransaction.Protocol

open Program

variable {S : Schema} {P : Protocol S} {init : Store S} {s s' : P.System}

/-- The store was committed at an earlier moment of a run to the system. -/
def CommittedBefore (init : Store S) (s : P.System) (σ₀ : Store S) : Prop :=
  ∃ s₀ : P.System, Reachable init s₀ ∧ Later s₀ s ∧ s₀.committed = σ₀

theorem Reachable.committedBefore (h : Reachable init s) : CommittedBefore init s s.committed :=
  ⟨s, h, .refl, rfl⟩

theorem CommittedBefore.later {σ₀ : Store S} (h : CommittedBefore init s σ₀)
    (hlater : Later s s') : CommittedBefore init s' σ₀ := by
  obtain ⟨s₀, hreachable, hs₀, hcommitted⟩ := h
  exact ⟨s₀, hreachable, hs₀.trans hlater, hcommitted⟩

/-- A session in progress has seen committed stores only. -/
theorem Reachable.seen_committed (h : Reachable init s) {id : Nat} {session : P.Session}
    (hactive : s.active id = some session) {σ₀ : Store S} (hseen : σ₀ ∈ session.seen) :
    CommittedBefore init s σ₀ := by
  induction h generalizing id session σ₀ with
  | initial => exact absurd hactive (by simp [Protocol.initial])
  | @step s s' h hstep ih =>
    have hlater : Later s s' := .single hstep
    -- the session that moves keeps what it has seen; the others are as they were
    have hmoved : ∀ {moving : Nat} {before after : P.Session}, s.active moving = some before →
        (s.withSession moving (some after)).active id = some session →
        after.seen = before.seen → CommittedBefore init s' σ₀ := by
      intro moving before after hbefore hafter hsame
      by_cases hid : id = moving
      · subst hid
        rw [withSession_active_self] at hafter
        obtain rfl := Option.some.inj hafter
        exact (ih hbefore (hsame ▸ hseen)).later hlater
      · rw [withSession_active_ne s _ hid] at hafter
        exact (ih hafter hseen).later hlater
    cases hstep with
    | @start moving r hfree hpermitted =>
      by_cases hid : id = moving
      · subst hid
        rw [withSession_active_self] at hactive
        obtain rfl := Option.some.inj hactive
        obtain rfl := List.mem_singleton.mp hseen
        exact h.committedBefore.later hlater
      · rw [withSession_active_ne s _ hid] at hactive
        exact (ih hactive hseen).later hlater
    | write hbefore hvalue hlock => exact hmoved hbefore hactive rfl
    | skip hbefore hvalue => exact hmoved hbefore hactive rfl
    | peek hbefore => exact hmoved hbefore hactive rfl
    | @commit moving r a ws seen hbefore =>
      obtain ⟨-, other, hother, hsame⟩ := committing_active hactive
      have hstores : session.seen = s.committed.overlay ws :: other.seen := by rw [hsame]
      rw [hstores] at hseen
      rcases List.mem_cons.mp hseen with rfl | hold
      · exact (h.step (.commit hbefore)).committedBefore
      · exact (ih hother hold).later hlater
    | rollback hbefore => exact (ih (dropping_active hactive) hseen).later hlater
    | abort hbefore => exact (ih (dropping_active hactive) hseen).later hlater

/-- A request of the log was permitted when its session began. -/
theorem Reachable.entry_permitted (h : Reachable init s) {entry : P.LogEntry}
    (hmem : entry ∈ s.log) : ∃ begun, P.permitted begun entry.request ∧ begun <:+ s.log := by
  obtain ⟨later, log₀, hlog⟩ := List.mem_iff_append.mp hmem
  obtain ⟨begun, -, -, hpermitted, hbegun, -⟩ := (trivialInvariant P init).ended h hlog
  refine ⟨begun, hpermitted, ?_⟩
  rw [hlog]
  exact (hbegun.trans (List.suffix_cons _ _)).trans (List.suffix_append _ _)

/-- A committed transaction has read stores that were committed before. -/
theorem Reachable.entry_executes (h : Reachable init s) {r : P.Request} {a : P.Result}
    (hmem : ⟨r, .committed a⟩ ∈ s.log) :
    ∃ seen σ ws, (∀ σ₀, seen σ₀ → CommittedBefore init s σ₀) ∧
      (P.program r).Executes seen σ [] (.ok a) ws := by
  induction h with
  | initial => exact absurd hmem List.not_mem_nil
  | @step s s' h hstep ih =>
    have hlater : Later s s' := .single hstep
    have hold : ⟨r, .committed a⟩ ∈ s.log → ∃ seen σ ws,
        (∀ σ₀, seen σ₀ → CommittedBefore init s' σ₀) ∧
          (P.program r).Executes seen σ [] (.ok a) ws := by
      intro hbefore
      obtain ⟨seen, σ, ws, hseen, hexec⟩ := ih hbefore
      exact ⟨seen, σ, ws, fun σ₀ h₀ => (hseen σ₀ h₀).later hlater, hexec⟩
    cases hstep with
    | start _ _ => exact hold hmem
    | write _ _ _ => exact hold hmem
    | skip _ _ => exact hold hmem
    | peek _ => exact hold hmem
    | commit hactive =>
      rcases List.mem_cons.mp hmem with heq | hbefore
      · obtain ⟨past, hordered⟩ := h.ordered
        obtain ⟨rfl, houtcome⟩ := Entry.mk.inj heq
        obtain rfl := Outcome.committed.inj houtcome
        exact ⟨_, s.committed, _, fun σ₀ h₀ => (h.seen_committed hactive h₀).later hlater,
          (hordered.sound _ _ hactive).executes⟩
      · exact hold hbefore
    | rollback _ =>
      rcases List.mem_cons.mp hmem with heq | hbefore
      · exact absurd (Entry.mk.inj heq).2 (by simp)
      · exact hold hbefore
    | abort _ =>
      rcases List.mem_cons.mp hmem with heq | hbefore
      · exact absurd (Entry.mk.inj heq).2 (by simp)
      · exact hold hbefore

end LegacyVault.RowTransaction.Protocol
