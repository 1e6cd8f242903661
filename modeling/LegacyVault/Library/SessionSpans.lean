import LegacyVault.Library.InterleavedTransactions

/-!
# What a session has seen

The stores a session has seen are those that were committed when it began and
while it was in progress. `InProgress` is a stretch of an interleaving in which
one session goes on.
-/

namespace LegacyVault.RowTransaction.Protocol

variable {S : Schema} {P : Protocol S} {init : Store S}

/-- In every system after the first, the session is in progress. -/
def InProgress (id : Nat) : P.System → P.System → Prop :=
  Relation.ReflTransGen (fun s s' => Step s s' ∧ (s'.active id).isSome = true)

theorem InProgress.later {id : Nat} {s s' : P.System} (h : InProgress id s s') : Later s s' := by
  induction h with
  | refl => exact .refl
  | tail _ hstep ih => exact ih.tail hstep.1

/-- Another session of a system is as it was before a session changed. -/
theorem Step.seen_other {s : P.System} {id other : Nat} {new : Option P.Session}
    {session : P.Session} (hne : other ≠ id)
    (hactive : (s.withSession id new).active other = some session) :
    s.active other = some session := by
  rwa [withSession_active_ne s new hne] at hactive

/-- What a session in progress has seen: it has just begun, or it was in progress before the
step and has seen no more than then and what is committed. -/
theorem Step.seen {s s' : P.System} (h : Step s s') {id : Nat} {session : P.Session}
    (hactive : s'.active id = some session) :
    session.seen = [s.committed] ∨
    ∃ before, s.active id = some before ∧
      ∀ σ ∈ session.seen, σ ∈ before.seen ∨ σ = s'.committed := by
  have hsame : s.active id = some session → ∃ before, s.active id = some before ∧
      ∀ σ ∈ session.seen, σ ∈ before.seen ∨ σ = s'.committed :=
    fun hbefore => ⟨session, hbefore, fun σ hσ => Or.inl hσ⟩
  have hchanged : ∀ {own : Nat} {r : P.Request} {p p' : Program S P.Error P.Result}
      {ws ws' : List (Write S)} {seen : List (Store S)},
      s.active own = some ⟨r, p, ws, seen⟩ →
      (s.withSession own (some ⟨r, p', ws', seen⟩)).active id = some session →
      ∃ before, s.active id = some before ∧
        ∀ σ ∈ session.seen, σ ∈ before.seen ∨ σ = s'.committed := by
    intro own r p p' ws ws' seen hown hafter
    by_cases hid : id = own
    · subst hid
      rw [withSession_active_self] at hafter
      obtain rfl := Option.some.inj hafter
      exact ⟨_, hown, fun σ hσ => Or.inl hσ⟩
    · exact hsame (Step.seen_other hid hafter)
  have hdropped : ∀ {own : Nat} {entry : P.LogEntry},
      (s.dropping own entry).active id = some session → s.active id = some session := by
    intro own entry hafter
    by_cases hid : id = own
    · subst hid
      exact absurd ((withSession_active_self s id none).symm.trans hafter) (by simp)
    · exact Step.seen_other hid hafter
  cases h with
  | @start own _ hfree _ =>
    by_cases hid : id = own
    · subst hid
      rw [withSession_active_self] at hactive
      obtain rfl := Option.some.inj hactive
      exact Or.inl rfl
    · exact Or.inr (hsame (Step.seen_other hid hactive))
  | write hown _ _ => exact Or.inr (hchanged hown hactive)
  | skip hown _ => exact Or.inr (hchanged hown hactive)
  | peek hown => exact Or.inr (hchanged hown hactive)
  | @commit own r a ws seen _ =>
    by_cases hid : id = own
    · simp [System.committing, hid] at hactive
    · simp only [System.committing, if_neg hid, Option.map_eq_some_iff] at hactive
      obtain ⟨before, hbefore, rfl⟩ := hactive
      refine Or.inr ⟨before, hbefore, fun σ hσ => ?_⟩
      rcases List.mem_cons.mp hσ with rfl | hσ
      · exact Or.inr rfl
      · exact Or.inl hσ
  | rollback _ => exact Or.inr (hsame (hdropped hactive))
  | abort _ => exact Or.inr (hsame (hdropped hactive))

/-- A commit in the log is that of a session whose program had come to it. -/
theorem Step.committing_session {s s' : P.System} (h : Step s s') {r : P.Request} {a : P.Result}
    (hlog : s'.log = ⟨r, .committed a⟩ :: s.log) :
    ∃ id ws seen, s.active id = some ⟨r, .commit a, ws, seen⟩ := by
  have hshort : s.log ≠ ⟨r, .committed a⟩ :: s.log := (List.cons_ne_self _ _).symm
  cases h with
  | start _ _ => exact absurd hlog hshort
  | write _ _ _ => exact absurd hlog hshort
  | skip _ _ => exact absurd hlog hshort
  | peek _ => exact absurd hlog hshort
  | commit hactive =>
    obtain ⟨rfl, hresult⟩ := Entry.mk.inj (List.cons.inj hlog).1
    obtain rfl := Outcome.committed.inj hresult
    exact ⟨_, _, _, hactive⟩
  | rollback _ => exact absurd (Entry.mk.inj (List.cons.inj hlog).1).2 (by simp)
  | abort _ => exact absurd (Entry.mk.inj (List.cons.inj hlog).1).2 (by simp)

/-- A session has seen what was committed when it began or since. -/
theorem Reachable.seen_inProgress {s : P.System} (h : Reachable init s) {id : Nat} :
    ∀ {session : P.Session}, s.active id = some session → ∀ σ ∈ session.seen,
      ∃ t, Reachable init t ∧ InProgress id t s ∧ t.committed = σ := by
  induction h with
  | initial =>
    intro session hactive
    exact absurd hactive (by simp [Protocol.initial])
  | @step s s' hs hstep ih =>
    intro session hactive σ hσ
    have hlast : Step s s' ∧ (s'.active id).isSome = true := ⟨hstep, by rw [hactive]; rfl⟩
    rcases hstep.seen hactive with hbegun | ⟨before, hbefore, hseen⟩
    · rw [hbegun, List.mem_singleton] at hσ
      exact ⟨s, hs, .single hlast, hσ.symm⟩
    · rcases hseen σ hσ with hσ | hσ
      · obtain ⟨t, ht, hspan, hcommitted⟩ := ih hbefore σ hσ
        exact ⟨t, ht, hspan.tail hlast, hcommitted⟩
      · exact ⟨s', hs.step hstep, .refl, hσ.symm⟩

/-- A session that has begun since has seen only what was committed since. -/
theorem Later.seen {s s' : P.System} (h : Later s s') {id : Nat} (hfree : s.active id = none) :
    ∀ {session : P.Session}, s'.active id = some session → ∀ σ ∈ session.seen,
      ∃ t, Later s t ∧ Later t s' ∧ t.committed = σ := by
  induction h with
  | refl =>
    intro session hactive
    exact absurd (hfree.symm.trans hactive) (by simp)
  | @tail s₁ s₂ hlater hstep ih =>
    intro session hactive σ hσ
    rcases hstep.seen hactive with hbegun | ⟨before, hbefore, hseen⟩
    · rw [hbegun, List.mem_singleton] at hσ
      exact ⟨s₁, hlater, .single hstep, hσ.symm⟩
    · rcases hseen σ hσ with hσ | hσ
      · obtain ⟨t, hbetween, hafter, hcommitted⟩ := ih hbefore σ hσ
        exact ⟨t, hbetween, hafter.tail hstep, hcommitted⟩
      · exact ⟨s₂, hlater.tail hstep, .refl, hσ.symm⟩

end LegacyVault.RowTransaction.Protocol
