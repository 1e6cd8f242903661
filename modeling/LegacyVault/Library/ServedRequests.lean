import LegacyVault.Library.InterleavedTransactions
import LegacyVault.Library.RowStatements

/-!
# Requests served from a moment on

A caller that waits for a request sees a session of it begin and end, while
the other sessions go on. `Served` is that as a relation between systems.
The session has seen only stores committed since the caller began to wait:
what those stores have in common decides the outcome.
-/

namespace LegacyVault.RowTransaction.Protocol

open Program

variable {S : Schema} {P : Protocol S} {init : Store S}

/-- A session of the request has begun, and goes on. -/
inductive Serving (id : Nat) (r : P.Request) : P.System → P.System → Prop
  /-- It begins. -/
  | begins {s : P.System} (hfree : s.active id = none) (hpermitted : P.permitted s.log r) :
      Serving id r s (s.withSession id (some ⟨r, P.program r, [], [s.committed]⟩))
  /-- A step that does not end it. -/
  | goesOn {s s' s'' : P.System} (h : Serving id r s s') (hstep : Step s' s'')
      (hactive : s''.active id ≠ none) : Serving id r s s''

/-- From one system to the other, a session of the request has begun and ended. -/
def Served (r : P.Request) (outcome : Outcome P.Error P.Result) (s s' : P.System) : Prop :=
  ∃ id s₀ s₁, Later s s₀ ∧ Serving id r s₀ s₁ ∧ Step s₁ s' ∧ s'.active id = none ∧
    s'.log = ⟨r, outcome⟩ :: s₁.log

/-! ## Sessions over a step -/

/-- A session that is not replaced is as it was; one that is replaced by its own continuation
has the same request and has seen the same stores. -/
theorem withSession_session {s : P.System} {id other : Nat} {session old new : P.Session}
    (hactive : s.active id = some session) (hold : s.active other = some old)
    (hrequest : new.request = old.request) (hseen : new.seen = old.seen) :
    ∃ session', (s.withSession other (some new)).active id = some session' ∧
      session'.request = session.request ∧ session'.seen = session.seen := by
  by_cases hid : id = other
  · subst hid
    obtain rfl := Option.some.inj (hactive.symm.trans hold)
    exact ⟨new, withSession_active_self s id _, hrequest, hseen⟩
  · exact ⟨session, (withSession_active_ne s _ hid).trans hactive, rfl, rfl⟩

/-- A session goes on over a step, and has seen at most one store more, or the step ends it and
logs how. -/
theorem Step.session {s s' : P.System} (h : Step s s') {id : Nat} {session : P.Session}
    (hactive : s.active id = some session) :
    (∃ session', s'.active id = some session' ∧ session'.request = session.request ∧
      ∀ σ ∈ session'.seen, σ ∈ session.seen ∨ σ = s'.committed) ∨
    (s'.active id = none ∧
      ((∃ a, session.program = .commit a ∧
          s'.log = ⟨session.request, .committed a⟩ :: s.log) ∨
        (∃ e, session.program = .rollback e ∧
          s'.log = ⟨session.request, .rolledBack e⟩ :: s.log) ∨
        s'.log = ⟨session.request, .aborted⟩ :: s.log)) := by
  have hcontinued : ∀ {other : Nat} {old new : P.Session}, s.active other = some old →
      new.request = old.request → new.seen = old.seen →
      ∃ session', (s.withSession other (some new)).active id = some session' ∧
        session'.request = session.request ∧
        ∀ σ ∈ session'.seen, σ ∈ session.seen ∨ σ = s.committed := by
    intro other old new hold hrequest hseen
    obtain ⟨session', hactive', hrequest', hseen'⟩ :=
      withSession_session hactive hold hrequest hseen
    exact ⟨session', hactive', hrequest', fun σ hσ => Or.inl (hseen' ▸ hσ)⟩
  have hdropped : ∀ {other : Nat} (entry : P.LogEntry), id ≠ other →
      ∃ session', (s.dropping other entry).active id = some session' ∧
        session'.request = session.request ∧
        ∀ σ ∈ session'.seen, σ ∈ session.seen ∨ σ = s.committed :=
    fun entry hid => ⟨session, (withSession_active_ne s none hid).trans hactive, rfl,
      fun σ hσ => Or.inl hσ⟩
  cases h with
  | @start other r hfree hpermitted =>
    have hid : id ≠ other := by
      rintro rfl
      exact absurd (hactive.symm.trans hfree) (by simp)
    exact Or.inl ⟨session, (withSession_active_ne s _ hid).trans hactive, rfl,
      fun σ hσ => Or.inl hσ⟩
  | write hother hvalue hlock => exact Or.inl (hcontinued hother rfl rfl)
  | skip hother hvalue => exact Or.inl (hcontinued hother rfl rfl)
  | peek hother => exact Or.inl (hcontinued hother rfl rfl)
  | @commit other r a ws seen hother =>
    by_cases hid : id = other
    · subst hid
      obtain rfl := Option.some.inj (hactive.symm.trans hother)
      exact Or.inr ⟨by simp [System.committing], Or.inl ⟨a, rfl, rfl⟩⟩
    · have hgoes : (s.committing other ws ⟨r, .committed a⟩).active id =
          some { session with seen := s.committed.overlay ws :: session.seen } := by
        simp [System.committing, hid, hactive]
      refine Or.inl ⟨_, hgoes, rfl, fun σ hσ => ?_⟩
      rcases List.mem_cons.mp hσ with rfl | hmem
      · exact Or.inr rfl
      · exact Or.inl hmem
  | @rollback other r e ws seen hother =>
    by_cases hid : id = other
    · subst hid
      obtain rfl := Option.some.inj (hactive.symm.trans hother)
      exact Or.inr ⟨withSession_active_self s id none, Or.inr (Or.inl ⟨e, rfl, rfl⟩)⟩
    · exact Or.inl (hdropped _ hid)
  | @abort other ended hother =>
    by_cases hid : id = other
    · subst hid
      obtain rfl := Option.some.inj (hactive.symm.trans hother)
      exact Or.inr ⟨withSession_active_self s id none, Or.inr (Or.inr rfl)⟩
    · exact Or.inl (hdropped _ hid)

/-- A step that logs nothing ends no session. -/
theorem Silent.goesOn {s s' : P.System} (h : Silent s s') {id : Nat}
    (hactive : s.active id ≠ none) : s'.active id ≠ none := by
  obtain ⟨session, hsession⟩ := Option.ne_none_iff_exists'.mp hactive
  rcases h.1.session hsession with ⟨session', hgoes, -⟩ |
    ⟨-, ⟨a, -, hlog⟩ | ⟨e, -, hlog⟩ | hlog⟩
  · simp [hgoes]
  · exact absurd (h.2.symm.trans hlog) (List.cons_ne_self _ _).symm
  · exact absurd (h.2.symm.trans hlog) (List.cons_ne_self _ _).symm
  · exact absurd (h.2.symm.trans hlog) (List.cons_ne_self _ _).symm

/-! ## The session of a served request -/

section Serving

variable {id : Nat} {r : P.Request} {s s' : P.System}

theorem Serving.later (h : Serving id r s s') : Later s s' := by
  induction h with
  | begins hfree hpermitted => exact .single (.start hfree hpermitted)
  | goesOn _ hstep _ ih => exact ih.tail hstep

theorem Serving.active (h : Serving id r s s') : s'.active id ≠ none := by
  cases h with
  | begins _ _ => simp [withSession_active_self]
  | goesOn _ _ hactive => exact hactive

theorem Serving.silent (h : Serving id r s s') {s'' : P.System}
    (hsilent : Relation.ReflTransGen Silent s' s'') : Serving id r s s'' := by
  induction hsilent with
  | refl => exact h
  | tail _ hstep ih => exact ih.goesOn hstep.1 (hstep.goesOn ih.active)

theorem Served.later {outcome : Outcome P.Error P.Result} (h : Served r outcome s s') :
    Later s s' := by
  obtain ⟨id, s₀, s₁, hbefore, hserving, hstep, -, -⟩ := h
  exact (Relation.ReflTransGen.trans hbefore hserving.later).tail hstep

/-- The log says how a served request ended. -/
theorem Served.logged {outcome : Outcome P.Error P.Result} (h : Served r outcome s s') :
    (⟨r, outcome⟩ : P.LogEntry) ∈ s'.log := by
  obtain ⟨id, s₀, s₁, -, -, -, -, hlog⟩ := h
  rw [hlog]
  exact List.mem_cons_self

variable {Inv : List P.LogEntry → Store S → Prop} {Grows : Store S → Store S → Prop}

/-- A session has seen only stores that have grown from the one it began on. -/
theorem Invariant.serving (hinv : P.Invariant init Inv Grows) (hs : Reachable init s)
    (h : Serving id r s s') :
    ∃ session, s'.active id = some session ∧ session.request = r ∧
      ∀ σ ∈ session.seen, Grows s.committed σ := by
  induction h with
  | begins hfree hpermitted =>
    refine ⟨_, withSession_active_self _ _ _, rfl, fun σ hσ => ?_⟩
    obtain rfl := List.mem_singleton.mp hσ
    exact hinv.refl _
  | @goesOn s₁ s₂ hserving hstep hactive ih =>
    obtain ⟨session, hsession, hrequest, hseen⟩ := ih
    rcases hstep.session hsession with ⟨session', hsession', hrequest', hseen'⟩ | ⟨hnone, -⟩
    · refine ⟨session', hsession', hrequest'.trans hrequest, fun σ hσ => ?_⟩
      rcases hseen' σ hσ with hmem | rfl
      · exact hseen σ hmem
      · exact hinv.later hs (hserving.later.tail hstep)
    · exact absurd hnone hactive

/-- The outcome of a served request is one that its program can have on stores grown from the one
on which its caller began to wait. -/
theorem Invariant.served (hinv : P.Invariant init Inv Grows) (hs : Reachable init s)
    {outcome : Outcome P.Error P.Result} (h : Served r outcome s s')
    {result : Except P.Error P.Result} (hresult : outcome = .ofResult result) :
    ∃ (seen : Store S → Prop) (σ : Store S) (ws : List (Write S)),
      (∀ σ₀, seen σ₀ → Grows s.committed σ₀) ∧ (P.program r).Executes seen σ [] result ws := by
  obtain ⟨id, s₀, s₁, hbefore, hserving, hstep, hended, hlog⟩ := h
  have hs₀ : Reachable init s₀ := hs.later hbefore
  obtain ⟨session, hsession, rfl, hseen⟩ := hinv.serving hs₀ hserving
  obtain ⟨past, hordered⟩ := (hs₀.later hserving.later).ordered
  have hsound := hordered.sound id session hsession
  have hgrown : ∀ σ₀, σ₀ ∈ session.seen → Grows s.committed σ₀ :=
    fun σ₀ h₀ => hinv.trans (hinv.later hs hbefore) (hseen σ₀ h₀)
  refine ⟨(· ∈ session.seen), s₁.committed, session.writes, hgrown, ?_⟩
  refine hsound.resumes _ _ (fun _ h₀ => h₀) (fun _ _ _ => rfl) result session.writes ?_
  rcases hstep.session hsession with ⟨session', hgoes, -⟩ |
    ⟨-, ⟨a, hprogram, hlog'⟩ | ⟨e, hprogram, hlog'⟩ | hlog'⟩
  · exact absurd (hgoes.symm.trans hended) (by simp)
  · have houtcome := (Entry.mk.inj (List.cons.inj (hlog.symm.trans hlog')).1).2
    obtain rfl : result = .ok a := Outcome.ofResult_injective (hresult.symm.trans houtcome)
    rw [hprogram]
    exact ⟨rfl, rfl⟩
  · have houtcome := (Entry.mk.inj (List.cons.inj (hlog.symm.trans hlog')).1).2
    obtain rfl : result = .error e := Outcome.ofResult_injective (hresult.symm.trans houtcome)
    rw [hprogram]
    exact ⟨rfl, rfl⟩
  · have houtcome := (Entry.mk.inj (List.cons.inj (hlog.symm.trans hlog')).1).2
    rw [hresult] at houtcome
    cases result <;> exact absurd houtcome nofun

end Serving

/-! ## Requests that can be served -/

/-- Only finitely many sessions are in progress. -/
theorem Reachable.idleFrom {s : P.System} (h : Reachable init s) :
    ∃ n, ∀ id, n ≤ id → s.active id = none := by
  induction h with
  | initial => exact ⟨0, fun id _ => rfl⟩
  | @step s s' h hstep ih =>
    obtain ⟨n, hidle⟩ := ih
    have hreplaced : ∀ (other : Nat) (session : Option P.Session), ∃ n, ∀ id, n ≤ id →
        (s.withSession other session).active id = none := by
      intro other session
      refine ⟨max n (other + 1), fun id hid => ?_⟩
      have hother : id ≠ other := by omega
      rw [withSession_active_ne s _ hother]
      exact hidle id (by omega)
    cases hstep with
    | start _ _ => exact hreplaced _ _
    | write _ _ _ => exact hreplaced _ _
    | skip _ _ => exact hreplaced _ _
    | peek _ => exact hreplaced _ _
    | commit _ => exact ⟨n, fun id hid => by simp [System.committing, hidle id hid]⟩
    | rollback _ => exact hreplaced _ none
    | abort _ => exact hreplaced _ none

/-- A session that writes nothing can run to its end at once, whatever the others do. -/
theorem Serving.finishReadOnly {id : Nat} {r : P.Request} {s s' : P.System}
    (h : Serving id r s s') (p : Program S P.Error P.Result) (hp : p.ReadOnly)
    {seen : List (Store S)} (hactive : s'.active id = some ⟨r, p, [], seen⟩) :
    ∃ s'', Served r (.ofResult (p.run s'.committed).1) s s'' := by
  induction p generalizing s' with
  | commit a =>
    refine ⟨_, id, s, s', .refl, h, .commit hactive, ?_, rfl⟩
    simp [System.committing]
  | rollback e => exact ⟨_, id, s, s', .refl, h, .rollback hactive,
      withSession_active_self s' id none, rfl⟩
  | access t k statement next ih =>
    cases hvalue : statement (s'.committed.get t k) with
    | some v => exact absurd (hp.1 _ _ hvalue) not_false
    | none =>
      have hserving := h.goesOn (.skip hactive hvalue) (by simp [withSession_active_self])
      obtain ⟨s'', hserved⟩ := ih _ hserving (hp.2 _) (withSession_active_self s' id _)
      refine ⟨s'', ?_⟩
      rw [run, hvalue]
      exact hserved
  | peek next ih =>
    have hserving := h.goesOn (.peek hactive) (by simp [withSession_active_self])
    obtain ⟨s'', hserved⟩ := ih _ hserving (hp _) (withSession_active_self s' id _)
    exact ⟨s'', hserved⟩

/-- A permitted request that writes nothing can be served at once, whatever the others do. -/
theorem Reachable.serveReadOnly {s : P.System} (h : Reachable init s) {r : P.Request}
    (hpermitted : P.permitted s.log r) (hr : (P.program r).ReadOnly) :
    ∃ s', Served r (.ofResult ((P.program r).run s.committed).1) s s' := by
  obtain ⟨n, hidle⟩ := h.idleFrom
  exact (Serving.begins (hidle n le_rfl) hpermitted).finishReadOnly (P.program r) hr
    (withSession_active_self s n _)

/-- A permitted request can be served where no session is in progress. -/
theorem System.serve {s : P.System} (hidle : ∀ id, s.active id = none) {r : P.Request}
    (hpermitted : P.permitted s.log r) :
    ∃ s', Served r (.ofResult ((P.program r).transact s.committed).1) s s' ∧
      (∀ id, s'.active id = none) ∧
      s'.log = ⟨r, .ofResult ((P.program r).transact s.committed).1⟩ :: s.log ∧
      s'.committed = ((P.program r).transact s.committed).2 := by
  obtain ⟨s₀, s', hsilent, hstep, hlog₀, -, hfree, hlog, hcommitted⟩ :=
    System.finishBegun hidle r
  have hserving := (Serving.begins (hidle 0) hpermitted).silent hsilent
  refine ⟨s', ⟨0, s, s₀, .refl, hserving, hstep, hfree 0, ?_⟩, hfree, hlog, hcommitted⟩
  rw [hlog, hlog₀]

end LegacyVault.RowTransaction.Protocol
