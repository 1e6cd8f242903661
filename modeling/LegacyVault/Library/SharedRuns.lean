import LegacyVault.Library.ConcurrentHandlers

/-!
# Runs beside others

A handler runs while others work on the store between its exchanges.

A watch sees of each exchange a mark, and a rule says which marks may come
after which. What is watched of a handler does not depend on the store.
-/

namespace LegacyVault.Handlers

variable {I J : Interface} {S M ε α : Type}

/-! ## Handlers over more calls -/

/-- A handler whose calls are some of those of another interface. -/
def Handler.embed (f : I.Call → J.Call) (g : ∀ call, J.Answer (f call) → I.Answer call) :
    Handler I ε α → Handler J ε α
  | .done result => .done result
  | .fail error => .fail error
  | .ask call next => .ask (f call) (fun answer => (next (g call answer)).embed f g)

/-! ## Watched handlers -/

/-- What a watch sees of an exchange. -/
def Exchange.mark (view : ∀ call : I.Call, I.Answer call → M) (exchange : Exchange I S) : M :=
  view exchange.call exchange.answer

/-- Whatever the answers, the rule permits the mark of each exchange after those of the past, and
every result meets the postcondition. -/
abbrev Watched (view : ∀ call : I.Call, I.Answer call → M) (rule : List M → M → Prop)
    (post : α → List (Exchange I Unit) → Unit → Prop) (h : Handler I ε α)
    (past : List (Exchange I Unit)) (s : Unit) : Prop :=
  Meets anyAnswer (fun past exchange => rule (past.map (Exchange.mark view)) (exchange.mark view))
    post h past s

variable {view : ∀ call : I.Call, I.Answer call → M} {rule : List M → M → Prop}

/-- A part that makes allowed calls, when these are permitted after the past and after each
other. -/
theorem Handler.Calls.watched {allowed : I.Call → Prop} {h : Handler I ε α} {good : α → Prop}
    {past : List (Exchange I Unit)} {s : Unit} (hcalls : h.Calls allowed good)
    (hallowed : ∀ (more : List (Exchange I Unit)) (exchange : Exchange I Unit),
      (∀ earlier ∈ more, allowed earlier.call) → allowed exchange.call →
        rule ((past ++ more).map (Exchange.mark view)) (exchange.mark view)) :
    Watched view rule (fun result _ _ => good result) h past s := by
  suffices hmore : ∀ more : List (Exchange I Unit), (∀ earlier ∈ more, allowed earlier.call) →
      Watched view rule (fun result _ _ => good result) h (past ++ more) s by
    simpa using hmore [] (by simp)
  induction h generalizing s with
  | done result => exact fun _ _ => hcalls
  | fail error => exact fun _ _ => trivial
  | ask call next ih =>
    intro more hearlier answer s' _
    refine ⟨hallowed more _ hearlier hcalls.1, ?_⟩
    rw [List.append_assoc]
    refine ih answer (hcalls.2 answer) _ (fun earlier hmem => ?_)
    rcases List.mem_append.mp hmem with hold | hnew
    · exact hearlier earlier hold
    · obtain rfl := List.mem_singleton.mp hnew
      exact hcalls.1

/-- A handler over more calls is watched as before. -/
theorem Watched.embed {f : I.Call → J.Call} {g : ∀ call, J.Answer (f call) → I.Answer call}
    {view' : ∀ call : J.Call, J.Answer call → M} {h : Handler I ε α}
    {post : α → List (Exchange I Unit) → Unit → Prop}
    {post' : α → List (Exchange J Unit) → Unit → Prop} {past : List (Exchange I Unit)}
    {past' : List (Exchange J Unit)} {s : Unit} (hwatched : Watched view rule post h past s)
    (hview : ∀ call answer, view' (f call) answer = view call (g call answer))
    (hpast : past'.map (Exchange.mark view') = past.map (Exchange.mark view))
    (hpost : ∀ result past past' s, past'.map (Exchange.mark view') = past.map (Exchange.mark view) →
      post result past s → post' result past' s) :
    Watched view' rule post' (h.embed f g) past' s := by
  induction h generalizing past past' s with
  | done result => exact hpost result past past' s hpast hwatched
  | fail error => trivial
  | ask call next ih =>
    intro answer s' _
    have hmark : ∀ (before after : Unit),
        (⟨before, f call, answer, after⟩ : Exchange J Unit).mark view' =
          (⟨before, call, g call answer, after⟩ : Exchange I Unit).mark view :=
      fun _ _ => hview call answer
    obtain ⟨hpermitted, hnext⟩ := hwatched (g call answer) s' trivial
    refine ⟨?_, ih (g call answer) hnext ?_⟩
    · change rule (past'.map (Exchange.mark view')) _
      rw [hpast, hmark]
      exact hpermitted
    · rw [List.map_append, List.map_append, hpast, List.map_singleton, List.map_singleton, hmark]

/-! ## Runs -/

/-- A handler gets from a store to a rest of it in another store, while others work on the store
before, between and after the exchanges of the trace. -/
inductive RunsBeside (W : World I S) (others : S → S → Prop) :
    Handler I ε α → S → List (Exchange I S) → Handler I ε α → S → Prop
  | stop (h : Handler I ε α) (s : S) : RunsBeside W others h s [] h s
  | others {h rest : Handler I ε α} {s s' s'' : S} {trace : List (Exchange I S)} :
      others s s' → RunsBeside W others h s' trace rest s'' →
        RunsBeside W others h s trace rest s''
  | exchange {call : I.Call} {next : I.Answer call → Handler I ε α} {s s' s'' : S}
      {answer : I.Answer call} {trace : List (Exchange I S)} {rest : Handler I ε α} :
      W s call answer s' → RunsBeside W others (next answer) s' trace rest s'' →
        RunsBeside W others (.ask call next) s (⟨s, call, answer, s'⟩ :: trace) rest s''

variable {W : World I S} {others : S → S → Prop} {h rest : Handler I ε α} {s s' : S}
  {trace : List (Exchange I S)}

/-- A run without others. -/
theorem Runs.beside (hruns : Runs W h s trace rest s') : RunsBeside W others h s trace rest s' := by
  induction hruns with
  | stop h s => exact .stop h s
  | exchange hanswer _ ih => exact .exchange hanswer ih

/-- In a run of a watched handler the rule permits each mark after those before it. -/
theorem RunsBeside.permits {post : α → List (Exchange I Unit) → Unit → Prop}
    {past : List (Exchange I Unit)} (hruns : RunsBeside W others h s trace rest s')
    (hwatched : Watched view rule post h past ()) :
    ∀ before exchange after, trace = before ++ exchange :: after →
      rule (past.map (Exchange.mark view) ++ before.map (Exchange.mark view))
        (exchange.mark view) := by
  induction hruns generalizing past with
  | stop h s => exact fun before exchange after htrace => absurd htrace (by simp)
  | others _ _ ih => exact ih hwatched
  | @exchange call next s s₁ s₂ answer trace rest _ _ ih =>
    intro before exchange after htrace
    obtain ⟨hfirst, hnext⟩ := hwatched answer () trivial
    cases before with
    | nil =>
      obtain ⟨rfl, -⟩ := List.cons.inj htrace
      rw [List.map_nil, List.append_nil]
      exact hfirst
    | cons first before =>
      obtain ⟨rfl, htail⟩ := List.cons.inj htrace
      have hlater := ih hnext before exchange after htail
      rw [List.map_append, List.append_assoc] at hlater
      exact hlater

/-- What the exchanges and the others keep holds of the store at each exchange, and each exchange
comes later than those before it. -/
theorem RunsBeside.relies (inv : S → Prop) (later : S → S → Prop) (sound : Exchange I S → Prop)
    (hruns : RunsBeside W others h s trace rest s') (hrefl : ∀ s, later s s)
    (htrans : ∀ s₁ s₂ s₃, later s₁ s₂ → later s₂ s₃ → later s₁ s₃)
    (hothers : ∀ s s', inv s → others s s' → inv s' ∧ later s s')
    (hexchange : ∀ s call answer s', inv s → sound ⟨s, call, answer, s'⟩ → W s call answer s' →
      inv s' ∧ later s s') (hinv : inv s) (hsound : ∀ exchange ∈ trace, sound exchange) :
    (∀ exchange ∈ trace, W exchange.before exchange.call exchange.answer exchange.after ∧
      inv exchange.before ∧ later s exchange.before) ∧
      trace.Pairwise (fun earlier exchange => later earlier.after exchange.before) := by
  induction hruns with
  | stop h s => exact ⟨fun exchange hmem => absurd hmem (by simp), .nil⟩
  | others hwork _ ih =>
    obtain ⟨hinv', hlater⟩ := hothers _ _ hinv hwork
    obtain ⟨hall, hpairs⟩ := ih hinv' hsound
    refine ⟨fun exchange hmem => ?_, hpairs⟩
    obtain ⟨hworld, hbefore, hsince⟩ := hall exchange hmem
    exact ⟨hworld, hbefore, htrans _ _ _ hlater hsince⟩
  | exchange hanswer _ ih =>
    obtain ⟨hinv', hlater⟩ := hexchange _ _ _ _ hinv (hsound _ List.mem_cons_self) hanswer
    obtain ⟨hall, hpairs⟩ := ih hinv' (fun exchange hmem => hsound exchange (.tail _ hmem))
    refine ⟨fun exchange hmem => ?_, .cons (fun exchange hmem => (hall exchange hmem).2.2) hpairs⟩
    rcases List.mem_cons.mp hmem with rfl | hmem
    · exact ⟨hanswer, hinv, hrefl _⟩
    · obtain ⟨hworld, hbefore, hsince⟩ := hall exchange hmem
      exact ⟨hworld, hbefore, htrans _ _ _ hlater hsince⟩

end LegacyVault.Handlers
