import Mathlib.Data.List.Basic

/-!
# Handlers

A handler is the tree of the calls it makes and of what it does with their
answers. A world says which answers a call can get in a state, and which
state it leaves. A run is a path of the tree that the world allows, and may
stop anywhere.

`Calls` says that a handler makes allowed calls only, whatever the answers.
`Meets` is the weakest precondition of a handler in a world: every exchange of
every run is permitted by those before it, and every result meets its
postcondition. Nothing is asked of failures.
-/

namespace LegacyVault.Handlers

/-- The calls of a handler, and what each is answered with. -/
structure Interface where
  Call : Type
  Answer : Call → Type

/-- A handler: it is done, it has failed, or it waits for an answer. -/
inductive Handler (I : Interface) (ε α : Type) where
  | done (result : α)
  | fail (error : ε)
  | ask (call : I.Call) (next : I.Answer call → Handler I ε α)

namespace Handler

variable {I : Interface} {ε ε' α β : Type}

/-- Go on with the result. -/
def bind : Handler I ε α → (α → Handler I ε β) → Handler I ε β
  | done result, f => f result
  | fail error, _ => fail error
  | ask call next, f => ask call (fun answer => (next answer).bind f)

instance : Monad (Handler I ε) where
  pure := done
  bind := Handler.bind

/-- Go on with the error of a failure (`try … catch`). -/
def recover : Handler I ε α → (ε → Handler I ε' α) → Handler I ε' α
  | done result, _ => done result
  | fail error, f => f error
  | ask call next, f => ask call (fun answer => (next answer).recover f)

/-- A handler without calls. -/
def ofExcept : Except ε α → Handler I ε α
  | .ok result => done result
  | .error error => fail error

instance : MonadLift (Except ε) (Handler I ε) := ⟨ofExcept⟩

/-- All calls are allowed, and all results meet `post`, whatever the answers. -/
def Calls (allowed : I.Call → Prop) (post : α → Prop) : Handler I ε α → Prop
  | done result => post result
  | fail _ => True
  | ask call next => allowed call ∧ ∀ answer, (next answer).Calls allowed post

end Handler

/-- A call that was answered, with the states before and after it. -/
structure Exchange (I : Interface) (S : Type) where
  before : S
  call : I.Call
  answer : I.Answer call
  after : S

/-- Which answers a call can get in a state, and which state is left. -/
abbrev World (I : Interface) (S : Type) := S → (call : I.Call) → I.Answer call → S → Prop

variable {I : Interface} {S ε ε' α β : Type}

/-- A handler gets from a state to a rest of it in another state, by the exchanges of a trace. -/
inductive Runs (W : World I S) :
    Handler I ε α → S → List (Exchange I S) → Handler I ε α → S → Prop
  | stop (h : Handler I ε α) (s : S) : Runs W h s [] h s
  | exchange {call : I.Call} {next : I.Answer call → Handler I ε α} {s s' s'' : S}
      {answer : I.Answer call} {trace : List (Exchange I S)} {rest : Handler I ε α} :
      W s call answer s' → Runs W (next answer) s' trace rest s'' →
        Runs W (.ask call next) s (⟨s, call, answer, s'⟩ :: trace) rest s''

variable (W : World I S) (permitted : List (Exchange I S) → Exchange I S → Prop)

/-- Every exchange from here on is permitted by the past ones, and every result meets `post`. -/
def Meets (post : α → List (Exchange I S) → S → Prop) :
    Handler I ε α → List (Exchange I S) → S → Prop
  | .done result, past, s => post result past s
  | .fail _, _, _ => True
  | .ask call next, past, s => ∀ answer s', W s call answer s' →
      permitted past ⟨s, call, answer, s'⟩ ∧
        Meets post (next answer) (past ++ [⟨s, call, answer, s'⟩]) s'

/-! ## Calls -/

namespace Handler

variable {allowed : I.Call → Prop} {post post' : α → Prop}

@[simp] theorem calls_done {result : α} :
    (done result : Handler I ε α).Calls allowed post ↔ post result := Iff.rfl

@[simp] theorem calls_pure {result : α} :
    (pure result : Handler I ε α).Calls allowed post ↔ post result := Iff.rfl

@[simp] theorem calls_fail {error : ε} :
    (fail error : Handler I ε α).Calls allowed post ↔ True := Iff.rfl

@[simp] theorem calls_ask {call : I.Call} {next : I.Answer call → Handler I ε α} :
    (ask call next).Calls allowed post ↔
      allowed call ∧ ∀ answer, (next answer).Calls allowed post := Iff.rfl

@[simp] theorem calls_ofExcept {outcome : Except ε α} :
    (ofExcept outcome : Handler I ε α).Calls allowed post ↔
      ∀ result, outcome = .ok result → post result := by
  cases outcome <;> simp [ofExcept]

@[simp] theorem calls_liftM {outcome : Except ε α} :
    (liftM outcome : Handler I ε α).Calls allowed post ↔
      ∀ result, outcome = .ok result → post result := calls_ofExcept

@[simp] theorem calls_bind {post : β → Prop} {h : Handler I ε α} {f : α → Handler I ε β} :
    (h >>= f).Calls allowed post ↔
      h.Calls allowed (fun result => (f result).Calls allowed post) := by
  induction h with
  | done result => exact Iff.rfl
  | fail error => exact Iff.rfl
  | ask call next ih => exact and_congr_right (fun _ => forall_congr' ih)

/-- A weaker postcondition is met as well. -/
theorem Calls.mono {h : Handler I ε α} (hcalls : h.Calls allowed post)
    (hpost : ∀ result, post result → post' result) : h.Calls allowed post' := by
  induction h with
  | done result => exact hpost result hcalls
  | fail error => trivial
  | ask call next ih => exact ⟨hcalls.1, fun answer => ih answer (hcalls.2 answer)⟩

/-- A handler whose failure is caught. -/
theorem calls_recover {h : Handler I ε α} {f : ε → Handler I ε' α} (hcalls : h.Calls allowed post)
    (hcaught : ∀ error, (f error).Calls allowed post) : (h.recover f).Calls allowed post := by
  induction h with
  | done result => exact hcalls
  | fail error => exact hcaught error
  | ask call next ih => exact ⟨hcalls.1, fun answer => ih answer (hcalls.2 answer)⟩

/-- A loop of handlers that make allowed calls. -/
theorem calls_forM {items : List β} {f : β → Handler I ε PUnit} {post : PUnit → Prop}
    (hitem : ∀ item ∈ items, (f item).Calls allowed (fun _ => True)) (hpost : post ⟨⟩) :
    (items.forM f).Calls allowed post := by
  induction items with
  | nil => exact hpost
  | cons item items ih =>
    change (f item >>= fun _ => items.forM f).Calls allowed post
    rw [calls_bind]
    have hrest := ih (fun other hother => hitem other (List.mem_cons_of_mem item hother))
    exact (hitem item List.mem_cons_self).mono (fun _ _ => hrest)

end Handler

/-! ## Weakest preconditions -/

section Rules

variable {W permitted} {post post' : α → List (Exchange I S) → S → Prop}
  {past : List (Exchange I S)} {s : S}

@[simp] theorem meets_done {result : α} :
    Meets (ε := ε) W permitted post (.done result) past s ↔ post result past s := Iff.rfl

@[simp] theorem meets_pure {result : α} :
    Meets (ε := ε) W permitted post (pure result) past s ↔ post result past s := Iff.rfl

@[simp] theorem meets_fail {error : ε} :
    Meets W permitted post (.fail error) past s ↔ True := Iff.rfl

@[simp] theorem meets_ask {call : I.Call} {next : I.Answer call → Handler I ε α} :
    Meets W permitted post (.ask call next) past s ↔ ∀ answer s', W s call answer s' →
      permitted past ⟨s, call, answer, s'⟩ ∧
        Meets W permitted post (next answer) (past ++ [⟨s, call, answer, s'⟩]) s' := Iff.rfl

@[simp] theorem meets_ofExcept {outcome : Except ε α} :
    Meets W permitted post (.ofExcept outcome) past s ↔
      ∀ result, outcome = .ok result → post result past s := by
  cases outcome <;> simp [Handler.ofExcept]

@[simp] theorem meets_liftM {outcome : Except ε α} :
    Meets W permitted post (liftM outcome : Handler I ε α) past s ↔
      ∀ result, outcome = .ok result → post result past s := meets_ofExcept

/-- Handlers in sequence. -/
@[simp] theorem meets_bind {post : β → List (Exchange I S) → S → Prop} {h : Handler I ε α}
    {f : α → Handler I ε β} : Meets W permitted post (h >>= f) past s ↔
      Meets W permitted (fun result => Meets W permitted post (f result)) h past s := by
  induction h generalizing past s with
  | done result => exact Iff.rfl
  | fail error => exact Iff.rfl
  | ask call next ih =>
    constructor
    · intro hmeets answer s' hanswer
      have hnext := hmeets answer s' hanswer
      exact ⟨hnext.1, (ih answer).mp hnext.2⟩
    · intro hmeets answer s' hanswer
      have hnext := hmeets answer s' hanswer
      exact ⟨hnext.1, (ih answer).mpr hnext.2⟩

/-- A weaker postcondition is met as well. -/
theorem Meets.mono {h : Handler I ε α} (hmeets : Meets W permitted post h past s)
    (hpost : ∀ result past s, post result past s → post' result past s) :
    Meets W permitted post' h past s := by
  induction h generalizing past s with
  | done result => exact hpost _ _ _ hmeets
  | fail error => trivial
  | ask call next ih =>
    intro answer s' hanswer
    have hnext := hmeets answer s' hanswer
    exact ⟨hnext.1, ih answer hnext.2⟩

/-- A handler whose failure is caught. -/
theorem meets_recover {h : Handler I ε α} {f : ε → Handler I ε' α}
    (hmeets : Meets W permitted post h past s)
    (hcaught : ∀ error past s, Meets W permitted post (f error) past s) :
    Meets W permitted post (h.recover f) past s := by
  induction h generalizing past s with
  | done result => exact hmeets
  | fail error => exact hcaught error past s
  | ask call next ih =>
    intro answer s' hanswer
    have hnext := hmeets answer s' hanswer
    exact ⟨hnext.1, ih answer hnext.2⟩

/-- A loop, by an invariant of the items that it has been through. -/
theorem meets_forM {post : PUnit → List (Exchange I S) → S → Prop} {items : List β}
    {f : β → Handler I ε PUnit} (inv : List β → List (Exchange I S) → S → Prop)
    (hstep : ∀ before item, before ++ [item] <+: items → ∀ past s, inv before past s →
      Meets W permitted (fun _ => inv (before ++ [item])) (f item) past s)
    (hend : ∀ past s, inv items past s → post ⟨⟩ past s) (hinv : inv [] past s) :
    Meets W permitted post (items.forM f) past s := by
  suffices hrest : ∀ (before rest : List β) past s, before ++ rest = items → inv before past s →
      Meets W permitted post (rest.forM f) past s from hrest [] items past s rfl hinv
  intro before rest
  induction rest generalizing before with
  | nil =>
    intro past s hitems hbefore
    rw [List.append_nil] at hitems
    exact hend past s (hitems ▸ hbefore)
  | cons item rest ih =>
    intro past s hitems hbefore
    have hitems : (before ++ [item]) ++ rest = items := by simpa using hitems
    have hitem := hstep before item ⟨rest, hitems⟩ past s hbefore
    change Meets W permitted post (f item >>= fun _ => rest.forM f) past s
    rw [meets_bind]
    exact hitem.mono (fun _ past s hnext => ih (before ++ [item]) past s hitems hnext)

/-- Allowed calls are permitted, if that is so in the world. -/
theorem Handler.Calls.meets {allowed : I.Call → Prop} {h : Handler I ε α} {good : α → Prop}
    (hcalls : h.Calls allowed good)
    (hallowed : ∀ past exchange, allowed exchange.call → permitted past exchange) :
    Meets W permitted (fun result _ _ => good result) h past s := by
  induction h generalizing past s with
  | done result => exact hcalls
  | fail error => trivial
  | ask call next ih =>
    intro answer s' _
    exact ⟨hallowed past _ hcalls.1, ih answer (hcalls.2 answer)⟩

/-- In a run of a handler that meets its condition each exchange is permitted by those before it,
and so are those of the rest. -/
theorem Runs.meets {h rest : Handler I ε α} {s' : S} {trace : List (Exchange I S)}
    (hruns : Runs W h s trace rest s') (hmeets : Meets W permitted post h past s) :
    (∀ before exchange after, trace = before ++ exchange :: after →
      permitted (past ++ before) exchange) ∧
      Meets W permitted post rest (past ++ trace) s' := by
  induction hruns generalizing past with
  | stop h s =>
    refine ⟨fun before exchange after htrace => ?_, by simpa using hmeets⟩
    simp at htrace
  | @exchange call next s s₁ s₂ answer trace rest hanswer _ ih =>
    obtain ⟨hfirst, hnext⟩ := hmeets answer s₁ hanswer
    obtain ⟨hlater, hrest⟩ := ih hnext
    refine ⟨fun before exchange after htrace => ?_, by simpa using hrest⟩
    cases before with
    | nil =>
      obtain ⟨rfl, -⟩ := List.cons.inj htrace
      simpa using hfirst
    | cons first before =>
      obtain ⟨rfl, htail⟩ := List.cons.inj htrace
      simpa using hlater before exchange after htail

end Rules

/-! ## Runs of parts -/

section Parts

variable {W : World I S} {h : Handler I ε α} {s s' s'' : S} {trace trace' : List (Exchange I S)}

/-- A part that is done is followed by the rest. -/
theorem Runs.bind {f : α → Handler I ε β} {result : α} {rest : Handler I ε β}
    (hruns : Runs W h s trace (.done result) s') (hrest : Runs W (f result) s' trace' rest s'') :
    Runs W (h >>= f) s (trace ++ trace') rest s'' := by
  generalize hdone : (Handler.done result : Handler I ε α) = last at hruns
  induction hruns with
  | stop h s =>
    subst hdone
    exact hrest
  | exchange hanswer _ ih => exact .exchange hanswer (ih hrest hdone)

/-- A part without calls that has a result is done. -/
theorem runs_ok {outcome : Except ε α} {result : α} (houtcome : outcome = .ok result) (s : S) :
    Runs W (.ofExcept outcome) s [] (.done result) s := by
  subst houtcome
  exact .stop _ _

/-- The first part goes on for as long as it runs. -/
theorem Runs.first {f : α → Handler I ε β} {rest : Handler I ε α}
    (hruns : Runs W h s trace rest s') : Runs W (h >>= f) s trace (rest >>= f) s' := by
  induction hruns with
  | stop h s => exact .stop _ _
  | exchange hanswer _ ih => exact .exchange hanswer ih

/-- A handler whose failures are caught goes on for as long as it runs. -/
theorem Runs.recover {f : ε → Handler I ε' α} {rest : Handler I ε α}
    (hruns : Runs W h s trace rest s') : Runs W (h.recover f) s trace (rest.recover f) s' := by
  induction hruns with
  | stop h s => exact .stop _ _
  | exchange hanswer _ ih => exact .exchange hanswer ih

/-- What relates the states of every exchange relates those of the run. -/
theorem Runs.related {R : S → S → Prop} {rest : Handler I ε α} (hruns : Runs W h s trace rest s')
    (hrefl : ∀ s, R s s) (htrans : ∀ s₁ s₂ s₃, R s₁ s₂ → R s₂ s₃ → R s₁ s₃)
    (hexchange : ∀ exchange ∈ trace, R exchange.before exchange.after) : R s s' := by
  induction hruns with
  | stop h s => exact hrefl s
  | exchange _ _ ih =>
    have hfirst := hexchange _ List.mem_cons_self
    have hrest := ih (fun exchange hmem => hexchange exchange (List.mem_cons_of_mem _ hmem))
    exact htrans _ _ _ hfirst hrest

/-- An exchange of a run is one the world allows, and what relates the states of every exchange
relates the states before it and after it. -/
theorem Runs.exchanges {R : S → S → Prop} {rest : Handler I ε α}
    (hruns : Runs W h s trace rest s') (hrefl : ∀ s, R s s)
    (htrans : ∀ s₁ s₂ s₃, R s₁ s₂ → R s₂ s₃ → R s₁ s₃)
    (hrelated : ∀ s call answer s', W s call answer s' → R s s') :
    R s s' ∧ ∀ exchange ∈ trace,
      W exchange.before exchange.call exchange.answer exchange.after ∧
        R s exchange.before ∧ R exchange.after s' := by
  induction hruns with
  | stop h s => exact ⟨hrefl s, fun exchange hmem => absurd hmem (by simp)⟩
  | exchange hanswer _ ih =>
    obtain ⟨hlast, hrest⟩ := ih
    have hfirst := hrelated _ _ _ _ hanswer
    refine ⟨htrans _ _ _ hfirst hlast, fun exchange hmem => ?_⟩
    rcases List.mem_cons.mp hmem with rfl | hmem
    · exact ⟨hanswer, hrefl _, hlast⟩
    · obtain ⟨hallowed, hbefore, hafter⟩ := hrest exchange hmem
      exact ⟨hallowed, htrans _ _ _ hfirst hbefore, hafter⟩

/-- A failed handler stays as it is. -/
theorem Runs.of_fail {error : ε} {rest : Handler I ε α}
    (hruns : Runs W (.fail error) s trace rest s') : trace = [] ∧ rest = .fail error ∧ s' = s := by
  cases hruns
  exact ⟨rfl, rfl, rfl⟩

variable (W h s) in
/-- A handler can come to an exchange. -/
def Reaches (exchange : Exchange I S) : Prop :=
  ∃ trace rest s', Runs W h s trace rest s' ∧ exchange ∈ trace

variable {exchange : Exchange I S}

/-- The call that a handler makes first. -/
theorem reaches_ask {call : I.Call} {next : I.Answer call → Handler I ε α}
    {answer : I.Answer call} (hanswer : W s call answer s') :
    Reaches W (.ask call next) s ⟨s, call, answer, s'⟩ :=
  ⟨_, _, _, .exchange hanswer (.stop _ _), List.mem_cons_self⟩

/-- An exchange after a part that is done. -/
theorem Reaches.after {f : α → Handler I ε β} {result : α}
    (hreaches : Reaches W (f result) s' exchange) (hruns : Runs W h s trace (.done result) s') :
    Reaches W (h >>= f) s exchange := by
  obtain ⟨trace', rest, s'', hrest, hexchange⟩ := hreaches
  exact ⟨_, _, _, hruns.bind hrest, List.mem_append_right trace hexchange⟩

/-- An exchange of the first part. -/
theorem Reaches.first {f : α → Handler I ε β} (hreaches : Reaches W h s exchange) :
    Reaches W (h >>= f) s exchange := by
  obtain ⟨trace, rest, s', hruns, hexchange⟩ := hreaches
  exact ⟨trace, _, s', hruns.first, hexchange⟩

/-- An exchange of a handler whose failures are caught. -/
theorem Reaches.recover {f : ε → Handler I ε' α} (hreaches : Reaches W h s exchange) :
    Reaches W (h.recover f) s exchange := by
  obtain ⟨trace, rest, s', hruns, hexchange⟩ := hreaches
  exact ⟨trace, _, s', hruns.recover, hexchange⟩

end Parts

end LegacyVault.Handlers
