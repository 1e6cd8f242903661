import LegacyVault.Library.Handlers
import Mathlib.Logic.Function.Basic

/-!
# Concurrent handlers

A service handles any number of requests over one store. It goes from one
exchange of a request to the next in any order, and others work on the store
in between.

What a handler may call after which answers does not depend on the store, so
`Service.Permits` is shown for each handler alone. `Service.Relies` is the
rule for the store: what every permitted exchange and the work of others keep
holds of every reachable store, and what they relate is related from each
exchange to the present.
-/

namespace LegacyVault.Handlers

variable {I : Interface} {S ε α : Type}

/-- An exchange without the states. -/
def Exchange.event (exchange : Exchange I S) : Exchange I Unit :=
  ⟨(), exchange.call, exchange.answer, ()⟩

/-- An event of a past is one of its exchanges. -/
theorem mem_of_event {past : List (Exchange I S)} {call : I.Call} {answer : I.Answer call}
    (h : ⟨(), call, answer, ()⟩ ∈ past.map Exchange.event) :
    ∃ before after, ⟨before, call, answer, after⟩ ∈ past := by
  obtain ⟨⟨before, call', answer', after⟩, hmem, heq⟩ := List.mem_map.mp h
  cases heq
  exact ⟨before, after, hmem⟩

/-- The world in which any answer can come. -/
def anyAnswer : World I Unit := fun _ _ _ _ => True

/-- After a part that makes allowed calls, more has been exchanged, and its result is good. Calls
are permitted if they are allowed and come no earlier than that part. -/
theorem Handler.Calls.meets_after {W : World I S}
    {permitted : List (Exchange I S) → Exchange I S → Prop} {allowed : I.Call → Prop}
    {h : Handler I ε α} {good : α → Prop} {first past : List (Exchange I S)} {s : S}
    (hcalls : h.Calls allowed good)
    (hallowed : ∀ past exchange, first <+: past → allowed exchange.call → permitted past exchange)
    (hfirst : first <+: past) :
    Meets W permitted (fun result past _ => first <+: past ∧ good result) h past s := by
  induction h generalizing past s with
  | done result => exact ⟨hfirst, hcalls⟩
  | fail error => trivial
  | ask call next ih =>
    intro answer s' _
    exact ⟨hallowed past _ hfirst hcalls.1,
      ih answer (hcalls.2 answer) (hfirst.trans (List.prefix_append ..))⟩

/-- Requests with their handlers, and what these and others do with the store. -/
structure Service (I : Interface) (S ε α : Type) where
  Request : Type
  handler : Request → Handler I ε α
  world : World I S
  works : S → S → Prop

namespace Service

variable (service : Service I S ε α)

/-- A request with its past exchanges and the rest of its handler. -/
structure Progress where
  request : service.Request
  past : List (Exchange I S)
  rest : Handler I ε α

/-- The store, and the requests that have begun. -/
structure State where
  store : S
  requests : Nat → Option service.Progress

variable {service}

/-- A request has got so far. -/
def State.withProgress (s : service.State) (id : Nat) (progress : service.Progress) :
    service.State :=
  { s with requests := Function.update s.requests id (some progress) }

/-- A request begins, exchanges a call for an answer, or others work. -/
inductive Step : service.State → service.State → Prop
  | begins {s : service.State} {id : Nat} {request : service.Request}
      (hfree : s.requests id = none) :
      Step s (s.withProgress id ⟨request, [], service.handler request⟩)
  | exchanges {s : service.State} {id : Nat} {request : service.Request}
      {past : List (Exchange I S)} {call : I.Call} {next : I.Answer call → Handler I ε α}
      {answer : I.Answer call} {σ' : S}
      (hprogress : s.requests id = some ⟨request, past, .ask call next⟩)
      (hanswer : service.world s.store call answer σ') :
      Step s { s.withProgress id
        ⟨request, past ++ [⟨s.store, call, answer, σ'⟩], next answer⟩ with store := σ' }
  | works {s : service.State} {σ' : S} (hworks : service.works s.store σ') :
      Step s { s with store := σ' }

/-- The states that a service reaches from a store. -/
inductive Reachable (init : S) : service.State → Prop
  | initial : Reachable init ⟨init, fun _ => none⟩
  | step {s s' : service.State} (hreachable : Reachable init s) (hstep : Step s s') :
      Reachable init s'

section Rules

variable {init : S} {s s' : service.State} {id : Nat} {progress : service.Progress}

/-- A request that has got so far is the one just set, or it was there before. -/
theorem withProgress_cases {id' : Nat} {progress' : service.Progress}
    (h : (s.withProgress id progress).requests id' = some progress') :
    id' = id ∧ progress' = progress ∨ s.requests id' = some progress' := by
  by_cases hid : id' = id
  · subst hid
    have hself : (s.withProgress id' progress).requests id' = some progress :=
      Function.update_self ..
    exact Or.inl ⟨rfl, Option.some.inj (h.symm.trans hself)⟩
  · have hother : (s.withProgress id progress).requests id' = s.requests id' :=
      Function.update_of_ne hid ..
    exact Or.inr (hother.symm.trans h)

variable (service) in
/-- Every handler makes permitted calls only, and its result meets the postcondition, after the
events that came before and whatever the answers. -/
def Permits (permitted : List (Exchange I Unit) → Exchange I Unit → Prop)
    (post : service.Request → α → List (Exchange I Unit) → Prop) : Prop :=
  ∀ request, Meets anyAnswer permitted (fun result past _ => post request result past)
    (service.handler request) [] ()

variable {permitted : List (Exchange I Unit) → Exchange I Unit → Prop}
  {post : service.Request → α → List (Exchange I Unit) → Prop}

/-- Every request has made permitted calls only and goes on so. -/
theorem Reachable.permits (hpermits : service.Permits permitted post) (h : Reachable init s)
    (hprogress : s.requests id = some progress) :
    (∀ before exchange after, progress.past = before ++ exchange :: after →
      permitted (before.map Exchange.event) exchange.event) ∧
    Meets anyAnswer permitted (fun result past _ => post progress.request result past)
      progress.rest (progress.past.map Exchange.event) () := by
  induction h generalizing id progress with
  | initial => simp at hprogress
  | @step s s' _ hstep ih =>
    cases hstep with
    | @begins id' request hfree =>
      rcases withProgress_cases hprogress with ⟨-, rfl⟩ | hbefore
      · exact ⟨fun before exchange after hpast => absurd hpast (by simp), hpermits request⟩
      · exact ih hbefore
    | @exchanges id' request past call next answer σ' hasks hanswer =>
      rcases withProgress_cases hprogress with ⟨-, rfl⟩ | hbefore
      · obtain ⟨hpast, hrest⟩ := ih hasks
        obtain ⟨hnow, hnext⟩ := hrest answer () trivial
        refine ⟨fun before exchange after hsplit => ?_, by simpa [Exchange.event] using hnext⟩
        rcases List.eq_nil_or_concat after with rfl | ⟨after, last, rfl⟩
        · obtain ⟨rfl, hlast⟩ := List.append_inj' hsplit rfl
          obtain rfl := List.singleton_inj.mp hlast
          exact hnow
        · have hsplit : past ++ [⟨s.store, call, answer, σ'⟩] =
              (before ++ exchange :: after) ++ [last] := by simpa using hsplit
          exact hpast before exchange after (List.append_inj' hsplit rfl).1
      · exact ih hbefore
    | works hworks => exact ih hprogress

/-- The result of a request meets the postcondition. -/
theorem Reachable.result (hpermits : service.Permits permitted post) (h : Reachable init s)
    {request : service.Request} {past : List (Exchange I S)} {result : α}
    (hdone : s.requests id = some ⟨request, past, .done result⟩) :
    post request result (past.map Exchange.event) :=
  (h.permits hpermits hdone).2

/-- What the requests rely on and keep: an invariant of the store, and a relation from each store
to those after it. -/
structure Relies (service : Service I S ε α) (init : S)
    (permitted : List (Exchange I Unit) → Exchange I Unit → Prop) (inv : S → Prop)
    (later : S → S → Prop) : Prop where
  refl : ∀ σ, later σ σ
  trans : ∀ σ₁ σ₂ σ₃, later σ₁ σ₂ → later σ₂ σ₃ → later σ₁ σ₃
  start : inv init
  works : ∀ σ σ', inv σ → service.works σ σ' → inv σ' ∧ later σ σ'
  exchange : ∀ (past : List (Exchange I S)) σ call answer σ', inv σ →
    (∀ earlier ∈ past,
      service.world earlier.before earlier.call earlier.answer earlier.after ∧
        inv earlier.before ∧ later earlier.after σ) →
    permitted (past.map Exchange.event) ⟨(), call, answer, ()⟩ →
    service.world σ call answer σ' → inv σ' ∧ later σ σ'

/-- Every reachable store meets the invariant, and comes later than each exchange. -/
theorem Reachable.relies {inv : S → Prop} {later : S → S → Prop}
    (hpermits : service.Permits permitted post) (hrelies : Relies service init permitted inv later)
    (h : Reachable init s) :
    inv s.store ∧ ∀ id progress, s.requests id = some progress → ∀ earlier ∈ progress.past,
      service.world earlier.before earlier.call earlier.answer earlier.after ∧
        inv earlier.before ∧ later earlier.after s.store := by
  induction h with
  | initial => exact ⟨hrelies.start, fun id progress hprogress => absurd hprogress (by simp)⟩
  | @step s s' hreachable hstep ih =>
    obtain ⟨hinv, hpasts⟩ := ih
    cases hstep with
    | @begins id' request hfree =>
      refine ⟨hinv, fun id progress hprogress earlier hearlier => ?_⟩
      rcases withProgress_cases hprogress with ⟨-, rfl⟩ | hbefore
      · exact absurd hearlier (by simp)
      · exact hpasts id progress hbefore earlier hearlier
    | @exchanges id' request past call next answer σ' hasks hanswer =>
      have hpermitted := ((hreachable.permits hpermits hasks).2 answer () trivial).1
      obtain ⟨hinv', hlater⟩ := hrelies.exchange past s.store call answer σ' hinv
        (hpasts id' _ hasks) hpermitted hanswer
      have hgoesOn : ∀ id progress, s.requests id = some progress → ∀ earlier ∈ progress.past,
          service.world earlier.before earlier.call earlier.answer earlier.after ∧
            inv earlier.before ∧ later earlier.after σ' := by
        intro id progress hprogress earlier hearlier
        obtain ⟨hworld, hbefore, hsince⟩ := hpasts id progress hprogress earlier hearlier
        exact ⟨hworld, hbefore, hrelies.trans _ _ _ hsince hlater⟩
      refine ⟨hinv', fun id progress hprogress earlier hearlier => ?_⟩
      rcases withProgress_cases hprogress with ⟨-, rfl⟩ | hbefore
      · rcases List.mem_append.mp hearlier with hold | hnew
        · exact hgoesOn id' _ hasks earlier hold
        · obtain rfl := List.mem_singleton.mp hnew
          exact ⟨hanswer, hinv, hrelies.refl σ'⟩
      · exact hgoesOn id progress hbefore earlier hearlier
    | works hworks =>
      obtain ⟨hinv', hlater⟩ := hrelies.works _ _ hinv hworks
      refine ⟨hinv', fun id progress hprogress earlier hearlier => ?_⟩
      obtain ⟨hworld, hbefore, hsince⟩ := hpasts id progress hprogress earlier hearlier
      exact ⟨hworld, hbefore, hrelies.trans _ _ _ hsince hlater⟩

end Rules

/-! ## Runs of one request -/

/-- A request that runs alone gets as far as its handler does. -/
theorem Reachable.runs {init σ σ' : S} {s : service.State} {id : Nat} {request : service.Request}
    {past trace : List (Exchange I S)} {h rest : Handler I ε α} (hreachable : Reachable init s)
    (hstore : s.store = σ) (hprogress : s.requests id = some ⟨request, past, h⟩)
    (hruns : Runs service.world h σ trace rest σ') :
    ∃ s' : service.State, Reachable init s' ∧ s'.store = σ' ∧
      s'.requests id = some ⟨request, past ++ trace, rest⟩ := by
  induction hruns generalizing s past with
  | stop h σ => exact ⟨s, hreachable, hstore, by rw [List.append_nil]; exact hprogress⟩
  | @exchange call next σ σ₁ σ₂ answer trace rest hanswer _ ih =>
    subst hstore
    obtain ⟨s', hreachable', hstore', hprogress'⟩ :=
      ih (hreachable.step (.exchanges hprogress hanswer)) rfl (Function.update_self ..)
    exact ⟨s', hreachable', hstore', by rw [hprogress', List.append_assoc]; rfl⟩

end Service

end LegacyVault.Handlers
