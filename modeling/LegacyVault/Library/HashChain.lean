import Mathlib.Data.List.Basic
import Mathlib.Data.List.Forall2
import Mathlib.Tactic.Common

/-!
# Linked chains of events

Events stand at consecutive positions, and each names what was recorded of the
event before it. A linked list whose events all correspond to events of one
linked chain, with the position and the predecessor they name there, is a
prefix of that chain, and what it records agrees up to its last event.
-/

namespace LegacyVault.HashChain

/-- What a chain reads of its events. -/
structure Links (Event Position Hash : Type) where
  /-- The position an event names. -/
  position : Event → Position
  /-- What an event names as recorded of the event before it. -/
  previous : Event → Hash
  /-- What is recorded of an event. -/
  recorded : Event → Hash

variable {Event Position Hash : Type} (links : Links Event Position Hash) (place : Nat → Position)

/-- Events that stand after the `n`-th position, the first naming the given predecessor. -/
def LinkedFrom : Nat → Hash → List Event → Prop
  | _, _, [] => True
  | n, previous, event :: events =>
    links.position event = place (n + 1) ∧ links.previous event = previous ∧
      LinkedFrom (n + 1) (links.recorded event) events

/-- What was recorded last. -/
def lastRecorded (genesis : Hash) (events : List Event) : Hash :=
  (events.getLast?.map links.recorded).getD genesis

@[simp] theorem lastRecorded_nil (genesis : Hash) : lastRecorded links genesis [] = genesis := rfl

@[simp] theorem lastRecorded_append (genesis : Hash) (events : List Event) (event : Event) :
    lastRecorded links genesis (events ++ [event]) = links.recorded event := by
  simp [lastRecorded]

@[simp] theorem lastRecorded_cons (genesis : Hash) (event : Event) (events : List Event) :
    lastRecorded links genesis (event :: events) =
      lastRecorded links (links.recorded event) events := by
  cases events <;> simp [lastRecorded, List.getLast?_cons]

variable {links place}

/-- An event that names the next position and what was recorded last extends a chain. -/
theorem LinkedFrom.append {n : Nat} {previous : Hash} {events : List Event} {event : Event}
    (h : LinkedFrom links place n previous events)
    (hposition : links.position event = place (n + events.length + 1))
    (hprevious : links.previous event = lastRecorded links previous events) :
    LinkedFrom links place n previous (events ++ [event]) := by
  induction events generalizing n previous with
  | nil => exact ⟨hposition, hprevious, trivial⟩
  | cons first events ih =>
    refine ⟨h.1, h.2.1, ih h.2.2 ?_ ?_⟩
    · rw [hposition, List.length_cons]
      congr 1
      omega
    · rw [hprevious, lastRecorded_cons]

/-- Events after a position stand at later positions. -/
theorem LinkedFrom.position_mem {n : Nat} {previous : Hash} {events : List Event}
    (h : LinkedFrom links place n previous events) {event : Event} (hmem : event ∈ events) :
    ∃ m, n < m ∧ m ≤ n + events.length ∧ links.position event = place m := by
  induction events generalizing n previous with
  | nil => exact absurd hmem List.not_mem_nil
  | cons first events ih =>
    rcases List.mem_cons.mp hmem with rfl | hrest
    · exact ⟨n + 1, by omega, by simp only [List.length_cons]; omega, h.1⟩
    · obtain ⟨m, hlower, hupper, hposition⟩ := ih h.2.2 hrest
      exact ⟨m, by omega, by simp only [List.length_cons]; omega, hposition⟩

/-- Events in order of their positions, which are consecutive, are linked when each names what was
recorded at the position before it. -/
theorem linkedFrom_of_sorted {links : Links Event Nat Hash} {n m : Nat} {previous : Hash}
    {events : List Event}
    (hsorted : events.Pairwise (fun a b => links.position a < links.position b))
    (hpositions : ∀ k, (∃ event ∈ events, links.position event = k) ↔ n < k ∧ k ≤ m)
    (hfirst : ∀ event ∈ events, links.position event = n + 1 → links.previous event = previous)
    (hlinked : ∀ a ∈ events, ∀ b ∈ events, links.position b = links.position a + 1 →
      links.previous b = links.recorded a) : LinkedFrom links id n previous events := by
  induction events generalizing n previous with
  | nil => trivial
  | cons event events ih =>
    obtain ⟨hbefore, hrest⟩ := List.pairwise_cons.mp hsorted
    have hplace := (hpositions (links.position event)).mp ⟨event, List.mem_cons_self, rfl⟩
    have hposition : links.position event = n + 1 := by
      obtain ⟨next, hnext, hat⟩ := (hpositions (n + 1)).mpr ⟨by omega, by omega⟩
      rcases List.mem_cons.mp hnext with rfl | hlater
      · exact hat
      · have hless := hbefore next hlater
        omega
    refine ⟨hposition, hfirst event List.mem_cons_self hposition, ih hrest (fun k => ?_) ?_ ?_⟩
    · constructor
      · rintro ⟨later, hmem, rfl⟩
        have hless := hbefore later hmem
        have hbound := (hpositions _).mp ⟨later, List.mem_cons_of_mem _ hmem, rfl⟩
        omega
      · intro hk
        obtain ⟨later, hmem, hat⟩ := (hpositions k).mpr ⟨by omega, hk.2⟩
        rcases List.mem_cons.mp hmem with rfl | hmem
        · omega
        · exact ⟨later, hmem, hat⟩
    · intro later hmem hat
      refine hlinked event List.mem_cons_self later (List.mem_cons_of_mem _ hmem) ?_
      rw [hposition]
      exact hat
    · exact fun a ha b hb => hlinked a (List.mem_cons_of_mem _ ha) b (List.mem_cons_of_mem _ hb)

/-- Linked lists stay linked under a correspondence that keeps what the chain reads. -/
theorem LinkedFrom.of_forall₂ {Event' Position' : Type} {links : Links Event Position Hash}
    {links' : Links Event' Position' Hash} {place : Nat → Position} {place' : Nat → Position'}
    {C : Event → Event' → Prop}
    (hposition : ∀ event event' k, C event event' → links.position event = place k →
      links'.position event' = place' k)
    (hprevious : ∀ event event', C event event' → links'.previous event' = links.previous event)
    (hrecorded : ∀ event event', C event event' → links'.recorded event' = links.recorded event)
    {n : Nat} {previous : Hash} {events : List Event} {events' : List Event'}
    (hall : List.Forall₂ C events events') (h : LinkedFrom links place n previous events) :
    LinkedFrom links' place' n previous events' := by
  induction hall generalizing n previous with
  | nil => trivial
  | cons hhead _ ih =>
    refine ⟨hposition _ _ _ hhead h.1, (hprevious _ _ hhead).trans h.2.1, ?_⟩
    rw [hrecorded _ _ hhead]
    exact ih h.2.2

/-- A linked list whose events are all issued in a linked chain corresponds to a prefix of that
chain. Where both have a successor, what is recorded agrees as well. -/
theorem LinkedFrom.prefix_of_issued (hplace : Function.Injective place)
    {S : Event → Event → Prop}
    (hsame : ∀ event issued, S event issued → links.position event = links.position issued ∧
      links.previous event = links.previous issued)
    {n : Nat} {previous : Hash} {events chain : List Event}
    (hevents : LinkedFrom links place n previous events)
    (hchain : LinkedFrom links place n previous chain)
    (hissued : ∀ event ∈ events, ∃ issued ∈ chain, S event issued) :
    ∃ issued rest, chain = issued ++ rest ∧ List.Forall₂ S events issued ∧
      events.dropLast.map links.recorded = issued.dropLast.map links.recorded := by
  induction events generalizing n previous chain with
  | nil => exact ⟨[], chain, rfl, .nil, rfl⟩
  | cons event events ih =>
    obtain ⟨issued, hissuedMem, hhead⟩ := hissued event List.mem_cons_self
    have hposition : links.position issued = place (n + 1) :=
      (hsame event issued hhead).1.symm.trans hevents.1
    -- only the first event of the chain stands at this position
    cases chain with
    | nil => exact absurd hissuedMem List.not_mem_nil
    | cons first chain =>
      have hfirst : issued = first := by
        rcases List.mem_cons.mp hissuedMem with hfirst | hrest
        · exact hfirst
        · obtain ⟨m, hlater, -, hm⟩ := hchain.2.2.position_mem hrest
          have hequal : m = n + 1 := hplace (hm.symm.trans hposition)
          omega
      subst hfirst
      cases events with
      | nil => exact ⟨[issued], chain, rfl, .cons hhead .nil, rfl⟩
      | cons next events =>
        have htail : ∀ event ∈ next :: events, ∃ issued ∈ chain, S event issued := by
          intro later hlater
          obtain ⟨found, hfound, hmatch⟩ := hissued later (List.mem_cons_of_mem _ hlater)
          rcases List.mem_cons.mp hfound with rfl | hrest
          · obtain ⟨m, hafter, -, hm⟩ := hevents.2.2.position_mem hlater
            have hequal : m = n + 1 :=
              hplace ((hm.symm.trans (hsame later found hmatch).1).trans hposition)
            omega
          · exact ⟨found, hrest, hmatch⟩
        -- the successor names what each side recorded
        have hrecorded : links.recorded event = links.recorded issued := by
          obtain ⟨found, hfound, hmatch⟩ := htail next List.mem_cons_self
          have hnext : links.previous found = links.recorded event :=
            (hsame next found hmatch).2.symm.trans hevents.2.2.2.1
          have hplaceFound : links.position found = place (n + 1 + 1) :=
            (hsame next found hmatch).1.symm.trans hevents.2.2.1
          cases chain with
          | nil => exact absurd hfound List.not_mem_nil
          | cons second chain =>
            rcases List.mem_cons.mp hfound with rfl | hrest
            · exact hnext.symm.trans hchain.2.2.2.1
            · obtain ⟨m, hafter, -, hm⟩ := hchain.2.2.2.2.position_mem hrest
              have hequal : m = n + 1 + 1 := hplace (hm.symm.trans hplaceFound)
              omega
        have hchainTail : LinkedFrom links place (n + 1) (links.recorded event) chain := by
          rw [hrecorded]
          exact hchain.2.2
        obtain ⟨found, rest, rfl, hall, hmap⟩ := ih hevents.2.2 hchainTail htail
        have hne : found ≠ [] := by
          rintro rfl
          cases hall
        refine ⟨issued :: found, rest, rfl, .cons hhead hall, ?_⟩
        rw [List.dropLast_cons_of_ne_nil (by simp), List.dropLast_cons_of_ne_nil hne,
          List.map_cons, List.map_cons, hrecorded, hmap]

end LegacyVault.HashChain
