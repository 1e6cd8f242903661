import Mathlib.Data.List.Induction
import Mathlib.Order.WithBot

/-!
# Registers that keep the latest write

Deliveries of events to a store, one register of which is watched. An event
that was recorded before is ignored, and a new one writes the register unless
the register holds a later time. Between events of one time the one that is
delivered last wins.

What the register holds in the end is decided by the new events. Its time is
the greatest of theirs, and all orders lead to one value just when the new
events of the greatest time carry one value.
-/

namespace LegacyVault

/-- A store that takes deliveries of events, and what its register of interest shows. -/
structure LatestWrite (State D E Id T V : Type) [LinearOrder T] where
  /-- The store after one delivery. -/
  step : State → D → State
  /-- The event that is delivered. -/
  event : D → E
  /-- What tells events apart. -/
  id : E → Id
  /-- What an event writes to the register, unless it is none of its events. -/
  write : E → Option (T × V)
  /-- The event was recorded. -/
  recorded : State → Id → Prop
  /-- Time and value of the register. A register that was never written has no time. -/
  cell : State → WithBot T × V
  /-- What the stores of interest have in common. -/
  Valid : State → Prop
  /-- Every event can be delivered. -/
  delivered : ∀ e, ∃ d, event d = e
  valid_step : ∀ {s} d, Valid s → Valid (step s d)
  recorded_step : ∀ {s} d {i}, Valid s → recorded (step s d) i → recorded s i ∨ i = id (event d)
  recorded_mono : ∀ {s} d {i}, Valid s → recorded s i → recorded (step s d) i
  other : ∀ {s d}, Valid s → write (event d) = none → cell (step s d) = cell s
  duplicate : ∀ {s d}, Valid s → recorded s (id (event d)) → cell (step s d) = cell s
  newer : ∀ {s d w}, Valid s → write (event d) = some w → ¬ recorded s (id (event d)) →
    (cell s).1 ≤ w.1 → cell (step s d) = ((w.1 : WithBot T), w.2)
  older : ∀ {s d w}, Valid s → write (event d) = some w → ¬ recorded s (id (event d)) →
    (w.1 : WithBot T) < (cell s).1 → cell (step s d) = cell s

namespace LatestWrite

variable {State D E Id T V : Type} [LinearOrder T] (R : LatestWrite State D E Id T V)

/-- The store after any number of deliveries. -/
def run (s : State) (ds : List D) : State := ds.foldl R.step s

variable {R}

@[simp] theorem run_nil (s : State) : R.run s [] = s := rfl

@[simp] theorem run_cons (s : State) (d : D) (ds : List D) :
    R.run s (d :: ds) = R.run (R.step s d) ds := rfl

theorem run_append (s : State) (ds ds' : List D) :
    R.run s (ds ++ ds') = R.run (R.run s ds) ds' :=
  List.foldl_append

theorem valid_run {s : State} (hvalid : R.Valid s) (ds : List D) : R.Valid (R.run s ds) := by
  induction ds generalizing s with
  | nil => exact hvalid
  | cons d ds ih => exact ih (R.valid_step d hvalid)

/-- Only what was delivered is recorded. -/
theorem recorded_run {s : State} (hvalid : R.Valid s) {ds : List D} {i : Id}
    (h : R.recorded (R.run s ds) i) : R.recorded s i ∨ ∃ d ∈ ds, R.id (R.event d) = i := by
  induction ds generalizing s with
  | nil => exact Or.inl h
  | cons d ds ih =>
    rcases ih (R.valid_step d hvalid) h with hstep | ⟨d', hmem, hid⟩
    · rcases R.recorded_step d hvalid hstep with hold | hnew
      · exact Or.inl hold
      · exact Or.inr ⟨d, List.mem_cons_self, hnew.symm⟩
    · exact Or.inr ⟨d', List.mem_cons_of_mem _ hmem, hid⟩

/-- What is recorded stays recorded. -/
theorem recorded_later {s : State} (hvalid : R.Valid s) (ds : List D) {i : Id}
    (h : R.recorded s i) : R.recorded (R.run s ds) i := by
  induction ds generalizing s with
  | nil => exact h
  | cons d ds ih => exact ih (R.valid_step d hvalid) (R.recorded_mono d hvalid h)

/-- One delivery leaves the register alone, or a new event writes it that is not older. -/
theorem step_cases {s : State} (hvalid : R.Valid s) (d : D) :
    R.cell (R.step s d) = R.cell s ∧
      (∀ w, R.write (R.event d) = some w → ¬ R.recorded s (R.id (R.event d)) →
        (w.1 : WithBot T) < (R.cell s).1) ∨
    ∃ w, R.write (R.event d) = some w ∧ ¬ R.recorded s (R.id (R.event d)) ∧
      (R.cell s).1 ≤ w.1 ∧ R.cell (R.step s d) = ((w.1 : WithBot T), w.2) := by
  cases hwrite : R.write (R.event d) with
  | none => exact Or.inl ⟨R.other hvalid hwrite, fun w hw => absurd hw (by simp)⟩
  | some w =>
    by_cases hrecorded : R.recorded s (R.id (R.event d))
    · exact Or.inl ⟨R.duplicate hvalid hrecorded, fun _ _ hnew => absurd hrecorded hnew⟩
    · rcases le_or_gt (R.cell s).1 (w.1 : WithBot T) with htime | htime
      · exact Or.inr ⟨w, rfl, hrecorded, htime, R.newer hvalid hwrite hrecorded htime⟩
      · refine Or.inl ⟨R.older hvalid hwrite hrecorded htime, fun w' hw' _ => ?_⟩
        obtain rfl := Option.some.inj hw'
        exact htime

/-- The time of the register never goes back. -/
theorem time_le_step {s : State} (hvalid : R.Valid s) (d : D) :
    (R.cell s).1 ≤ (R.cell (R.step s d)).1 := by
  rcases step_cases hvalid d with ⟨hcell, -⟩ | ⟨w, -, -, htime, hcell⟩
  · rw [hcell]
  · rw [hcell]
    exact htime

theorem time_le_run {s : State} (hvalid : R.Valid s) (ds : List D) :
    (R.cell s).1 ≤ (R.cell (R.run s ds)).1 := by
  induction ds generalizing s with
  | nil => exact le_refl _
  | cons d ds ih => exact (time_le_step hvalid d).trans (ih (R.valid_step d hvalid))

/-- A delivery that comes after others is of an event of the register that is new by then. -/
structure NewAfter (R : LatestWrite State D E Id T V) (s : State) (before : List D) (d : D)
    (w : T × V) : Prop where
  write : R.write (R.event d) = some w
  new : ¬ R.recorded (R.run s before) (R.id (R.event d))

/-- What holds of the register and of every new event holds of it after all deliveries. -/
theorem cell_run_of_new {s : State} (hvalid : R.Valid s) {Q : WithBot T × V → Prop}
    (hcell : Q (R.cell s)) {ds : List D}
    (hnew : ∀ before d later w, ds = before ++ d :: later → R.NewAfter s before d w →
      Q ((w.1 : WithBot T), w.2)) : Q (R.cell (R.run s ds)) := by
  induction ds generalizing s with
  | nil => exact hcell
  | cons d ds ih =>
    refine ih (R.valid_step d hvalid) ?_ (fun before d' later w hsplit h => ?_)
    · rcases step_cases hvalid d with ⟨hsame, -⟩ | ⟨w, hwrite, hfresh, -, hwritten⟩
      · rw [hsame]
        exact hcell
      · rw [hwritten]
        exact hnew [] d ds w rfl ⟨hwrite, hfresh⟩
    · rw [hsplit] at hnew
      exact hnew (d :: before) d' later w rfl ⟨h.write, h.new⟩

/-- The register ends after a time just when it was after it at first, or some delivery of a
new event is after it. -/
theorem lt_time_run {s : State} (hvalid : R.Valid s) (ds : List D) (t : WithBot T) :
    t < (R.cell (R.run s ds)).1 ↔ t < (R.cell s).1 ∨
      ∃ before d later w, ds = before ++ d :: later ∧ R.NewAfter s before d w ∧
        t < (w.1 : WithBot T) := by
  induction ds generalizing s with
  | nil => simp
  | cons d ds ih =>
    rw [run_cons, ih (R.valid_step d hvalid)]
    constructor
    · rintro (hstep | ⟨before, d', later, w, rfl, hnew, hafter⟩)
      · rcases step_cases hvalid d with ⟨hcell, -⟩ | ⟨w, hwrite, hnew, -, hcell⟩
        · rw [hcell] at hstep
          exact Or.inl hstep
        · rw [hcell] at hstep
          exact Or.inr ⟨[], d, ds, w, rfl, ⟨hwrite, hnew⟩, hstep⟩
      · exact Or.inr ⟨d :: before, d', later, w, rfl, ⟨hnew.write, hnew.new⟩, hafter⟩
    · rintro (hfirst | ⟨before, d', later, w, hsplit, hnew, hafter⟩)
      · exact Or.inl (hfirst.trans_le (time_le_step hvalid d))
      · cases before with
        | nil =>
          obtain ⟨rfl, rfl⟩ := List.cons.inj hsplit
          rcases step_cases hvalid d with ⟨hcell, holder⟩ | ⟨w', hwrite', -, -, hcell⟩
          · rw [hcell]
            exact Or.inl (hafter.trans (holder w hnew.write hnew.new))
          · obtain rfl := Option.some.inj (hwrite'.symm.trans hnew.write)
            rw [hcell]
            exact Or.inl hafter
        | cons first before =>
          obtain ⟨rfl, rfl⟩ := List.cons.inj hsplit
          exact Or.inr ⟨before, d', later, w, rfl, ⟨hnew.write, hnew.new⟩, hafter⟩

/-- An event of the register that was not recorded at first. -/
structure Fresh (R : LatestWrite State D E Id T V) (s : State) (e : E) (w : T × V) : Prop where
  write : R.write e = some w
  new : ¬ R.recorded s (R.id e)

/-- The events among deliveries are told apart by what identifies them. -/
def SameById (R : LatestWrite State D E Id T V) (es : List E) : Prop :=
  ∀ e ∈ es, ∀ e' ∈ es, R.id e = R.id e' → e = e'

theorem SameById.subset {es es' : List E} (h : R.SameById es) (hsub : ∀ e ∈ es', e ∈ es) :
    R.SameById es' :=
  fun e he e' he' => h e (hsub e he) e' (hsub e' he')

theorem SameById.of_append {ds : List D} {last : D}
    (h : R.SameById ((ds ++ [last]).map R.event)) : R.SameById (ds.map R.event) := by
  refine h.subset fun e he => ?_
  rw [List.map_append]
  exact List.mem_append_left _ he

/-- A fresh event that is delivered last is new when it comes, or it was delivered before. -/
theorem Fresh.new_or_mem {s : State} (hvalid : R.Valid s) {ds : List D} {last : D}
    (hids : R.SameById ((ds ++ [last]).map R.event)) {w : T × V}
    (h : R.Fresh s (R.event last) w) :
    ¬ R.recorded (R.run s ds) (R.id (R.event last)) ∨ ∃ d ∈ ds, R.event d = R.event last := by
  by_cases hrecorded : R.recorded (R.run s ds) (R.id (R.event last))
  · rcases recorded_run hvalid hrecorded with hold | ⟨d, hd, hid⟩
    · exact absurd hold h.new
    · have hmem := List.mem_map_of_mem (f := R.event) (List.mem_append_left [last] hd)
      have hmem' := List.mem_map_of_mem (f := R.event)
        (List.mem_append_right ds (List.mem_singleton_self last))
      exact Or.inr ⟨d, hd, hids _ hmem _ hmem' hid⟩
  · exact Or.inl hrecorded

/-- In the end no fresh event is after the register. -/
theorem fresh_le_run {s : State} (hvalid : R.Valid s) {ds : List D}
    (hids : R.SameById (ds.map R.event)) {e : E} (hmem : e ∈ ds.map R.event) {w : T × V}
    (hfresh : R.Fresh s e w) : (w.1 : WithBot T) ≤ (R.cell (R.run s ds)).1 := by
  induction ds using List.reverseRecOn with
  | nil => exact absurd hmem List.not_mem_nil
  | append_singleton ds last ih =>
    have hvalid' := valid_run hvalid ds
    have hbefore : e ∈ ds.map R.event →
        (w.1 : WithBot T) ≤ (R.cell (R.run s (ds ++ [last]))).1 := by
      intro hds
      rw [run_append]
      exact (ih hids.of_append hds).trans (time_le_run hvalid' [last])
    obtain ⟨d, hd, rfl⟩ := List.mem_map.mp hmem
    rcases List.mem_append.mp hd with hds | hlast
    · exact hbefore (List.mem_map_of_mem hds)
    · obtain rfl := List.mem_singleton.mp hlast
      rcases hfresh.new_or_mem hvalid hids with hnew | ⟨d', hd', heq⟩
      · rw [run_append, run_cons, run_nil]
        rcases step_cases hvalid' d with ⟨hcell, holder⟩ | ⟨w', hwrite, -, -, hcell⟩
        · rw [hcell]
          exact (holder w hfresh.write hnew).le
        · obtain rfl := Option.some.inj (hwrite.symm.trans hfresh.write)
          rw [hcell]
      · exact hbefore (heq ▸ List.mem_map_of_mem hd')

/-- In the end the register is as it was and after every fresh event, or a fresh event has
written it. -/
theorem cell_run {s : State} (hvalid : R.Valid s) {ds : List D}
    (hids : R.SameById (ds.map R.event)) :
    R.cell (R.run s ds) = R.cell s ∧
      (∀ e ∈ ds.map R.event, ∀ w, R.Fresh s e w → (w.1 : WithBot T) < (R.cell s).1) ∨
    ∃ e ∈ ds.map R.event, ∃ w, R.Fresh s e w ∧ (R.cell s).1 ≤ w.1 ∧
      R.cell (R.run s ds) = ((w.1 : WithBot T), w.2) := by
  induction ds using List.reverseRecOn with
  | nil => exact Or.inl ⟨rfl, fun e he => absurd he List.not_mem_nil⟩
  | append_singleton ds last ih =>
    have hlast : R.event last ∈ (ds ++ [last]).map R.event :=
      List.mem_map_of_mem List.mem_concat_self
    have hinit : ∀ e ∈ ds.map R.event, e ∈ (ds ++ [last]).map R.event := by
      intro e he
      rw [List.map_append]
      exact List.mem_append_left _ he
    rw [run_append, run_cons, run_nil]
    have hvalid' := valid_run hvalid ds
    rcases step_cases hvalid' last with ⟨hcell, holder⟩ | ⟨w, hwrite, hnew, htime, hcell⟩
    · rw [hcell]
      rcases ih hids.of_append with ⟨hsame, hold⟩ | ⟨e, he, w, hw⟩
      · refine Or.inl ⟨hsame, fun e he w hw => ?_⟩
        obtain ⟨d, hd, rfl⟩ := List.mem_map.mp he
        rcases List.mem_append.mp hd with hds | hd
        · exact hold _ (List.mem_map_of_mem hds) w hw
        · obtain rfl := List.mem_singleton.mp hd
          rcases hw.new_or_mem hvalid hids with hnew | ⟨d', hd', heq⟩
          · rw [← hsame]
            exact holder w hw.write hnew
          · exact hold _ (heq ▸ List.mem_map_of_mem hd') w hw
      · exact Or.inr ⟨e, hinit e he, w, hw⟩
    · have hold : ¬ R.recorded s (R.id (R.event last)) :=
        fun h => hnew (recorded_later hvalid ds h)
      exact Or.inr ⟨_, hlast, w, ⟨hwrite, hold⟩, (time_le_run hvalid ds).trans htime, hcell⟩

/-- A fresh event that none is after, nor the register at first. -/
structure Decisive (R : LatestWrite State D E Id T V) (s : State) (es : List E) (e : E)
    (w : T × V) : Prop where
  mem : e ∈ es
  fresh : R.Fresh s e w
  notBefore : (R.cell s).1 ≤ w.1
  latest : ∀ e' ∈ es, ∀ w', R.Fresh s e' w' → w'.1 ≤ w.1

/-- An order of delivery: every event at least once, and no other. -/
def Delivers (R : LatestWrite State D E Id T V) (es : List E) (ds : List D) : Prop :=
  ∀ e, e ∈ ds.map R.event ↔ e ∈ es

/-- Deliveries of given events, in their order. -/
theorem exists_deliveries (R : LatestWrite State D E Id T V) (es : List E) :
    ∃ ds : List D, ds.map R.event = es := by
  induction es with
  | nil => exact ⟨[], rfl⟩
  | cons e es ih =>
    obtain ⟨ds, rfl⟩ := ih
    obtain ⟨d, rfl⟩ := R.delivered e
    exact ⟨d :: ds, rfl⟩

/-- Some delivery that ends with a decisive event leaves the register as the event writes it. -/
theorem Decisive.delivered_last {s : State} (hvalid : R.Valid s) {es : List E}
    (hids : R.SameById es) {e : E} {w : T × V} (h : R.Decisive s es e w) :
    ∃ ds, R.Delivers es ds ∧ R.cell (R.run s ds) = ((w.1 : WithBot T), w.2) := by
  classical
  obtain ⟨ds, hds⟩ := R.exists_deliveries (es.filter (fun e' => e' ≠ e))
  obtain ⟨d, rfl⟩ := R.delivered e
  have hothers : ∀ e' ∈ ds.map R.event, e' ∈ es ∧ e' ≠ R.event d := by
    intro e' he'
    rw [hds] at he'
    obtain ⟨hmem, hne⟩ := List.mem_filter.mp he'
    exact ⟨hmem, of_decide_eq_true hne⟩
  refine ⟨ds ++ [d], fun e' => ?_, ?_⟩
  · rw [List.map_append, hds]
    by_cases he : e' = R.event d
    · subst he
      simp [h.mem]
    · simp [he]
  · have hnew : ¬ R.recorded (R.run s ds) (R.id (R.event d)) := by
      intro hrecorded
      rcases recorded_run hvalid hrecorded with hold | ⟨d', hd', hid⟩
      · exact h.fresh.new hold
      · obtain ⟨hmem, hne⟩ := hothers _ (List.mem_map_of_mem hd')
        exact hne (hids _ hmem _ h.mem hid)
    rw [run_append, run_cons, run_nil]
    refine R.newer (valid_run hvalid _) h.fresh.write hnew ?_
    rcases cell_run hvalid (hids.subset fun e' he' => (hothers e' he').1) with
      ⟨hsame, -⟩ | ⟨e', he', w', hw', -, hcell⟩
    · rw [hsame]
      exact h.notBefore
    · rw [hcell]
      exact WithBot.coe_le_coe.mpr (h.latest e' (hothers e' he').1 w' hw')

/-- After an order of delivery the register is as a decisive event writes it, or there is none
and it is as it was. -/
theorem cell_run_delivered {s : State} (hvalid : R.Valid s) {es : List E} {ds : List D}
    (hids : R.SameById es) (h : R.Delivers es ds) :
    (∃ e w, R.Decisive s es e w ∧ R.cell (R.run s ds) = ((w.1 : WithBot T), w.2)) ∨
      R.cell (R.run s ds) = R.cell s ∧ ∀ e w, ¬ R.Decisive s es e w := by
  have hids' : R.SameById (ds.map R.event) := hids.subset fun e he => (h e).mp he
  rcases cell_run hvalid hids' with ⟨hsame, holder⟩ | ⟨e, he, w, hw, htime, hcell⟩
  · refine Or.inr ⟨hsame, fun e w hdecisive => ?_⟩
    have hbefore := holder e ((h e).mpr hdecisive.mem) w hdecisive.fresh
    exact absurd hdecisive.notBefore (not_le.mpr hbefore)
  · refine Or.inl ⟨e, w, ⟨(h e).mp he, hw, htime, fun e' he' w' hw' => ?_⟩, hcell⟩
    have hle := fresh_le_run hvalid hids' ((h e').mpr he') hw'
    rw [hcell] at hle
    exact WithBot.coe_le_coe.mp hle

/-- All orders of delivery lead to one register just when the decisive events write one value. -/
theorem convergent_iff {s : State} (hvalid : R.Valid s) {es : List E} (hids : R.SameById es) :
    (∀ ds ds', R.Delivers es ds → R.Delivers es ds' →
      R.cell (R.run s ds) = R.cell (R.run s ds')) ↔
      ∀ e w e' w', R.Decisive s es e w → R.Decisive s es e' w' → w.2 = w'.2 := by
  constructor
  · intro hsame e w e' w' he he'
    obtain ⟨ds, hds, hcell⟩ := he.delivered_last hvalid hids
    obtain ⟨ds', hds', hcell'⟩ := he'.delivered_last hvalid hids
    have hcells := hsame ds ds' hds hds'
    rw [hcell, hcell'] at hcells
    exact (Prod.ext_iff.mp hcells).2
  · intro hagree ds ds' hds hds'
    rcases cell_run_delivered hvalid hids hds with ⟨e, w, he, hcell⟩ | ⟨hcell, hnone⟩
    · rcases cell_run_delivered hvalid hids hds' with ⟨e', w', he', hcell'⟩ | ⟨-, hnone⟩
      · have htime : w.1 = w'.1 :=
          le_antisymm (he'.latest e he.mem w he.fresh) (he.latest e' he'.mem w' he'.fresh)
        rw [hcell, hcell', htime, hagree e w e' w' he he']
      · exact absurd he (hnone e w)
    · rcases cell_run_delivered hvalid hids hds' with ⟨e', w', he', -⟩ | ⟨hcell', -⟩
      · exact absurd he' (hnone e' w')
      · rw [hcell, hcell']

end LatestWrite

end LegacyVault
