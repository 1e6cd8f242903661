import LegacyVault.Library.RowTransaction
import Mathlib.Data.List.Infix
import Mathlib.Logic.Relation

/-!
# Interleaved transactions and their commit order

Any number of sessions run the programs of their requests against one store,
one statement at a time, in any order. A session may begin whenever its
protocol permits the request after what has ended so far, and may be aborted
at any point. The log records how every session ended.

`Ordered` turns an interleaving into a history: the sequence of committed
stores, in which every commit is one execution of its program. `Invariant`
is the rule for proving what holds in every interleaving.
-/

namespace LegacyVault.RowTransaction

open Program

/-- How a session ended. -/
inductive Outcome (ε α : Type) where
  /-- Committed with a result. -/
  | committed (result : α)
  /-- Rolled back by its own program. -/
  | rolledBack (error : ε)
  /-- Aborted from outside: a crash, a lost connection or a deadlock. -/
  | aborted

/-- How a session that runs to its end has ended. -/
def Outcome.ofResult {ε α : Type} : Except ε α → Outcome ε α
  | .ok result => .committed result
  | .error error => .rolledBack error

theorem Outcome.ofResult_injective {ε α : Type} :
    Function.Injective (Outcome.ofResult : Except ε α → Outcome ε α) := by
  intro a b h
  cases a <;> cases b <;> simp [Outcome.ofResult] at h <;> rw [h]

/-- A request together with how its session ended. -/
structure Entry (Request ε α : Type) where
  /-- The request. -/
  request : Request
  /-- How it ended. -/
  outcome : Outcome ε α

/-- Requests, their programs, and when a request may be made. -/
structure Protocol (S : Schema) where
  /-- What callers may ask for. -/
  Request : Type
  /-- Errors of a rolled-back transaction. -/
  Error : Type
  /-- Results of a committed transaction. -/
  Result : Type
  /-- The transaction of a request. -/
  program : Request → Program S Error Result
  /-- Requests that may begin after the given log, latest entry first. -/
  permitted : List (Entry Request Error Result) → Request → Prop

variable {S : Schema}

namespace Protocol

/-- The log entries of a protocol. -/
abbrev LogEntry (P : Protocol S) := Entry P.Request P.Error P.Result

/-- A session in progress. -/
structure Session (P : Protocol S) where
  /-- The request it serves. -/
  request : P.Request
  /-- What remains of its program. -/
  program : Program S P.Error P.Result
  /-- Its uncommitted writes, whose rows it has locked. -/
  writes : List (Write S)
  /-- The stores committed since it began, the current one included. -/
  seen : List (Store S)

/-- Committed rows, sessions in progress, and the sessions that ended. -/
structure System (P : Protocol S) where
  /-- The committed rows. -/
  committed : Store S
  /-- Sessions in progress. -/
  active : Nat → Option P.Session
  /-- Sessions that ended, latest first. -/
  log : List P.LogEntry

variable (P : Protocol S)

/-- A system on the given rows in which nothing has begun. -/
def initial (init : Store S) : P.System := ⟨init, fun _ => none, []⟩

variable {P}

/-- Replace or remove one session. -/
def System.withSession (s : P.System) (id : Nat) (session : Option P.Session) : P.System :=
  { s with active := Function.update s.active id session }

/-- Commit the writes of a session and end it. The others see the new store. -/
def System.committing (s : P.System) (id : Nat) (ws : List (Write S)) (entry : P.LogEntry) :
    P.System where
  committed := s.committed.overlay ws
  active := fun other => if other = id then none else
    (s.active other).map (fun a => { a with seen := s.committed.overlay ws :: a.seen })
  log := entry :: s.log

/-- End a session without its writes. -/
def System.dropping (s : P.System) (id : Nat) (entry : P.LogEntry) : P.System :=
  { s.withSession id none with log := entry :: s.log }

/-- No other session holds the lock of the row. -/
def System.Unlocked (s : P.System) (id : Nat) (t : S.Table) (k : S.Key t) : Prop :=
  ∀ other session, other ≠ id → s.active other = some session → ¬ Locked session.writes t k

/-- One statement of one session, or the begin or end of a session. -/
inductive Step : P.System → P.System → Prop
  /-- A permitted request begins its transaction. -/
  | start {s : P.System} {id : Nat} {r : P.Request} (hfree : s.active id = none)
      (hpermitted : P.permitted s.log r) :
      Step s (s.withSession id (some ⟨r, P.program r, [], [s.committed]⟩))
  /-- A statement writes its row, once no other session holds it. -/
  | write {s : P.System} {id : Nat} {r : P.Request} {t : S.Table} {k : S.Key t}
      {statement : Option (S.Row t) → Option (Option (S.Row t))}
      {next : Option (S.Row t) → Program S P.Error P.Result} {ws : List (Write S)}
      {seen : List (Store S)} {v : Option (S.Row t)}
      (hactive : s.active id = some ⟨r, .access t k statement next, ws, seen⟩)
      (hvalue : statement ((s.committed.overlay ws).get t k) = some v)
      (hlock : s.Unlocked id t k) :
      Step s (s.withSession id
        (some ⟨r, next ((s.committed.overlay ws).get t k), ⟨t, k, v⟩ :: ws, seen⟩))
  /-- A statement finds nothing to write. -/
  | skip {s : P.System} {id : Nat} {r : P.Request} {t : S.Table} {k : S.Key t}
      {statement : Option (S.Row t) → Option (Option (S.Row t))}
      {next : Option (S.Row t) → Program S P.Error P.Result} {ws : List (Write S)}
      {seen : List (Store S)}
      (hactive : s.active id = some ⟨r, .access t k statement next, ws, seen⟩)
      (hvalue : statement ((s.committed.overlay ws).get t k) = none) :
      Step s (s.withSession id (some ⟨r, next ((s.committed.overlay ws).get t k), ws, seen⟩))
  /-- A plain read. -/
  | peek {s : P.System} {id : Nat} {r : P.Request}
      {next : Store S → Program S P.Error P.Result} {ws : List (Write S)}
      {seen : List (Store S)} (hactive : s.active id = some ⟨r, .peek next, ws, seen⟩) :
      Step s (s.withSession id (some ⟨r, next (s.committed.overlay ws), ws, seen⟩))
  /-- A finished transaction commits its writes and releases its locks. -/
  | commit {s : P.System} {id : Nat} {r : P.Request} {a : P.Result} {ws : List (Write S)}
      {seen : List (Store S)} (hactive : s.active id = some ⟨r, .commit a, ws, seen⟩) :
      Step s (s.committing id ws ⟨r, .committed a⟩)
  /-- A failed transaction drops its writes. -/
  | rollback {s : P.System} {id : Nat} {r : P.Request} {e : P.Error} {ws : List (Write S)}
      {seen : List (Store S)} (hactive : s.active id = some ⟨r, .rollback e, ws, seen⟩) :
      Step s (s.dropping id ⟨r, .rolledBack e⟩)
  /-- A transaction is aborted at any point. -/
  | abort {s : P.System} {id : Nat} {session : P.Session}
      (hactive : s.active id = some session) :
      Step s (s.dropping id ⟨session.request, .aborted⟩)

/-- The systems some interleaving leads to. -/
inductive Reachable (init : Store S) : P.System → Prop
  /-- Before anything begins. -/
  | initial : Reachable init (P.initial init)
  /-- After one more step. -/
  | step {s s' : P.System} (h : Reachable init s) (hstep : Step s s') : Reachable init s'

variable (P) in
/-- A moment of a run: how the sessions so far have ended, and the committed rows. -/
abbrev Moment := List P.LogEntry × Store S

/-- The store was the committed one at some moment since the log was `begun`. -/
def SeenSince (begun : List P.LogEntry) (moments : List P.Moment) (σ₀ : Store S) : Prop :=
  ∃ log₀, begun <:+ log₀ ∧ (log₀, σ₀) ∈ moments

theorem SeenSince.cons {begun : List P.LogEntry} {moments : List P.Moment} {σ₀ : Store S}
    (moment : P.Moment) (h : SeenSince begun moments σ₀) :
    SeenSince begun (moment :: moments) σ₀ := by
  obtain ⟨log₀, hbegun, hmem⟩ := h
  exact ⟨log₀, hbegun, List.mem_cons_of_mem _ hmem⟩

variable (P) in
/-- The commit order of an interleaving: its log, the moments before (latest
first), and the committed rows. A session that began when the log was `begun`
has seen only what was committed since. -/
inductive History (init : Store S) : List P.LogEntry → List P.Moment → Store S → Prop
  /-- Nothing has ended. -/
  | start : History init [] [] init
  /-- A transaction committed. -/
  | commit {log begun : List P.LogEntry} {past : List P.Moment} {σ : Store S} {r : P.Request}
      {a : P.Result} {ws : List (Write S)} {seen : Store S → Prop} (h : History init log past σ)
      (hpermitted : P.permitted begun r) (hbegun : begun <:+ log) (hnow : seen σ)
      (hseen : ∀ σ₀, seen σ₀ → SeenSince begun ((log, σ) :: past) σ₀)
      (hexec : (P.program r).Executes seen σ [] (.ok a) ws) :
      History init (⟨r, .committed a⟩ :: log) ((log, σ) :: past) (σ.overlay ws)
  /-- A transaction rolled back. -/
  | rollback {log begun : List P.LogEntry} {past : List P.Moment} {σ : Store S} {r : P.Request}
      {e : P.Error} {ws : List (Write S)} {seen : Store S → Prop} (h : History init log past σ)
      (hpermitted : P.permitted begun r) (hbegun : begun <:+ log) (hnow : seen σ)
      (hseen : ∀ σ₀, seen σ₀ → SeenSince begun ((log, σ) :: past) σ₀)
      (hexec : (P.program r).Executes seen σ [] (.error e) ws) :
      History init (⟨r, .rolledBack e⟩ :: log) ((log, σ) :: past) σ
  /-- A transaction was aborted. -/
  | abort {log begun : List P.LogEntry} {past : List P.Moment} {σ : Store S} {r : P.Request}
      (h : History init log past σ) (hpermitted : P.permitted begun r) (hbegun : begun <:+ log) :
      History init (⟨r, .aborted⟩ :: log) ((log, σ) :: past) σ

/-- However the rows a session has not locked change, finishing its program is
finishing the program of its request. -/
def Session.Resumes (session : P.Session) (seen : Store S → Prop) (σ : Store S) : Prop :=
  ∀ (seen' : Store S → Prop) (σ' : Store S), (∀ σ₀, seen σ₀ → seen' σ₀) →
    (∀ t k, Locked session.writes t k → σ'.get t k = σ.get t k) →
    ∀ outcome ws, session.program.Executes seen' σ' session.writes outcome ws →
      (P.program session.request).Executes seen' σ' [] outcome ws

theorem Session.Resumes.mono {session : P.Session} {seen seen' : Store S → Prop}
    {σ σ' : Store S} (h : session.Resumes seen σ) (hseen : ∀ σ₀, seen σ₀ → seen' σ₀)
    (hlocked : ∀ t k, Locked session.writes t k → σ'.get t k = σ.get t k) :
    session.Resumes seen' σ' := by
  intro seen'' σ'' hs hl outcome ws hexec
  refine h seen'' σ'' (fun σ₀ h₀ => hs σ₀ (hseen σ₀ h₀)) (fun t k hk => ?_) outcome ws hexec
  rw [hl t k hk, hlocked t k hk]

theorem Session.Resumes.write {r : P.Request} {t : S.Table} {k : S.Key t}
    {statement : Option (S.Row t) → Option (Option (S.Row t))}
    {next : Option (S.Row t) → Program S P.Error P.Result} {ws : List (Write S)}
    {stores : List (Store S)} {v : Option (S.Row t)} {seen : Store S → Prop} {σ : Store S}
    (h : Session.Resumes (P := P) ⟨r, .access t k statement next, ws, stores⟩ seen σ)
    (hvalue : statement ((σ.overlay ws).get t k) = some v) :
    Session.Resumes (P := P) ⟨r, next ((σ.overlay ws).get t k), ⟨t, k, v⟩ :: ws, stores⟩
      seen σ := by
  intro seen' σ' hseen hlocked outcome ws' hexec
  have hrow : (σ'.overlay ws).get t k = (σ.overlay ws).get t k :=
    Store.overlay_get_congr ws (hlocked t k (locked_cons_self t k v ws))
  refine h seen' σ' hseen (fun t' k' hk => hlocked t' k' (hk.cons _)) outcome ws' ?_
  refine Or.inl ⟨v, ?_, ?_⟩
  · rw [hrow]
    exact hvalue
  · rw [hrow]
    exact hexec

theorem Session.Resumes.skip {r : P.Request} {t : S.Table} {k : S.Key t}
    {statement : Option (S.Row t) → Option (Option (S.Row t))}
    {next : Option (S.Row t) → Program S P.Error P.Result} {ws : List (Write S)}
    {stores : List (Store S)} {seen : Store S → Prop} {σ : Store S} (hnow : seen σ)
    (h : Session.Resumes (P := P) ⟨r, .access t k statement next, ws, stores⟩ seen σ)
    (hvalue : statement ((σ.overlay ws).get t k) = none) :
    Session.Resumes (P := P) ⟨r, next ((σ.overlay ws).get t k), ws, stores⟩ seen σ := by
  intro seen' σ' hseen hlocked outcome ws' hexec
  exact h seen' σ' hseen hlocked outcome ws' (Or.inr ⟨σ, hseen σ hnow, hvalue, hexec⟩)

theorem Session.Resumes.peek {r : P.Request} {next : Store S → Program S P.Error P.Result}
    {ws : List (Write S)} {stores : List (Store S)} {seen : Store S → Prop} {σ : Store S}
    (hnow : seen σ) (h : Session.Resumes (P := P) ⟨r, .peek next, ws, stores⟩ seen σ) :
    Session.Resumes (P := P) ⟨r, next (σ.overlay ws), ws, stores⟩ seen σ := by
  intro seen' σ' hseen hlocked outcome ws' hexec
  exact h seen' σ' hseen hlocked outcome ws' ⟨σ, hseen σ hnow, hexec⟩

/-- A session in good order: it began when permitted, has seen what was committed
since, the committed store included, and resumes its request from there. -/
structure Session.Sound (session : P.Session) (log : List P.LogEntry) (past : List P.Moment)
    (σ : Store S) : Prop where
  /-- It resumes the program of its request. -/
  resumes : session.Resumes (· ∈ session.seen) σ
  /-- It has seen the committed store. -/
  now : σ ∈ session.seen
  /-- It began when its request was permitted, and has seen stores since then only. -/
  begun : ∃ begun, P.permitted begun session.request ∧ begun <:+ log ∧
    ∀ σ₀ ∈ session.seen, SeenSince begun ((log, σ) :: past) σ₀

/-- What holds of a system between steps: its log and rows have a history, the
sessions hold different locks, and each is on its way through its program. -/
structure Ordered (init : Store S) (s : P.System) (past : List P.Moment) : Prop where
  /-- The commit order. -/
  history : P.History init s.log past s.committed
  /-- No row is locked twice. -/
  disjoint : ∀ i j a b, i ≠ j → s.active i = some a → s.active j = some b →
    ∀ t k, Locked a.writes t k → ¬ Locked b.writes t k
  /-- Every session is in good order. -/
  sound : ∀ i a, s.active i = some a → a.Sound s.log past s.committed

theorem withSession_active_self (s : P.System) (id : Nat) (session : Option P.Session) :
    (s.withSession id session).active id = session := by
  simp [System.withSession]

theorem withSession_active_ne (s : P.System) {id other : Nat} (session : Option P.Session)
    (h : other ≠ id) : (s.withSession id session).active other = s.active other := by
  simp [System.withSession, h]

/-- A session that changes only itself keeps the system ordered, as long as its
new locks are free and it stays in good order. -/
theorem Ordered.withSession {init : Store S} {s : P.System} {past : List P.Moment} {id : Nat}
    {new : P.Session} (h : Ordered init s past)
    (hlocks : ∀ other a, other ≠ id → s.active other = some a →
      ∀ t k, Locked new.writes t k → ¬ Locked a.writes t k)
    (hsound : new.Sound s.log past s.committed) :
    Ordered init (s.withSession id (some new)) past where
  history := h.history
  disjoint := by
    intro i j a b hij ha hb t k hlocked
    by_cases hi : i = id
    · subst hi
      rw [withSession_active_self] at ha
      obtain rfl := Option.some.inj ha
      rw [withSession_active_ne _ _ (Ne.symm hij)] at hb
      exact hlocks j b (Ne.symm hij) hb t k hlocked
    · rw [withSession_active_ne _ _ hi] at ha
      by_cases hj : j = id
      · subst hj
        rw [withSession_active_self] at hb
        obtain rfl := Option.some.inj hb
        exact fun hnew => hlocks i a hi ha t k hnew hlocked
      · rw [withSession_active_ne _ _ hj] at hb
        exact h.disjoint i j a b hij ha hb t k hlocked
  sound := by
    intro i a ha
    by_cases hi : i = id
    · subst hi
      rw [withSession_active_self] at ha
      obtain rfl := Option.some.inj ha
      exact hsound
    · rw [withSession_active_ne _ _ hi] at ha
      exact h.sound i a ha

theorem dropping_active {s : P.System} {id other : Nat} {entry : P.LogEntry} {a : P.Session}
    (h : (s.dropping id entry).active other = some a) : s.active other = some a := by
  have hactive : (s.withSession id none).active other = some a := h
  by_cases ho : other = id
  · subst ho
    rw [withSession_active_self] at hactive
    exact absurd hactive (by simp)
  · rw [withSession_active_ne _ _ ho] at hactive
    exact hactive

/-- A session in good order stays so when another session ends. -/
theorem Session.Sound.later {session : P.Session} {log : List P.LogEntry}
    {past : List P.Moment} {σ : Store S} (h : session.Sound log past σ) (entry : P.LogEntry)
    (σ' : Store S)
    (hlocked : ∀ t k, Locked session.writes t k → σ'.get t k = σ.get t k) :
    Session.Sound { session with seen := σ' :: session.seen } (entry :: log)
      ((log, σ) :: past) σ' where
  resumes := h.resumes.mono (fun σ₀ h₀ => List.mem_cons_of_mem _ h₀) hlocked
  now := List.mem_cons_self
  begun := by
    obtain ⟨begun, hpermitted, hbegun, hseen⟩ := h.begun
    have hlater : begun <:+ entry :: log := hbegun.trans (List.suffix_cons entry log)
    refine ⟨begun, hpermitted, hlater, ?_⟩
    intro σ₀ h₀
    rcases List.mem_cons.mp h₀ with rfl | hmem
    · exact ⟨entry :: log, hlater, List.mem_cons_self⟩
    · exact (hseen σ₀ hmem).cons _

/-- The committed store of a session need not be listed twice. -/
theorem Session.Sound.seen_again {session : P.Session} {log : List P.LogEntry}
    {past : List P.Moment} {σ : Store S} (hnow : σ ∈ session.seen)
    (h : Session.Sound { session with seen := σ :: session.seen } log past σ) :
    session.Sound log past σ where
  resumes := by
    refine h.resumes.mono (fun σ₀ h₀ => ?_) (fun _ _ _ => rfl)
    rcases List.mem_cons.mp h₀ with rfl | hmem
    · exact hnow
    · exact hmem
  now := hnow
  begun := by
    obtain ⟨begun, hpermitted, hbegun, hseen⟩ := h.begun
    exact ⟨begun, hpermitted, hbegun, fun σ₀ h₀ => hseen σ₀ (List.mem_cons_of_mem _ h₀)⟩

/-- A session that ends without writing leaves the others as they were. -/
theorem Ordered.dropping {init : Store S} {s : P.System} {past : List P.Moment} {id : Nat}
    {entry : P.LogEntry} (h : Ordered init s past)
    (hhistory : P.History init (entry :: s.log) ((s.log, s.committed) :: past) s.committed) :
    Ordered init (s.dropping id entry) ((s.log, s.committed) :: past) where
  history := hhistory
  disjoint := by
    intro i j a b hij ha hb
    exact h.disjoint i j a b hij (dropping_active ha) (dropping_active hb)
  sound := by
    intro i a ha
    have hsound := h.sound i a (dropping_active ha)
    have hlater := hsound.later entry s.committed (fun _ _ _ => rfl)
    exact hlater.seen_again hsound.now

theorem committing_active {s : P.System} {id other : Nat} {ws : List (Write S)}
    {entry : P.LogEntry} {a : P.Session}
    (h : (s.committing id ws entry).active other = some a) :
    other ≠ id ∧ ∃ b, s.active other = some b ∧
      a = { b with seen := s.committed.overlay ws :: b.seen } := by
  by_cases ho : other = id
  · simp [System.committing, ho] at h
  · have hmap : (s.active other).map
        (fun b => { b with seen := s.committed.overlay ws :: b.seen }) = some a := by
      simpa [System.committing, ho] using h
    obtain ⟨b, hb, rfl⟩ := Option.map_eq_some_iff.mp hmap
    exact ⟨ho, b, hb, rfl⟩

/-- A session about to commit has executed its program on the committed store. -/
theorem Session.Sound.executes {r : P.Request} {a : P.Result} {ws : List (Write S)}
    {seen : List (Store S)} {log : List P.LogEntry} {past : List P.Moment} {σ : Store S}
    (h : Session.Sound (P := P) ⟨r, .commit a, ws, seen⟩ log past σ) :
    (P.program r).Executes (· ∈ seen) σ [] (.ok a) ws :=
  h.resumes (· ∈ seen) σ (fun _ h₀ => h₀) (fun _ _ _ => rfl) (.ok a) ws ⟨rfl, rfl⟩

/-- A commit extends the history by one execution. -/
theorem Ordered.committed {init : Store S} {s : P.System} {past : List P.Moment} {id : Nat}
    {r : P.Request} {a : P.Result} {ws : List (Write S)} {seen : List (Store S)}
    (h : Ordered init s past) (hactive : s.active id = some ⟨r, .commit a, ws, seen⟩) :
    P.History init (⟨r, .committed a⟩ :: s.log) ((s.log, s.committed) :: past)
      (s.committed.overlay ws) := by
  have hsound := h.sound id _ hactive
  obtain ⟨begun, hpermitted, hbegun, hseen⟩ := hsound.begun
  exact .commit h.history hpermitted hbegun hsound.now hseen hsound.executes

/-- A commit changes no row that another session has locked. -/
theorem Ordered.committing {init : Store S} {s : P.System} {past : List P.Moment} {id : Nat}
    {r : P.Request} {a : P.Result} {ws : List (Write S)} {seen : List (Store S)}
    (h : Ordered init s past) (hactive : s.active id = some ⟨r, .commit a, ws, seen⟩) :
    Ordered init (s.committing id ws ⟨r, .committed a⟩) ((s.log, s.committed) :: past) where
  history := h.committed hactive
  disjoint := by
    intro i j a b hij ha hb
    obtain ⟨-, a', ha', rfl⟩ := committing_active ha
    obtain ⟨-, b', hb', rfl⟩ := committing_active hb
    exact h.disjoint i j a' b' hij ha' hb'
  sound := by
    intro i b hb
    obtain ⟨hi, b', hb', rfl⟩ := committing_active hb
    refine (h.sound i b' hb').later _ _ (fun t k hk => ?_)
    exact Store.overlay_get_of_not_locked _ (h.disjoint i id b' _ hi hb' hactive t k hk)

/-- Every step keeps the system ordered. -/
theorem Ordered.step {init : Store S} {s s' : P.System} {past : List P.Moment}
    (h : Ordered init s past) (hstep : Step s s') : ∃ past', Ordered init s' past' := by
  cases hstep with
  | start hfree hpermitted =>
    refine ⟨past, h.withSession ?_ ⟨?_, List.mem_singleton_self _, ?_⟩⟩
    · rintro other a hother ha t k ⟨v, hv⟩
      exact absurd hv (by simp)
    · intro seen' σ' hseen hlocked outcome ws hexec
      exact hexec
    · refine ⟨s.log, hpermitted, List.suffix_refl _, ?_⟩
      intro σ₀ h₀
      obtain rfl := List.mem_singleton.mp h₀
      exact ⟨s.log, List.suffix_refl _, List.mem_cons_self⟩
  | write hactive hvalue hlock =>
    have hsound := h.sound _ _ hactive
    have hresumes := hsound.resumes.write hvalue
    refine ⟨past, h.withSession ?_ ⟨hresumes, hsound.now, hsound.begun⟩⟩
    intro other a hother ha t' k' hnew
    rcases locked_of_cons hnew with ⟨rfl, hk⟩ | hold
    · obtain rfl := eq_of_heq hk
      exact hlock other a hother ha
    · exact h.disjoint _ _ _ _ (Ne.symm hother) hactive ha t' k' hold
  | skip hactive hvalue =>
    have hsound := h.sound _ _ hactive
    have hresumes := hsound.resumes.skip hsound.now hvalue
    refine ⟨past, h.withSession ?_ ⟨hresumes, hsound.now, hsound.begun⟩⟩
    intro other a hother ha
    have hdisjoint := h.disjoint _ _ _ _ (Ne.symm hother) hactive ha
    exact hdisjoint
  | peek hactive =>
    have hsound := h.sound _ _ hactive
    have hresumes := hsound.resumes.peek hsound.now
    refine ⟨past, h.withSession ?_ ⟨hresumes, hsound.now, hsound.begun⟩⟩
    intro other a hother ha
    have hdisjoint := h.disjoint _ _ _ _ (Ne.symm hother) hactive ha
    exact hdisjoint
  | commit hactive => exact ⟨_, h.committing hactive⟩
  | rollback hactive =>
    have hsound := h.sound _ _ hactive
    obtain ⟨begun, hpermitted, hbegun, hseen⟩ := hsound.begun
    have hexec := hsound.resumes _ s.committed (fun _ h₀ => h₀) (fun _ _ _ => rfl) _ _ ⟨rfl, rfl⟩
    exact ⟨_, h.dropping (.rollback h.history hpermitted hbegun hsound.now hseen hexec)⟩
  | abort hactive =>
    obtain ⟨begun, hpermitted, hbegun, -⟩ := (h.sound _ _ hactive).begun
    exact ⟨_, h.dropping (.abort h.history hpermitted hbegun)⟩

theorem Reachable.ordered {init : Store S} {s : P.System} (h : Reachable init s) :
    ∃ past, Ordered init s past := by
  induction h with
  | initial =>
    exact ⟨[], .start, fun i j a b _ ha => absurd ha (by simp [Protocol.initial]),
      fun i a ha => absurd ha (by simp [Protocol.initial])⟩
  | step h hstep ih =>
    obtain ⟨past, hordered⟩ := ih
    exact hordered.step hstep

/-- A store committed since the log was `begun`, with what held when it was current. -/
def Earlier (Inv : List P.LogEntry → Store S → Prop) (Grows : Store S → Store S → Prop)
    (begun log : List P.LogEntry) (σ σ₀ : Store S) : Prop :=
  Grows σ₀ σ ∧ ∃ log₀, begun <:+ log₀ ∧ log₀ <:+ log ∧ Inv log₀ σ₀

variable (P) in
/-- An invariant of log and rows, and a relation every commit extends: each way of
ending a session keeps them. A session may rely on what held of the stores it has seen. -/
structure Invariant (init : Store S) (Inv : List P.LogEntry → Store S → Prop)
    (Grows : Store S → Store S → Prop) : Prop where
  /-- A store grows from itself. -/
  refl : ∀ σ, Grows σ σ
  /-- Growing twice is growing. -/
  trans : ∀ {σ₁ σ₂ σ₃}, Grows σ₁ σ₂ → Grows σ₂ σ₃ → Grows σ₁ σ₃
  /-- The invariant holds before anything ends. -/
  start : Inv [] init
  /-- A commit keeps the invariant and lets the rows grow. -/
  commit : ∀ {log begun seen σ r a ws}, Inv log σ → P.permitted begun r → begun <:+ log →
    seen σ → (∀ σ₀, seen σ₀ → Earlier Inv Grows begun log σ σ₀) →
    (P.program r).Executes seen σ [] (.ok a) ws →
    Inv (⟨r, .committed a⟩ :: log) (σ.overlay ws) ∧ Grows σ (σ.overlay ws)
  /-- A rollback keeps the invariant. -/
  rollback : ∀ {log begun seen σ r e ws}, Inv log σ → P.permitted begun r → begun <:+ log →
    seen σ → (∀ σ₀, seen σ₀ → Earlier Inv Grows begun log σ σ₀) →
    (P.program r).Executes seen σ [] (.error e) ws → Inv (⟨r, .rolledBack e⟩ :: log) σ
  /-- An abort keeps the invariant. -/
  abort : ∀ {log begun σ r}, Inv log σ → P.permitted begun r → begun <:+ log →
    Inv (⟨r, .aborted⟩ :: log) σ

section Invariant

variable {init : Store S} {Inv : List P.LogEntry → Store S → Prop}
  {Grows : Store S → Store S → Prop}

/-- What held at an earlier moment of a history. -/
def HeldAt (Inv : List P.LogEntry → Store S → Prop) (Grows : Store S → Store S → Prop)
    (log : List P.LogEntry) (σ : Store S) (moment : P.Moment) : Prop :=
  Grows moment.2 σ ∧ moment.1 <:+ log ∧ Inv moment.1 moment.2

/-- The invariant holds at every moment of a history, and the rows grow between them. -/
theorem Invariant.history (hinv : P.Invariant init Inv Grows) {log : List P.LogEntry}
    {past : List P.Moment} {σ : Store S} (h : P.History init log past σ) :
    ∀ moment ∈ (log, σ) :: past, HeldAt Inv Grows log σ moment := by
  have hnow : ∀ {log : List P.LogEntry} {σ : Store S}, Inv log σ →
      HeldAt Inv Grows log σ (log, σ) :=
    fun h => ⟨hinv.refl _, List.suffix_refl _, h⟩
  have hearlier : ∀ {log begun : List P.LogEntry} {past : List P.Moment} {σ : Store S},
      (∀ moment ∈ (log, σ) :: past, HeldAt Inv Grows log σ moment) →
      ∀ σ₀, SeenSince begun ((log, σ) :: past) σ₀ → Earlier Inv Grows begun log σ σ₀ := by
    rintro log begun past σ hall σ₀ ⟨log₀, hbegun, hmem⟩
    obtain ⟨hgrows, hsuffix, h₀⟩ := hall _ hmem
    exact ⟨hgrows, log₀, hbegun, hsuffix, h₀⟩
  have hnext : ∀ {log : List P.LogEntry} {past : List P.Moment} {σ σ' : Store S}
      {entry : P.LogEntry}, (∀ moment ∈ (log, σ) :: past, HeldAt Inv Grows log σ moment) →
      Inv (entry :: log) σ' → Grows σ σ' →
      ∀ moment ∈ (entry :: log, σ') :: (log, σ) :: past,
        HeldAt Inv Grows (entry :: log) σ' moment := by
    intro log past σ σ' entry hall hinv' hgrows moment hmem
    rcases List.mem_cons.mp hmem with rfl | hmem
    · exact hnow hinv'
    · obtain ⟨hg, hsuffix, h₀⟩ := hall moment hmem
      exact ⟨hinv.trans hg hgrows, hsuffix.trans (List.suffix_cons _ _), h₀⟩
  induction h with
  | start =>
    intro moment hmem
    obtain rfl := List.mem_singleton.mp hmem
    exact hnow hinv.start
  | commit h hpermitted hbegun hn hseen hexec ih =>
    have hcurrent := (ih _ List.mem_cons_self).2.2
    obtain ⟨hstep, hgrows⟩ := hinv.commit hcurrent hpermitted hbegun hn
      (fun σ₀ h₀ => hearlier ih σ₀ (hseen σ₀ h₀)) hexec
    exact hnext ih hstep hgrows
  | rollback h hpermitted hbegun hn hseen hexec ih =>
    have hcurrent := (ih _ List.mem_cons_self).2.2
    have hstep := hinv.rollback hcurrent hpermitted hbegun hn
      (fun σ₀ h₀ => hearlier ih σ₀ (hseen σ₀ h₀)) hexec
    exact hnext ih hstep (hinv.refl _)
  | abort h hpermitted hbegun ih =>
    have hcurrent := (ih _ List.mem_cons_self).2.2
    exact hnext ih (hinv.abort hcurrent hpermitted hbegun) (hinv.refl _)

/-- What an earlier moment held of two invariants, it held of each. -/
theorem Earlier.mono {Inv' : List P.LogEntry → Store S → Prop} {begun log : List P.LogEntry}
    {σ σ₀ : Store S} (hinv : ∀ log σ, Inv log σ → Inv' log σ)
    (h : Earlier Inv Grows begun log σ σ₀) : Earlier Inv' Grows begun log σ σ₀ := by
  obtain ⟨hgrows, log₀, hbegun, hlog₀, hheld⟩ := h
  exact ⟨hgrows, log₀, hbegun, hlog₀, hinv _ _ hheld⟩

/-- A second invariant whose steps rely on the first. -/
theorem Invariant.and (hinv : P.Invariant init Inv Grows)
    {Inv₂ : List P.LogEntry → Store S → Prop} (hstart : Inv₂ [] init)
    (hcommit : ∀ {log begun seen σ r a ws}, Inv log σ → Inv₂ log σ → P.permitted begun r →
      begun <:+ log → seen σ →
      (∀ σ₀, seen σ₀ → Earlier (fun log σ => Inv log σ ∧ Inv₂ log σ) Grows begun log σ σ₀) →
      (P.program r).Executes seen σ [] (.ok a) ws → Inv (⟨r, .committed a⟩ :: log) (σ.overlay ws) →
      Grows σ (σ.overlay ws) → Inv₂ (⟨r, .committed a⟩ :: log) (σ.overlay ws))
    (hends : ∀ {log σ r outcome}, (∀ a, outcome ≠ .committed a) → Inv₂ log σ →
      Inv₂ (⟨r, outcome⟩ :: log) σ) :
    P.Invariant init (fun log σ => Inv log σ ∧ Inv₂ log σ) Grows where
  refl := hinv.refl
  trans := hinv.trans
  start := ⟨hinv.start, hstart⟩
  commit := by
    intro log begun seen σ r a ws h hpermitted hbegun hnow hearlier hexec
    obtain ⟨hstep, hgrows⟩ := hinv.commit h.1 hpermitted hbegun hnow
      (fun σ₀ h₀ => (hearlier σ₀ h₀).mono (fun _ _ held => held.1)) hexec
    exact ⟨⟨hstep, hcommit h.1 h.2 hpermitted hbegun hnow hearlier hexec hstep hgrows⟩, hgrows⟩
  rollback := by
    intro log begun seen σ r e ws h hpermitted hbegun hnow hearlier hexec
    exact ⟨hinv.rollback h.1 hpermitted hbegun hnow
      (fun σ₀ h₀ => (hearlier σ₀ h₀).mono (fun _ _ held => held.1)) hexec, hends (by simp) h.2⟩
  abort := by
    intro log begun σ r h hpermitted hbegun
    exact ⟨hinv.abort h.1 hpermitted hbegun, hends (by simp) h.2⟩

/-- Two invariants with the same growth hold together. -/
theorem Invariant.both (hinv : P.Invariant init Inv Grows)
    {Inv₂ : List P.LogEntry → Store S → Prop} (hinv₂ : P.Invariant init Inv₂ Grows) :
    P.Invariant init (fun log σ => Inv log σ ∧ Inv₂ log σ) Grows where
  refl := hinv.refl
  trans := hinv.trans
  start := ⟨hinv.start, hinv₂.start⟩
  commit := by
    intro log begun seen σ r a ws h hpermitted hbegun hnow hearlier hexec
    obtain ⟨hstep, hgrows⟩ := hinv.commit h.1 hpermitted hbegun hnow
      (fun σ₀ h₀ => (hearlier σ₀ h₀).mono (fun _ _ held => held.1)) hexec
    obtain ⟨hstep₂, -⟩ := hinv₂.commit h.2 hpermitted hbegun hnow
      (fun σ₀ h₀ => (hearlier σ₀ h₀).mono (fun _ _ held => held.2)) hexec
    exact ⟨⟨hstep, hstep₂⟩, hgrows⟩
  rollback := by
    intro log begun seen σ r e ws h hpermitted hbegun hnow hearlier hexec
    exact ⟨hinv.rollback h.1 hpermitted hbegun hnow
        (fun σ₀ h₀ => (hearlier σ₀ h₀).mono (fun _ _ held => held.1)) hexec,
      hinv₂.rollback h.2 hpermitted hbegun hnow
        (fun σ₀ h₀ => (hearlier σ₀ h₀).mono (fun _ _ held => held.2)) hexec⟩
  abort := by
    intro log begun σ r h hpermitted hbegun
    exact ⟨hinv.abort h.1 hpermitted hbegun, hinv₂.abort h.2 hpermitted hbegun⟩

/-- The invariant holds of every reachable system. -/
theorem Invariant.reachable (hinv : P.Invariant init Inv Grows) {s : P.System}
    (h : Reachable init s) : Inv s.log s.committed := by
  obtain ⟨past, hordered⟩ := h.ordered
  exact (hinv.history hordered.history _ List.mem_cons_self).2.2

/-- A step leaves the committed rows alone, or it commits one execution of a request that
was permitted when its session began; the session has seen only stores of the invariant. -/
theorem Invariant.step_cases (hinv : P.Invariant init Inv Grows) {s s' : P.System}
    (h : Reachable init s) (hstep : Step s s') :
    s'.committed = s.committed ∨
    ∃ id r a ws seen begun, s.active id = some ⟨r, .commit a, ws, seen⟩ ∧
      s'.log = ⟨r, .committed a⟩ :: s.log ∧ s'.committed = s.committed.overlay ws ∧
      P.permitted begun r ∧ begun <:+ s.log ∧ s.committed ∈ seen ∧
      (∀ σ₀ ∈ seen, Earlier Inv Grows begun s.log s.committed σ₀) ∧
      (P.program r).Executes (· ∈ seen) s.committed [] (.ok a) ws := by
  obtain ⟨past, hordered⟩ := h.ordered
  cases hstep with
  | start _ _ => exact Or.inl rfl
  | write _ _ _ => exact Or.inl rfl
  | skip _ _ => exact Or.inl rfl
  | peek _ => exact Or.inl rfl
  | commit hactive =>
    have hsound := hordered.sound _ _ hactive
    have hall := hinv.history hordered.history
    obtain ⟨begun, hpermitted, hbegun, hseen⟩ := hsound.begun
    refine Or.inr ⟨_, _, _, _, _, begun, hactive, rfl, rfl, hpermitted, hbegun, hsound.now, ?_,
      hsound.executes⟩
    intro σ₀ h₀
    obtain ⟨log₀, hlog₀, hmem⟩ := hseen σ₀ h₀
    obtain ⟨hgrows, hsuffix, hheld⟩ := hall _ hmem
    exact ⟨hgrows, log₀, hlog₀, hsuffix, hheld⟩
  | rollback _ => exact Or.inl rfl
  | abort _ => exact Or.inl rfl

/-- A step that logs a commit has committed one execution of the request, which was permitted
when its session began; the session has seen only stores of the invariant. -/
theorem Invariant.committed_step (hinv : P.Invariant init Inv Grows) {s s' : P.System}
    (h : Reachable init s) (hstep : Step s s') {r : P.Request} {a : P.Result}
    (hlog : s'.log = ⟨r, .committed a⟩ :: s.log) :
    ∃ ws begun, ∃ seen : Store S → Prop, s'.committed = s.committed.overlay ws ∧
      P.permitted begun r ∧ begun <:+ s.log ∧ seen s.committed ∧
      (∀ σ₀, seen σ₀ → Earlier Inv Grows begun s.log s.committed σ₀) ∧
      (P.program r).Executes seen s.committed [] (.ok a) ws := by
  have hshort : s.log ≠ ⟨r, .committed a⟩ :: s.log := (List.cons_ne_self _ _).symm
  cases hstep with
  | start _ _ => exact absurd hlog hshort
  | write _ _ _ => exact absurd hlog hshort
  | skip _ _ => exact absurd hlog hshort
  | peek _ => exact absurd hlog hshort
  | commit hactive =>
    obtain ⟨past, hordered⟩ := h.ordered
    have hsound := hordered.sound _ _ hactive
    have hall := hinv.history hordered.history
    obtain ⟨begun, hpermitted, hbegun, hseen⟩ := hsound.begun
    obtain ⟨heq, -⟩ := List.cons.inj hlog
    obtain ⟨rfl, hresult⟩ := Entry.mk.inj heq
    obtain rfl := Outcome.committed.inj hresult
    refine ⟨_, begun, _, rfl, hpermitted, hbegun, hsound.now, ?_, hsound.executes⟩
    intro σ₀ h₀
    obtain ⟨log₀, hlog₀, hmem⟩ := hseen σ₀ h₀
    obtain ⟨hgrows, hsuffix, hheld⟩ := hall _ hmem
    exact ⟨hgrows, log₀, hlog₀, hsuffix, hheld⟩
  | rollback _ => exact absurd (Entry.mk.inj (List.cons.inj hlog).1).2 (by simp)
  | abort _ => exact absurd (Entry.mk.inj (List.cons.inj hlog).1).2 (by simp)

/-- A step leaves the committed rows alone unless it logs a commit. -/
theorem Step.committed_or_log {s s' : P.System} (h : Step s s') :
    s'.committed = s.committed ∨ ∃ r a, s'.log = ⟨r, .committed a⟩ :: s.log := by
  cases h with
  | commit _ => exact Or.inr ⟨_, _, rfl⟩
  | _ => exact Or.inl rfl

/-- Every step lets the committed rows grow. -/
theorem Invariant.step (hinv : P.Invariant init Inv Grows) {s s' : P.System}
    (h : Reachable init s) (hstep : Step s s') : Grows s.committed s'.committed := by
  obtain ⟨past, hordered⟩ := h.ordered
  cases hstep with
  | start _ _ => exact hinv.refl _
  | write _ _ _ => exact hinv.refl _
  | skip _ _ => exact hinv.refl _
  | peek _ => exact hinv.refl _
  | commit hactive =>
    have hall := hinv.history (hordered.committed hactive)
    exact (hall _ (List.mem_cons_of_mem _ List.mem_cons_self)).1
  | rollback _ => exact hinv.refl _
  | abort _ => exact hinv.refl _

variable (P) in
/-- How an entry came about after a log: its session began when the request was permitted, has
seen stores since then only, and its program can end as it did. -/
def Ended (Inv : List P.LogEntry → Store S → Prop) (entry : P.LogEntry)
    (log : List P.LogEntry) : Prop :=
  ∃ begun seen σ, P.permitted begun entry.request ∧ begun <:+ log ∧ Inv log σ ∧
    (∀ σ₀, seen σ₀ → ∃ log₀, begun <:+ log₀ ∧ log₀ <:+ log ∧ Inv log₀ σ₀) ∧
    ∀ result, entry.outcome = .ofResult result →
      ∃ ws, (P.program entry.request).Executes seen σ [] result ws

/-- An invariant also says how every entry of the log came about. -/
theorem Invariant.withEnds (hinv : P.Invariant init Inv Grows) :
    P.Invariant init
      (fun log σ => Inv log σ ∧ ∀ later entry log₀, log = later ++ entry :: log₀ →
        P.Ended Inv entry log₀) Grows := by
  have hcons : ∀ {log : List P.LogEntry} {entry : P.LogEntry},
      (∀ later entry log₀, log = later ++ entry :: log₀ → P.Ended Inv entry log₀) →
      P.Ended Inv entry log →
      ∀ later entry' log₀, entry :: log = later ++ entry' :: log₀ → P.Ended Inv entry' log₀ := by
    intro log entry hends hended later entry' log₀ heq
    cases later with
    | nil =>
      obtain ⟨rfl, rfl⟩ := List.cons.inj heq
      exact hended
    | cons first later => exact hends later entry' log₀ (List.cons.inj heq).2
  have hseen : ∀ {log begun : List P.LogEntry} {σ : Store S} {seen : Store S → Prop},
      (∀ σ₀, seen σ₀ → Earlier (fun log σ => Inv log σ ∧ ∀ later entry log₀,
        log = later ++ entry :: log₀ → P.Ended Inv entry log₀) Grows begun log σ σ₀) →
      (∀ σ₀, seen σ₀ → Earlier Inv Grows begun log σ σ₀) ∧
        ∀ σ₀, seen σ₀ → ∃ log₀, begun <:+ log₀ ∧ log₀ <:+ log ∧ Inv log₀ σ₀ := by
    intro log begun σ seen hearlier
    constructor
    · intro σ₀ h₀
      obtain ⟨hgrows, log₀, hbegun, hlog₀, hheld, -⟩ := hearlier σ₀ h₀
      exact ⟨hgrows, log₀, hbegun, hlog₀, hheld⟩
    · intro σ₀ h₀
      obtain ⟨-, log₀, hbegun, hlog₀, hheld, -⟩ := hearlier σ₀ h₀
      exact ⟨log₀, hbegun, hlog₀, hheld⟩
  exact {
    refl := hinv.refl
    trans := hinv.trans
    start := ⟨hinv.start, fun later entry log₀ heq => absurd heq (by simp)⟩
    commit := by
      intro log begun seen σ r a ws h hpermitted hbegun hnow hearlier hexec
      obtain ⟨hearlier', hstores⟩ := hseen hearlier
      obtain ⟨hstep, hgrows⟩ := hinv.commit h.1 hpermitted hbegun hnow hearlier' hexec
      refine ⟨⟨hstep, hcons h.2 ⟨begun, seen, σ, hpermitted, hbegun, h.1, hstores, ?_⟩⟩, hgrows⟩
      intro result hresult
      obtain rfl : .ok a = result := Outcome.ofResult_injective hresult
      exact ⟨ws, hexec⟩
    rollback := by
      intro log begun seen σ r e ws h hpermitted hbegun hnow hearlier hexec
      obtain ⟨hearlier', hstores⟩ := hseen hearlier
      refine ⟨hinv.rollback h.1 hpermitted hbegun hnow hearlier' hexec,
        hcons h.2 ⟨begun, seen, σ, hpermitted, hbegun, h.1, hstores, ?_⟩⟩
      intro result hresult
      obtain rfl : .error e = result := Outcome.ofResult_injective hresult
      exact ⟨ws, hexec⟩
    abort := by
      intro log begun σ r h hpermitted hbegun
      refine ⟨hinv.abort h.1 hpermitted hbegun, hcons h.2 ⟨begun, fun _ => False, σ, hpermitted,
        hbegun, h.1, fun σ₀ h₀ => absurd h₀ id, ?_⟩⟩
      intro result hresult
      cases result <;> simp [Outcome.ofResult] at hresult }

/-- How an entry in the log of a reachable system came about. -/
theorem Invariant.ended (hinv : P.Invariant init Inv Grows) {s : P.System}
    (h : Reachable init s) {later log₀ : List P.LogEntry} {entry : P.LogEntry}
    (hlog : s.log = later ++ entry :: log₀) : P.Ended Inv entry log₀ :=
  (hinv.withEnds.reachable h).2 later entry log₀ hlog

/-- The system some steps later. -/
def Later : P.System → P.System → Prop := Relation.ReflTransGen Step

/-- What is reachable stays reachable. -/
theorem Reachable.later {s s' : P.System} (h : Reachable init s) (hlater : Later s s') :
    Reachable init s' := by
  induction hlater with
  | refl => exact h
  | tail _ hstep ih => exact ih.step hstep

/-- Later rows have grown from the rows before. -/
theorem Invariant.later (hinv : P.Invariant init Inv Grows) {s s' : P.System}
    (h : Reachable init s) (hlater : Later s s') : Grows s.committed s'.committed := by
  induction hlater with
  | refl => exact hinv.refl _
  | tail hsteps hstep ih => exact hinv.trans ih (hinv.step (h.later hsteps) hstep)

/-- The log only grows. -/
theorem Step.log_suffix {s s' : P.System} (h : Step s s') : s.log <:+ s'.log := by
  cases h with
  | commit _ => exact List.suffix_cons _ _
  | rollback _ => exact List.suffix_cons _ _
  | abort _ => exact List.suffix_cons _ _
  | _ => exact List.suffix_refl _

theorem Later.log_suffix {s s' : P.System} (h : Later s s') : s.log <:+ s'.log := by
  induction h with
  | refl => exact List.suffix_refl _
  | tail _ hstep ih => exact ih.trans hstep.log_suffix

/-- A run: its steps, latest first, and the system it leads to. -/
inductive Run (init : Store S) : List (P.System × P.System) → P.System → Prop
  /-- Before anything begins. -/
  | initial : Run init [] (P.initial init)
  /-- One more step. -/
  | step {steps : List (P.System × P.System)} {s s' : P.System} (h : Run init steps s)
      (hstep : Step s s') : Run init ((s, s') :: steps) s'

theorem Run.reachable {steps : List (P.System × P.System)} {s : P.System}
    (h : Run init steps s) : Reachable init s := by
  induction h with
  | initial => exact .initial
  | step _ hstep ih => exact ih.step hstep

theorem Reachable.exists_run {s : P.System} (h : Reachable init s) : ∃ steps, Run init steps s := by
  induction h with
  | initial => exact ⟨[], .initial⟩
  | step _ hstep ih =>
    obtain ⟨steps, hrun⟩ := ih
    exact ⟨_, hrun.step hstep⟩

/-- The steps of a run are steps between reachable systems. -/
theorem Run.steps {steps : List (P.System × P.System)} {s : P.System} (h : Run init steps s) :
    ∀ step ∈ steps, Reachable init step.1 ∧ Step step.1 step.2 := by
  induction h with
  | initial => exact fun step hmem => absurd hmem (by simp)
  | step hrun hstep ih =>
    intro step hmem
    rcases List.mem_cons.mp hmem with rfl | hmem
    · exact ⟨hrun.reachable, hstep⟩
    · exact ih step hmem

/-- What holds before anything begins and is kept by every commit that meets a condition holds
in every system that a run of such commits leads to. The commits may rely on an invariant. -/
theorem Invariant.run (hinv : P.Invariant init Inv Grows)
    {C : List P.LogEntry → Store S → P.Request → Prop} {Q : List P.LogEntry → Store S → Prop}
    (hstart : Q [] init)
    (hcommit : ∀ {log begun : List P.LogEntry} {seen : Store S → Prop} {σ : Store S}
      {r : P.Request} {a : P.Result} {ws : List (Write S)}, Inv log σ → Q log σ → C log σ r →
      P.permitted begun r → begun <:+ log → seen σ →
      (∀ σ₀, seen σ₀ → Earlier Inv Grows begun log σ σ₀) →
      (P.program r).Executes seen σ [] (.ok a) ws → Q (⟨r, .committed a⟩ :: log) (σ.overlay ws))
    (hends : ∀ {log : List P.LogEntry} {σ : Store S} {r : P.Request}
      {outcome : Outcome P.Error P.Result}, (∀ a, outcome ≠ .committed a) → Q log σ →
      Q (⟨r, outcome⟩ :: log) σ)
    {steps : List (P.System × P.System)} {s : P.System} (hrun : Run init steps s)
    (hok : ∀ step ∈ steps, ∀ r a, step.2.log = ⟨r, .committed a⟩ :: step.1.log →
      C step.1.log step.1.committed r) : Q s.log s.committed := by
  induction hrun with
  | initial => exact hstart
  | @step steps s s' hrun hstep ih =>
    have hbefore : Q s.log s.committed :=
      ih (fun step hmem => hok step (List.mem_cons_of_mem _ hmem))
    have hreachable := hrun.reachable
    have hthis := hok (s, s') List.mem_cons_self
    cases hstep with
    | start _ _ => exact hbefore
    | write _ _ _ => exact hbefore
    | skip _ _ => exact hbefore
    | peek _ => exact hbefore
    | commit hactive =>
      obtain ⟨past, hordered⟩ := hreachable.ordered
      have hsound := hordered.sound _ _ hactive
      have hall := hinv.history hordered.history
      obtain ⟨begun, hpermitted, hbegun, hseen⟩ := hsound.begun
      refine hcommit (hinv.reachable hreachable) hbefore (hthis _ _ rfl) hpermitted hbegun
        hsound.now (fun σ₀ h₀ => ?_) hsound.executes
      obtain ⟨log₀, hlog₀, hmem⟩ := hseen σ₀ h₀
      obtain ⟨hgrows, hsuffix, hheld⟩ := hall _ hmem
      exact ⟨hgrows, log₀, hlog₀, hsuffix, hheld⟩
    | rollback _ => exact hends (by simp) hbefore
    | abort _ => exact hends (by simp) hbefore

/-- A step that ends no session. -/
def Silent (s s' : P.System) : Prop := Step s s' ∧ s'.log = s.log

theorem Reachable.silent {s s' : P.System} (h : Reachable init s)
    (hsilent : Relation.ReflTransGen Silent s s') : Reachable init s' := by
  induction hsilent with
  | refl => exact h
  | tail _ hstep ih => exact ih.step hstep.1

/-- A run goes on with steps that end no session. -/
theorem Run.silent {steps : List (P.System × P.System)} {s s' : P.System} (h : Run init steps s)
    (hsilent : Relation.ReflTransGen Silent s s') :
    ∃ later, Run init (later ++ steps) s' ∧ ∀ step ∈ later, step.2.log = step.1.log := by
  induction hsilent with
  | refl => exact ⟨[], h, by simp⟩
  | @tail s₀ s₁ _ hstep ih =>
    obtain ⟨later, hrun, hlater⟩ := ih
    refine ⟨(s₀, s₁) :: later, hrun.step hstep.1, fun step hmem => ?_⟩
    rcases List.mem_cons.mp hmem with rfl | hmem
    · exact hstep.2
    · exact hlater step hmem

/-- The request was permitted at some time, and its program can end as its session did. -/
def Explained (entry : P.LogEntry) : Prop :=
  (∃ begun, P.permitted begun entry.request) ∧
  ∀ result, entry.outcome = .ofResult result →
    ∃ seen σ ws, (P.program entry.request).Executes seen σ [] result ws

variable (P init) in
/-- The invariant that says nothing. -/
theorem trivialInvariant : P.Invariant init (fun _ _ => True) (fun _ _ => True) :=
  ⟨fun _ => trivial, fun _ _ => trivial, trivial, fun _ _ _ _ _ _ => ⟨trivial, trivial⟩,
    fun _ _ _ _ _ _ => trivial, fun _ _ _ => trivial⟩

/-- Every entry in the log of a reachable system is explained. -/
theorem Reachable.explained {s : P.System} (h : Reachable init s) :
    ∀ entry ∈ s.log, Explained entry := by
  intro entry hmem
  obtain ⟨later, log₀, hlog⟩ := List.mem_iff_append.mp hmem
  obtain ⟨begun, seen, σ, hpermitted, -, -, -, hexec⟩ := (trivialInvariant P init).ended h hlog
  exact ⟨⟨begun, hpermitted⟩, fun result hresult => ⟨seen, σ, hexec result hresult⟩⟩

end Invariant

section Sequential

variable {init : Store S}

/-- A session that is alone runs to its end as its program does alone, and the step that ends
it is the one that changes the log and the rows. -/
theorem System.finish {s : P.System} {r : P.Request} (p : Program S P.Error P.Result)
    {ws : List (Write S)} {seen : List (Store S)}
    (hactive : s.active 0 = some ⟨r, p, ws, seen⟩) (hidle : ∀ id, id ≠ 0 → s.active id = none) :
    ∃ s₀ s' : P.System, Relation.ReflTransGen Silent s s₀ ∧ Step s₀ s' ∧ s₀.log = s.log ∧
      s₀.committed = s.committed ∧ (∀ id, s'.active id = none) ∧
      s'.log = ⟨r, .ofResult (p.run (s.committed.overlay ws)).1⟩ :: s.log ∧
      s'.committed = match p.run (s.committed.overlay ws) with
        | (.ok _, σ') => σ'
        | (.error _, _) => s.committed := by
  have hunlocked : ∀ t k, s.Unlocked 0 t k := by
    intro t k other session hother hsession
    exact absurd ((hidle other hother).symm.trans hsession) (by simp)
  have hnext : ∀ session : P.Session, ∀ id, id ≠ 0 →
      (s.withSession 0 (some session)).active id = none := by
    intro session id hid
    rw [withSession_active_ne _ _ hid]
    exact hidle id hid
  induction p generalizing s ws with
  | commit a =>
    refine ⟨s, _, .refl, .commit hactive, rfl, rfl, fun id => ?_, rfl, rfl⟩
    by_cases hid : id = 0
    · simp [System.committing, hid]
    · simp [System.committing, hid, hidle id hid]
  | rollback e =>
    refine ⟨s, _, .refl, .rollback hactive, rfl, rfl, fun id => ?_, rfl, rfl⟩
    by_cases hid : id = 0
    · subst hid
      exact withSession_active_self s 0 none
    · exact (withSession_active_ne s none hid).trans (hidle id hid)
  | access t k statement next ih =>
    cases hvalue : statement ((s.committed.overlay ws).get t k) with
    | some v =>
      have hstep : Step s _ := .write hactive hvalue (hunlocked t k)
      obtain ⟨s₀, s', hsilent, hlast, hlog₀, hcommitted₀, hfree, hlog, hcommitted⟩ := ih _
        (withSession_active_self s 0 _) (hnext _) (fun t' k' other session hother hsession =>
          absurd ((hnext _ other hother).symm.trans hsession) (by simp))
        (fun session id hid => by
          rw [withSession_active_ne _ _ hid]
          exact hnext _ id hid)
      exact ⟨s₀, s', .head ⟨hstep, rfl⟩ hsilent, hlast, hlog₀, hcommitted₀, hfree,
        by rw [hlog, run, hvalue]; rfl, by rw [hcommitted, run, hvalue]; rfl⟩
    | none =>
      have hstep : Step s _ := .skip hactive hvalue
      obtain ⟨s₀, s', hsilent, hlast, hlog₀, hcommitted₀, hfree, hlog, hcommitted⟩ := ih _
        (withSession_active_self s 0 _) (hnext _) (fun t' k' other session hother hsession =>
          absurd ((hnext _ other hother).symm.trans hsession) (by simp))
        (fun session id hid => by
          rw [withSession_active_ne _ _ hid]
          exact hnext _ id hid)
      exact ⟨s₀, s', .head ⟨hstep, rfl⟩ hsilent, hlast, hlog₀, hcommitted₀, hfree,
        by rw [hlog, run, hvalue]; rfl, by rw [hcommitted, run, hvalue]; rfl⟩
  | peek next ih =>
    have hstep : Step s _ := .peek hactive
    obtain ⟨s₀, s', hsilent, hlast, hlog₀, hcommitted₀, hfree, hlog, hcommitted⟩ := ih _
      (withSession_active_self s 0 _) (hnext _) (fun t' k' other session hother hsession =>
        absurd ((hnext _ other hother).symm.trans hsession) (by simp))
      (fun session id hid => by
        rw [withSession_active_ne _ _ hid]
        exact hnext _ id hid)
    exact ⟨s₀, s', .head ⟨hstep, rfl⟩ hsilent, hlast, hlog₀, hcommitted₀, hfree,
      by rw [hlog, run]; rfl, by rw [hcommitted, run]; rfl⟩

variable (P) in
/-- Log and rows after requests that run one after the other. -/
def sequential (log : List P.LogEntry) (σ : Store S) :
    List P.Request → List P.LogEntry × Store S
  | [] => (log, σ)
  | r :: rs =>
    sequential (⟨r, .ofResult ((P.program r).transact σ).1⟩ :: log) ((P.program r).transact σ).2 rs

variable (P) in
/-- Every one of the requests is permitted when the ones before have ended. -/
def Sequential (log : List P.LogEntry) (σ : Store S) : List P.Request → Prop
  | [] => True
  | r :: rs => P.permitted log r ∧
    Sequential (⟨r, .ofResult ((P.program r).transact σ).1⟩ :: log) ((P.program r).transact σ).2 rs

variable (P) in
/-- Every one of the requests meets a condition when the ones before have ended. -/
def MeetsEach (C : List P.LogEntry → Store S → P.Request → Prop) (log : List P.LogEntry)
    (σ : Store S) : List P.Request → Prop
  | [] => True
  | r :: rs => C log σ r ∧
    MeetsEach C (⟨r, .ofResult ((P.program r).transact σ).1⟩ :: log) ((P.program r).transact σ).2 rs

/-- What is permitted one after the other is permitted as far as it goes. -/
theorem Sequential.of_append {log : List P.LogEntry} {σ : Store S} {rs rs' : List P.Request}
    (h : P.Sequential log σ (rs ++ rs')) : P.Sequential log σ rs := by
  induction rs generalizing log σ with
  | nil => exact trivial
  | cons r rs ih => exact ⟨h.1, ih h.2⟩

/-- A request that has begun alone changes the log and the rows in one step. -/
theorem System.finishBegun {s : P.System} (hidle : ∀ id, s.active id = none) (r : P.Request) :
    ∃ s₀ s' : P.System,
      Relation.ReflTransGen Silent
        (s.withSession 0 (some ⟨r, P.program r, [], [s.committed]⟩)) s₀ ∧
      Step s₀ s' ∧ s₀.log = s.log ∧ s₀.committed = s.committed ∧
      (∀ id, s'.active id = none) ∧
      s'.log = ⟨r, .ofResult ((P.program r).transact s.committed).1⟩ :: s.log ∧
      s'.committed = ((P.program r).transact s.committed).2 := by
  obtain ⟨s₀, s', hsilent, hlast, hlog₀, hcommitted₀, hfree, hlog, hcommitted⟩ :=
    System.finish (P.program r) (withSession_active_self s 0 _)
      (fun id hid => (withSession_active_ne s _ hid).trans (hidle id))
  refine ⟨s₀, s', hsilent, hlast, hlog₀, hcommitted₀, hfree, ?_, ?_⟩
  · rw [hlog]
    unfold transact
    cases hrun : (P.program r).run s.committed with
    | mk result σ' => cases result <;> simp [System.withSession, hrun]
  · rw [hcommitted]
    unfold transact
    cases hrun : (P.program r).run s.committed with
    | mk result σ' => cases result <;> simp [System.withSession, hrun]

/-- A request that runs alone changes the log and the rows in one step. -/
theorem System.request {s : P.System} (hidle : ∀ id, s.active id = none) {r : P.Request}
    (hpermitted : P.permitted s.log r) :
    ∃ s₀ s' : P.System, Relation.ReflTransGen Silent s s₀ ∧ Step s₀ s' ∧ s₀.log = s.log ∧
      s₀.committed = s.committed ∧ (∀ id, s'.active id = none) ∧
      s'.log = ⟨r, .ofResult ((P.program r).transact s.committed).1⟩ :: s.log ∧
      s'.committed = ((P.program r).transact s.committed).2 := by
  have hstart : Step s _ := .start (hidle 0) hpermitted
  obtain ⟨s₀, s', hsilent, hrest⟩ := System.finishBegun hidle r
  exact ⟨s₀, s', .head ⟨hstart, rfl⟩ hsilent, hrest⟩

/-- Requests that run one after the other make a run. Its commits meet what each of them meets. -/
theorem Run.sequential {C : List P.LogEntry → Store S → P.Request → Prop}
    {steps : List (P.System × P.System)} {s : P.System} (h : Run init steps s)
    (hidle : ∀ id, s.active id = none) {rs : List P.Request}
    (hpermitted : P.Sequential s.log s.committed rs)
    (hmeets : P.MeetsEach C s.log s.committed rs)
    (hok : ∀ step ∈ steps, ∀ r a, step.2.log = ⟨r, .committed a⟩ :: step.1.log →
      C step.1.log step.1.committed r) :
    ∃ (steps' : List (P.System × P.System)) (s' : P.System), Run init steps' s' ∧
      (∀ id, s'.active id = none) ∧
      (s'.log, s'.committed) = P.sequential s.log s.committed rs ∧
      ∀ step ∈ steps', ∀ r a, step.2.log = ⟨r, .committed a⟩ :: step.1.log →
        C step.1.log step.1.committed r := by
  induction rs generalizing steps s with
  | nil => exact ⟨steps, s, h, hidle, rfl, hok⟩
  | cons r rs ih =>
    obtain ⟨s₀, s₁, hsilent, hlast, hlog₀, hcommitted₀, hfree, hlog₁, hcommitted₁⟩ :=
      System.request hidle hpermitted.1
    obtain ⟨later, hrun, hlater⟩ := h.silent hsilent
    have hrest : P.Sequential s₁.log s₁.committed rs := by
      rw [hlog₁, hcommitted₁]
      exact hpermitted.2
    have hmeetsRest : P.MeetsEach C s₁.log s₁.committed rs := by
      rw [hlog₁, hcommitted₁]
      exact hmeets.2
    have hokRest : ∀ step ∈ (s₀, s₁) :: (later ++ steps), ∀ r a,
        step.2.log = ⟨r, .committed a⟩ :: step.1.log → C step.1.log step.1.committed r := by
      intro step hmem r' a hlog
      rcases List.mem_cons.mp hmem with rfl | hmem
      · have hr : r = r' := by
          rw [hlog₁, ← hlog₀] at hlog
          exact (Entry.mk.inj (List.cons.inj hlog).1).1
        rw [← hr, hlog₀, hcommitted₀]
        exact hmeets.1
      · rcases List.mem_append.mp hmem with hmem | hmem
        · rw [hlater step hmem] at hlog
          exact absurd (congrArg List.length hlog) (by simp)
        · exact hok step hmem r' a hlog
    obtain ⟨steps', s', hrun', hidle', heq, hall⟩ :=
      ih (hrun.step hlast) hfree hrest hmeetsRest hokRest
    refine ⟨steps', s', hrun', hidle', ?_, hall⟩
    rw [heq, hlog₁, hcommitted₁]
    rfl

/-- Requests that run one after the other on the initial rows make a run. -/
theorem run_sequential {C : List P.LogEntry → Store S → P.Request → Prop} {rs : List P.Request}
    (hpermitted : P.Sequential [] init rs) (hmeets : P.MeetsEach C [] init rs) :
    ∃ (steps : List (P.System × P.System)) (s : P.System), Run init steps s ∧
      s.log = (P.sequential [] init rs).1 ∧ s.committed = (P.sequential [] init rs).2 ∧
      ∀ step ∈ steps, ∀ r a, step.2.log = ⟨r, .committed a⟩ :: step.1.log →
        C step.1.log step.1.committed r := by
  obtain ⟨steps, s, hrun, -, heq, hall⟩ :=
    (Run.initial : Run init [] (P.initial init)).sequential (C := C) (fun _ => rfl) hpermitted
      hmeets (fun step hmem => absurd hmem (by simp))
  exact ⟨steps, s, hrun, congrArg Prod.fst heq, congrArg Prod.snd heq, hall⟩

/-- Requests that run one after the other are one of the interleavings. -/
theorem Reachable.sequential {s : P.System} (h : Reachable init s)
    (hidle : ∀ id, s.active id = none) {rs : List P.Request}
    (hpermitted : P.Sequential s.log s.committed rs) :
    ∃ s' : P.System, Reachable init s' ∧ (∀ id, s'.active id = none) ∧
      (s'.log, s'.committed) = P.sequential s.log s.committed rs := by
  induction rs generalizing s with
  | nil => exact ⟨s, h, hidle, rfl⟩
  | cons r rs ih =>
    obtain ⟨s₀, s₁, hsilent, hlast, -, -, hfree, hlog₁, hcommitted₁⟩ :=
      System.request hidle hpermitted.1
    have hs₁ : Reachable init s₁ := (h.silent hsilent).step hlast
    have hrest : P.Sequential s₁.log s₁.committed rs := by
      rw [hlog₁, hcommitted₁]
      exact hpermitted.2
    obtain ⟨s', hs', hidle', heq⟩ := ih hs₁ hfree hrest
    refine ⟨s', hs', hidle', ?_⟩
    rw [heq, hlog₁, hcommitted₁]
    rfl

/-- Requests that run one after the other on the initial rows are reachable. -/
theorem reachable_sequential {rs : List P.Request} (hpermitted : P.Sequential [] init rs) :
    ∃ s : P.System, Reachable init s ∧ s.log = (P.sequential [] init rs).1 ∧
      s.committed = (P.sequential [] init rs).2 := by
  obtain ⟨s, hs, -, heq⟩ :=
    (Reachable.initial : Reachable init (P.initial init)).sequential (fun _ => rfl) hpermitted
  exact ⟨s, hs, congrArg Prod.fst heq, congrArg Prod.snd heq⟩

/-- The last of several requests that run one after the other is one step. -/
theorem sequential_last (init : Store S) (rs : List P.Request) (r : P.Request)
    (hpermitted : P.Sequential [] init rs)
    (hlast : P.permitted (P.sequential [] init rs).1 r) :
    ∃ s s' : P.System, Reachable init s ∧ Step s s' ∧
      s.log = (P.sequential [] init rs).1 ∧ s.committed = (P.sequential [] init rs).2 ∧
      s'.log = ⟨r, .ofResult ((P.program r).transact s.committed).1⟩ :: s.log ∧
      s'.committed = ((P.program r).transact s.committed).2 := by
  obtain ⟨s, hs, hidle, heq⟩ :=
    (Reachable.initial : Reachable init (P.initial init)).sequential (fun _ => rfl) hpermitted
  have hlog : s.log = (P.sequential [] init rs).1 := congrArg Prod.fst heq
  have hcommitted : s.committed = (P.sequential [] init rs).2 := congrArg Prod.snd heq
  rw [← hlog] at hlast
  obtain ⟨s₀, s', hsilent, hstep, hlog₀, hcommitted₀, -, hlog', hcommitted'⟩ :=
    System.request hidle hlast
  refine ⟨s₀, s', hs.silent hsilent, hstep, hlog₀.trans hlog, hcommitted₀.trans hcommitted, ?_, ?_⟩
  · rw [hlog', hlog₀, hcommitted₀]
  · rw [hcommitted', hcommitted₀]

end Sequential

end Protocol

end LegacyVault.RowTransaction
