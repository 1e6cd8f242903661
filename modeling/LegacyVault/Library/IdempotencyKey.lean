import LegacyVault.Library.RowStatements
import LegacyVault.Library.InterleavedTransactions

/-!
# Idempotency keys inside one transaction

A transaction that reserves a record under its key, runs its mutation, and
stores the response in the record before it commits. A second transaction
under the key waits for the first, and then finds the stored response, or a
different request hash, or a record without a response.

`OnceTable` describes a protocol whose transactions all treat a record table
this way. In every interleaving the mutation of a key is applied at most
once, all successes under a key share request hash and response, and the
record without a response is never seen.
-/

namespace LegacyVault.RowTransaction

open Program

/-- How a record row holds its request hash and response. -/
structure RecordShape (S : Schema) (t : S.Table) (Hash Body : Type) where
  /-- Hash of the request that reserved the record. -/
  hashOf : S.Row t → Hash
  /-- Stored response. -/
  bodyOf : S.Row t → Option Body

/-- How a transaction stores its response in a record. -/
structure RecordShape.Completion {S : Schema} {t : S.Table} {Hash Body : Type}
    (shape : RecordShape S t Hash Body) where
  /-- The record with the response. -/
  store : Body → S.Row t → S.Row t
  /-- Storing keeps the hash. -/
  hash_store : ∀ body row, shape.hashOf (store body row) = shape.hashOf row
  /-- Storing makes the response the record's. -/
  body_store : ∀ body row, shape.bodyOf (store body row) = some body

/-- The response of a transaction under a key, with how it came about. -/
inductive Answer (Body : Type) where
  /-- The mutation ran. -/
  | applied (body : Body)
  /-- The stored response was returned. -/
  | replayed (body : Body)
  deriving DecidableEq

/-- The response the caller sees. -/
def Answer.body {Body : Type} : Answer Body → Body
  | applied body => body
  | replayed body => body

variable {S : Schema} {t : S.Table} {Hash Body ε : Type} [DecidableEq Hash]

namespace RecordShape

/-- Answer from an existing record. -/
def replay (shape : RecordShape S t Hash Body) (k : S.Key t) (hash : Hash)
    (conflict processing : ε) : Program S ε (Answer Body) := do
  let existing ← select (fun σ => σ.get t k)
  match existing with
  | none => .rollback conflict
  | some row =>
    if shape.hashOf row = hash then
      match shape.bodyOf row with
      | none => .rollback processing
      | some body => .commit (.replayed body)
    else .rollback conflict

/-- Run the mutation and store its response in the reserved record. -/
def apply {shape : RecordShape S t Hash Body} (completion : shape.Completion) (k : S.Key t)
    (mutation : Program S ε Body) : Program S ε (Answer Body) := do
  let body ← mutation
  let _ ← updateRow t k (fun row => some (completion.store body row))
  .commit (.applied body)

/-- Reserve the key, then apply the mutation or answer from the existing record. -/
def once {shape : RecordShape S t Hash Body} (completion : shape.Completion) (k : S.Key t)
    (fresh : S.Row t) (conflict processing : ε) (mutation : Program S ε Body) :
    Program S ε (Answer Body) := do
  let reserved ← insertOrIgnore t k fresh
  match reserved with
  | none => shape.replay k (shape.hashOf fresh) conflict processing
  | some _ => apply completion k mutation

variable {shape : RecordShape S t Hash Body} {completion : shape.Completion} {k : S.Key t}
  {fresh : S.Row t} {hash : Hash} {conflict processing : ε} {mutation : Program S ε Body}
  {seen : Store S → Prop} {σ : Store S} {ws ws' : List (Write S)}
  {outcome : Except ε (Answer Body)}

/-- Answering from a record writes nothing, and answers with the record's response,
or fails because the record is missing, of another hash, or without response. -/
theorem executes_replay (h : (shape.replay k hash conflict processing).Executes
    seen σ ws outcome ws') :
    ws' = ws ∧ ∃ σ₀, seen σ₀ ∧
      ((∃ row body, (σ₀.overlay ws).get t k = some row ∧ shape.hashOf row = hash ∧
          shape.bodyOf row = some body ∧ outcome = .ok (.replayed body)) ∨
        outcome = .error conflict ∨
        (∃ row, (σ₀.overlay ws).get t k = some row ∧ shape.bodyOf row = none ∧
          outcome = .error processing)) := by
  rw [replay, executes_bind] at h
  rcases h with ⟨existing, ws₁, hselect, hrest⟩ | ⟨e, -, hselect⟩
  · obtain ⟨σ₀, hs, hex, rfl⟩ := executes_select.mp hselect
    obtain rfl := Except.ok.inj hex
    cases hrow : (σ₀.overlay ws₁).get t k with
    | none =>
      rw [hrow] at hrest
      exact ⟨hrest.2, σ₀, hs, Or.inr (Or.inl hrest.1)⟩
    | some row =>
      simp only [hrow] at hrest
      by_cases hhash : shape.hashOf row = hash
      · rw [if_pos hhash] at hrest
        cases hbody : shape.bodyOf row with
        | none =>
          rw [hbody] at hrest
          exact ⟨hrest.2, σ₀, hs, Or.inr (Or.inr ⟨row, hrow, hbody, hrest.1⟩)⟩
        | some body =>
          rw [hbody] at hrest
          exact ⟨hrest.2, σ₀, hs, Or.inl ⟨row, body, hrow, hhash, hbody, hrest.1⟩⟩
      · rw [if_neg hhash] at hrest
        exact ⟨hrest.2, σ₀, hs, Or.inr (Or.inl hrest.1)⟩
  · obtain ⟨σ₀, -, hex, -⟩ := executes_select.mp hselect
    exact absurd hex (by simp)

/-- A committed `once` either replayed a stored response without writing, or found
the key free at its commit, ran the mutation, and completed its record. -/
theorem executes_once_ok {answer : Answer Body} (hleaves : mutation.Leaves t)
    (h : (once completion k fresh conflict processing mutation).Executes seen σ ws
      (.ok answer) ws') :
    (∃ σ₀ row body, seen σ₀ ∧ (σ₀.overlay ws).get t k = some row ∧
      shape.hashOf row = shape.hashOf fresh ∧ shape.bodyOf row = some body ∧
      answer = .replayed body ∧ ws' = ws) ∨
    (∃ body ws₁, (σ.overlay ws).get t k = none ∧
      mutation.Executes seen σ (⟨t, k, some fresh⟩ :: ws) (.ok body) ws₁ ∧
      answer = .applied body ∧ ws' = ⟨t, k, some (completion.store body fresh)⟩ :: ws₁) := by
  rw [once, executes_bind_ok] at h
  obtain ⟨reserved, ws₁, hinsert, hrest⟩ := h
  rcases executes_insertOrIgnore.mp hinsert with ⟨hnone, hres, rfl⟩ | ⟨σ₀, old, -, -, hres, rfl⟩
  · obtain rfl := Except.ok.inj hres
    right
    simp only [apply] at hrest
    obtain ⟨body, ws₂, hmutation, hrest⟩ := executes_bind_ok.mp hrest
    obtain ⟨updated, ws₃, hupdate, hrest⟩ := executes_bind_ok.mp hrest
    obtain ⟨hanswer, rfl⟩ := hrest
    have hrecord : (σ.overlay ws₂).get t k = some fresh := by
      rw [hleaves.executes hmutation k σ]
      simp
    rcases executes_updateRow.mp hupdate with ⟨old, row, hold, hchange, -, hws⟩ | ⟨σ₀, -, hno, -, -⟩
    · obtain rfl : fresh = old := Option.some.inj (hrecord.symm.trans hold)
      obtain rfl := Option.some.inj hchange
      exact ⟨body, ws₂, hnone, hmutation, Except.ok.inj hanswer, hws⟩
    · have hlocked : (σ₀.overlay ws₂).get t k = some fresh := by
        rw [hleaves.executes hmutation k σ₀]
        simp
      rw [hlocked] at hno
      exact absurd hno (by simp)
  · obtain rfl := Except.ok.inj hres
    left
    obtain ⟨rfl, σ₁, hs, ⟨row, body, hrow, hhash, hbody, hok⟩ | hbad | ⟨_, _, _, hbad⟩⟩ :=
      executes_replay hrest
    · exact ⟨σ₁, row, body, hs, hrow, hhash, hbody, Except.ok.inj hok, rfl⟩
    · exact absurd hbad (by simp)
    · exact absurd hbad (by simp)

/-- A rolled-back `once` failed in its mutation, met a conflict, or met a record
without response. -/
theorem executes_once_error {e : ε}
    (h : (once completion k fresh conflict processing mutation).Executes seen σ ws (.error e) ws') :
    e = conflict ∨
    (∃ σ₀ row, seen σ₀ ∧ (σ₀.overlay ws).get t k = some row ∧ shape.bodyOf row = none ∧
      e = processing) ∨
    (∃ ws₁, mutation.Executes seen σ (⟨t, k, some fresh⟩ :: ws) (.error e) ws₁) := by
  rw [once, executes_bind] at h
  rcases h with ⟨reserved, ws₁, hinsert, hrest⟩ | ⟨e', -, hinsert⟩
  · rcases executes_insertOrIgnore.mp hinsert with ⟨-, hres, rfl⟩ | ⟨σ₀, old, -, -, hres, rfl⟩
    · obtain rfl := Except.ok.inj hres
      right; right
      simp only [apply] at hrest
      rcases executes_bind.mp hrest with ⟨body, ws₂, -, hrest⟩ | ⟨e', he, hmutation⟩
      · rcases executes_bind.mp hrest with ⟨updated, ws₃, -, hrest⟩ | ⟨e', -, hupdate⟩
        · exact absurd hrest.1 (by simp)
        · rcases executes_updateRow.mp hupdate with ⟨_, _, _, _, hbad, _⟩ | ⟨_, _, _, hbad, _⟩ <;>
            exact absurd hbad (by simp)
      · obtain rfl := Except.error.inj he
        exact ⟨ws', hmutation⟩
    · obtain rfl := Except.ok.inj hres
      obtain ⟨-, σ₁, hs, ⟨_, _, _, _, _, hbad⟩ | hconflict | ⟨row, hrow, hbody, hprocessing⟩⟩ :=
        executes_replay hrest
      · exact absurd hbad (by simp)
      · exact Or.inl (Except.error.inj hconflict)
      · exact Or.inr (Or.inl ⟨σ₁, row, hs, hrow, hbody, Except.error.inj hprocessing⟩)
  · rcases executes_insertOrIgnore.mp hinsert with ⟨_, hbad, _⟩ | ⟨_, _, _, _, hbad, _⟩ <;>
      exact absurd hbad (by simp)

end RecordShape

/-- What one request does with the record table. -/
structure OnceUse (shape : RecordShape S t Hash Body) (ε : Type) where
  /-- How it stores its response. -/
  completion : shape.Completion
  /-- Its key. -/
  key : S.Key t
  /-- The record it reserves. -/
  fresh : S.Row t
  /-- Its error for another hash. -/
  conflict : ε
  /-- Its error for a record without response. -/
  processing : ε
  /-- Its mutation. -/
  mutation : Program S ε Body

/-- The transaction of a request with this use. -/
def OnceUse.program {shape : RecordShape S t Hash Body} (u : OnceUse shape ε) :
    Program S ε (Answer Body) :=
  RecordShape.once u.completion u.key u.fresh u.conflict u.processing u.mutation

/-- A use writes its record and what its mutation writes. -/
theorem OnceUse.program_writes {shape : RecordShape S t Hash Body} {u : OnceUse shape ε}
    {Q : (t : S.Table) → S.Key t → Option (S.Row t) → Option (S.Row t) → Prop}
    (hrecords : ∀ v v', Q t u.key v v') (hmutation : u.mutation.Writes Q) :
    u.program.Writes Q := by
  refine writes_bind (writes_insertOrIgnore (hrecords _ _)) (fun reserved => ?_)
  cases reserved with
  | none =>
    refine writes_bind (writes_select _) (fun existing => ?_)
    split
    · exact writes_rollback _
    · split
      · split
        · exact writes_rollback _
        · exact writes_commit _
      · exact writes_rollback _
  | some row =>
    exact writes_bind hmutation (fun body =>
      writes_bind (writes_updateRow (fun _ _ _ => hrecords _ _)) (fun _ => writes_commit _))

/-- A use leaves the tables that are not its record table and that its mutation leaves. -/
theorem OnceUse.program_leaves {shape : RecordShape S t Hash Body} {u : OnceUse shape ε}
    {t' : S.Table} (hrecords : t' ≠ t) (hmutation : u.mutation.Leaves t') :
    u.program.Leaves t' :=
  OnceUse.program_writes (fun _ _ => hrecords) hmutation

/-- Programs that all either reserve, mutate and store in one transaction, or do
not write the record table. -/
structure OnceTable (shape : RecordShape S t Hash Body) {Request : Type}
    (program : Request → Program S ε (Answer Body)) where
  /-- The use a request makes of the table, if any. -/
  use : Request → Option (OnceUse shape ε)
  /-- A request with a use runs `once`. -/
  program_some : ∀ r u, use r = some u → program r = u.program
  /-- Mutations do not write the record table. -/
  leaves_some : ∀ r u, use r = some u → u.mutation.Leaves t
  /-- Requests without a use do not write the record table. -/
  leaves_none : ∀ r, use r = none → (program r).Leaves t

namespace OnceTable

variable {shape : RecordShape S t Hash Body} {Request : Type}
  {program : Request → Program S ε (Answer Body)}

/-- The log entry is the application of a mutation under the key. -/
def Applies (T : OnceTable shape program) (k : S.Key t) (entry : Entry Request ε (Answer Body)) :
    Prop :=
  ∃ u body, T.use entry.request = some u ∧ u.key = k ∧ entry.outcome = .committed (.applied body)

/-- What holds of the log and the record table between transactions. -/
structure Settled (T : OnceTable shape program) (init : Store S)
    (log : List (Entry Request ε (Answer Body))) (σ : Store S) : Prop where
  /-- A record that was not there initially holds the response of an applied mutation. -/
  records : ∀ k row, σ.get t k = some row → init.get t k = none →
    ∃ r u body, T.use r = some u ∧ u.key = k ∧ shape.hashOf u.fresh = shape.hashOf row ∧
      shape.bodyOf row = some body ∧ ⟨r, .committed (.applied body)⟩ ∈ log
  /-- Every success agrees with the record of its key. -/
  successes : ∀ r u answer, T.use r = some u → ⟨r, .committed answer⟩ ∈ log →
    ∃ row, σ.get t u.key = some row ∧ shape.hashOf row = shape.hashOf u.fresh ∧
      shape.bodyOf row = some answer.body
  /-- No key is applied before its record exists. -/
  unapplied : ∀ k, σ.get t k = none → ∀ entry ∈ log, ¬ T.Applies k entry
  /-- No key is applied twice. -/
  appliedOnce : ∀ k, log.Pairwise (fun a b => ¬ (T.Applies k a ∧ T.Applies k b))
  /-- Errors of rolled-back requests are conflicts or errors of the mutation. -/
  errors : ∀ r u e, T.use r = some u → init.get t u.key = none → ⟨r, .rolledBack e⟩ ∈ log →
    e = u.conflict ∨ ∃ seen σ₀ ws ws', u.mutation.Executes seen σ₀ ws (.error e) ws'

/-- Records never change once committed. -/
def Grows (t : S.Table) (σ₀ σ : Store S) : Prop :=
  ∀ k row, σ₀.get t k = some row → σ.get t k = some row

variable {T : OnceTable shape program} {init σ : Store S}
  {log : List (Entry Request ε (Answer Body))}

/-- An entry that applies no mutation and adds no success keeps the table settled. -/
theorem Settled.cons_failed (h : T.Settled init log σ)
    {entry : Entry Request ε (Answer Body)} (hfailed : ∀ a, entry.outcome ≠ .committed a)
    (herror : ∀ u e, T.use entry.request = some u → init.get t u.key = none →
      entry.outcome = .rolledBack e →
      e = u.conflict ∨ ∃ seen σ₀ ws ws', u.mutation.Executes seen σ₀ ws (.error e) ws') :
    T.Settled init (entry :: log) σ where
  records := by
    intro k row hrow hinit
    obtain ⟨r, u, body, hu, hk, hhash, hbody, hmem⟩ := h.records k row hrow hinit
    exact ⟨r, u, body, hu, hk, hhash, hbody, List.mem_cons_of_mem _ hmem⟩
  successes := by
    intro r u answer hu hmem
    rcases List.mem_cons.mp hmem with rfl | hmem
    · exact absurd rfl (hfailed answer)
    · exact h.successes r u answer hu hmem
  unapplied := by
    intro k hnone other hmem
    rcases List.mem_cons.mp hmem with rfl | hmem
    · rintro ⟨u, body, -, -, hout⟩
      exact hfailed _ hout
    · exact h.unapplied k hnone other hmem
  appliedOnce := by
    intro k
    refine List.Pairwise.cons ?_ (h.appliedOnce k)
    rintro other - ⟨⟨u, body, -, -, hout⟩, -⟩
    exact hfailed _ hout
  errors := by
    intro r u e hu hinit hmem
    rcases List.mem_cons.mp hmem with rfl | hmem
    · exact herror u e hu hinit rfl
    · exact h.errors r u e hu hinit hmem

/-- A success that leaves the record table as it was, agreeing with its record, keeps
the table settled. -/
theorem Settled.cons_success (h : T.Settled init log σ) {σ' : Store S} {r : Request}
    {answer : Answer Body} (hsame : ∀ k, σ'.get t k = σ.get t k)
    (happlied : ∀ u body, T.use r = some u → answer ≠ .applied body)
    (hagrees : ∀ u, T.use r = some u → ∃ row, σ.get t u.key = some row ∧
      shape.hashOf row = shape.hashOf u.fresh ∧ shape.bodyOf row = some answer.body) :
    T.Settled init (⟨r, .committed answer⟩ :: log) σ' where
  records := by
    intro k row hrow hinit
    rw [hsame] at hrow
    obtain ⟨r', u, body, hu, hk, hhash, hbody, hmem⟩ := h.records k row hrow hinit
    exact ⟨r', u, body, hu, hk, hhash, hbody, List.mem_cons_of_mem _ hmem⟩
  successes := by
    intro r' u answer' hu hmem
    rw [hsame]
    rcases List.mem_cons.mp hmem with heq | hmem
    · injection heq with hr hout
      subst hr
      obtain rfl : answer' = answer := by injection hout
      exact hagrees u hu
    · exact h.successes r' u answer' hu hmem
  unapplied := by
    intro k hnone other hmem
    rw [hsame] at hnone
    rcases List.mem_cons.mp hmem with rfl | hmem
    · rintro ⟨u, body, hu, -, hout⟩
      injection hout with hout
      exact happlied u body hu hout
    · exact h.unapplied k hnone other hmem
  appliedOnce := by
    intro k
    refine List.Pairwise.cons ?_ (h.appliedOnce k)
    rintro other - ⟨⟨u, body, hu, -, hout⟩, -⟩
    injection hout with hout
    exact happlied u body hu hout
  errors := by
    intro r' u e hu hinit hmem
    rcases List.mem_cons.mp hmem with heq | hmem
    · injection heq with _ hout
      exact absurd hout (by simp)
    · exact h.errors r' u e hu hinit hmem

/-- An applied mutation that completes a free record keeps the table settled. -/
theorem Settled.cons_applied (h : T.Settled init log σ) {σ' : Store S} {r : Request}
    {u : OnceUse shape ε} {body : Body} (hu : T.use r = some u)
    (hfree : σ.get t u.key = none)
    (hrecord : σ'.get t u.key = some (u.completion.store body u.fresh))
    (hothers : ∀ k, k ≠ u.key → σ'.get t k = σ.get t k) :
    T.Settled init (⟨r, .committed (.applied body)⟩ :: log) σ' where
  records := by
    intro k row hrow hinit
    by_cases hk : k = u.key
    · subst hk
      obtain rfl := Option.some.inj (hrecord.symm.trans hrow)
      exact ⟨r, u, body, hu, rfl, (u.completion.hash_store body u.fresh).symm,
        u.completion.body_store body u.fresh, List.mem_cons_self⟩
    · rw [hothers k hk] at hrow
      obtain ⟨r', u', body', hu', hk', hhash, hbody, hmem⟩ := h.records k row hrow hinit
      exact ⟨r', u', body', hu', hk', hhash, hbody, List.mem_cons_of_mem _ hmem⟩
  successes := by
    intro r' u' answer hu' hmem
    rcases List.mem_cons.mp hmem with heq | hmem
    · injection heq with hr hout
      subst hr
      obtain rfl : answer = .applied body := by injection hout
      obtain rfl := Option.some.inj (hu.symm.trans hu')
      exact ⟨_, hrecord, u.completion.hash_store body u.fresh, u.completion.body_store body u.fresh⟩
    · obtain ⟨row, hrow, hhash, hbody⟩ := h.successes r' u' answer hu' hmem
      have hne : u'.key ≠ u.key := by
        intro heq
        rw [heq, hfree] at hrow
        exact absurd hrow (by simp)
      exact ⟨row, by rw [hothers _ hne]; exact hrow, hhash, hbody⟩
  unapplied := by
    intro k hnone other hmem
    have hk : k ≠ u.key := by
      rintro rfl
      rw [hrecord] at hnone
      exact absurd hnone (by simp)
    rcases List.mem_cons.mp hmem with rfl | hmem
    · rintro ⟨u', body', hu', hk', -⟩
      obtain rfl := Option.some.inj (hu.symm.trans hu')
      exact hk hk'.symm
    · exact h.unapplied k (by rw [← hothers k hk]; exact hnone) other hmem
  appliedOnce := by
    intro k
    refine List.Pairwise.cons ?_ (h.appliedOnce k)
    rintro other hmem ⟨⟨u', body', hu', hk', -⟩, hother⟩
    obtain rfl := Option.some.inj (hu.symm.trans hu')
    exact h.unapplied k (by rw [← hk']; exact hfree) other hmem hother
  errors := by
    intro r' u' e hu' hinit hmem
    rcases List.mem_cons.mp hmem with heq | hmem
    · injection heq with _ hout
      exact absurd hout (by simp)
    · exact h.errors r' u' e hu' hinit hmem

variable (program) in
/-- The protocol of the programs, with requests permitted when asked for. -/
abbrev protocol (asked : Request → Prop) : Protocol S where
  Request := Request
  Error := ε
  Result := Answer Body
  program := program
  permitted := fun _ r => asked r

/-- The record table stays settled, and its records never change. -/
theorem settled_invariant (T : OnceTable shape program) (asked : Request → Prop)
    (init : Store S) :
    (protocol program asked).Invariant init (T.Settled init) (Grows t) where
  refl := fun σ k row hrow => hrow
  trans := fun h₁ h₂ k row hrow => h₂ k row (h₁ k row hrow)
  start := ⟨fun k row hrow hnone => absurd (hrow.symm.trans hnone) (by simp),
    fun _ _ _ _ hmem => absurd hmem (by simp), fun _ _ _ hmem => absurd hmem (by simp),
    fun _ => List.Pairwise.nil, fun _ _ _ _ _ hmem => absurd hmem (by simp)⟩
  commit := by
    intro log begun seen σ r answer ws hinv _ _ hnow hearlier hexec
    cases hu : T.use r with
    | none =>
      have hsame : ∀ k, (σ.overlay ws).get t k = σ.get t k := fun k =>
        (T.leaves_none r hu).executes hexec k σ
      refine ⟨hinv.cons_success hsame ?_ ?_, fun k row hrow => by rw [hsame]; exact hrow⟩
      · intro u body hu'
        exact absurd (hu.symm.trans hu') (by simp)
      · intro u hu'
        exact absurd (hu.symm.trans hu') (by simp)
    | some u =>
      have honce : u.program.Executes seen σ [] (.ok answer) ws := by
        rw [← T.program_some r u hu]
        exact hexec
      rcases RecordShape.executes_once_ok (T.leaves_some r u hu) honce with
        ⟨σ₀, row, body, hs, hrow, hhash, hbody, rfl, rfl⟩ |
        ⟨body, ws₁, hfree, hmutation, rfl, rfl⟩
      · obtain ⟨hgrows, -⟩ := hearlier σ₀ hs
        have hrecord : σ.get t u.key = some row := hgrows u.key row hrow
        refine ⟨hinv.cons_success (fun _ => rfl) ?_ ?_, fun k row hrow => hrow⟩
        · intro u' body' _
          simp
        · intro u' hu'
          obtain rfl := Option.some.inj (hu.symm.trans hu')
          exact ⟨row, hrecord, hhash, hbody⟩
      · have hothers : ∀ k, k ≠ u.key →
            (σ.overlay (⟨t, u.key, some (u.completion.store body u.fresh)⟩ :: ws₁)).get t k =
              σ.get t k := by
          intro k hk
          rw [Store.overlay_cons, Store.get_set_of_key_ne _ _ hk,
            (T.leaves_some r u hu).executes hmutation k σ, Store.overlay_cons,
            Store.get_set_of_key_ne _ _ hk, Store.overlay_nil]
        have hrecord : (σ.overlay (⟨t, u.key, some (u.completion.store body u.fresh)⟩ :: ws₁)).get
            t u.key = some (u.completion.store body u.fresh) := by
          rw [Store.overlay_cons, Store.get_set_self]
        refine ⟨hinv.cons_applied hu hfree hrecord hothers, ?_⟩
        intro k row hrow
        have hk : k ≠ u.key := by
          rintro rfl
          exact absurd (hrow.symm.trans hfree) (by simp)
        rw [hothers k hk]
        exact hrow
  rollback := by
    intro log begun seen σ r e ws hinv _ _ hnow hearlier hexec
    refine hinv.cons_failed (by simp) ?_
    intro u e' hu hkey hout
    obtain rfl : e = e' := by injection hout
    have honce : u.program.Executes seen σ [] (.error e) ws := by
      rw [← T.program_some r u hu]
      exact hexec
    rcases RecordShape.executes_once_error honce with hc | ⟨σ₀, row, hs, hrow, hbody, -⟩ | ⟨ws₁, hm⟩
    · exact Or.inl hc
    · obtain ⟨-, log₀, -, -, hinv₀⟩ := hearlier σ₀ hs
      obtain ⟨_, _, body, _, _, _, hsome, _⟩ := hinv₀.records u.key row hrow hkey
      exact absurd (hsome.symm.trans hbody) (by simp)
    · exact Or.inr ⟨_, _, _, _, hm⟩
  abort := by
    intro log begun σ r hinv _ _
    exact hinv.cons_failed (by simp) (fun u e _ _ hout => by simp at hout)

/-- In every interleaving the record table is settled. -/
theorem settled (T : OnceTable shape program) {asked : Request → Prop} {init : Store S}
    {s : (protocol program asked).System} (h : Protocol.Reachable init s) :
    T.Settled init s.log s.committed :=
  (T.settled_invariant asked init).reachable h

/-- A replay leaves every committed row as it was. -/
theorem replay_unchanged (T : OnceTable shape program) {asked : Request → Prop} {init : Store S}
    {s s' : (protocol program asked).System} (h : Protocol.Reachable init s)
    (hstep : Protocol.Step s s') {r : Request} {u : OnceUse shape ε} {body : Body}
    (hu : T.use r = some u) (hlog : s'.log = ⟨r, .committed (.replayed body)⟩ :: s.log) :
    s'.committed = s.committed := by
  rcases (T.settled_invariant asked init).step_cases h hstep with hsame |
    ⟨_, r', a, ws, seen, _, -, hlog', hcommitted, -, -, -, -, hexec⟩
  · exact hsame
  · rw [hlog] at hlog'
    injection hlog' with hentry _
    injection hentry with hr hout
    subst hr
    obtain rfl : Answer.replayed body = a := by injection hout
    have honce : u.program.Executes (· ∈ seen) s.committed [] (.ok (.replayed body)) ws := by
      rw [← T.program_some r u hu]
      exact hexec
    rcases RecordShape.executes_once_ok (T.leaves_some r u hu) honce with
      ⟨_, _, _, _, _, _, _, _, hws⟩ | ⟨_, _, _, _, hbad, _⟩
    · rw [hcommitted, hws, Store.overlay_nil]
    · exact absurd hbad (by simp)

end OnceTable

end LegacyVault.RowTransaction
