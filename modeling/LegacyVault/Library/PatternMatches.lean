import LegacyVault.Library.RegularExpressions

/-!
# What a match takes

A match ends at a later place of the text, and takes at least so many
characters of a class as its pattern asks for. A text with fewer of them has
no match.
-/

namespace LegacyVault.RegularExpressions

/-! ## Ends of a match -/

section Ends

variable {accepts : Char → Bool} {first second body : Pattern} {least : Nat} {most : Option Nat}
variable {isWord : Char → Bool} {at_ next : Cursor}

theorem mem_ends_char : next ∈ (Pattern.char accepts).ends at_ ↔
    ∃ c rest, at_.rest = c :: rest ∧ accepts c = true ∧ next = ⟨some c, rest⟩ := by
  obtain ⟨before, rest⟩ := at_
  cases rest with
  | nil => simp [Pattern.ends]
  | cons c rest =>
    rw [Pattern.ends]
    by_cases haccepts : accepts c = true
    · simp [haccepts]
    · simp [haccepts]

theorem mem_ends_empty : next ∈ Pattern.empty.ends at_ ↔ next = at_ := by
  rw [Pattern.ends, List.mem_singleton]

theorem mem_ends_seq : next ∈ (Pattern.seq first second).ends at_ ↔
    ∃ middle ∈ first.ends at_, next ∈ second.ends middle := by
  rw [Pattern.ends, List.mem_flatMap]

theorem mem_ends_alt : next ∈ (Pattern.alt first second).ends at_ ↔
    next ∈ first.ends at_ ∨ next ∈ second.ends at_ := by
  rw [Pattern.ends, List.mem_append]

theorem mem_ends_boundary : next ∈ (Pattern.boundary isWord).ends at_ ↔
    next = at_ ∧ at_.before.any isWord ≠ at_.rest.head?.any isWord := by
  rw [Pattern.ends]
  split
  · rename_i hsame
    simp [hsame]
  · rename_i hdiffer
    simp [hdiffer]

end Ends

/-! ## Repetition -/

/-- A repetition ends later in the text when its body does. -/
theorem repeatEnds_suffix {body : Cursor → List Cursor}
    (hbody : ∀ at_ next, next ∈ body at_ → next.rest <:+ at_.rest) (fuel : Nat) :
    ∀ (least : Nat) (most : Option Nat) (at_ next : Cursor),
      next ∈ repeatEnds body fuel least most at_ → next.rest <:+ at_.rest := by
  induction fuel with
  | zero =>
    intro least most at_ next h
    rw [repeatEnds] at h
    split at h
    · exact List.mem_singleton.mp h ▸ List.suffix_refl _
    · exact absurd h List.not_mem_nil
  | succ fuel ih =>
    intro least most at_ next h
    have hmore : ∀ list : List Cursor, (∀ middle ∈ list, middle ∈ body at_) →
        next ∈ list.flatMap (repeatEnds body fuel (least - 1) (most.map (· - 1))) →
          next.rest <:+ at_.rest := by
      intro list hlist hnext
      obtain ⟨middle, hmiddle, hend⟩ := List.mem_flatMap.mp hnext
      exact (ih _ _ middle next hend).trans (hbody at_ middle (hlist middle hmiddle))
    rw [repeatEnds] at h
    split at h
    · exact List.mem_singleton.mp h ▸ List.suffix_refl _
    · split at h
      · rcases List.mem_append.mp h with hnext | hnext
        · exact hmore _ (fun _ => List.mem_of_mem_filter) hnext
        · exact List.mem_singleton.mp hnext ▸ List.suffix_refl _
      · exact hmore _ (fun _ => List.mem_of_mem_filter) h

/-- A match ends later in the text. -/
theorem ends_suffix (pattern : Pattern) : ∀ {at_ next : Cursor}, next ∈ pattern.ends at_ →
    next.rest <:+ at_.rest := by
  induction pattern with
  | char accepts =>
    intro at_ next h
    obtain ⟨c, rest, hrest, -, rfl⟩ := mem_ends_char.mp h
    rw [hrest]
    exact List.suffix_cons c rest
  | empty =>
    intro at_ next h
    exact mem_ends_empty.mp h ▸ List.suffix_refl _
  | seq first second ihfirst ihsecond =>
    intro at_ next h
    obtain ⟨middle, hmiddle, hend⟩ := mem_ends_seq.mp h
    exact (ihsecond hend).trans (ihfirst hmiddle)
  | alt first second ihfirst ihsecond =>
    intro at_ next h
    rcases mem_ends_alt.mp h with hend | hend
    · exact ihfirst hend
    · exact ihsecond hend
  | repeated least most body ih =>
    intro at_ next h
    exact repeatEnds_suffix (fun _ _ => ih) _ least most at_ next h
  | boundary isWord =>
    intro at_ next h
    exact (mem_ends_boundary.mp h).1 ▸ List.suffix_refl _

/-- So many matches of a pattern, one after the other. -/
inductive Pattern.Times (body : Pattern) : Nat → Cursor → Cursor → Prop where
  | zero (at_ : Cursor) : body.Times 0 at_ at_
  | succ {at_ middle next : Cursor} {count : Nat} (first : middle ∈ body.ends at_)
    (others : body.Times count middle next) : body.Times (count + 1) at_ next

/-- A number of repetitions that a quantifier allows. -/
def Allowed (least : Nat) (most : Option Nat) (count : Nat) : Prop :=
  least ≤ count ∧ ∀ limit, most = some limit → count ≤ limit

/-- Every match of the pattern goes on in the text. -/
def Pattern.Consumes (pattern : Pattern) : Prop :=
  ∀ at_ next, next ∈ pattern.ends at_ → next.rest.length < at_.rest.length

section Repetition

variable {body : Pattern} {least : Nat} {most : Option Nat} {at_ next : Cursor}

/-- One more repetition is allowed after the first. -/
theorem Allowed.succ {count : Nat} (hmost : most ≠ some 0)
    (h : Allowed (least - 1) (most.map (· - 1)) count) : Allowed least most (count + 1) := by
  refine ⟨by have hleast := h.1; omega, fun limit hlimit => ?_⟩
  have hrest := h.2 (limit - 1) (by rw [hlimit]; rfl)
  have hpos : limit ≠ 0 := fun hzero => hmost (by rw [hlimit, hzero])
  omega

theorem Allowed.pred {count : Nat} (h : Allowed least most (count + 1)) :
    Allowed (least - 1) (most.map (· - 1)) count := by
  refine ⟨by have hleast := h.1; omega, fun limit hlimit => ?_⟩
  obtain ⟨limit', hlimit', rfl⟩ := Option.map_eq_some_iff.mp hlimit
  have hrest := h.2 limit' hlimit'
  omega

/-- The ends of a repetition are reached by an allowed number of matches. -/
theorem times_of_mem_repeatEnds (fuel : Nat) : ∀ (least : Nat) (most : Option Nat) (at_ : Cursor),
    (∀ limit, most = some limit → least ≤ limit) → next ∈ repeatEnds body.ends fuel least most at_ →
      ∃ count, Allowed least most count ∧ body.Times count at_ next := by
  induction fuel with
  | zero =>
    intro least most at_ _ h
    rw [repeatEnds] at h
    split at h
    · rename_i hleast
      obtain rfl := List.mem_singleton.mp h
      exact ⟨0, ⟨by omega, fun limit _ => Nat.zero_le _⟩, .zero next⟩
    · exact absurd h List.not_mem_nil
  | succ fuel ih =>
    intro least most at_ hbounds h
    rw [repeatEnds] at h
    split at h
    · rename_i hmost
      obtain rfl := List.mem_singleton.mp h
      exact ⟨0, ⟨hbounds 0 hmost, fun limit _ => Nat.zero_le _⟩, .zero next⟩
    · rename_i hmost
      have hmore : ∀ list : List Cursor, next ∈ list.flatMap
          (repeatEnds body.ends fuel (least - 1) (most.map (· - 1))) →
          list ⊆ body.ends at_ → ∃ count, Allowed least most count ∧ body.Times count at_ next := by
        intro list hnext hlist
        obtain ⟨middle, hmiddle, hend⟩ := List.mem_flatMap.mp hnext
        have hrest : ∀ limit, most.map (· - 1) = some limit → least - 1 ≤ limit := by
          intro limit hlimit
          obtain ⟨limit', hlimit', rfl⟩ := Option.map_eq_some_iff.mp hlimit
          exact Nat.sub_le_sub_right (hbounds limit' hlimit') 1
        obtain ⟨count, hcount, htimes⟩ := ih _ _ middle hrest hend
        exact ⟨count + 1, hcount.succ hmost, .succ (hlist hmiddle) htimes⟩
      split at h
      · rename_i hleast
        rcases List.mem_append.mp h with hnext | hnext
        · exact hmore _ hnext (fun _ => List.mem_of_mem_filter)
        · obtain rfl := List.mem_singleton.mp hnext
          exact ⟨0, ⟨by omega, fun limit _ => Nat.zero_le _⟩, .zero next⟩
      · exact hmore _ h (fun _ => List.mem_of_mem_filter)

/-- An allowed number of matches that go on in the text reaches an end of the repetition. -/
theorem mem_repeatEnds_of_times (hbody : body.Consumes) {count : Nat}
    (h : body.Times count at_ next) : ∀ (fuel least : Nat) (most : Option Nat),
    at_.rest.length ≤ fuel → Allowed least most count →
      next ∈ repeatEnds body.ends fuel least most at_ := by
  induction h with
  | zero at_ =>
    intro fuel least most _ hallowed
    have hleast : least = 0 := by have := hallowed.1; omega
    cases fuel with
    | zero => rw [repeatEnds, if_pos hleast, List.mem_singleton]
    | succ fuel =>
      rw [repeatEnds]
      split
      · exact List.mem_singleton_self _
      · exact List.mem_append_right _ (List.mem_singleton_self _)
  | @succ at_ middle next count hfirst _ ih =>
    intro fuel least most hfuel hallowed
    have hshorter := hbody at_ middle hfirst
    cases fuel with
    | zero => omega
    | succ fuel =>
      have hmost : most ≠ some 0 := by
        intro hzero
        have := hallowed.2 0 hzero
        omega
      rw [repeatEnds, if_neg hmost]
      have hmore : next ∈ ((body.ends at_).filter (fun next =>
          decide (0 < least) || decide (next.rest.length < at_.rest.length))).flatMap
            (repeatEnds body.ends fuel (least - 1) (most.map (· - 1))) := by
        refine List.mem_flatMap.mpr ⟨middle, List.mem_filter.mpr ⟨hfirst, ?_⟩, ?_⟩
        · simp [hshorter]
        · exact ih fuel _ _ (by omega) hallowed.pred
      simp only
      split
      · exact List.mem_append_left _ hmore
      · exact hmore

/-- Where a repetition of matches that go on in the text can end. -/
theorem mem_ends_repeated (hbody : body.Consumes)
    (hbounds : ∀ limit, most = some limit → least ≤ limit) :
    next ∈ (Pattern.repeated least most body).ends at_ ↔
      ∃ count, Allowed least most count ∧ body.Times count at_ next := by
  rw [Pattern.ends]
  constructor
  · exact times_of_mem_repeatEnds _ least most at_ hbounds
  · intro h
    obtain ⟨count, hallowed, htimes⟩ := h
    exact mem_repeatEnds_of_times hbody htimes _ _ _ (Nat.le_add_left _ _) hallowed

end Repetition

/-! ## Tests -/

section Test

variable {pattern first second : Pattern} {text : List Char}

/-- The places of a text: what comes before, with its last character, and what comes after. -/
theorem mem_places {before : Option Char} {at_ : Cursor} : at_ ∈ places before text ↔
    ∃ x y, text = x ++ y ∧ at_ = ⟨x.getLast?.or before, y⟩ := by
  induction text generalizing before with
  | nil =>
    rw [places, List.mem_singleton]
    constructor
    · rintro rfl
      exact ⟨[], [], rfl, rfl⟩
    · intro h
      obtain ⟨x, y, htext, rfl⟩ := h
      obtain ⟨rfl, rfl⟩ := List.append_eq_nil_iff.mp htext.symm
      rfl
  | cons c rest ih =>
    rw [places, List.mem_cons, ih]
    have hlast : ∀ x : List Char, (c :: x).getLast?.or before = x.getLast?.or (some c) := by
      intro x
      cases x with
      | nil => rfl
      | cons d x =>
        rw [List.getLast?_cons_cons]
        cases hlast : (d :: x).getLast? with
        | none => exact absurd (List.getLast?_eq_none_iff.mp hlast) (by simp)
        | some e => rfl
    constructor
    · intro h
      rcases h with rfl | ⟨x, y, hrest, rfl⟩
      · exact ⟨[], c :: rest, rfl, rfl⟩
      · exact ⟨c :: x, y, by rw [hrest, List.cons_append], by rw [hlast]⟩
    · intro h
      obtain ⟨x, y, htext, rfl⟩ := h
      cases x with
      | nil => exact Or.inl (by rw [← List.nil_append y, ← htext]; rfl)
      | cons d x =>
        obtain ⟨rfl, hrest⟩ := List.cons.inj htext
        exact Or.inr ⟨x, y, hrest, by rw [hlast]⟩

/-- The places of a text are its suffixes. -/
theorem places_suffix {before : Option Char} {at_ : Cursor} (h : at_ ∈ places before text) :
    at_.rest <:+ text := by
  obtain ⟨x, y, htext, rfl⟩ := mem_places.mp h
  exact ⟨x, htext.symm⟩

/-- A pattern is found when it has a match at some place. -/
theorem test_iff : pattern.test text = true ↔
    ∃ at_ ∈ places none text, ∃ next, next ∈ pattern.ends at_ := by
  simp only [Pattern.test, List.any_eq_true, Bool.not_eq_true',
    List.isEmpty_eq_false_iff_exists_mem]

/-- An alternative is found when either of its patterns is. -/
theorem test_alt :
    (Pattern.alt first second).test text = (first.test text || second.test text) := by
  rw [Bool.eq_iff_iff, Bool.or_eq_true, test_iff, test_iff, test_iff]
  simp only [mem_ends_alt, exists_or, and_or_left]

end Test

/-! ## Building patterns -/

section Building

variable {P : Pattern → Prop} {patterns : List Pattern}

/-- What sequences keep holds of a sequence. -/
theorem sequence_of (hempty : P .empty)
    (hseq : ∀ {first second}, P first → P second → P (.seq first second))
    (h : ∀ pattern ∈ patterns, P pattern) : P (sequence patterns) := by
  induction patterns with
  | nil => exact hempty
  | cons first patterns ih =>
    have hfirst := h first List.mem_cons_self
    have hrest := ih (fun pattern hmem => h pattern (List.mem_cons_of_mem _ hmem))
    cases patterns with
    | nil => exact hfirst
    | cons second patterns => exact hseq hfirst hrest

/-- What alternatives keep holds of several alternatives. -/
theorem oneOf_of (hnone : P (.char (fun _ => false)))
    (halt : ∀ {first second}, P first → P second → P (.alt first second))
    (h : ∀ pattern ∈ patterns, P pattern) : P (oneOf patterns) := by
  induction patterns with
  | nil => exact hnone
  | cons first patterns ih =>
    have hfirst := h first List.mem_cons_self
    have hrest := ih (fun pattern hmem => h pattern (List.mem_cons_of_mem _ hmem))
    cases patterns with
    | nil => exact hfirst
    | cons second patterns => exact halt hfirst hrest

end Building

/-! ## Characters a match begins with -/

/-- Every match begins with a character of the class. -/
def Pattern.First (initial : Char → Bool) (pattern : Pattern) : Prop :=
  ∀ at_ next, next ∈ pattern.ends at_ → ∃ c ∈ at_.rest.head?, initial c = true

section First

variable {accepts initial : Char → Bool} {first second : Pattern}

theorem Pattern.First.char (h : ∀ c, accepts c = true → initial c = true) :
    (Pattern.char accepts).First initial := by
  intro at_ next hnext
  obtain ⟨c, rest, hrest, haccepts, -⟩ := mem_ends_char.mp hnext
  exact ⟨c, by rw [hrest]; rfl, h c haccepts⟩

theorem Pattern.First.seq (h : first.First initial) (second : Pattern) :
    (Pattern.seq first second).First initial := by
  intro at_ next hnext
  obtain ⟨middle, hmiddle, -⟩ := mem_ends_seq.mp hnext
  exact h at_ middle hmiddle

theorem Pattern.First.alt (hfirst : first.First initial) (hsecond : second.First initial) :
    (Pattern.alt first second).First initial := by
  intro at_ next hnext
  rcases mem_ends_alt.mp hnext with hend | hend
  · exact hfirst at_ next hend
  · exact hsecond at_ next hend

/-- A repetition that is required begins with its body. -/
theorem Pattern.First.repeated (h : first.First initial) (least : Nat) (most : Option Nat)
    (hbounds : ∀ limit, most = some limit → least + 1 ≤ limit) :
    (Pattern.repeated (least + 1) most first).First initial := by
  intro at_ next hnext
  obtain ⟨count, hallowed, htimes⟩ := times_of_mem_repeatEnds _ (least + 1) most at_ hbounds hnext
  cases htimes with
  | zero => exact absurd hallowed.1 (Nat.not_succ_le_zero least)
  | succ hfirst _ => exact h at_ _ hfirst

/-- A sequence begins with its first pattern. -/
theorem Pattern.First.sequence (h : first.First initial) (patterns : List Pattern) :
    (sequence (first :: patterns)).First initial := by
  cases patterns with
  | nil => exact h
  | cons second patterns => exact h.seq _

theorem Pattern.First.oneOf {patterns : List Pattern}
    (h : ∀ pattern ∈ patterns, pattern.First initial) : (oneOf patterns).First initial :=
  oneOf_of (.char (fun _ hfalse => absurd hfalse Bool.false_ne_true)) .alt h

theorem Pattern.First.literal {same : Char → Char → Bool} {text : String} {c : Char}
    {rest : List Char} (htext : text.toList = c :: rest)
    (h : ∀ d, same c d = true → initial d = true) : (literal same text).First initial := by
  rw [RegularExpressions.literal, htext]
  exact (Pattern.First.char h).sequence _

end First

/-! ## Characters a match takes -/

/-- Every match takes at least so many characters of the class. -/
def Pattern.Takes (pattern : Pattern) (n : Nat) (counted : Char → Bool) : Prop :=
  ∀ at_ next, next ∈ pattern.ends at_ → next.rest.countP counted + n ≤ at_.rest.countP counted

section Takes

variable {counted accepts : Char → Bool} {first second body pattern : Pattern} {m n : Nat}

theorem Pattern.Takes.mono (h : first.Takes n counted) (hle : m ≤ n) : first.Takes m counted := by
  intro at_ next hnext
  have htaken := h at_ next hnext
  omega

theorem Pattern.Takes.char (h : ∀ c, accepts c = true → counted c = true) :
    (Pattern.char accepts).Takes 1 counted := by
  intro at_ next hnext
  obtain ⟨c, rest, hrest, haccepts, rfl⟩ := mem_ends_char.mp hnext
  have hcount : at_.rest.countP counted = rest.countP counted + 1 := by
    rw [hrest, List.countP_cons_of_pos (h c haccepts)]
  exact Nat.le_of_eq hcount.symm

/-- Every pattern takes none, or more. -/
theorem Pattern.Takes.zero (pattern : Pattern) (counted : Char → Bool) :
    pattern.Takes 0 counted :=
  fun _ _ hnext => (ends_suffix pattern hnext).sublist.countP_le

theorem Pattern.Takes.seq (hfirst : first.Takes m counted) (hsecond : second.Takes n counted) :
    (Pattern.seq first second).Takes (m + n) counted := by
  intro at_ next hnext
  obtain ⟨middle, hmiddle, hend⟩ := mem_ends_seq.mp hnext
  have hbefore := hfirst at_ middle hmiddle
  have hafter := hsecond middle next hend
  omega

theorem Pattern.Takes.alt (hfirst : first.Takes n counted) (hsecond : second.Takes n counted) :
    (Pattern.alt first second).Takes n counted := by
  intro at_ next hnext
  rcases mem_ends_alt.mp hnext with hend | hend
  · exact hfirst at_ next hend
  · exact hsecond at_ next hend

theorem Pattern.Takes.times (h : body.Takes n counted) {count : Nat} {at_ next : Cursor}
    (htimes : body.Times count at_ next) :
    next.rest.countP counted + count * n ≤ at_.rest.countP counted := by
  induction htimes with
  | zero at_ => simp
  | @succ at_ middle next count hfirst _ ih =>
    have htaken := h at_ middle hfirst
    rw [Nat.succ_mul]
    omega

theorem Pattern.Takes.repeated (h : body.Takes n counted) {least : Nat} {most : Option Nat}
    (hbounds : ∀ limit, most = some limit → least ≤ limit) :
    (Pattern.repeated least most body).Takes (least * n) counted := by
  intro at_ next hnext
  obtain ⟨count, hallowed, htimes⟩ := times_of_mem_repeatEnds _ least most at_ hbounds hnext
  have htaken := h.times htimes
  have hleast : least * n ≤ count * n := Nat.mul_le_mul_right n hallowed.1
  omega

/-- A text with too few characters of the class has no match. -/
theorem Pattern.Takes.test_eq_false (h : pattern.Takes n counted) {text : List Char}
    (hfew : text.countP counted < n) : pattern.test text = false := by
  rw [Bool.eq_false_iff]
  intro htest
  obtain ⟨at_, hat, next, hnext⟩ := test_iff.mp htest
  have htaken := h at_ next hnext
  have hsuffix := (places_suffix hat).sublist.countP_le (p := counted)
  omega

end Takes

end LegacyVault.RegularExpressions
