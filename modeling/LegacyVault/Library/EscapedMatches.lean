import LegacyVault.Library.PatternMatches

/-!
# Matching in an escaped text

A text is written into another one: some characters as they are, others as an
escape that begins with a stop character. A pattern that takes no stop
character, and for which escaped characters and stop characters are no word
characters, matches in the written text as it does in the text itself when its
classes are restricted to the characters that are written as they are.
-/

namespace LegacyVault.RegularExpressions

/-- The classes of a pattern, restricted to the characters of another class. -/
def Pattern.restrict (plain : Char → Bool) : Pattern → Pattern
  | char accepts => char (fun c => accepts c && plain c)
  | empty => empty
  | seq first second => seq (first.restrict plain) (second.restrict plain)
  | alt first second => alt (first.restrict plain) (second.restrict plain)
  | repeated least most body => repeated least most (body.restrict plain)
  | boundary isWord => boundary isWord

/-- A text written into another one. -/
structure Writing where
  /-- The characters that are written as they are. -/
  plain : Char → Bool
  /-- The characters that an escape begins with, and that may come after the text. -/
  stop : Char → Bool
  /-- The classes of word characters. -/
  words : List (Char → Bool)
  /-- The written text, with what comes after it. -/
  write : List Char → List Char
  write_plain : ∀ c rest, plain c = true → write (c :: rest) = c :: write rest
  write_other : ∀ c rest, plain c = false → ∃ d ∈ (write (c :: rest)).head?, stop d = true
  write_nil : ∀ d ∈ (write []).head?, stop d = true
  other_no_word : ∀ isWord ∈ words, ∀ c, plain c = false → isWord c = false
  stop_no_word : ∀ isWord ∈ words, ∀ c, stop c = true → isWord c = false

/-- The pattern takes no stop character, and its repetitions go on in the text. -/
def Pattern.Reads (writing : Writing) : Pattern → Prop
  | char accepts => ∀ c, writing.stop c = true → accepts c = false
  | empty => True
  | seq first second => first.Reads writing ∧ second.Reads writing
  | alt first second => first.Reads writing ∧ second.Reads writing
  | repeated least most body => body.Reads writing ∧ body.Consumes ∧
    ∀ limit, most = some limit → least ≤ limit
  | boundary isWord => isWord ∈ writing.words

/-- A place of the written text stands for a place of the text. -/
structure Writing.Stands (writing : Writing) (at_ place : Cursor) : Prop where
  rest : at_.rest = writing.write place.rest
  before : ∀ isWord ∈ writing.words, at_.before.any isWord = place.before.any isWord

section Restrict

variable {plain : Char → Bool} {pattern body : Pattern} {at_ next : Cursor} {count : Nat}

theorem Pattern.Times.mono {body' : Pattern} (hsub : ∀ at_ next, next ∈ body.ends at_ →
    next ∈ body'.ends at_) (h : body.Times count at_ next) : body'.Times count at_ next := by
  induction h with
  | zero at_ => exact .zero at_
  | succ first _ ih => exact .succ (hsub _ _ first) ih

/-- Repetitions simulate each other when their bodies do. -/
theorem Pattern.Times.simulate {body' : Pattern} {R : Cursor → Cursor → Prop}
    (hbody : ∀ {at_ place : Cursor}, R at_ place → ∀ next ∈ body.ends at_,
      ∃ found ∈ body'.ends place, R next found) (h : body.Times count at_ next) :
    ∀ {place : Cursor}, R at_ place → ∃ found, body'.Times count place found ∧ R next found := by
  induction h with
  | zero at_ => exact fun {place} hplace => ⟨place, .zero place, hplace⟩
  | succ first _ ih =>
    intro place hplace
    obtain ⟨middle, hmiddle, hmiddles⟩ := hbody hplace _ first
    obtain ⟨found, htimes, hfound⟩ := ih hmiddles
    exact ⟨found, .succ hmiddle htimes, hfound⟩

/-- A restricted pattern has no other matches, when its repetitions go on in the text. -/
theorem mem_ends_of_restrict {writing : Writing} (hreads : pattern.Reads writing) :
    ∀ {at_ next : Cursor}, next ∈ (pattern.restrict plain).ends at_ → next ∈ pattern.ends at_ := by
  induction pattern with
  | char accepts =>
    intro at_ next h
    obtain ⟨c, rest, hrest, haccepts, hnext⟩ := mem_ends_char.mp h
    exact mem_ends_char.mpr ⟨c, rest, hrest, (Bool.and_eq_true_iff.mp haccepts).1, hnext⟩
  | empty => exact fun h => h
  | seq first second ihfirst ihsecond =>
    intro at_ next h
    obtain ⟨middle, hmiddle, hend⟩ := mem_ends_seq.mp h
    exact mem_ends_seq.mpr ⟨middle, ihfirst hreads.1 hmiddle, ihsecond hreads.2 hend⟩
  | alt first second ihfirst ihsecond =>
    intro at_ next h
    rcases mem_ends_alt.mp h with hend | hend
    · exact mem_ends_alt.mpr (Or.inl (ihfirst hreads.1 hend))
    · exact mem_ends_alt.mpr (Or.inr (ihsecond hreads.2 hend))
  | repeated least most body ih =>
    intro at_ next h
    obtain ⟨hbody, hconsumes, hbounds⟩ := hreads
    obtain ⟨count, hallowed, htimes⟩ :=
      times_of_mem_repeatEnds _ least most at_ hbounds h
    exact (mem_ends_repeated hconsumes hbounds).mpr
      ⟨count, hallowed, htimes.mono (fun _ _ => ih hbody)⟩
  | boundary isWord => exact fun h => h

/-- A restricted pattern goes on in the text when the pattern does. -/
theorem Pattern.Consumes.restrict {writing : Writing} (h : pattern.Consumes)
    (hreads : pattern.Reads writing) : (pattern.restrict plain).Consumes :=
  fun at_ next hnext => h at_ next (mem_ends_of_restrict hreads hnext)

end Restrict

/-- Where a written text is cut: between what stands for two characters, inside of what stands for
one, or after them all. -/
theorem flatMap_append_split {α β : Type} {f : α → List β} {text : List α} {after x y : List β}
    (h : text.flatMap f ++ after = x ++ y) :
    (∃ z w, text = z ++ w ∧ x = z.flatMap f ∧ y = w.flatMap f ++ after) ∨
      (∃ z c w u v, text = z ++ c :: w ∧ f c = u ++ v ∧ u ≠ [] ∧ v ≠ [] ∧
        x = z.flatMap f ++ u ∧ y = v ++ (w.flatMap f ++ after)) ∨
      ∃ u, u ≠ [] ∧ after = u ++ y := by
  induction text generalizing x with
  | nil =>
    cases x with
    | nil => exact Or.inl ⟨[], [], rfl, rfl, h.symm⟩
    | cons d x => exact Or.inr (Or.inr ⟨d :: x, by simp, h⟩)
  | cons c text ih =>
    rw [List.flatMap_cons, List.append_assoc] at h
    rcases List.append_eq_append_iff.mp h with ⟨x', hx, hrest⟩ | ⟨v, hc, hy⟩
    · rcases ih hrest with ⟨z, w, htext, hz, hw⟩ |
        ⟨z, d, w, u, v, htext, hd, hu, hv, hz, hw⟩ | hafter
      · refine Or.inl ⟨c :: z, w, by rw [htext, List.cons_append], ?_, hw⟩
        rw [hx, hz, List.flatMap_cons]
      · refine Or.inr (Or.inl ⟨c :: z, d, w, u, v, ?_, hd, hu, hv, ?_, hw⟩)
        · rw [htext, List.cons_append]
        · rw [hx, hz, List.flatMap_cons, List.append_assoc]
      · exact Or.inr (Or.inr hafter)
    · by_cases hx : x = []
      · refine Or.inl ⟨[], c :: text, rfl, hx, ?_⟩
        rw [hy, List.flatMap_cons, hc, hx, List.nil_append, List.append_assoc]
      · by_cases hv : v = []
        · refine Or.inl ⟨[c], text, rfl, ?_, ?_⟩
          · rw [List.flatMap_cons, List.flatMap_nil, List.append_nil, hc, hv, List.append_nil]
          · rw [hy, hv, List.nil_append]
        · exact Or.inr (Or.inl ⟨[], c, text, x, v, rfl, hc, hx, hv, rfl, hy⟩)

section Stands

variable {writing : Writing} {pattern : Pattern} {at_ place : Cursor}

/-- The character written first. -/
theorem Writing.head_of_write (writing : Writing) (rest : List Char) {c : Char}
    {rest' : List Char} (h : writing.write rest = c :: rest') :
    writing.stop c = true ∨ ∃ tail, rest = c :: tail ∧ writing.plain c = true ∧
      rest' = writing.write tail := by
  cases rest with
  | nil => exact Or.inl (writing.write_nil c (by rw [h]; rfl))
  | cons d tail =>
    by_cases hplain : writing.plain d = true
    · rw [writing.write_plain d tail hplain] at h
      obtain ⟨rfl, hrest⟩ := List.cons.inj h
      exact Or.inr ⟨tail, rfl, hplain, hrest.symm⟩
    · obtain ⟨e, he, hstop⟩ := writing.write_other d tail (Bool.eq_false_iff.mpr hplain)
      rw [h] at he
      exact Or.inl (Option.some.inj he ▸ hstop)

/-- Word characters come next at both places, or at neither. -/
theorem Writing.head_isWord (writing : Writing) (rest : List Char) {isWord : Char → Bool}
    (hword : isWord ∈ writing.words) :
    (writing.write rest).head?.any isWord = rest.head?.any isWord := by
  have hstop : ∀ text : List Char, (∀ d ∈ text.head?, writing.stop d = true) →
      text.head?.any isWord = false := by
    intro text htext
    cases text with
    | nil => rfl
    | cons d text => exact writing.stop_no_word isWord hword d (htext d rfl)
  cases rest with
  | nil => exact hstop _ writing.write_nil
  | cons c rest =>
    by_cases hplain : writing.plain c = true
    · rw [writing.write_plain c rest hplain]
      rfl
    · have hother : writing.plain c = false := Bool.eq_false_iff.mpr hplain
      obtain ⟨d, hd, hstopped⟩ := writing.write_other c rest hother
      have hnone : (c :: rest).head?.any isWord = false :=
        writing.other_no_word isWord hword c hother
      rw [hnone]
      refine hstop _ ?_
      intro e he
      rwa [Option.mem_unique he hd]

/-- A pattern matches alike at places that stand for each other. -/
theorem Writing.ends_stand (hreads : pattern.Reads writing) :
    ∀ {at_ place : Cursor}, writing.Stands at_ place →
      (∀ next ∈ pattern.ends at_, ∃ found ∈ (pattern.restrict writing.plain).ends place,
        writing.Stands next found) ∧
      ∀ found ∈ (pattern.restrict writing.plain).ends place, ∃ next ∈ pattern.ends at_,
        writing.Stands next found := by
  induction pattern with
  | char accepts =>
    intro at_ place hstands
    constructor
    · intro next hnext
      obtain ⟨c, rest, hrest, haccepts, rfl⟩ := mem_ends_char.mp hnext
      rcases writing.head_of_write place.rest (hstands.rest ▸ hrest) with
        hstop | ⟨tail, hplace, hplain, htail⟩
      · exact absurd haccepts (by rw [hreads c hstop]; exact Bool.false_ne_true)
      · refine ⟨⟨some c, tail⟩, mem_ends_char.mpr ⟨c, tail, hplace, ?_, rfl⟩, htail, ?_⟩
        · rw [haccepts, hplain, Bool.and_self]
        · exact fun _ _ => rfl
    · intro found hfound
      obtain ⟨c, rest, hrest, haccepts, rfl⟩ := mem_ends_char.mp hfound
      obtain ⟨hc, hplain⟩ := Bool.and_eq_true_iff.mp haccepts
      have hat : at_.rest = c :: writing.write rest := by
        rw [hstands.rest, hrest, writing.write_plain c rest hplain]
      exact ⟨⟨some c, writing.write rest⟩, mem_ends_char.mpr ⟨c, _, hat, hc, rfl⟩, rfl,
        fun _ _ => rfl⟩
  | empty =>
    intro at_ place hstands
    constructor
    · intro next hnext
      obtain rfl := mem_ends_empty.mp hnext
      exact ⟨place, mem_ends_empty.mpr rfl, hstands⟩
    · intro found hfound
      obtain rfl := mem_ends_empty.mp hfound
      exact ⟨at_, mem_ends_empty.mpr rfl, hstands⟩
  | seq first second ihfirst ihsecond =>
    intro at_ place hstands
    constructor
    · intro next hnext
      obtain ⟨middle, hmiddle, hend⟩ := mem_ends_seq.mp hnext
      obtain ⟨middle', hmiddle', hmiddles⟩ := (ihfirst hreads.1 hstands).1 middle hmiddle
      obtain ⟨found, hfound, hfounds⟩ := (ihsecond hreads.2 hmiddles).1 next hend
      exact ⟨found, mem_ends_seq.mpr ⟨middle', hmiddle', hfound⟩, hfounds⟩
    · intro found hfound
      obtain ⟨middle, hmiddle, hend⟩ := mem_ends_seq.mp hfound
      obtain ⟨middle', hmiddle', hmiddles⟩ := (ihfirst hreads.1 hstands).2 middle hmiddle
      obtain ⟨next, hnext, hnexts⟩ := (ihsecond hreads.2 hmiddles).2 found hend
      exact ⟨next, mem_ends_seq.mpr ⟨middle', hmiddle', hnext⟩, hnexts⟩
  | alt first second ihfirst ihsecond =>
    intro at_ place hstands
    constructor
    · intro next hnext
      rcases mem_ends_alt.mp hnext with hend | hend
      · obtain ⟨found, hfound, hfounds⟩ := (ihfirst hreads.1 hstands).1 next hend
        exact ⟨found, mem_ends_alt.mpr (Or.inl hfound), hfounds⟩
      · obtain ⟨found, hfound, hfounds⟩ := (ihsecond hreads.2 hstands).1 next hend
        exact ⟨found, mem_ends_alt.mpr (Or.inr hfound), hfounds⟩
    · intro found hfound
      rcases mem_ends_alt.mp hfound with hend | hend
      · obtain ⟨next, hnext, hnexts⟩ := (ihfirst hreads.1 hstands).2 found hend
        exact ⟨next, mem_ends_alt.mpr (Or.inl hnext), hnexts⟩
      · obtain ⟨next, hnext, hnexts⟩ := (ihsecond hreads.2 hstands).2 found hend
        exact ⟨next, mem_ends_alt.mpr (Or.inr hnext), hnexts⟩
  | repeated least most body ih =>
    intro at_ place hstands
    obtain ⟨hbody, hconsumes, hbounds⟩ := hreads
    have hrestricted : (body.restrict writing.plain).Consumes := hconsumes.restrict hbody
    constructor
    · intro next hnext
      obtain ⟨count, hallowed, htimes⟩ := (mem_ends_repeated hconsumes hbounds).mp hnext
      obtain ⟨found, hfound, hfounds⟩ :=
        htimes.simulate (fun hstands => (ih hbody hstands).1) hstands
      exact ⟨found, (mem_ends_repeated hrestricted hbounds).mpr ⟨count, hallowed, hfound⟩,
        hfounds⟩
    · intro found hfound
      obtain ⟨count, hallowed, htimes⟩ := (mem_ends_repeated hrestricted hbounds).mp hfound
      have hback : ∀ {place at_ : Cursor}, writing.Stands at_ place →
          ∀ found ∈ (body.restrict writing.plain).ends place,
            ∃ next ∈ body.ends at_, writing.Stands next found :=
        fun hstands => (ih hbody hstands).2
      obtain ⟨next, hnext, hnexts⟩ :=
        htimes.simulate (R := fun place at_ => writing.Stands at_ place) hback hstands
      exact ⟨next, (mem_ends_repeated hconsumes hbounds).mpr ⟨count, hallowed, hnext⟩, hnexts⟩
  | boundary isWord =>
    intro at_ place hstands
    have hhead : at_.rest.head?.any isWord = place.rest.head?.any isWord := by
      rw [hstands.rest, writing.head_isWord place.rest hreads]
    have hbefore := hstands.before isWord hreads
    constructor
    · intro next hnext
      obtain ⟨rfl, hdiffer⟩ := mem_ends_boundary.mp hnext
      exact ⟨place, mem_ends_boundary.mpr ⟨rfl, by rwa [← hbefore, ← hhead]⟩, hstands⟩
    · intro found hfound
      obtain ⟨rfl, hdiffer⟩ := mem_ends_boundary.mp hfound
      exact ⟨at_, mem_ends_boundary.mpr ⟨rfl, by rwa [hbefore, hhead]⟩, hstands⟩

end Stands

/-! ## Building patterns -/

section Building

variable {writing : Writing} {plain : Char → Bool} {pattern : Pattern} {patterns : List Pattern}
variable {same : Char → Char → Bool} {text : String}

theorem Pattern.Reads.sequence (h : ∀ pattern ∈ patterns, pattern.Reads writing) :
    (sequence patterns).Reads writing :=
  sequence_of trivial And.intro h

theorem Pattern.Reads.oneOf (h : ∀ pattern ∈ patterns, pattern.Reads writing) :
    (oneOf patterns).Reads writing :=
  oneOf_of (fun _ _ => rfl) And.intro h

theorem Pattern.Reads.literal
    (h : ∀ c ∈ text.toList, ∀ d, writing.stop d = true → same c d = false) :
    (literal same text).Reads writing := by
  refine Pattern.Reads.sequence ?_
  intro pattern hpattern
  obtain ⟨c, hc, rfl⟩ := List.mem_map.mp hpattern
  exact h c hc

/-- A class goes on in the text. -/
theorem Pattern.consumes_char (accepts : Char → Bool) : (Pattern.char accepts).Consumes := by
  intro at_ next hnext
  obtain ⟨c, rest, hrest, -, rfl⟩ := mem_ends_char.mp hnext
  rw [hrest]
  exact Nat.lt_succ_self _

/-- A pattern with a class in front goes on in the text. -/
theorem Pattern.Consumes.seq {first : Pattern} (h : first.Consumes) (second : Pattern) :
    (Pattern.seq first second).Consumes := by
  intro at_ next hnext
  obtain ⟨middle, hmiddle, hend⟩ := mem_ends_seq.mp hnext
  exact Nat.lt_of_le_of_lt (ends_suffix second hend).length_le (h at_ middle hmiddle)

theorem Pattern.Consumes.sequence {first : Pattern} (h : first.Consumes)
    (patterns : List Pattern) : (sequence (first :: patterns)).Consumes := by
  cases patterns with
  | nil => exact h
  | cons second patterns => exact h.seq _

/-- The classes of the pattern are within another class. -/
def Pattern.Within (plain : Char → Bool) : Pattern → Prop
  | char accepts => ∀ c, accepts c = true → plain c = true
  | empty => True
  | seq first second => first.Within plain ∧ second.Within plain
  | alt first second => first.Within plain ∧ second.Within plain
  | repeated _ _ body => body.Within plain
  | boundary _ => True

/-- A restriction that holds anyway changes nothing. -/
theorem Pattern.Within.restrict_eq (h : pattern.Within plain) :
    pattern.restrict plain = pattern := by
  induction pattern with
  | char accepts =>
    rw [Pattern.restrict]
    congr 1
    funext c
    cases haccepts : accepts c with
    | false => rfl
    | true => exact h c haccepts
  | empty => rfl
  | seq first second ihfirst ihsecond => rw [Pattern.restrict, ihfirst h.1, ihsecond h.2]
  | alt first second ihfirst ihsecond => rw [Pattern.restrict, ihfirst h.1, ihsecond h.2]
  | repeated least most body ih => rw [Pattern.restrict, ih h]
  | boundary isWord => rfl

theorem Pattern.Within.sequence (h : ∀ pattern ∈ patterns, pattern.Within plain) :
    (sequence patterns).Within plain :=
  sequence_of trivial And.intro h

theorem Pattern.Within.oneOf (h : ∀ pattern ∈ patterns, pattern.Within plain) :
    (oneOf patterns).Within plain :=
  oneOf_of (fun _ hfalse => absurd hfalse Bool.false_ne_true) And.intro h

theorem Pattern.Within.literal (h : ∀ c ∈ text.toList, ∀ d, same c d = true → plain d = true) :
    (literal same text).Within plain := by
  refine Pattern.Within.sequence ?_
  intro pattern hpattern
  obtain ⟨c, hc, rfl⟩ := List.mem_map.mp hpattern
  exact h c hc

end Building

end LegacyVault.RegularExpressions
