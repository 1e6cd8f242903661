import LegacyVault.Dlp
import Mathlib.Data.Bool.AllAny
import Mathlib.Data.List.Chain

/-!
# Windows of card numbers

Which digits of a text the scan for card numbers checks. Digits with at most
one space or hyphen between them form a run. The scan cuts every run, from its
first digit, into windows of nineteen digits, and checks each window of at
least thirteen. A card number is reported when it is a window of its own; where
other digits of its run shift or extend the window, another window has to pass
the check.
-/

namespace LegacyVault

open RegularExpressions

/-- A space or a hyphen. -/
def separates (c : Char) : Bool := c == ' ' || c == '-'

/-- The digits a text begins with, with at most one separator after each. One may come first when
a digit stands before the text. -/
def leadingDigits : Bool → List Char → List Char
  | _, [] => []
  | afterDigit, c :: rest =>
    if c.isDigit then c :: leadingDigits true rest
    else if afterDigit && separates c then leadingDigits false rest
    else []

/-- The digits of the run at the end of a text, last digit first. -/
def trailingDigits (text : List Char) : List Char := leadingDigits true text.reverse

/-- Whether a text ends in a digit, after another one. -/
def endsInDigit (afterDigit : Bool) (text : List Char) : Bool :=
  text.foldl (fun _ c => c.isDigit) afterDigit

/-- Digits and separators, no two separators together. -/
structure DigitPiece (text : List Char) : Prop where
  characters : ∀ c ∈ text, c.isDigit = true ∨ separates c = true
  apart : text.IsChain (fun c d => c.isDigit = true ∨ d.isDigit = true)

/-! ## Runs of digits -/

section Runs

variable {c : Char} {text rest : List Char} {afterDigit : Bool}

theorem not_isDigit_of_separates (h : separates c = true) : c.isDigit = false := by
  rcases (by simpa [separates] using h : c = ' ' ∨ c = '-') with rfl | rfl
  · decide
  · decide

theorem leadingDigits_of_digit (afterDigit : Bool) (h : c.isDigit = true) (rest : List Char) :
    leadingDigits afterDigit (c :: rest) = c :: leadingDigits true rest := by
  rw [leadingDigits, if_pos h]

theorem leadingDigits_of_separates (h : separates c = true) (rest : List Char) :
    leadingDigits true (c :: rest) = leadingDigits false rest := by
  simp [leadingDigits, not_isDigit_of_separates h, h]

theorem leadingDigits_of_not_digit (h : c.isDigit = false) (rest : List Char) :
    leadingDigits false (c :: rest) = [] := by
  simp [leadingDigits, h]

/-- The separator after a digit is no part of the run. -/
def skipSeparator : List Char → List Char
  | [] => []
  | c :: rest => if separates c then rest else c :: rest

theorem leadingDigits_true (text : List Char) :
    leadingDigits true text = leadingDigits false (skipSeparator text) := by
  cases text with
  | nil => rfl
  | cons c rest =>
    by_cases hseparates : separates c = true
    · rw [leadingDigits_of_separates hseparates, skipSeparator, if_pos hseparates]
    · rw [skipSeparator, if_neg hseparates]
      simp [leadingDigits, hseparates]

theorem endsInDigit_append (afterDigit : Bool) (text rest : List Char) :
    endsInDigit afterDigit (text ++ rest) = endsInDigit (endsInDigit afterDigit text) rest :=
  List.foldl_append

/-- What a text ends in decides whether the run before it goes on. -/
theorem leadingDigits_reverse (text : List Char) :
    leadingDigits false text.reverse =
      if endsInDigit false text then trailingDigits text else [] := by
  induction text using List.reverseRecOn with
  | nil => rfl
  | append_singleton text c _ =>
    rw [endsInDigit_append, trailingDigits, List.reverse_append]
    by_cases hdigit : c.isDigit = true
    · simp [endsInDigit, leadingDigits, hdigit]
    · simp [endsInDigit, leadingDigits, hdigit]

/-- A piece begins a run, which goes on after it. -/
theorem leadingDigits_piece (hpiece : DigitPiece text) (rest : List Char) :
    ∀ afterDigit, (afterDigit = true ∨ ∀ c ∈ text.head?, c.isDigit = true) →
      leadingDigits afterDigit (text ++ rest) =
        text.filter Char.isDigit ++ leadingDigits (endsInDigit afterDigit text) rest := by
  induction text with
  | nil => exact fun _ _ => rfl
  | cons c text ih =>
    intro afterDigit hfirst
    have hrest : DigitPiece text :=
      ⟨fun d hd => hpiece.characters d (List.mem_cons_of_mem _ hd), hpiece.apart.tail⟩
    by_cases hdigit : c.isDigit = true
    · rw [List.cons_append, leadingDigits_of_digit _ hdigit, ih hrest true (Or.inl rfl)]
      simp [endsInDigit, hdigit]
    · have hseparates := (hpiece.characters c List.mem_cons_self).resolve_left hdigit
      have hafter : afterDigit = true := by
        refine hfirst.resolve_right ?_
        intro hhead
        exact hdigit (hhead c rfl)
      have hnext : ∀ d ∈ text.head?, d.isDigit = true := by
        intro d hd
        exact (hpiece.apart.rel_head? hd).resolve_left hdigit
      rw [hafter, List.cons_append, leadingDigits_of_separates hseparates,
        ih hrest false (Or.inr hnext)]
      simp [endsInDigit, hdigit]

theorem DigitPiece.reverse (h : DigitPiece text) : DigitPiece text.reverse where
  characters := fun d hd => h.characters d (List.mem_reverse.mp hd)
  apart := by
    rw [List.isChain_reverse]
    exact h.apart.imp (fun _ _ hdigits => hdigits.symm)

theorem DigitPiece.cons_digit (hdigit : c.isDigit = true) (h : DigitPiece text) :
    DigitPiece (c :: text) where
  characters := by
    intro d hd
    rcases List.mem_cons.mp hd with rfl | hd
    · exact Or.inl hdigit
    · exact h.characters d hd
  apart := h.apart.cons (fun _ _ => Or.inl hdigit)

theorem DigitPiece.cons_separator (hseparates : separates c = true) (h : DigitPiece text)
    (hfirst : ∀ d ∈ text.head?, d.isDigit = true) : DigitPiece (c :: text) where
  characters := by
    intro d hd
    rcases List.mem_cons.mp hd with rfl | hd
    · exact Or.inr hseparates
    · exact h.characters d hd
  apart := h.apart.cons (fun d hd => Or.inr (hfirst d hd))

/-- A piece that begins with a digit lengthens the run before it. -/
theorem length_trailingDigits_append (hpiece : DigitPiece (c :: rest)) (hdigit : c.isDigit = true)
    (text : List Char) : (trailingDigits (text ++ c :: rest)).length =
      (trailingDigits text).length + ((c :: rest).filter Char.isDigit).length := by
  have hends : endsInDigit true (c :: rest).reverse = true := by
    rw [List.reverse_cons, endsInDigit_append]
    exact hdigit
  rw [trailingDigits, List.reverse_append, leadingDigits_piece hpiece.reverse _ true (Or.inl rfl),
    hends, List.length_append, List.filter_reverse, List.length_reverse, trailingDigits]
  omega

end Runs

/-! ## Matches of the pattern -/

section Matches

/-- A digit of the pattern, with the separator after it. -/
def cardDigit : Pattern := .seq digit (Pattern.char separates).optional

/-- The text after so many digits of its run, each with the separator after it. -/
def afterDigits : Nat → List Char → List Char
  | 0, text => text
  | _ + 1, [] => []
  | count + 1, _ :: rest => afterDigits count (skipSeparator rest)

theorem skipSeparator_length_le (text : List Char) :
    (skipSeparator text).length ≤ text.length := by
  cases text with
  | nil => exact Nat.le_refl 0
  | cons c rest =>
    by_cases hseparates : separates c = true
    · simp [skipSeparator, hseparates]
    · simp [skipSeparator, hseparates]

/-- A repetition that is not allowed ends where it begins. -/
theorem repeatEnds_none (body : Cursor → List Cursor) (fuel : Nat) (at_ : Cursor) :
    repeatEnds body fuel 0 (some 0) at_ = [at_] := by
  cases fuel with
  | zero => rfl
  | succ fuel => rfl

/-- What a repetition prefers: to go on from the preferred end of its body. -/
theorem repeatEnds_head {body : Cursor → List Cursor} {at_ first : Cursor} {others : List Cursor}
    (hbody : body at_ = first :: others) (hshorter : first.rest.length < at_.rest.length)
    (fuel least most : Nat) :
    (repeatEnds body (fuel + 1) least (some (most + 1)) at_).head? =
      (repeatEnds body fuel (least - 1) (some most) first).head?.or
        ((others.filter (fun next =>
          0 < least || next.rest.length < at_.rest.length)).flatMap
            (repeatEnds body fuel (least - 1) (some most)) ++
              if least = 0 then [at_] else []).head? := by
  rw [repeatEnds, if_neg (by simp), hbody, List.filter_cons_of_pos (by simp [hshorter]),
    List.flatMap_cons]
  simp only [Option.map_some, Nat.add_sub_cancel]
  split
  · rw [List.append_assoc, List.head?_append]
  · rw [List.append_nil, List.head?_append]

/-- A digit with the separator after it is preferred. Without the separator, no digit comes
next. -/
theorem cardDigit_ends {c : Char} (hdigit : c.isDigit = true) (before : Option Char)
    (rest : List Char) : ∃ last others,
      cardDigit.ends ⟨before, c :: rest⟩ = ⟨some last, skipSeparator rest⟩ :: others ∧
      ∀ other ∈ others, other.rest = rest ∧ leadingDigits false rest = [] := by
  cases rest with
  | nil =>
    refine ⟨c, [], ?_, by simp⟩
    simp [cardDigit, digit, Pattern.optional, Pattern.ends, repeatEnds, hdigit, skipSeparator]
  | cons d rest =>
    by_cases hseparates : separates d = true
    · refine ⟨d, [⟨some c, d :: rest⟩], ?_, ?_⟩
      · simp [cardDigit, digit, Pattern.optional, Pattern.ends, repeatEnds, repeatEnds_none, hdigit,
          hseparates, skipSeparator]
      · intro other hother
        rw [List.mem_singleton.mp hother]
        exact ⟨rfl, leadingDigits_of_not_digit (not_isDigit_of_separates hseparates) rest⟩
    · refine ⟨c, [], ?_, by simp⟩
      simp [cardDigit, digit, Pattern.optional, Pattern.ends, repeatEnds, hdigit, hseparates,
        skipSeparator]

theorem cardDigit_ends_none {rest : List Char} (hfirst : ∀ c ∈ rest.head?, c.isDigit = false)
    (before : Option Char) : cardDigit.ends ⟨before, rest⟩ = [] := by
  cases rest with
  | nil => simp [cardDigit, digit, Pattern.ends]
  | cons c rest =>
    have hc : c.isDigit = false := hfirst c rfl
    simp [cardDigit, digit, Pattern.ends, hc]

/-- The preferred end of a repetition is after as many digits of the run as it may take. -/
theorem repeatEnds_cardDigit_head (fuel : Nat) : ∀ (least most : Nat) (at_ : Cursor),
    at_.rest.length ≤ fuel → least ≤ most →
      (repeatEnds cardDigit.ends fuel least (some most) at_).head?.map Cursor.rest =
        if least ≤ (leadingDigits false at_.rest).length then
          some (afterDigits (min most (leadingDigits false at_.rest).length) at_.rest)
        else none := by
  induction fuel with
  | zero =>
    intro least most at_ hfuel _
    have hrest : at_.rest = [] := List.length_eq_zero_iff.mp (Nat.le_zero.mp hfuel)
    by_cases hleast : least = 0
    · simp [repeatEnds, hrest, leadingDigits, afterDigits, hleast]
    · simp [repeatEnds, hrest, leadingDigits, hleast]
  | succ fuel ih =>
    intro least most at_ hfuel hbounds
    cases most with
    | zero =>
      obtain rfl : least = 0 := by omega
      simp [repeatEnds, afterDigits]
    | succ most =>
      obtain ⟨before, rest⟩ := at_
      by_cases hfirst : ∀ c ∈ rest.head?, c.isDigit = false
      · have hnone : leadingDigits false rest = [] := by
          cases rest with
          | nil => rfl
          | cons c rest => exact leadingDigits_of_not_digit (hfirst c rfl) rest
        rw [repeatEnds, if_neg (by simp), cardDigit_ends_none hfirst]
        by_cases hleast : least = 0
        · simp [hnone, hleast, afterDigits]
        · simp [hnone, hleast]
      · cases rest with
        | nil => exact absurd (by simp) hfirst
        | cons c rest =>
          have hdigit : c.isDigit = true := by simpa using hfirst
          obtain ⟨last, others, hends, hothers⟩ := cardDigit_ends hdigit before rest
          have hshorter := skipSeparator_length_le rest
          have hlength : rest.length ≤ fuel := by simpa using hfuel
          have htaken := ih (least - 1) most ⟨some last, skipSeparator rest⟩
            (by simp only; omega) (by omega)
          have hdigits : (leadingDigits false (c :: rest)).length =
              (leadingDigits false (skipSeparator rest)).length + 1 := by
            rw [leadingDigits_of_digit _ hdigit, leadingDigits_true, List.length_cons]
          rw [repeatEnds_head hends (by simp; omega), hdigits]
          by_cases hle : least - 1 ≤ (leadingDigits false (skipSeparator rest)).length
          · rw [if_pos hle] at htaken
            obtain ⟨found, hfound, hrest⟩ := Option.map_eq_some_iff.mp htaken
            rw [hfound, Option.some_or, Option.map_some, hrest, if_pos (by omega),
              Nat.succ_min_succ, afterDigits]
          · rw [if_neg hle] at htaken
            have hnone := Option.map_eq_none_iff.mp htaken
            have hothers' : ∀ other ∈ others,
                repeatEnds cardDigit.ends fuel (least - 1) (some most) other = [] := by
              intro other hother
              obtain ⟨hrest, hdigits'⟩ := hothers other hother
              have hend := ih (least - 1) most other (by rw [hrest]; exact hlength) (by omega)
              rw [hrest, hdigits', List.length_nil, if_neg (by omega)] at hend
              exact List.head?_eq_none_iff.mp (Option.map_eq_none_iff.mp hend)
            rw [hnone, if_neg (by omega), if_neg (by omega), List.append_nil, Option.none_or,
              List.flatMap_eq_nil_iff.mpr]
            · rfl
            · exact fun other hother => hothers' other (List.mem_of_mem_filter hother)

/-- The pattern matches where a run of at least thirteen digits goes on. -/
theorem cardPattern_head (at_ : Cursor) : (cardPattern.ends at_).head?.map Cursor.rest =
    if 13 ≤ (leadingDigits false at_.rest).length then
      some (afterDigits (min 19 (leadingDigits false at_.rest).length) at_.rest)
    else none := by
  rw [cardPattern, Pattern.ends]
  exact repeatEnds_cardDigit_head _ 13 19 at_ (Nat.le_add_left _ _) (by decide)

/-- What stands before the rest of a run is a piece with the digits of the run. -/
theorem afterDigits_split (count : Nat) : ∀ text, count ≤ (leadingDigits false text).length →
    ∃ piece, text = piece ++ afterDigits count text ∧ DigitPiece piece ∧
      piece.filter Char.isDigit = (leadingDigits false text).take count ∧
      ∀ c ∈ piece.head?, c.isDigit = true := by
  induction count with
  | zero => exact fun text _ => ⟨[], rfl, ⟨by simp, .nil⟩, by simp, by simp⟩
  | succ count ih =>
    intro text hcount
    cases text with
    | nil => simp [leadingDigits] at hcount
    | cons c rest =>
      by_cases hdigit : c.isDigit = true
      · rw [leadingDigits_of_digit _ hdigit, leadingDigits_true] at hcount ⊢
        obtain ⟨piece, hsplit, hpiece, hdigits, hfirst⟩ :=
          ih (skipSeparator rest) (by simpa using hcount)
        by_cases hnext : ∃ d rest', rest = d :: rest' ∧ separates d = true
        · obtain ⟨d, rest', rfl, hseparates⟩ := hnext
          rw [skipSeparator, if_pos hseparates] at hsplit hdigits ⊢
          have hd := not_isDigit_of_separates hseparates
          refine ⟨c :: d :: piece, ?_, ?_, ?_, ?_⟩
          · rw [afterDigits, skipSeparator, if_pos hseparates, List.cons_append, List.cons_append,
              ← hsplit]
          · exact (hpiece.cons_separator hseparates hfirst).cons_digit hdigit
          · rw [List.filter_cons_of_pos hdigit, List.filter_cons_of_neg (by simp [hd]), hdigits,
              List.take_succ_cons]
          · intro e he
            rwa [← Option.some.inj he]
        · have hsame : skipSeparator rest = rest := by
            cases rest with
            | nil => rfl
            | cons d rest' =>
              have hd : ¬ separates d = true := fun h => hnext ⟨d, rest', rfl, h⟩
              rw [skipSeparator, if_neg hd]
          rw [hsame] at hsplit hdigits ⊢
          refine ⟨c :: piece, ?_, hpiece.cons_digit hdigit, ?_, ?_⟩
          · rw [afterDigits, hsame, List.cons_append, ← hsplit]
          · rw [List.filter_cons_of_pos hdigit, hdigits, List.take_succ_cons]
          · intro e he
            rwa [← Option.some.inj he]
      · rw [leadingDigits_of_not_digit (by simpa using hdigit)] at hcount
        simp at hcount

end Matches

/-! ## The scan -/

section Scan

/-- Where the scan stands: a window begins here, or the run has too few digits left. -/
def Aligned (x y : List Char) : Prop :=
  19 ∣ (trailingDigits x).length ∨ (leadingDigits (endsInDigit false x) y).length < 13

theorem aligned_nil (text : List Char) : Aligned [] text := Or.inl (Nat.dvd_zero 19)

/-- A place with too few digits is passed. -/
theorem Aligned.pass {x y : List Char} {c : Char} (h : Aligned x (c :: y))
    (hfew : (leadingDigits false (c :: y)).length < 13) : Aligned (x ++ [c]) y := by
  have hends : endsInDigit false (x ++ [c]) = c.isDigit := endsInDigit_append _ _ _
  have htrailing : trailingDigits (x ++ [c]) = leadingDigits true (c :: x.reverse) := by
    rw [trailingDigits, List.reverse_append]
    rfl
  by_cases hdigit : c.isDigit = true
  · refine Or.inr ?_
    rw [leadingDigits_of_digit _ hdigit, List.length_cons] at hfew
    rw [hends, hdigit]
    omega
  · by_cases hseparates : separates c = true
    · rw [leadingDigits_of_separates hseparates, leadingDigits_reverse] at htrailing
      by_cases hx : endsInDigit false x = true
      · rw [if_pos hx] at htrailing
        rcases h with hdvd | hshort
        · exact Or.inl (by rwa [htrailing])
        · rw [hx, leadingDigits_of_separates hseparates] at hshort
          refine Or.inr ?_
          rwa [hends, Bool.eq_false_iff.mpr hdigit]
      · rw [if_neg hx] at htrailing
        exact Or.inl (by rw [htrailing]; exact Nat.dvd_zero 19)
    · refine Or.inl ?_
      rw [htrailing]
      simp [leadingDigits, hdigit, hseparates]

/-- What a window takes of a text. -/
theorem window_split {y : List Char} (hlong : 13 ≤ (leadingDigits false y).length) :
    ∃ c piece, c.isDigit = true ∧ DigitPiece (c :: piece) ∧
      y = c :: piece ++ afterDigits (min 19 (leadingDigits false y).length) y ∧
      (c :: piece).filter Char.isDigit = (leadingDigits false y).take 19 := by
  obtain ⟨piece, hsplit, hpiece, hdigits, hfirst⟩ :=
    afterDigits_split (min 19 (leadingDigits false y).length) y (Nat.min_le_right _ _)
  have htake : (leadingDigits false y).take (min 19 (leadingDigits false y).length) =
      (leadingDigits false y).take 19 := by
    simp [List.take_eq_take_iff]
  rw [htake] at hdigits
  cases piece with
  | nil =>
    have hlength := congrArg List.length hdigits
    simp at hlength
    omega
  | cons c piece => exact ⟨c, piece, hfirst c rfl, hpiece, hsplit, hdigits⟩

/-- A window is passed: it is full, or it ends its run. -/
theorem Aligned.pass_window {x piece rest : List Char} {c : Char} (hdigit : c.isDigit = true)
    (hpiece : DigitPiece (c :: piece)) (hx : 19 ∣ (trailingDigits x).length)
    (hwindow : (c :: piece).filter Char.isDigit =
      (leadingDigits false (c :: piece ++ rest)).take 19) : Aligned (x ++ c :: piece) rest := by
  have hlength := length_trailingDigits_append hpiece hdigit x
  have hrun := leadingDigits_piece hpiece rest false (Or.inr (by simpa using hdigit))
  have hends : endsInDigit false (x ++ c :: piece) = endsInDigit false (c :: piece) := by
    rw [endsInDigit_append]
    rfl
  by_cases hfull : 19 ≤ (leadingDigits false (c :: piece ++ rest)).length
  · have hnineteen : ((c :: piece).filter Char.isDigit).length = 19 := by
      rw [hwindow, List.length_take]
      omega
    rw [hnineteen] at hlength
    exact Or.inl (by omega)
  · rw [List.take_of_length_le (by omega)] at hwindow
    have hnone : leadingDigits (endsInDigit false (c :: piece)) rest = [] := by
      rw [← hwindow] at hrun
      simpa using hrun
    refine Or.inr ?_
    rw [hends, hnone]
    decide

/-- The next match is the window that begins at the place, or begins later. -/
theorem matchesFrom_window {y : List Char} (hlong : 13 ≤ (leadingDigits false y).length)
    {c : Char} {piece : List Char}
    (hsplit : y = c :: piece ++ afterDigits (min 19 (leadingDigits false y).length) y)
    (fuel : Nat) (before : Option Char) : ∃ before',
      cardPattern.matchesFrom (fuel + 1) ⟨before, y⟩ = (c :: piece) ::
        cardPattern.matchesFrom fuel
          ⟨before', afterDigits (min 19 (leadingDigits false y).length) y⟩ := by
  have hhead := cardPattern_head ⟨before, y⟩
  rw [if_pos hlong] at hhead
  obtain ⟨found, hfound, hrest⟩ := Option.map_eq_some_iff.mp hhead
  obtain ⟨before', rest⟩ := found
  simp only at hrest
  rw [← hrest] at hsplit ⊢
  refine ⟨before', ?_⟩
  have hshorter : rest.length < y.length := by
    rw [hsplit, List.length_append, List.length_cons]
    omega
  have hcount : y.length - rest.length = (c :: piece).length := by
    rw [hsplit, List.length_append]
    omega
  have htaken : y.take (y.length - rest.length) = c :: piece := by
    rw [hcount, hsplit, List.take_left]
  rw [Pattern.matchesFrom, hfound]
  simp only [hshorter, if_true, htaken]

theorem matchesFrom_short {c : Char} {y : List Char}
    (hshort : (leadingDigits false (c :: y)).length < 13) (fuel : Nat) (before : Option Char) :
    cardPattern.matchesFrom (fuel + 1) ⟨before, c :: y⟩ =
      cardPattern.matchesFrom fuel ⟨some c, y⟩ := by
  have hhead := cardPattern_head ⟨before, c :: y⟩
  rw [if_neg (by simp only; omega)] at hhead
  rw [Pattern.matchesFrom, Option.map_eq_none_iff.mp hhead]

/-- No window begins inside another: the digits before it in the run would not be a multiple of
nineteen. -/
theorem window_inside {x piece z w : List Char} {c : Char} (hdigit : c.isDigit = true)
    (hpiece : DigitPiece (c :: piece)) (hx : 19 ∣ (trailingDigits x).length)
    (hmost : ((c :: piece).filter Char.isDigit).length ≤ 19) (hinside : c :: piece = c :: z ++ w)
    (hw : ∃ d ∈ w, d.isDigit = true) : ¬ 19 ∣ (trailingDigits (x ++ c :: z)).length := by
  have hz : DigitPiece (c :: z) := by
    rw [hinside] at hpiece
    exact ⟨fun d hd => hpiece.characters d (List.mem_append_left _ hd),
      hpiece.apart.left_of_append⟩
  obtain ⟨d, hd, hdigit'⟩ := hw
  have hpos : 0 < (w.filter Char.isDigit).length :=
    List.length_pos_of_mem (List.mem_filter.mpr ⟨hd, hdigit'⟩)
  have hfirst : 0 < ((c :: z).filter Char.isDigit).length :=
    List.length_pos_of_mem (List.mem_filter.mpr ⟨List.mem_cons_self, hdigit⟩)
  have hlength := length_trailingDigits_append hz hdigit x
  rw [hinside, List.filter_append, List.length_append] at hmost
  omega

/-- The scan finds the windows. -/
theorem mem_matchesFrom (fuel : Nat) : ∀ (x y : List Char) (before : Option Char),
    y.length < fuel → Aligned x y → ∀ window : List Char, 13 ≤ window.length →
      ((∃ found ∈ cardPattern.matchesFrom fuel ⟨before, y⟩, found.filter Char.isDigit = window) ↔
        ∃ z w, y = z ++ w ∧ 19 ∣ (trailingDigits (x ++ z)).length ∧
          (leadingDigits false w).take 19 = window) := by
  induction fuel with
  | zero => exact fun _ _ _ hfuel => absurd hfuel (Nat.not_lt_zero _)
  | succ fuel ih =>
    intro x y before hfuel haligned window hwindow
    by_cases hlong : 13 ≤ (leadingDigits false y).length
    · obtain ⟨c, piece, hdigit, hpiece, hsplit, hdigits⟩ := window_split hlong
      obtain ⟨before', hmatches⟩ := matchesFrom_window hlong hsplit fuel before
      generalize afterDigits (min 19 (leadingDigits false y).length) y = rest at hsplit hmatches
      have hx : 19 ∣ (trailingDigits x).length := by
        refine haligned.resolve_right ?_
        rw [hsplit, List.cons_append, leadingDigits_of_digit _ hdigit] at hlong ⊢
        omega
      have hpassed : Aligned (x ++ c :: piece) rest :=
        Aligned.pass_window hdigit hpiece hx (hsplit ▸ hdigits)
      have hshorter : rest.length < fuel := by
        rw [hsplit, List.length_append, List.length_cons] at hfuel
        omega
      have hlater := ih (x ++ c :: piece) rest before' hshorter hpassed window hwindow
      rw [hmatches]
      constructor
      · intro h
        obtain ⟨found, hfound, hequal⟩ := h
        rcases List.mem_cons.mp hfound with rfl | hfound
        · exact ⟨[], y, rfl, by rwa [List.append_nil], hdigits.symm.trans hequal⟩
        · obtain ⟨z, w, hrest, hdvd, htake⟩ := hlater.mp ⟨found, hfound, hequal⟩
          refine ⟨c :: piece ++ z, w, ?_, ?_, htake⟩
          · rw [hsplit, hrest, List.append_assoc]
          · rwa [← List.append_assoc]
      · intro h
        obtain ⟨z, w, hy, hdvd, htake⟩ := h
        cases z with
        | nil =>
          rw [List.nil_append] at hy
          rw [← hy] at htake
          exact ⟨c :: piece, List.mem_cons_self, hdigits.trans htake⟩
        | cons d z =>
          rw [hsplit] at hy
          obtain rfl : c = d := (List.cons.inj hy).1
          rcases List.append_eq_append_iff.mp hy with ⟨between, hz, hrest⟩ | ⟨between, hz, hw⟩
          · rw [hz, ← List.append_assoc] at hdvd
            obtain ⟨found, hfound, hequal⟩ := hlater.mpr ⟨between, w, hrest, hdvd, htake⟩
            exact ⟨found, List.mem_cons_of_mem _ hfound, hequal⟩
          · by_cases hend : between = []
            · rw [hend, List.append_nil] at hz
              rw [hend, List.nil_append] at hw
              rw [← hz] at hdvd
              rw [hw] at htake
              rw [← List.append_nil (x ++ c :: piece)] at hdvd
              obtain ⟨found, hfound, hequal⟩ := hlater.mpr ⟨[], rest, rfl, hdvd, htake⟩
              exact ⟨found, List.mem_cons_of_mem _ hfound, hequal⟩
            · have hmost : ((c :: piece).filter Char.isDigit).length ≤ 19 := by
                rw [hdigits, List.length_take]
                exact Nat.min_le_left _ _
              have hw' : ∃ e ∈ between, e.isDigit = true := by
                obtain ⟨e, tail, rfl⟩ := List.exists_cons_of_ne_nil hend
                refine ⟨e, List.mem_cons_self, ?_⟩
                by_contra hnot
                have hnone := leadingDigits_of_not_digit (Bool.eq_false_iff.mpr hnot) (tail ++ rest)
                rw [hw, List.cons_append, hnone, List.take_nil] at htake
                rw [← htake] at hwindow
                exact absurd hwindow (by decide)
              exact absurd hdvd (window_inside hdigit hpiece hx hmost hz hw')
    · cases y with
      | nil =>
        have hhead := cardPattern_head ⟨before, []⟩
        rw [if_neg (by simp [leadingDigits])] at hhead
        rw [Pattern.matchesFrom, Option.map_eq_none_iff.mp hhead]
        refine ⟨fun h => absurd h (by simp), ?_⟩
        intro h
        obtain ⟨z, w, hy, -, htake⟩ := h
        obtain ⟨-, rfl⟩ := List.append_eq_nil_iff.mp hy.symm
        rw [← htake] at hwindow
        exact absurd hwindow (by decide)
      | cons c y =>
        rw [matchesFrom_short (by omega)]
        have hlater := ih (x ++ [c]) y (some c) (by simpa using hfuel)
          (haligned.pass (by omega)) window hwindow
        rw [hlater]
        constructor
        · intro h
          obtain ⟨z, w, hy, hdvd, htake⟩ := h
          exact ⟨c :: z, w, by rw [hy, List.cons_append], by simpa using hdvd, htake⟩
        · intro h
          obtain ⟨z, w, hy, hdvd, htake⟩ := h
          cases z with
          | nil =>
            have hlength := congrArg List.length htake
            rw [← List.nil_append w, ← hy, List.length_take] at hlength
            omega
          | cons d z =>
            obtain ⟨rfl, hrest⟩ := List.cons.inj hy
            exact ⟨z, w, hrest, by simpa using hdvd, htake⟩

/-- The check of a candidate looks at its digits only. -/
theorem passesLuhn_filter (value : List Char) :
    passesLuhn (value.filter Char.isDigit) = passesLuhn value := by
  simp [passesLuhn]

/-- A candidate that passes the check has at least thirteen digits. -/
theorem length_of_passesLuhn {value : List Char} (h : passesLuhn value = true) :
    13 ≤ (value.filter Char.isDigit).length := by
  simp only [passesLuhn, List.length_map, Bool.and_eq_true, decide_eq_true_eq] at h
  exact h.1.1

theorem digits_le_of_passesLuhn {value : List Char} (h : passesLuhn value = true) :
    (value.filter Char.isDigit).length ≤ 19 := by
  simp only [passesLuhn, List.length_map, Bool.and_eq_true, decide_eq_true_eq] at h
  exact h.1.2

/-- A payment card is found exactly when a window of the text passes the check. -/
theorem finds_paymentCard_iff (text : List Char) : finds text .paymentCard = true ↔
    ∃ z w, text = z ++ w ∧ 19 ∣ (trailingDigits z).length ∧
      passesLuhn ((leadingDigits false w).take 19) = true := by
  have hscan := mem_matchesFrom (text.length + 1) [] text none (Nat.lt_succ_self _)
    (aligned_nil text)
  have hfinds : finds text .paymentCard = true ↔
      ∃ found ∈ cardPattern.matchesFrom (text.length + 1) ⟨none, text⟩,
        passesLuhn found = true := by
    rw [finds, dlpRule, Pattern.matchAll, List.any_eq_true]
  rw [hfinds]
  constructor
  · intro h
    obtain ⟨found, hfound, hpasses⟩ := h
    obtain ⟨z, w, htext, hdvd, htake⟩ := (hscan (found.filter Char.isDigit)
      (length_of_passesLuhn hpasses)).mp ⟨found, hfound, rfl⟩
    refine ⟨z, w, htext, hdvd, ?_⟩
    rw [htake, passesLuhn_filter]
    exact hpasses
  · intro h
    obtain ⟨z, w, htext, hdvd, hpasses⟩ := h
    have hlong : 13 ≤ ((leadingDigits false w).take 19).length :=
      (length_of_passesLuhn hpasses).trans (List.length_filter_le _ _)
    obtain ⟨found, hfound, hequal⟩ := (hscan _ hlong).mpr ⟨z, w, htext, hdvd, rfl⟩
    refine ⟨found, hfound, ?_⟩
    rw [← passesLuhn_filter, hequal]
    exact hpasses

end Scan

/-! ## Main result -/

/-- A card number between two texts: thirteen to nineteen digits that pass the check, with at most
one space or hyphen between consecutive digits, and no digit directly before or after it. -/
structure CardBetween (a c b : String) : Prop where
  passes : passesLuhn c.toList = true
  piece : DigitPiece c.toList
  first : ∃ d ∈ c.toList.head?, d.isDigit = true
  last : ∃ d ∈ c.toList.getLast?, d.isDigit = true
  before : ∀ d ∈ a.toList.getLast?, d.isDigit = false
  after : ∀ d ∈ b.toList.head?, d.isDigit = false

/-- The card number is a window of its own: the windows before it in its run are full, and it is
full itself or ends the run. -/
def OwnWindow (a c b : String) : Prop :=
  19 ∣ (trailingDigits a.toList).length ∧
    ((c.toList.filter Char.isDigit).length = 19 ∨ leadingDigits true b.toList = [])

/-- A window that passes the check: up to nineteen digits of a run, after a multiple of nineteen
of its digits. -/
def WindowPasses (text : String) : Prop :=
  ∃ z w, text.toList = z ++ w ∧ 19 ∣ (trailingDigits z).length ∧
    passesLuhn ((leadingDigits false w).take 19) = true

theorem mem_scanDlp_paymentCard (text : String) :
    DlpFinding.paymentCard ∈ scanDlp text ↔ WindowPasses text := by
  rw [WindowPasses, ← finds_paymentCard_iff, scanDlp, List.mem_filter]
  simp

/-- A card number that is a window of its own passes. -/
theorem OwnWindow.passes {a c b : String} (hown : OwnWindow a c b) (h : CardBetween a c b) :
    WindowPasses (a ++ c ++ b) := by
  refine ⟨a.toList, c.toList ++ b.toList, by simp, hown.1, ?_⟩
  have hfirst : ∀ d ∈ c.toList.head?, d.isDigit = true := by
    obtain ⟨e, he, hdigit⟩ := h.first
    intro d hd
    rwa [Option.mem_unique hd he]
  have hends : endsInDigit false c.toList = true := by
    obtain ⟨d, hd, hdigit⟩ := h.last
    obtain ⟨init, hinit⟩ := List.getLast?_eq_some_iff.mp hd
    rw [hinit, endsInDigit_append]
    exact hdigit
  have hmost := digits_le_of_passesLuhn h.passes
  have htake : (leadingDigits false (c.toList ++ b.toList)).take 19 =
      c.toList.filter Char.isDigit := by
    rw [leadingDigits_piece h.piece _ false (Or.inr hfirst), hends]
    rcases hown.2 with hfull | hend
    · rw [← hfull, List.take_left]
    · rw [hend, List.append_nil, List.take_of_length_le hmost]
  rw [htake, passesLuhn_filter]
  exact h.passes

/-- The number of the source's test, alone. -/
theorem exampleCard_between : CardBetween "" "4242 4242 4242 4242" "" where
  passes := by decide +kernel
  piece := ⟨List.all_iff_forall_prop.mp (by decide +kernel), by decide +kernel⟩
  first := ⟨'4', by decide +kernel, by decide⟩
  last := ⟨'2', by decide +kernel, by decide⟩
  before := by simp
  after := by simp

end LegacyVault
