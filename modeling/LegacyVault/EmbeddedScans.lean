import LegacyVault.AiResults
import LegacyVault.CardDetection
import LegacyVault.Library.EscapedMatches
import LegacyVault.VaultRequests

/-!
# Scans of embedded strings

The routes scan the JSON text of a value. There a string stands between
quotes, with its quotes, backslashes and control characters written as escapes.
An escape of a control character ends in a word character, is no white space,
and may end in digits. So a finding of the string is made in the text where the
rule matches without an escaped character, and not directly after a control
character. What stands around the string does not matter.
-/

namespace LegacyVault

open JsonText EcmaText RegularExpressions

/-! ## Characters of a string in a JSON text -/

/-- A character that JSON writes as an escape. -/
def isEscaped (c : Char) : Bool := c == '"' || c == '\\' || decide (c.toNat < 32)

/-- A character that an escape begins with, or that ends a string. -/
def isStop (c : Char) : Bool := c == '"' || c == '\\'

section Characters

variable {c : Char}

theorem escapeChar_of_plain (h : isEscaped c = false) : escapeChar c = [c] := by
  simp only [isEscaped, Bool.or_eq_false_iff, beq_eq_false_iff_ne, decide_eq_false_iff_not] at h
  obtain ⟨⟨hquote, hbackslash⟩, hcontrol⟩ := h
  have hne : ∀ d : Char, d.toNat < 32 → c ≠ d := by
    intro d hd heq
    exact hcontrol (heq ▸ hd)
  rw [escapeChar, if_neg hquote, if_neg hbackslash, if_neg (hne _ (by decide)),
    if_neg (hne _ (by decide)), if_neg (hne _ (by decide)), if_neg (hne _ (by decide)),
    if_neg (hne _ (by decide)), if_neg hcontrol]

/-- What holds of the first characters holds of every character below a bound. -/
theorem char_induction {P : Char → Prop} {bound : Nat} (h : ∀ n < bound, P (Char.ofNat n))
    (hc : c.toNat < bound) : P c := by
  have hn := h c.toNat hc
  rwa [Char.ofNat_toNat] at hn

/-- What a control character is written as: letters and digits after a backslash. -/
theorem escapeChar_of_control (h : c.toNat < 32) :
    ∃ d rest, escapeChar c = '\\' :: d :: rest ∧ ∀ e ∈ d :: rest, e.isAlphanum = true := by
  have hall : (escapeChar c).head? = some '\\' ∧ 2 ≤ (escapeChar c).length ∧
      (escapeChar c).tail.all Char.isAlphanum = true :=
    char_induction (P := fun c => (escapeChar c).head? = some '\\' ∧
      2 ≤ (escapeChar c).length ∧ (escapeChar c).tail.all Char.isAlphanum = true)
      (by decide +kernel) h
  obtain ⟨hhead, hlength, htail⟩ := hall
  obtain ⟨tail, htext⟩ := List.head?_eq_some_iff.mp hhead
  rw [htext] at hlength htail ⊢
  cases tail with
  | nil => exact absurd hlength (by simp)
  | cons d rest => exact ⟨d, rest, rfl, fun e he => List.all_eq_true.mp htail e he⟩

theorem escapeChar_of_stop (h : isStop c = true) : escapeChar c = ['\\', c] := by
  rcases (by simpa [isStop] using h : c = '"' ∨ c = '\\') with rfl | rfl
  · rfl
  · rfl

theorem isEscaped_iff : isEscaped c = true ↔ isStop c = true ∨ c.toNat < 32 := by
  simp [isEscaped, isStop]

theorem escapeChar_of_escaped (h : isEscaped c = true) :
    ∃ d rest, escapeChar c = '\\' :: d :: rest := by
  rcases isEscaped_iff.mp h with hstop | hcontrol
  · exact ⟨c, [], escapeChar_of_stop hstop⟩
  · obtain ⟨d, rest, htext, -⟩ := escapeChar_of_control hcontrol
    exact ⟨d, rest, htext⟩

/-- The word characters of a pattern that ignores case. -/
def isFoldedWordChar (c : Char) : Bool := isWordChar (foldCase c)

/-- The classes of word characters of the rules. -/
def wordClasses : List (Char → Bool) := [isWordChar, isFoldedWordChar]

theorem escaped_no_word {isWord : Char → Bool} (hword : isWord ∈ wordClasses)
    (h : isEscaped c = true) : isWord c = false := by
  have hboth : isWordChar c = false ∧ isFoldedWordChar c = false := by
    rcases isEscaped_iff.mp h with hstop | hcontrol
    · rcases (by simpa [isStop] using hstop : c = '"' ∨ c = '\\') with rfl | rfl
      · decide
      · decide
    · exact char_induction (P := fun c => isWordChar c = false ∧ isFoldedWordChar c = false)
        (by decide +kernel) hcontrol
  rcases (by simpa [wordClasses] using hword : isWord = isWordChar ∨ isWord = isFoldedWordChar) with
    rfl | rfl
  · exact hboth.1
  · exact hboth.2

theorem stop_isEscaped (h : isStop c = true) : isEscaped c = true :=
  isEscaped_iff.mpr (Or.inl h)

/-- Letters and digits are word characters, in any case. -/
theorem alphanum_isWord {isWord : Char → Bool} (hword : isWord ∈ wordClasses)
    (h : c.isAlphanum = true) : isWord c = true := by
  have hascii : c.toNat < 128 := by
    have hranges : ((decide ('A'.val ≤ c.val ∧ c.val ≤ 'Z'.val) ||
        (decide ('a'.val ≤ c.val) && decide (c.val ≤ 'z'.val))) ||
        (decide ('0'.val ≤ c.val) && decide (c.val ≤ '9'.val))) = true := h
    simp only [Bool.or_eq_true, Bool.and_eq_true, decide_eq_true_eq, UInt32.le_iff_toNat_le]
      at hranges
    change ((65 ≤ c.toNat ∧ c.toNat ≤ 90) ∨ (97 ≤ c.toNat ∧ c.toNat ≤ 122)) ∨
      (48 ≤ c.toNat ∧ c.toNat ≤ 57) at hranges
    omega
  have hboth : isWordChar c = true ∧ isFoldedWordChar c = true :=
    char_induction (P := fun c => c.isAlphanum = true →
      isWordChar c = true ∧ isFoldedWordChar c = true) (by decide +kernel) hascii h
  rcases (by simpa [wordClasses] using hword : isWord = isWordChar ∨ isWord = isFoldedWordChar) with
    rfl | rfl
  · exact hboth.1
  · exact hboth.2

end Characters

/-- A string in a JSON text, from its first character on. -/
def writeString (after : List Char) (rest : List Char) : List Char :=
  rest.flatMap escapeChar ++ '"' :: after

/-- A string in a JSON text, as a writing of its characters. -/
def stringWriting (words : List (Char → Bool)) (hwords : words ⊆ wordClasses)
    (after : List Char) : Writing where
  plain c := !isEscaped c
  stop := isStop
  words := words
  write := writeString after
  write_plain := by
    intro c rest h
    rw [writeString, List.flatMap_cons, escapeChar_of_plain (by simpa using h)]
    rfl
  write_other := by
    intro c rest h
    obtain ⟨d, tail, htext⟩ := escapeChar_of_escaped (by simpa using h)
    exact ⟨'\\', by rw [writeString, List.flatMap_cons, htext]; rfl, rfl⟩
  write_nil := by
    intro d hd
    rw [← Option.some.inj hd]
    rfl
  other_no_word := by
    intro isWord hword c h
    exact escaped_no_word (hwords hword) (by simpa using h)
  stop_no_word := fun isWord hword c h => escaped_no_word (hwords hword) (stop_isEscaped h)

/-- A string in a JSON text, for rules with word boundaries. -/
def jsonWriting (after : List Char) : Writing := stringWriting wordClasses (fun _ h => h) after

/-! ## Rules -/

/-- The part of a rule that has to be matched inside a string. For passwords it ends with the colon
or the equals sign: what comes after that is there in any JSON text. -/
def matchedPart : DlpFinding → Option Pattern
  | .password => some (sequence [anyCaseBoundary,
      oneOf [anyCase "password", anyCase "passcode", anyCase "authentication answer"], assigns])
  | finding => dlpRule finding

section Rules

variable {words : List (Char → Bool)} {hwords : words ⊆ wordClasses} {after : List Char}

/-- The characters that escapes begin with are those of strings in JSON texts. -/
def StopsAsString (writing : Writing) : Prop := ∀ c, writing.stop c = true → isStop c = true

theorem stringWriting_stops : StopsAsString (stringWriting words hwords after) := fun _ h => h

variable {writing : Writing}

theorem stop_cases {c : Char} (h : isStop c = true) : c = '"' ∨ c = '\\' := by
  simpa [isStop] using h

theorem reads_char (hstops : StopsAsString writing) {accepts : Char → Bool}
    (hquote : accepts '"' = false) (hbackslash : accepts '\\' = false) : (Pattern.char accepts).Reads writing := by
  intro c hc
  rcases stop_cases (hstops c hc) with rfl | rfl
  · exact hquote
  · exact hbackslash

theorem reads_anyCase (hstops : StopsAsString writing) {text : String}
    (h : text.toList.all (fun c => !isStop (foldCase c)) = true) :
    (anyCase text).Reads writing := by
  refine Pattern.Reads.literal ?_
  intro c hc d hd
  have hstop : isStop (foldCase c) = false := by simpa using List.all_eq_true.mp h c hc
  refine beq_eq_false_iff_ne.mpr (fun heq => ?_)
  rw [heq] at hstop
  rcases stop_cases (hstops d hd) with rfl | rfl
  · exact absurd hstop (by decide)
  · exact absurd hstop (by decide)

/-- A repeated class. -/
theorem reads_repeated (hstops : StopsAsString writing) {accepts : Char → Bool}
    (hquote : accepts '"' = false) (hbackslash : accepts '\\' = false) {least : Nat} {most : Option Nat}
    (hbounds : ∀ limit, most = some limit → least ≤ limit) :
    (Pattern.repeated least most (.char accepts)).Reads writing :=
  ⟨reads_char hstops hquote hbackslash, Pattern.consumes_char accepts, hbounds⟩

theorem reads_assigns (hstops : StopsAsString writing) : assigns.Reads writing :=
  ⟨reads_repeated hstops (by decide) (by decide) (by simp),
    reads_char hstops (by decide) (by decide)⟩

theorem reads_digits (hstops : StopsAsString writing) (least most : Nat) (hbounds : least ≤ most) :
    (Pattern.repeated least (some most) digit).Reads writing :=
  reads_repeated hstops (by decide) (by decide)
    (fun _ hlimit => Option.some.inj hlimit ▸ hbounds)

theorem reads_spaces (hstops : StopsAsString writing) (least : Nat) :
    (Pattern.repeated least none space).Reads writing :=
  reads_repeated hstops (by decide) (by decide) (fun _ hlimit => absurd hlimit (by simp))

/-- Alternatives in any case. -/
theorem reads_oneOf (hstops : StopsAsString writing) (texts : List String)
    (h : texts.all (fun text => text.toList.all (fun c => !isStop (foldCase c))) = true) :
    (oneOf (texts.map anyCase)).Reads writing := by
  refine Pattern.Reads.oneOf ?_
  intro pattern hpattern
  obtain ⟨text, htext, rfl⟩ := List.mem_map.mp hpattern
  exact reads_anyCase hstops (List.all_eq_true.mp h text htext)

theorem reads_sequence {patterns : List Pattern}
    (h : patterns.Forall (Pattern.Reads writing)) : (sequence patterns).Reads writing :=
  Pattern.Reads.sequence (List.forall_iff_forall_mem.mp h)

/-- The rule for private keys has no word boundaries. -/
theorem privateKey_reads (hstops : StopsAsString writing) {pattern : Pattern}
    (h : dlpRule .privateKey = some pattern) : pattern.Reads writing := by
  obtain rfl := Option.some.inj h
  have hkinds : (oneOf [anyCase "RSA ", anyCase "EC ", anyCase "OPENSSH ", .empty]).Reads
      writing := by
    refine Pattern.Reads.oneOf ?_
    simp only [List.forall_mem_cons, List.not_mem_nil, false_imp_iff, implies_true, and_true]
    exact ⟨reads_anyCase hstops (by decide), reads_anyCase hstops (by decide),
      reads_anyCase hstops (by decide), trivial⟩
  have hbegin : (anyCase "-----BEGIN ").Reads writing := by
    refine reads_anyCase hstops ?_
    decide +kernel
  have hend : (anyCase "PRIVATE KEY-----").Reads writing := by
    refine reads_anyCase hstops ?_
    decide +kernel
  exact reads_sequence ⟨hbegin, hkinds, hend⟩

theorem anyCaseBoundary_reads (hwords : writing.words = wordClasses) :
    anyCaseBoundary.Reads writing := by
  rw [anyCaseBoundary, Pattern.Reads, hwords]
  exact List.mem_cons_of_mem _ List.mem_cons_self

theorem wordBoundary_reads (hwords : writing.words = wordClasses) :
    (Pattern.boundary isWordChar).Reads writing := by
  rw [Pattern.Reads, hwords]
  exact List.mem_cons_self

/-- The parts of the rules take no stop characters. -/
theorem matchedPart_reads (hstops : StopsAsString writing)
    (hwords : writing.words = wordClasses) {finding : DlpFinding} {pattern : Pattern}
    (h : matchedPart finding = some pattern) : pattern.Reads writing := by
  have hfolded : anyCaseBoundary.Reads writing := anyCaseBoundary_reads hwords
  have hword : (Pattern.boundary isWordChar).Reads writing := wordBoundary_reads hwords
  cases finding with
  | password =>
    obtain rfl := Option.some.inj h
    exact reads_sequence ⟨hfolded,
      reads_oneOf hstops ["password", "passcode", "authentication answer"] (by decide),
      reads_assigns hstops⟩
  | pin =>
    obtain rfl := Option.some.inj h
    exact reads_sequence ⟨hfolded, reads_anyCase hstops (by decide), reads_assigns hstops,
      reads_spaces hstops 0, reads_digits hstops 4 12 (by decide), hfolded⟩
  | recoveryCode =>
    obtain rfl := Option.some.inj h
    exact reads_sequence ⟨hfolded, reads_oneOf hstops ["recovery", "backup"] (by decide),
      reads_spaces hstops 1, reads_anyCase hstops (by decide), reads_assigns hstops,
      reads_spaces hstops 0,
      reads_repeated hstops (by decide) (by decide) (fun _ hlimit => absurd hlimit (by simp)),
      hfolded⟩
  | seedPhrase =>
    obtain rfl := Option.some.inj h
    exact reads_sequence ⟨hfolded, reads_oneOf hstops ["seed", "recovery"] (by decide),
      reads_spaces hstops 1, reads_anyCase hstops (by decide), reads_assigns hstops⟩
  | privateKey => exact privateKey_reads hstops h
  | completeSsn =>
    obtain rfl := Option.some.inj h
    exact reads_sequence ⟨hword, reads_digits hstops 3 3 (by decide),
      reads_char hstops (by decide) (by decide), reads_digits hstops 2 2 (by decide),
      reads_char hstops (by decide) (by decide), reads_digits hstops 4 4 (by decide), hword⟩
  | paymentCard => exact absurd h (by simp [matchedPart, dlpRule])
  | safeCombination =>
    obtain rfl := Option.some.inj h
    exact reads_sequence ⟨hfolded, reads_oneOf hstops ["safe", "vault"] (by decide),
      reads_spaces hstops 1, reads_anyCase hstops (by decide), reads_assigns hstops⟩
  | promptInjection =>
    obtain rfl := Option.some.inj h
    have hall : (Pattern.seq (anyCase "all") space.plus).Reads writing :=
      ⟨reads_anyCase hstops (by decide), reads_spaces hstops 1⟩
    have hconsumes : (Pattern.seq (anyCase "all") space.plus).Consumes :=
      ((Pattern.consumes_char _).sequence _).seq _
    exact reads_sequence ⟨hfolded, reads_oneOf hstops ["ignore", "override"] (by decide),
      reads_spaces hstops 1, ⟨hall, hconsumes, by simp⟩,
      reads_oneOf hstops ["previous", "prior", "system"] (by decide), reads_spaces hstops 1,
      reads_anyCase hstops (by decide), hfolded⟩

/-- A character is one of some letters, in any case. -/
def startsIn (letters : List Char) (c : Char) : Bool := letters.contains (foldCase c)

theorem first_anyCase {text : String} {letters : List Char}
    (h : text.toList.head?.any (fun c => letters.contains (foldCase c)) = true) :
    (anyCase text).First (startsIn letters) := by
  cases htext : text.toList with
  | nil => exact absurd h (by simp [htext])
  | cons c rest =>
    rw [htext] at h
    refine Pattern.First.literal htext ?_
    intro d hd
    have heq : foldCase c = foldCase d := beq_iff_eq.mp hd
    rw [startsIn, ← heq]
    exact h

theorem first_oneOf (texts : List String) {letters : List Char}
    (h : ∀ text ∈ texts, text.toList.head?.any (fun c => letters.contains (foldCase c)) = true) :
    (oneOf (texts.map anyCase)).First (startsIn letters) := by
  refine Pattern.First.oneOf ?_
  intro pattern hpattern
  obtain ⟨text, htext, rfl⟩ := List.mem_map.mp hpattern
  exact first_anyCase (h text htext)

/-- How a rule begins: with a word boundary and a word character, which is not the letter of an
escape other than those of the backspace and the carriage return. -/
structure BeginsWord (isWord : Char → Bool) (initial : Char → Bool) (body : Pattern) : Prop where
  known : isWord ∈ wordClasses
  first : body.First initial
  word : ∀ c, initial c = true → isWord c = true
  letters : ∀ c ∈ ['n', 't', 'f', 'u'], initial c = false

theorem beginsWord_of_first (letters : List Char) {body : Pattern}
    (hfirst : body.First (startsIn letters)) (hword : letters.all isWordChar = true)
    (hletters : ['n', 't', 'f', 'u'].all (fun c => !startsIn letters c) = true) :
    BeginsWord isFoldedWordChar (startsIn letters) body where
  known := List.mem_cons_of_mem _ List.mem_cons_self
  first := hfirst
  word := fun _ hc => List.all_eq_true.mp hword _ (List.contains_iff_mem.mp hc)
  letters := fun c hc => by simpa using List.all_eq_true.mp hletters c hc

/-- Every rule but the one for private keys begins so. -/
theorem matchedPart_begins {finding : DlpFinding} {pattern : Pattern}
    (h : matchedPart finding = some pattern) (hkey : finding ≠ .privateKey) :
    ∃ isWord initial body, pattern = .seq (.boundary isWord) body ∧
      BeginsWord isWord initial body := by
  cases finding with
  | password =>
    obtain rfl := Option.some.inj h
    exact ⟨_, _, _, rfl, beginsWord_of_first ['p', 'a']
      ((first_oneOf ["password", "passcode", "authentication answer"] (by decide)).sequence _)
      (by decide) (by decide)⟩
  | pin =>
    obtain rfl := Option.some.inj h
    exact ⟨_, _, _, rfl, beginsWord_of_first ['p'] ((first_anyCase (by decide)).sequence _)
      (by decide) (by decide)⟩
  | recoveryCode =>
    obtain rfl := Option.some.inj h
    exact ⟨_, _, _, rfl, beginsWord_of_first ['r', 'b']
      ((first_oneOf ["recovery", "backup"] (by decide)).sequence _) (by decide) (by decide)⟩
  | seedPhrase =>
    obtain rfl := Option.some.inj h
    exact ⟨_, _, _, rfl, beginsWord_of_first ['s', 'r']
      ((first_oneOf ["seed", "recovery"] (by decide)).sequence _) (by decide) (by decide)⟩
  | privateKey => exact absurd rfl hkey
  | completeSsn =>
    obtain rfl := Option.some.inj h
    have hdigits : (digit.times 3).First Char.isDigit :=
      (Pattern.First.char (fun _ hc => hc)).repeated 2 (some 3) (by simp)
    exact ⟨_, _, _, rfl, List.mem_cons_self, hdigits.sequence _,
      fun c hc => by simp [isWordChar, Char.isAlphanum, hc],
      List.all_iff_forall_prop.mp (by decide)⟩
  | paymentCard => exact absurd h (by simp [matchedPart, dlpRule])
  | safeCombination =>
    obtain rfl := Option.some.inj h
    exact ⟨_, _, _, rfl, beginsWord_of_first ['s', 'v']
      ((first_oneOf ["safe", "vault"] (by decide)).sequence _) (by decide) (by decide)⟩
  | promptInjection =>
    obtain rfl := Option.some.inj h
    exact ⟨_, _, _, rfl, beginsWord_of_first ['i', 'o']
      ((first_oneOf ["ignore", "override"] (by decide)).sequence _) (by decide) (by decide)⟩

end Rules

/-! ## Findings that are kept -/

/-- The letter of an escape that a rule can begin with: of `recovery` or `backup`. -/
def escapeLetter (c : Char) : Option Char :=
  if c = '\r' then some 'r' else if c = '\x08' then some 'b' else none

/-- The match takes no character that is written as an escape. -/
def MatchesPlainly (pattern : Pattern) (before : Option Char) (rest : List Char) : Prop :=
  ∃ next, next ∈ (pattern.restrict (fun c => !isEscaped c)).ends ⟨before, rest⟩

/-- A rule matches in the string without an escaped character, and not directly after a control
character. -/
def KeptMatch (pattern : Pattern) (s : List Char) : Prop :=
  ∃ z w, s = z ++ w ∧ (∀ c ∈ z.getLast?, 32 ≤ c.toNat) ∧ MatchesPlainly pattern z.getLast? w

/-- A rule matches from the letter of an escape on. -/
def SuppliedMatch (pattern : Pattern) (s : List Char) : Prop :=
  ∃ z c w letter, s = z ++ c :: w ∧ escapeLetter c = some letter ∧
    MatchesPlainly pattern (some '\\') (letter :: w)

section Matches

variable {finding : DlpFinding} {pattern : Pattern} {s z w before after : List Char}

/-- What JSON writes last for a character that is no control character. -/
theorem escapeChar_ends {c : Char} (hc : 32 ≤ c.toNat) : ∃ u, escapeChar c = u ++ [c] := by
  by_cases hescaped : isEscaped c = true
  · have hstop := (isEscaped_iff.mp hescaped).resolve_right (Nat.not_lt.mpr hc)
    exact ⟨['\\'], escapeChar_of_stop hstop⟩
  · exact ⟨[], escapeChar_of_plain (Bool.eq_false_iff.mpr hescaped)⟩

/-- A place of a string in a JSON text. -/
theorem stands_of_not_control (hz : ∀ c ∈ z.getLast?, 32 ≤ c.toNat) (before after w : List Char) :
    (jsonWriting after).Stands ⟨(before ++ '"' :: z.flatMap escapeChar).getLast?,
      writeString after w⟩ ⟨z.getLast?, w⟩ := by
  refine ⟨rfl, ?_⟩
  intro isWord hword
  have hquote : isWord '"' = false := escaped_no_word hword (by decide)
  rcases List.eq_nil_or_concat' z with rfl | ⟨z', c, rfl⟩
  · have hlast : (before ++ ['"']).getLast? = some '"' := List.getLast?_concat
    rw [List.flatMap_nil, hlast]
    exact hquote
  · obtain ⟨u, hu⟩ := escapeChar_ends (hz c List.getLast?_concat)
    have htext : before ++ '"' :: (z' ++ [c]).flatMap escapeChar =
        (before ++ '"' :: (z'.flatMap escapeChar ++ u)) ++ [c] := by
      rw [List.flatMap_append, List.flatMap_cons, List.flatMap_nil, hu]
      simp
    rw [htext, List.getLast?_concat, List.getLast?_concat]

theorem escapeChar_of_letter {c letter : Char} (h : escapeLetter c = some letter) :
    escapeChar c = ['\\', letter] ∧ isEscaped letter = false := by
  unfold escapeLetter at h
  split at h
  · rename_i hc
    rw [← Option.some.inj h, hc]
    decide
  · split at h
    · rename_i hc
      rw [← Option.some.inj h, hc]
      decide
    · exact absurd h (by simp)

theorem stands_of_letter {c letter : Char} (hletter : escapeLetter c = some letter)
    (before after w : List Char) : (jsonWriting after).Stands
      ⟨(before ++ ['\\']).getLast?, letter :: writeString after w⟩
      ⟨some '\\', letter :: w⟩ := by
  have hplain : (jsonWriting after).plain letter = true := by
    show (!isEscaped letter) = true
    rw [(escapeChar_of_letter hletter).2]
    rfl
  refine ⟨((jsonWriting after).write_plain letter w hplain).symm, ?_⟩
  intro isWord _
  rw [List.getLast?_concat]

/-- What the letter of a control character's escape can be. -/
theorem escapeLetter_cases {c : Char} (hc : c.toNat < 32) :
    (∃ letter, escapeLetter c = some letter ∧ escapeChar c = ['\\', letter]) ∨
      ∃ d rest, escapeChar c = '\\' :: d :: rest ∧ d ∈ ['n', 't', 'f', 'u'] := by
  have hcases : (escapeLetter c).any (fun letter => escapeChar c = ['\\', letter]) = true ∨
      (escapeChar c).tail.head?.any (fun d => d ∈ ['n', 't', 'f', 'u']) = true :=
    char_induction (P := fun c =>
      (escapeLetter c).any (fun letter => escapeChar c = ['\\', letter]) = true ∨
        (escapeChar c).tail.head?.any (fun d => d ∈ ['n', 't', 'f', 'u']) = true)
      (by decide +kernel) hc
  rcases hcases with hletter | hother
  · obtain ⟨letter, hsome, hescape⟩ := (Option.any_eq_true _ _).mp hletter
    exact Or.inl ⟨letter, hsome, of_decide_eq_true hescape⟩
  · obtain ⟨d, rest, hescape, -⟩ := escapeChar_of_control hc
    rw [hescape] at hother
    exact Or.inr ⟨d, rest, hescape, of_decide_eq_true hother⟩

/-- A match that is kept, or supplied, is one in every JSON text with the string. -/
theorem exists_match_of_kept (hreads : ∀ after, pattern.Reads (jsonWriting after))
    (h : KeptMatch pattern s ∨ SuppliedMatch pattern s) (before after : List Char) :
    ∃ at_ ∈ places none (before ++ '"' :: writeString after s),
      ∃ next ∈ pattern.ends at_, '"' ∈ next.rest := by
  have hfound : ∀ x y place, (jsonWriting after).Stands ⟨x.getLast?, y⟩ place →
      MatchesPlainly pattern place.before place.rest →
      before ++ '"' :: writeString after s = x ++ y →
        ∃ at_ ∈ places none (before ++ '"' :: writeString after s),
          ∃ next ∈ pattern.ends at_, '"' ∈ next.rest := by
    intro x y place hstands hmatches htext
    obtain ⟨found, hfound⟩ := hmatches
    obtain ⟨next, hnext, hnexts⟩ :=
      ((jsonWriting after).ends_stand (hreads after) hstands).2 found hfound
    refine ⟨⟨x.getLast?, y⟩, mem_places.mpr ⟨x, y, htext, by rw [Option.or_none]⟩, next, hnext, ?_⟩
    rw [hnexts.rest]
    exact List.mem_append_right _ List.mem_cons_self
  rcases h with ⟨z, w, hs, hz, hmatches⟩ | ⟨z, c, w, letter, hs, hletter, hmatches⟩
  · refine hfound _ _ _ (stands_of_not_control hz before after w) hmatches ?_
    rw [hs, writeString, List.flatMap_append, writeString]
    simp
  · refine hfound (before ++ '"' :: z.flatMap escapeChar ++ ['\\']) _ _
      (stands_of_letter hletter _ after w) hmatches ?_
    rw [hs, writeString, List.flatMap_append, List.flatMap_cons,
      (escapeChar_of_letter hletter).1, writeString]
    simp

/-- A text that ends in letters and digits ends in a word character. -/
theorem last_isWord {isWord : Char → Bool} (hword : isWord ∈ wordClasses) {tail : List Char}
    (hne : tail ≠ []) (htail : ∀ e ∈ tail, e.isAlphanum = true) (x : List Char) :
    ∃ e ∈ (x ++ tail).getLast?, isWord e = true := by
  obtain ⟨init, e, rfl⟩ := (List.eq_nil_or_concat' tail).resolve_left hne
  have hlast : (x ++ (init ++ [e])).getLast? = some e := by
    rw [← List.append_assoc, List.getLast?_concat]
  exact ⟨e, hlast, alphanum_isWord hword (htail e (List.mem_append_right _ (by simp)))⟩

/-- A match in the JSON text of the string is kept or supplied. -/
theorem kept_of_match (hreads : ∀ after, pattern.Reads (jsonWriting after))
    {isWord initial : Char → Bool} {body : Pattern}
    (hpattern : pattern = .seq (.boundary isWord) body)
    (hbegins : BeginsWord isWord initial body) {at_ next : Cursor}
    (hat : at_ ∈ places none ('"' :: writeString [] s)) (hnext : next ∈ pattern.ends at_) :
    KeptMatch pattern s ∨ SuppliedMatch pattern s := by
  obtain ⟨x, y, htext, rfl⟩ := mem_places.mp hat
  rw [Option.or_none] at hnext
  obtain ⟨middle, hmiddle, hbody⟩ := mem_ends_seq.mp (hpattern ▸ hnext)
  obtain ⟨rfl, hdiffer⟩ := mem_ends_boundary.mp hmiddle
  obtain ⟨d, hd, hinitial⟩ := hbegins.first _ _ hbody
  have hhead : y.head?.any isWord = true :=
    (Option.any_eq_true _ _).mpr ⟨d, hd, hbegins.word d hinitial⟩
  -- a word character comes next, so none comes before
  have hbefore : ∀ c ∈ x.getLast?, isWord c = false := by
    intro c hc
    have hlast : x.getLast? = some c := hc
    rw [hlast, hhead] at hdiffer
    exact Bool.eq_false_iff.mpr hdiffer
  have hstopped : isStop d = false := by
    by_contra hstop
    have hno := escaped_no_word hbegins.known (stop_isEscaped (Bool.not_eq_false _ ▸ hstop))
    rw [hbegins.word d hinitial] at hno
    exact absurd hno (by decide)
  cases x with
  | nil =>
    rw [List.nil_append] at htext
    rw [← htext] at hd
    rw [← Option.some.inj hd] at hstopped
    exact absurd hstopped (by decide)
  | cons q x =>
    obtain ⟨rfl, hrest⟩ := List.cons.inj htext
    rcases flatMap_append_split hrest with ⟨z, w, hs, hx, hy⟩ |
      ⟨z, c, w, u, v, hs, hc, hu, hv, hx, hy⟩ | ⟨u, hu, hafter⟩
    · have hz : ∀ c ∈ z.getLast?, 32 ≤ c.toNat := by
        intro c hc
        by_contra hcontrol
        obtain ⟨e, rest, hescape, hall⟩ := escapeChar_of_control (Nat.not_le.mp hcontrol)
        obtain ⟨z', rfl⟩ := List.getLast?_eq_some_iff.mp hc
        have hends : '"' :: x = ('"' :: (z'.flatMap escapeChar ++ ['\\'])) ++ e :: rest := by
          rw [hx, List.flatMap_append, List.flatMap_cons, List.flatMap_nil, hescape]
          simp
        obtain ⟨l, hl, hword⟩ := last_isWord hbegins.known (by simp) hall
          ('"' :: (z'.flatMap escapeChar ++ ['\\']))
        rw [← hends] at hl
        exact absurd (hbefore l hl) (by simp [hword])
      obtain ⟨found, hfound, -⟩ := ((jsonWriting []).ends_stand (hreads [])
        (stands_of_not_control hz [] [] w)).1 next (by rw [hx, hy] at hnext; exact hnext)
      exact Or.inl ⟨z, w, hs, hz, found, hfound⟩
    · by_cases hcontrol : c.toNat < 32
      · obtain ⟨e, rest, hescape, hall⟩ := escapeChar_of_control hcontrol
        rw [hescape] at hc
        obtain ⟨q, u, rfl⟩ := List.exists_cons_of_ne_nil hu
        obtain ⟨rfl, hcut⟩ := List.cons.inj hc
        by_cases hinside : u = []
        · have hwhole : v = e :: rest := by
            rw [hcut, hinside]
            rfl
          rw [hwhole] at hy
          rw [hinside] at hx
          rcases escapeLetter_cases hcontrol with ⟨letter, hletter, hshort⟩ | ⟨f, tail, hlong, hf⟩
          · obtain ⟨rfl, rfl⟩ := List.cons.inj (List.cons.inj (hescape.symm.trans hshort)).2
            refine Or.inr ⟨z, c, w, e, hs, hletter, ?_⟩
            have hstands := stands_of_letter hletter ('"' :: z.flatMap escapeChar) [] w
            obtain ⟨found, hfound, -⟩ := ((jsonWriting []).ends_stand (hreads []) hstands).1 next
              (by rw [hx, hy] at hnext; exact hnext)
            exact ⟨found, hfound⟩
          · obtain ⟨rfl, -⟩ := List.cons.inj (List.cons.inj (hescape.symm.trans hlong)).2
            rw [hy] at hd
            rw [← Option.some.inj hd] at hinitial
            exact absurd (hbegins.letters e hf) (by simp [hinitial])
        · obtain ⟨l, hl, hword⟩ := last_isWord hbegins.known hinside
            (fun f hf => hall f (hcut ▸ List.mem_append_left _ hf))
            ('"' :: (z.flatMap escapeChar ++ ['\\']))
          have hends : '"' :: x = ('"' :: (z.flatMap escapeChar ++ ['\\'])) ++ u := by
            rw [hx]
            simp
          rw [← hends] at hl
          exact absurd (hbefore l hl) (by simp [hword])
      · have hlength := congrArg List.length hc
        have hu' := List.length_pos_of_ne_nil hu
        have hv' := List.length_pos_of_ne_nil hv
        rw [List.length_append] at hlength
        by_cases hescaped : isEscaped c = true
        · have hstop := (isEscaped_iff.mp hescaped).resolve_right hcontrol
          rw [escapeChar_of_stop hstop] at hc hlength
          obtain ⟨p, rfl⟩ := List.length_eq_one_iff.mp (by simp at hlength; omega : v.length = 1)
          have hcut : ['\\'] ++ [c] = u ++ [p] := hc
          obtain ⟨rfl, -⟩ := List.cons.inj (List.append_inj' hcut rfl).2
          rw [hy] at hd
          rw [← Option.some.inj hd, hstop] at hstopped
          exact absurd hstopped (by decide)
        · rw [escapeChar_of_plain (Bool.eq_false_iff.mpr hescaped)] at hlength
          simp at hlength
          omega
    · have hlength := congrArg List.length hafter
      have hu' := List.length_pos_of_ne_nil hu
      have hnone : y = [] := by
        refine List.length_eq_zero_iff.mp ?_
        simp at hlength
        omega
      rw [hnone] at hd
      exact absurd hd (by simp)

end Matches

/-! ## Scans of JSON texts -/

section Passwords

/-- Spaces and then other characters match before a character that is no space. -/
theorem exists_ends_password {rest : List Char} (h : ∃ c ∈ rest, isSpace c = false) :
    ∀ before, ∃ next, next ∈
      (Pattern.seq space.star (Pattern.char (fun c => !isSpace c)).plus).ends ⟨before, rest⟩ := by
  have hstar : ∀ at_ next : Cursor, next ∈ space.star.ends at_ ↔
      ∃ count, Allowed 0 none count ∧ space.Times count at_ next :=
    fun _ _ => mem_ends_repeated (Pattern.consumes_char isSpace) (by simp)
  induction rest with
  | nil => exact absurd h (by simp)
  | cons c rest ih =>
    intro before
    by_cases hspace : isSpace c = true
    · have hrest : ∃ d ∈ rest, isSpace d = false := by
        obtain ⟨d, hd, hother⟩ := h
        rcases List.mem_cons.mp hd with rfl | hd
        · exact absurd hspace (by simp [hother])
        · exact ⟨d, hd, hother⟩
      obtain ⟨next, hnext⟩ := ih hrest (some c)
      obtain ⟨middle, hmiddle, hend⟩ := mem_ends_seq.mp hnext
      obtain ⟨count, -, htimes⟩ := (hstar _ _).mp hmiddle
      have hfirst : (⟨some c, rest⟩ : Cursor) ∈ space.ends ⟨before, c :: rest⟩ :=
        mem_ends_char.mpr ⟨c, rest, rfl, hspace, rfl⟩
      have hmore := (hstar ⟨before, c :: rest⟩ middle).mpr
        ⟨count + 1, ⟨Nat.zero_le _, by simp⟩, .succ hfirst htimes⟩
      exact ⟨next, mem_ends_seq.mpr ⟨middle, hmore, hend⟩⟩
    · have hother : (!isSpace c) = true := by simpa using hspace
      have hnone := (hstar ⟨before, c :: rest⟩ ⟨before, c :: rest⟩).mpr
        ⟨0, ⟨Nat.le_refl 0, by simp⟩, .zero _⟩
      have hone : (⟨some c, rest⟩ : Cursor) ∈
          (Pattern.char (fun c => !isSpace c)).plus.ends ⟨before, c :: rest⟩ :=
        (mem_ends_repeated (Pattern.consumes_char _) (by simp)).mpr
          ⟨1, ⟨Nat.le_refl 1, by simp⟩,
            .succ (mem_ends_char.mpr ⟨c, rest, rfl, hother, rfl⟩) (.zero _)⟩
      exact ⟨_, mem_ends_seq.mpr ⟨_, hnone, hone⟩⟩

end Passwords

section Scans

variable {finding : DlpFinding} {pattern : Pattern} {text : List Char}

theorem matchedPart_eq (h : finding ≠ .password) : matchedPart finding = dlpRule finding := by
  cases finding with
  | password => exact absurd rfl h
  | _ => rfl

/-- The rule for passwords, with its part in front. -/
theorem passwordRule_eq : ∃ first second, dlpRule .password = some (.seq first (.seq second
      (.seq assigns (.seq space.star (Pattern.char (fun c => !isSpace c)).plus)))) ∧
    matchedPart .password = some (.seq first (.seq second assigns)) :=
  ⟨_, _, rfl, rfl⟩

/-- A finding of a rule is a match of its part. -/
theorem exists_match_of_finds (hcard : finding ≠ .paymentCard) (h : finds text finding = true) :
    ∃ pattern, matchedPart finding = some pattern ∧
      ∃ at_ ∈ places none text, ∃ next, next ∈ pattern.ends at_ := by
  rw [finds] at h
  by_cases hpassword : finding = .password
  · obtain ⟨first, second, hrule, hpart⟩ := passwordRule_eq
    rw [hpassword, hrule] at h
    obtain ⟨at_, hat, next, hnext⟩ := test_iff.mp h
    obtain ⟨start, hstart, hrest⟩ := mem_ends_seq.mp hnext
    obtain ⟨middle, hmiddle, hrest⟩ := mem_ends_seq.mp hrest
    obtain ⟨sign, hsign, -⟩ := mem_ends_seq.mp hrest
    rw [hpassword]
    exact ⟨_, hpart, at_, hat, sign,
      mem_ends_seq.mpr ⟨start, hstart, mem_ends_seq.mpr ⟨middle, hmiddle, hsign⟩⟩⟩
  · rw [matchedPart_eq hpassword]
    cases hrule : dlpRule finding with
    | none =>
      cases finding with
      | paymentCard => exact absurd rfl hcard
      | _ => exact absurd hrule (by simp [dlpRule])
    | some pattern =>
      rw [hrule] at h
      exact ⟨pattern, rfl, test_iff.mp h⟩

/-- A match of the part of a rule is a finding, where a quote comes after it. -/
theorem finds_of_match (h : matchedPart finding = some pattern)
    (hmatch : ∃ at_ ∈ places none text, ∃ next ∈ pattern.ends at_, '"' ∈ next.rest) :
    finds text finding = true := by
  obtain ⟨at_, hat, next, hnext, hquote⟩ := hmatch
  rw [finds]
  by_cases hpassword : finding = .password
  · obtain ⟨first, second, hrule, hpart⟩ := passwordRule_eq
    rw [hpassword] at h ⊢
    obtain rfl := Option.some.inj (hpart.symm.trans h)
    obtain ⟨start, hstart, hrest⟩ := mem_ends_seq.mp hnext
    obtain ⟨middle, hmiddle, hsign⟩ := mem_ends_seq.mp hrest
    obtain ⟨found, hfound⟩ := exists_ends_password ⟨'"', hquote, by decide⟩ next.before
    rw [hrule]
    exact test_iff.mpr ⟨at_, hat, found, mem_ends_seq.mpr ⟨start, hstart,
      mem_ends_seq.mpr ⟨middle, hmiddle, mem_ends_seq.mpr ⟨next, hsign, hfound⟩⟩⟩⟩
  · rw [matchedPart_eq hpassword] at h
    rw [h]
    exact test_iff.mpr ⟨at_, hat, next, hnext⟩

end Scans

section PrivateKeys

theorem foldCase_of_escaped {c : Char} (h : isEscaped c = true) : foldCase c = c := by
  rcases isEscaped_iff.mp h with hstop | hcontrol
  · rcases stop_cases hstop with rfl | rfl
    · decide
    · decide
  · exact char_induction (P := fun c => foldCase c = c) (by decide +kernel) hcontrol

theorem within_anyCase {text : String}
    (h : text.toList.all (fun c => !isEscaped (foldCase c)) = true) :
    (anyCase text).Within (fun c => !isEscaped c) := by
  refine Pattern.Within.literal ?_
  intro c hc d hd
  have hsame : foldCase c = foldCase d := beq_iff_eq.mp hd
  have hplain : isEscaped (foldCase c) = false := by simpa using List.all_eq_true.mp h c hc
  by_contra hescaped
  have hd' : isEscaped d = true := by simpa using hescaped
  rw [hsame, foldCase_of_escaped hd', hd'] at hplain
  exact absurd hplain (by decide)

/-- The rule for private keys takes no escaped characters. -/
theorem privateKey_within {pattern : Pattern} (h : dlpRule .privateKey = some pattern) :
    pattern.Within (fun c => !isEscaped c) := by
  obtain rfl := Option.some.inj h
  have hbegin : (anyCase "-----BEGIN ").Within (fun c => !isEscaped c) := by
    refine within_anyCase ?_
    decide +kernel
  have hend : (anyCase "PRIVATE KEY-----").Within (fun c => !isEscaped c) := by
    refine within_anyCase ?_
    decide +kernel
  have hkinds : (oneOf [anyCase "RSA ", anyCase "EC ", anyCase "OPENSSH ", .empty]).Within
      (fun c => !isEscaped c) := by
    refine Pattern.Within.oneOf ?_
    simp only [List.forall_mem_cons, List.not_mem_nil, false_imp_iff, implies_true, and_true]
    exact ⟨within_anyCase (by decide), within_anyCase (by decide), within_anyCase (by decide),
      trivial⟩
  refine Pattern.Within.sequence ?_
  simp only [List.forall_mem_cons, List.not_mem_nil, false_imp_iff, implies_true, and_true]
  exact ⟨hbegin, hkinds, hend⟩

/-- A private key in a string is found in every JSON text with the string. -/
theorem finds_privateKey {s : List Char} (h : finds s .privateKey = true)
    (before after : List Char) :
    finds (before ++ '"' :: writeString after s) .privateKey = true := by
  obtain ⟨pattern, hrule⟩ : ∃ pattern, dlpRule .privateKey = some pattern := ⟨_, rfl⟩
  have hwriting : StopsAsString (stringWriting [] (List.nil_subset _) after) := fun _ h => h
  rw [finds, hrule] at h ⊢
  obtain ⟨at_, hat, found, hfound⟩ := test_iff.mp h
  obtain ⟨x, y, htext, rfl⟩ := mem_places.mp hat
  have hstands : (stringWriting [] (List.nil_subset _) after).Stands
      ⟨(before ++ '"' :: x.flatMap escapeChar).getLast?, writeString after y⟩
      ⟨x.getLast?.or none, y⟩ := ⟨rfl, fun _ hword => absurd hword List.not_mem_nil⟩
  rw [← (privateKey_within hrule).restrict_eq] at hfound
  obtain ⟨next, hnext, -⟩ :=
    (Writing.ends_stand (privateKey_reads hwriting hrule) hstands).2 found hfound
  refine test_iff.mpr ⟨_, mem_places.mpr ⟨before ++ '"' :: x.flatMap escapeChar,
    writeString after y, ?_, by rw [Option.or_none]⟩, next, hnext⟩
  rw [htext, writeString, List.flatMap_append, writeString]
  simp

end PrivateKeys

section Cards

/-- A quote ends a run of digits. -/
theorem leadingDigits_quote (w after : List Char) :
    ∀ afterDigit, leadingDigits afterDigit (w ++ '"' :: after) = leadingDigits afterDigit w := by
  induction w with
  | nil => intro afterDigit; simp [leadingDigits, separates]
  | cons c w ih =>
    intro afterDigit
    rw [List.cons_append, leadingDigits, leadingDigits, ih, ih]

theorem trailingDigits_quote (before z : List Char) :
    trailingDigits (before ++ '"' :: z) = trailingDigits z := by
  rw [trailingDigits, List.reverse_append, List.reverse_cons, List.append_assoc,
    List.singleton_append, leadingDigits_quote, trailingDigits]

/-- The windows of a string between quotes are those of its text. -/
theorem finds_card_between {text : List Char} (h : finds text .paymentCard = true)
    (before after : List Char) :
    finds (before ++ '"' :: (text ++ '"' :: after)) .paymentCard = true := by
  obtain ⟨z, w, htext, hdvd, hpasses⟩ := (finds_paymentCard_iff text).mp h
  refine (finds_paymentCard_iff _).mpr ⟨before ++ '"' :: z, w ++ '"' :: after, ?_, ?_, ?_⟩
  · rw [htext]
    simp
  · rwa [trailingDigits_quote]
  · rwa [leadingDigits_quote]

theorem finds_card_of_between {text : List Char}
    (h : finds ('"' :: (text ++ ['"'])) .paymentCard = true) : finds text .paymentCard = true := by
  obtain ⟨z, w, htext, hdvd, hpasses⟩ := (finds_paymentCard_iff _).mp h
  have hquote : ∀ rest, w ≠ '"' :: rest := by
    rintro rest rfl
    rw [leadingDigits_of_not_digit (by decide)] at hpasses
    exact absurd hpasses (by decide)
  cases z with
  | nil => exact absurd htext.symm (hquote _)
  | cons q z =>
    obtain ⟨rfl, hrest⟩ := List.cons.inj htext
    rcases List.append_eq_append_iff.mp hrest with ⟨u, hz, hend⟩ | ⟨u, hcut, hw⟩
    · cases u with
      | nil => exact absurd hend.symm (hquote _)
      | cons p u =>
        have hnone : w = [] := by
          have hlength := congrArg List.length hend
          simp at hlength
          exact hlength.2
        rw [hnone] at hpasses
        exact absurd hpasses (by decide)
    · refine (finds_paymentCard_iff text).mpr ⟨z, u, hcut, ?_, ?_⟩
      · rwa [← trailingDigits_quote []]
      · rwa [hw, leadingDigits_quote] at hpasses

end Cards

/-! ## Strings of a value -/

mutual

/-- A string of a value stands in its JSON text. -/
theorem renderString_inside {s : String} :
    ∀ value, s ∈ stringLeaves value → renderString s.toList <:+: render value
  | .null => fun h => absurd h List.not_mem_nil
  | .bool _ => fun h => absurd h List.not_mem_nil
  | .num _ => fun h => absurd h List.not_mem_nil
  | .str value => fun h => List.mem_singleton.mp h ▸ List.infix_refl _
  | .arr [] => fun h => absurd h List.not_mem_nil
  | .arr (item :: items) => by
    intro h
    rcases List.mem_append.mp h with hitem | hmore
    · exact (renderString_inside item hitem).trans ⟨['['], renderMoreItems items, rfl⟩
    · exact (renderString_inside_items items hmore).trans
        ⟨'[' :: render item, [], by simp [render, renderItems]⟩
  | .obj [] => fun h => absurd h List.not_mem_nil
  | .obj ((key, value) :: members) => by
    intro h
    rcases List.mem_append.mp h with hvalue | hmore
    · exact (renderString_inside value hvalue).trans ⟨'\x7b' :: (renderString key.toList ++ [':']),
        renderMoreMembers members, by simp [render, renderMembers]⟩
    · exact (renderString_inside_members members hmore).trans
        ⟨'\x7b' :: (renderString key.toList ++ ':' :: render value), [], by
          simp [render, renderMembers]⟩

theorem renderString_inside_items {s : String} :
    ∀ items, s ∈ itemLeaves items → renderString s.toList <:+: renderMoreItems items
  | [] => fun h => absurd h List.not_mem_nil
  | item :: items => by
    intro h
    rcases List.mem_append.mp h with hitem | hmore
    · exact (renderString_inside item hitem).trans ⟨[','], renderMoreItems items, rfl⟩
    · exact (renderString_inside_items items hmore).trans
        ⟨',' :: render item, [], by simp [renderMoreItems]⟩

theorem renderString_inside_members {s : String} :
    ∀ members, s ∈ memberLeaves members → renderString s.toList <:+: renderMoreMembers members
  | [] => fun h => absurd h List.not_mem_nil
  | (key, value) :: members => by
    intro h
    rcases List.mem_append.mp h with hvalue | hmore
    · exact (renderString_inside value hvalue).trans ⟨',' :: (renderString key.toList ++ [':']),
        renderMoreMembers members, by simp [renderMoreMembers]⟩
    · exact (renderString_inside_members members hmore).trans
        ⟨',' :: (renderString key.toList ++ ':' :: render value), [], by simp [renderMoreMembers]⟩

end

/-- Where a string stands in the JSON text of a value. -/
theorem render_of_mem {s : String} {value : Json} (h : s ∈ stringLeaves value) :
    ∃ before after, (stringify value).toList = before ++ '"' :: writeString after s.toList := by
  obtain ⟨before, after, htext⟩ := renderString_inside value h
  refine ⟨before, after, ?_⟩
  rw [stringify, String.toList_ofList, ← htext, renderString, writeString]
  simp

/-! ## Main result -/

/-- A finding of the string is made in every JSON text with it: a private key always, a payment
card when the escaped text has a window that passes the check, any other finding when its rule has
a match that is kept, or supplied by an escape. -/
def Kept (s : String) : DlpFinding → Prop
  | .privateKey => True
  | .paymentCard => WindowPasses (String.ofList (s.toList.flatMap escapeChar))
  | finding => ∃ pattern, matchedPart finding = some pattern ∧
      (KeptMatch pattern s.toList ∨ SuppliedMatch pattern s.toList)

/-- The scan of a candidate's value in `completeManualDocumentExtraction`. -/
def scanExtractionValue (value : Json) : Except String Unit :=
  if (scanDlp (stringify value)).filter (· ≠ .promptInjection) ≠ [] then
    .error "manual extraction contains prohibited content"
  else .ok ()

/-- What is found in a string is found in every value with the string, and the routes and the
extraction refuse such a value unless only prompt injection is found. -/
structure ScanCommutes (s : String) : Prop where
  embedded : ∀ value, s ∈ stringLeaves value → scanDlp s ⊆ scanDlp (stringify value)
  refused : ∀ value, s ∈ stringLeaves value → (∃ finding ∈ scanDlp s, finding ≠ .promptInjection) →
    (∀ label, ∃ error, checkValue label value = .error error) ∧
      ∃ error, scanExtractionValue value = .error error

theorem mem_scanDlp {text : String} {finding : DlpFinding} :
    finding ∈ scanDlp text ↔ finds text.toList finding = true := by
  rw [scanDlp, List.mem_filter]
  cases finding <;> simp

theorem kept_iff {s : String} {finding : DlpFinding} (hkey : finding ≠ .privateKey)
    (hcard : finding ≠ .paymentCard) : Kept s finding ↔ ∃ pattern,
      matchedPart finding = some pattern ∧
        (KeptMatch pattern s.toList ∨ SuppliedMatch pattern s.toList) := by
  cases finding with
  | privateKey => exact absurd rfl hkey
  | paymentCard => exact absurd rfl hcard
  | _ => exact Iff.rfl

/-- The parts of the rules read strings in any JSON text. -/
theorem matchedPart_reads_json {finding : DlpFinding} {pattern : Pattern}
    (h : matchedPart finding = some pattern) (after : List Char) :
    pattern.Reads (jsonWriting after) :=
  matchedPart_reads stringWriting_stops rfl h

/-- What is kept is found in every value with the string. -/
theorem mem_scanDlp_of_kept {s : String} {finding : DlpFinding} (hfound : finding ∈ scanDlp s)
    (hkept : Kept s finding) {value : Json} (hvalue : s ∈ stringLeaves value) :
    finding ∈ scanDlp (stringify value) := by
  obtain ⟨before, after, htext⟩ := render_of_mem hvalue
  rw [mem_scanDlp] at hfound ⊢
  rw [htext]
  by_cases hkey : finding = .privateKey
  · rw [hkey] at hfound ⊢
    exact finds_privateKey hfound before after
  · by_cases hcard : finding = .paymentCard
    · rw [hcard] at hkept ⊢
      have hwindows : finds (s.toList.flatMap escapeChar) .paymentCard = true := by
        rw [Kept, WindowPasses, String.toList_ofList] at hkept
        exact (finds_paymentCard_iff _).mpr hkept
      exact finds_card_between hwindows before after
    · obtain ⟨pattern, hpart, hmatch⟩ := (kept_iff hkey hcard).mp hkept
      exact finds_of_match hpart
        (exists_match_of_kept (matchedPart_reads_json hpart) hmatch before after)

/-- What is found in the JSON text of the string alone is kept. -/
theorem kept_of_mem_scanDlp {s : String} {finding : DlpFinding}
    (h : finding ∈ scanDlp (stringify (.str s))) : Kept s finding := by
  have htext : (stringify (.str s)).toList = '"' :: writeString [] s.toList :=
    String.toList_ofList
  rw [mem_scanDlp, htext] at h
  by_cases hkey : finding = .privateKey
  · rw [hkey]
    trivial
  · by_cases hcard : finding = .paymentCard
    · rw [hcard] at h ⊢
      rw [Kept, WindowPasses, String.toList_ofList]
      exact (finds_paymentCard_iff _).mp (finds_card_of_between h)
    · obtain ⟨pattern, hpart, at_, hat, next, hnext⟩ := exists_match_of_finds hcard h
      obtain ⟨isWord, initial, body, hpattern, hbegins⟩ := matchedPart_begins hpart hkey
      exact (kept_iff hkey hcard).mpr
        ⟨pattern, hpart, kept_of_match (matchedPart_reads_json hpart) hpattern hbegins hat hnext⟩

/-- A value with a prohibited finding is refused. -/
theorem refused_of_finding {value : Json} {finding : DlpFinding}
    (h : finding ∈ scanDlp (stringify value)) (hprohibited : finding ≠ .promptInjection) :
    (∀ label, ∃ error, checkValue label value = .error error) ∧
      ∃ error, scanExtractionValue value = .error error := by
  have hsome : (scanDlp (stringify value)).filter (· ≠ .promptInjection) ≠ [] := by
    refine List.ne_nil_of_mem (List.mem_filter.mpr ⟨h, ?_⟩)
    exact decide_eq_true hprohibited
  refine ⟨?_, _, if_pos hsome⟩
  intro label
  by_cases hlarge : (stringify value).utf8ByteSize > 65536
  · exact ⟨_, by rw [checkValue, if_pos hlarge]; rfl⟩
  · have hchecked : checkValue label value =
        requireNoFindings label ((scanDlp (stringify value)).filter (· ≠ .promptInjection)) := by
      rw [checkValue, if_neg hlarge]
    rw [hchecked, requireNoFindings, requireThat, if_neg hsome]
    exact ⟨_, rfl⟩

end LegacyVault
