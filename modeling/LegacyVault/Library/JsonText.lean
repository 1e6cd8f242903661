import Mathlib.Data.List.Basic
import Mathlib.Data.String.Basic
import Mathlib.Tactic.Common

/-!
# JSON values and their compact text

JSON values with ordered object members, the text `JSON.stringify` writes
for them, and a parser for that text. Parsing what was written returns the
value, so the writer is injective: two values with one text are equal.

A number is carried as the literal its writer prints. The parser keeps the
literal it reads, so it does not normalise `1.0` to `1`; lone surrogate
escapes are rejected, since a `String` holds scalar values only.
-/

namespace LegacyVault.JsonText

/-- The characters that may occur in a number literal. -/
def isNumberChar (c : Char) : Bool :=
  c.isDigit || c == '-' || c == '+' || c == '.' || c == 'e' || c == 'E'

/-- A number literal opens with a digit or a minus sign. -/
def isNumberStart (c : Char) : Bool := c.isDigit || c == '-'

/-- A number literal as printed, with the shape the parser relies on. -/
structure NumberLiteral where
  /-- First character of the literal. -/
  first : Char
  /-- Remaining characters of the literal. -/
  rest : List Char
  /-- The first character opens a number. -/
  first_valid : isNumberStart first = true
  /-- The remaining characters belong to a number. -/
  rest_valid : rest.all isNumberChar = true
  deriving DecidableEq

/-- A JSON value. Object members keep their order. -/
inductive Json where
  | null
  | bool (value : Bool)
  | num (literal : NumberLiteral)
  | str (value : String)
  | arr (items : List Json)
  | obj (members : List (String × Json))

/-- Lower-case hexadecimal digit of a number below sixteen. -/
def hexDigit (n : Nat) : Char :=
  if n < 10 then Char.ofNat (48 + n) else Char.ofNat (87 + n)

/-- Value of a hexadecimal digit. -/
def hexValue (c : Char) : Option Nat :=
  if '0' ≤ c ∧ c ≤ '9' then some (c.toNat - 48)
  else if 'a' ≤ c ∧ c ≤ 'f' then some (c.toNat - 87)
  else if 'A' ≤ c ∧ c ≤ 'F' then some (c.toNat - 55)
  else none

/-- Escape of one character inside a string, as `JSON.stringify` writes it. -/
def escapeChar (c : Char) : List Char :=
  if c = '"' then ['\\', '"']
  else if c = '\\' then ['\\', '\\']
  else if c = '\x08' then ['\\', 'b']
  else if c = '\x0c' then ['\\', 'f']
  else if c = '\n' then ['\\', 'n']
  else if c = '\r' then ['\\', 'r']
  else if c = '\t' then ['\\', 't']
  else if c.toNat < 32 then ['\\', 'u', '0', '0', hexDigit (c.toNat / 16), hexDigit (c.toNat % 16)]
  else [c]

/-- A quoted string. -/
def renderString (s : List Char) : List Char :=
  '"' :: (s.flatMap escapeChar ++ ['"'])

mutual

/-- The compact text of a value. -/
def render : Json → List Char
  | .null => ['n', 'u', 'l', 'l']
  | .bool true => ['t', 'r', 'u', 'e']
  | .bool false => ['f', 'a', 'l', 's', 'e']
  | .num literal => literal.first :: literal.rest
  | .str value => renderString value.toList
  | .arr items => '[' :: renderItems items
  | .obj members => '\x7b' :: renderMembers members

/-- The items of an array and its closing bracket. -/
def renderItems : List Json → List Char
  | [] => [']']
  | item :: items => render item ++ renderMoreItems items

/-- The items after the first, each behind a comma, and the closing bracket. -/
def renderMoreItems : List Json → List Char
  | [] => [']']
  | item :: items => ',' :: (render item ++ renderMoreItems items)

/-- The members of an object and its closing brace. -/
def renderMembers : List (String × Json) → List Char
  | [] => ['\x7d']
  | (key, value) :: members =>
    renderString key.toList ++ (':' :: (render value ++ renderMoreMembers members))

/-- The members after the first, each behind a comma, and the closing brace. -/
def renderMoreMembers : List (String × Json) → List Char
  | [] => ['\x7d']
  | (key, value) :: members =>
    ',' :: (renderString key.toList ++ (':' :: (render value ++ renderMoreMembers members)))

end

/-- `JSON.stringify` without indentation. -/
def stringify (value : Json) : String := String.ofList (render value)

/-- JSON whitespace. -/
def isWhitespace (c : Char) : Bool := c == ' ' || c == '\n' || c == '\r' || c == '\t'

/-- Drop leading whitespace. -/
def skipWhitespace : List Char → List Char
  | [] => []
  | c :: cs => if isWhitespace c then skipWhitespace cs else c :: cs

/-- Four hexadecimal digits naming a scalar value, as they stand after `\u`. -/
def parseHexEscape : List Char → Option (Char × List Char)
  | a :: b :: c :: d :: rest => do
    let a ← hexValue a
    let b ← hexValue b
    let c ← hexValue c
    let d ← hexValue d
    let code := 4096 * a + 256 * b + 16 * c + d
    if code < 55296 ∨ 57343 < code then some (Char.ofNat code, rest) else none
  | _ => none

/-- The escape sequence after a backslash. -/
def parseEscape : List Char → Option (Char × List Char)
  | [] => none
  | c :: rest =>
    if c = '"' then some ('"', rest)
    else if c = '\\' then some ('\\', rest)
    else if c = '/' then some ('/', rest)
    else if c = 'b' then some ('\x08', rest)
    else if c = 'f' then some ('\x0c', rest)
    else if c = 'n' then some ('\n', rest)
    else if c = 'r' then some ('\r', rest)
    else if c = 't' then some ('\t', rest)
    else if c = 'u' then parseHexEscape rest
    else none

/-- The characters of a string after its opening quote, up to the closing one. -/
def parseStringBody : Nat → List Char → Option (List Char × List Char)
  | 0, _ => none
  | _ + 1, [] => none
  | fuel + 1, c :: rest =>
    if c = '"' then some ([], rest)
    else if c = '\\' then do
      let (escaped, rest) ← parseEscape rest
      let (characters, rest) ← parseStringBody fuel rest
      some (escaped :: characters, rest)
    else if c.toNat < 32 then none
    else do
      let (characters, rest) ← parseStringBody fuel rest
      some (c :: characters, rest)

/-- A number literal whose first character has been read. -/
def parseNumber (first : Char) (rest : List Char) : Option (Json × List Char) :=
  if h : isNumberStart first = true then
    some (.num ⟨first, rest.takeWhile isNumberChar, h, List.all_takeWhile⟩,
      rest.dropWhile isNumberChar)
  else none

/-- A fixed word and the value it stands for. -/
def parseWord (word : List Char) (value : Json) (text : List Char) : Option (Json × List Char) :=
  if word.isPrefixOf text then some (value, text.drop word.length) else none

mutual

/-- One value, with the text left behind it. -/
def parseValue : Nat → List Char → Option (Json × List Char)
  | 0, _ => none
  | fuel + 1, text =>
    match skipWhitespace text with
    | [] => none
    | c :: rest =>
      if c = 'n' then parseWord ['u', 'l', 'l'] .null rest
      else if c = 't' then parseWord ['r', 'u', 'e'] (.bool true) rest
      else if c = 'f' then parseWord ['a', 'l', 's', 'e'] (.bool false) rest
      else if c = '"' then do
        let (characters, rest) ← parseStringBody (rest.length + 1) rest
        some (.str (String.ofList characters), rest)
      else if c = '[' then
        if (skipWhitespace rest).head? = some ']' then
          some (.arr [], (skipWhitespace rest).tail)
        else do
          let (items, rest) ← parseItems fuel rest
          some (.arr items, rest)
      else if c = '\x7b' then
        if (skipWhitespace rest).head? = some '\x7d' then
          some (.obj [], (skipWhitespace rest).tail)
        else do
          let (members, rest) ← parseMembers fuel rest
          some (.obj members, rest)
      else parseNumber c rest

/-- The items of a non-empty array, up to the closing bracket. -/
def parseItems : Nat → List Char → Option (List Json × List Char)
  | 0, _ => none
  | fuel + 1, text => do
    let (item, rest) ← parseValue fuel text
    match skipWhitespace rest with
    | [] => none
    | c :: rest =>
      if c = ']' then some ([item], rest)
      else if c = ',' then do
        let (items, rest) ← parseItems fuel rest
        some (item :: items, rest)
      else none

/-- The members of a non-empty object, up to the closing brace. -/
def parseMembers : Nat → List Char → Option (List (String × Json) × List Char)
  | 0, _ => none
  | fuel + 1, text =>
    match skipWhitespace text with
    | [] => none
    | c :: rest =>
      if c = '"' then do
        let (key, rest) ← parseStringBody (rest.length + 1) rest
        match skipWhitespace rest with
        | [] => none
        | c :: rest =>
          if c = ':' then do
            let (value, rest) ← parseValue fuel rest
            match skipWhitespace rest with
            | [] => none
            | c :: rest =>
              if c = '\x7d' then some ([(String.ofList key, value)], rest)
              else if c = ',' then do
                let (members, rest) ← parseMembers fuel rest
                some ((String.ofList key, value) :: members, rest)
              else none
          else none
      else none

end

/-- `JSON.parse`: one value and nothing but whitespace behind it. -/
def parse (text : String) : Option Json :=
  match parseValue (text.toList.length + 1) text.toList with
  | some (value, rest) => if skipWhitespace rest = [] then some value else none
  | none => none

theorem hexValue_hexDigit : ∀ n < 16, hexValue (hexDigit n) = some n := by decide

/-- An escaped character reads back as that character. -/
theorem parseStringBody_escapeChar (fuel : Nat) (c : Char) (text : List Char) :
    parseStringBody (fuel + 1) (escapeChar c ++ text) =
      (parseStringBody fuel text).map (fun r => (c :: r.1, r.2)) := by
  unfold escapeChar
  split_ifs with h1 h2 h3 h4 h5 h6 h7 h8
  · subst h1; cases h : parseStringBody fuel text <;> simp [parseStringBody, parseEscape, h]
  · subst h2; cases h : parseStringBody fuel text <;> simp [parseStringBody, parseEscape, h]
  · subst h3; cases h : parseStringBody fuel text <;> simp [parseStringBody, parseEscape, h]
  · subst h4; cases h : parseStringBody fuel text <;> simp [parseStringBody, parseEscape, h]
  · subst h5; cases h : parseStringBody fuel text <;> simp [parseStringBody, parseEscape, h]
  · subst h6; cases h : parseStringBody fuel text <;> simp [parseStringBody, parseEscape, h]
  · subst h7; cases h : parseStringBody fuel text <;> simp [parseStringBody, parseEscape, h]
  · have hhigh : hexValue (hexDigit (c.toNat / 16)) = some (c.toNat / 16) :=
      hexValue_hexDigit _ (by omega)
    have hlow : hexValue (hexDigit (c.toNat % 16)) = some (c.toNat % 16) :=
      hexValue_hexDigit _ (by omega)
    have hzero : hexValue '0' = some 0 := rfl
    have hcode : 16 * (c.toNat / 16) + c.toNat % 16 = c.toNat := Nat.div_add_mod _ _
    have hscalar : c.toNat < 55296 ∨ 57343 < c.toNat := by omega
    cases h : parseStringBody fuel text <;>
      simp [parseStringBody, parseEscape, parseHexEscape, hhigh, hlow, hzero, hcode, hscalar, h]
  · cases h : parseStringBody fuel text <;> simp [parseStringBody, h, h1, h2, h8]

/-- The body of a rendered string reads back, whatever follows its quote. -/
theorem parseStringBody_escaped (s rest : List Char) (fuel : Nat) (hf : s.length < fuel) :
    parseStringBody fuel (s.flatMap escapeChar ++ '"' :: rest) = some (s, rest) := by
  induction s generalizing fuel with
  | nil =>
    cases fuel with
    | zero => omega
    | succ fuel => simp [parseStringBody]
  | cons c s ih =>
    cases fuel with
    | zero => omega
    | succ fuel =>
      rw [List.flatMap_cons, List.append_assoc, parseStringBody_escapeChar,
        ih fuel (by simpa using hf)]
      rfl

theorem escapeChar_ne_nil (c : Char) : 1 ≤ (escapeChar c).length := by
  unfold escapeChar
  split_ifs <;> simp

theorem length_le_flatMap_escapeChar (s : List Char) :
    s.length ≤ (s.flatMap escapeChar).length := by
  induction s with
  | nil => simp
  | cons c s ih =>
    have h := escapeChar_ne_nil c
    rw [List.flatMap_cons, List.length_append, List.length_cons]
    omega

/-- A rendered string after its opening quote, read with the fuel the value parser gives it. -/
theorem parseStringBody_renderString (s rest : List Char) :
    parseStringBody ((s.flatMap escapeChar ++ '"' :: rest).length + 1)
      (s.flatMap escapeChar ++ '"' :: rest) = some (s, rest) := by
  apply parseStringBody_escaped
  have h := length_le_flatMap_escapeChar s
  simp only [List.length_append]
  omega

/-- The text after a value does not continue a number. -/
def EndsNumber (rest : List Char) : Prop := ∀ c ∈ rest.head?, isNumberChar c = false

theorem takeWhile_number {literal rest : List Char} (h : literal.all isNumberChar = true)
    (hr : EndsNumber rest) : (literal ++ rest).takeWhile isNumberChar = literal ∧
      (literal ++ rest).dropWhile isNumberChar = rest := by
  rw [List.all_eq_true] at h
  rw [List.takeWhile_append_of_pos h, List.dropWhile_append_of_pos h]
  cases rest with
  | nil => simp
  | cons c rest =>
    have hc : isNumberChar c = false := hr c (by simp)
    simp [hc]

/-- Rendered values open with a character that is neither blank nor a closing bracket. -/
theorem render_head (j : Json) : ∃ c cs, render j = c :: cs ∧ isWhitespace c = false ∧ c ≠ ']' := by
  cases j with
  | null => exact ⟨'n', _, by simp [render]; rfl, by decide, by decide⟩
  | bool b =>
    cases b with
    | true => exact ⟨'t', _, by simp [render]; rfl, by decide, by decide⟩
    | false => exact ⟨'f', _, by simp [render]; rfl, by decide, by decide⟩
  | num literal =>
    refine ⟨literal.first, literal.rest, by simp [render], ?_, ?_⟩
    · have h := literal.first_valid
      by_contra hw
      have hw : isWhitespace literal.first = true := by simpa using hw
      simp only [isWhitespace, Bool.or_eq_true, beq_iff_eq] at hw
      rcases hw with ((hw | hw) | hw) | hw <;> rw [hw] at h <;> exact absurd h (by decide)
    · intro hw
      have h := literal.first_valid
      rw [hw] at h
      exact absurd h (by decide)
  | str s => exact ⟨'"', _, by simp [render, renderString]; rfl, by decide, by decide⟩
  | arr items => exact ⟨'[', _, by simp [render]; rfl, by decide, by decide⟩
  | obj members => exact ⟨'\x7b', _, by simp [render]; rfl, by decide, by decide⟩

@[simp] theorem skipWhitespace_cons {c : Char} (cs : List Char) (h : isWhitespace c = false) :
    skipWhitespace (c :: cs) = c :: cs := by
  simp [skipWhitespace, h]

theorem isNumberStart_dispatch {c : Char} (h : isNumberStart c = true) :
    c ≠ 'n' ∧ c ≠ 't' ∧ c ≠ 'f' ∧ c ≠ '"' ∧ c ≠ '[' ∧ c ≠ '\x7b' := by
  refine ⟨?_, ?_, ?_, ?_, ?_, ?_⟩ <;> (rintro rfl; exact absurd h (by decide))

theorem isNumberStart_not_blank {c : Char} (h : isNumberStart c = true) :
    isWhitespace c = false := by
  obtain ⟨_, _, hr, hw, _⟩ := render_head (.num ⟨c, [], h, rfl⟩)
  simp only [render, List.cons.injEq] at hr
  rw [hr.1]
  exact hw

/-- Reading one rendered item reduces an item list to the character behind it. -/
theorem parseItems_step {fuel : Nat} {item : Json} {text rest : List Char}
    (h : parseValue fuel text = some (item, rest)) :
    parseItems (fuel + 1) text =
      match skipWhitespace rest with
      | [] => none
      | c :: rest =>
        if c = ']' then some ([item], rest)
        else if c = ',' then (parseItems fuel rest).map (fun r => (item :: r.1, r.2))
        else none := by
  rw [parseItems, h]
  cases hs : skipWhitespace rest with
  | nil => simp [hs]
  | cons c cs =>
    by_cases hc : c = ']'
    · simp [hs, hc]
    · by_cases hc' : c = ','
      · subst hc'
        cases hp : parseItems fuel cs <;> simp [hs, hp]
      · simp [hs, hc, hc']

/-- Reading one rendered member reduces a member list to the character behind it. -/
theorem parseMembers_step {fuel : Nat} {key : String} {value : Json} {text rest : List Char}
    (h : parseValue fuel text = some (value, rest)) :
    parseMembers (fuel + 1) (renderString key.toList ++ ':' :: text) =
      match skipWhitespace rest with
      | [] => none
      | c :: rest =>
        if c = '\x7d' then some ([(key, value)], rest)
        else if c = ',' then (parseMembers fuel rest).map (fun r => ((key, value) :: r.1, r.2))
        else none := by
  have hkey := parseStringBody_renderString key.toList (':' :: text)
  simp only [renderString, List.cons_append, List.append_assoc, List.nil_append]
  rw [parseMembers, skipWhitespace_cons _ (by decide)]
  simp only [if_pos, hkey, Option.bind_eq_bind, Option.bind_some]
  rw [skipWhitespace_cons _ (by decide)]
  simp only [if_pos, h, Option.bind_some, String.ofList_toList]
  cases hs : skipWhitespace rest with
  | nil => simp
  | cons c cs =>
    by_cases hc : c = '\x7d'
    · simp [hc]
    · by_cases hc' : c = ','
      · subst hc'
        cases hp : parseMembers fuel cs <;> simp [hp]
      · simp [hc, hc']

theorem renderMoreItems_ends (items : List Json) (rest : List Char) :
    EndsNumber (renderMoreItems items ++ rest) := by
  cases items <;> simp [renderMoreItems, EndsNumber] <;> decide

theorem renderMoreMembers_ends (members : List (String × Json)) (rest : List Char) :
    EndsNumber (renderMoreMembers members ++ rest) := by
  cases members <;> simp [renderMoreMembers, EndsNumber] <;> decide

mutual

/-- A rendered value reads back, whatever follows it, as long as that ends a number. -/
theorem parseValue_render (j : Json) (rest : List Char) (fuel : Nat)
    (hf : (render j).length ≤ fuel) (hr : EndsNumber rest) :
    parseValue fuel (render j ++ rest) = some (j, rest) := by
  obtain ⟨head, tail, hhead, hblank, -⟩ := render_head j
  obtain ⟨fuel, rfl⟩ : ∃ n, fuel = n + 1 :=
    ⟨fuel - 1, by rw [hhead, List.length_cons] at hf; omega⟩
  match j with
  | .null => simp [render, parseValue, parseWord, isWhitespace]
  | .bool true => simp [render, parseValue, parseWord, isWhitespace]
  | .bool false => simp [render, parseValue, parseWord, isWhitespace]
  | .num literal =>
    obtain ⟨h1, h2, h3, h4, h5, h6⟩ := isNumberStart_dispatch literal.first_valid
    obtain ⟨htake, hdrop⟩ := takeWhile_number literal.rest_valid hr
    have hw := isNumberStart_not_blank literal.first_valid
    simp only [render, List.cons_append, parseValue, skipWhitespace_cons _ hw, h1, h2, h3, h4, h5,
      h6, if_false]
    simp [parseNumber, literal.first_valid, htake, hdrop]
  | .str value =>
    have hbody := parseStringBody_renderString value.toList rest
    simp only [render, renderString, List.cons_append, List.append_assoc, List.nil_append]
    rw [parseValue, skipWhitespace_cons _ (by decide)]
    simp only [hbody]
    simp
  | .arr [] => simp [render, renderItems, parseValue, isWhitespace]
  | .arr (item :: items) =>
    have hitems := parseItems_render item items rest fuel
      (by simp only [render, renderItems, List.length_cons] at hf; omega)
    obtain ⟨c, cs, hc, hw, hne⟩ := render_head item
    simp only [render, renderItems, List.cons_append]
    rw [parseValue, skipWhitespace_cons _ (by decide)]
    simp only [hitems]
    rw [hc, List.cons_append, List.cons_append, skipWhitespace_cons _ hw]
    simp [hne]
  | .obj [] => simp [render, renderMembers, parseValue, isWhitespace]
  | .obj ((key, value) :: members) =>
    have hmembers := parseMembers_render key value members rest fuel
      (by simp only [render, renderMembers, List.length_cons] at hf; omega)
    simp only [render, renderMembers, List.cons_append, List.append_assoc]
    rw [parseValue, skipWhitespace_cons _ (by decide)]
    simp only [List.append_assoc, List.cons_append] at hmembers
    simp only [hmembers]
    simp [renderString, isWhitespace]
termination_by fuel

/-- The items of a rendered array read back. -/
theorem parseItems_render (item : Json) (items : List Json) (rest : List Char) (fuel : Nat)
    (hf : (render item ++ renderMoreItems items).length ≤ fuel) :
    parseItems fuel (render item ++ renderMoreItems items ++ rest) =
      some (item :: items, rest) := by
  rw [List.length_append] at hf
  obtain ⟨fuel, rfl⟩ : ∃ n, fuel = n + 1 := by
    refine ⟨fuel - 1, ?_⟩
    cases items <;> simp only [renderMoreItems, List.length_cons, List.length_nil] at hf <;> omega
  match items with
  | [] =>
    simp only [renderMoreItems, List.length_cons, List.length_nil] at hf
    have hvalue := parseValue_render item (renderMoreItems [] ++ rest) fuel (by omega)
      (renderMoreItems_ends [] rest)
    rw [List.append_assoc, parseItems_step hvalue]
    simp [renderMoreItems, isWhitespace]
  | next :: items =>
    simp only [renderMoreItems, List.length_cons, List.length_append] at hf
    have hvalue := parseValue_render item (renderMoreItems (next :: items) ++ rest) fuel (by omega)
      (renderMoreItems_ends (next :: items) rest)
    have hmore := parseItems_render next items rest fuel (by rw [List.length_append]; omega)
    rw [List.append_assoc, parseItems_step hvalue]
    simp only [renderMoreItems, List.cons_append]
    rw [skipWhitespace_cons _ (by decide)]
    rw [List.append_assoc] at hmore
    simp [hmore]
termination_by fuel

/-- The members of a rendered object read back. -/
theorem parseMembers_render (key : String) (value : Json) (members : List (String × Json))
    (rest : List Char) (fuel : Nat)
    (hf : (renderString key.toList ++
      (':' :: (render value ++ renderMoreMembers members))).length ≤ fuel) :
    parseMembers fuel (renderString key.toList ++
      (':' :: (render value ++ renderMoreMembers members)) ++ rest) =
        some ((key, value) :: members, rest) := by
  rw [List.length_append, List.length_cons, List.length_append] at hf
  obtain ⟨fuel, rfl⟩ : ∃ n, fuel = n + 1 := ⟨fuel - 1, by omega⟩
  rw [List.append_assoc, List.cons_append, List.append_assoc]
  match members with
  | [] =>
    have hvalue := parseValue_render value (renderMoreMembers [] ++ rest) fuel (by omega)
      (renderMoreMembers_ends [] rest)
    rw [parseMembers_step hvalue]
    simp [renderMoreMembers, isWhitespace]
  | (nextKey, next) :: members =>
    have hvalue := parseValue_render value (renderMoreMembers ((nextKey, next) :: members) ++ rest)
      fuel (by omega) (renderMoreMembers_ends _ rest)
    simp only [renderMoreMembers, List.length_cons] at hf
    have hmore := parseMembers_render nextKey next members rest fuel (by omega)
    rw [parseMembers_step hvalue]
    simp only [renderMoreMembers, List.cons_append]
    rw [skipWhitespace_cons _ (by decide)]
    simp only [List.append_assoc, List.cons_append] at hmore
    simp [hmore]
termination_by fuel

end

/-- Parsing the text of a value returns the value. -/
theorem parse_stringify (j : Json) : parse (stringify j) = some j := by
  have h := parseValue_render j [] ((render j).length + 1) (by omega) (by simp [EndsNumber])
  rw [List.append_nil] at h
  simp [parse, stringify, h, skipWhitespace]

/-- The writer is injective: values with one text are equal. -/
theorem stringify_injective : Function.Injective stringify := by
  intro a b h
  have hparse := congrArg parse h
  rw [parse_stringify, parse_stringify] at hparse
  exact Option.some.inj hparse

@[simp] theorem stringify_inj {a b : Json} : stringify a = stringify b ↔ a = b :=
  stringify_injective.eq_iff

/-- Equality of values is decided on their texts. -/
instance : DecidableEq Json := fun a b => decidable_of_iff (render a = render b)
  ⟨fun h => stringify_injective (congrArg String.ofList h), congrArg render⟩

/-- The literal of a natural number. -/
def NumberLiteral.ofNat (n : Nat) : NumberLiteral where
  first := (Nat.toDigits 10 n).headD '0'
  rest := (Nat.toDigits 10 n).tail
  first_valid := by
    have h := @Nat.isDigit_of_mem_toDigits 10 n
    cases hd : Nat.toDigits 10 n with
    | nil => rfl
    | cons c cs => simp [isNumberStart, h (c := c) (by omega) (by omega) (by simp [hd])]
  rest_valid := by
    rw [List.all_eq_true]
    intro c hc
    have h := Nat.isDigit_of_mem_toDigits (c := c) (b := 10) (n := n) (by omega) (by omega)
      (List.mem_of_mem_tail hc)
    simp [isNumberChar, h]

/-- A natural number as a JSON value. -/
def Json.nat (n : Nat) : Json := .num (.ofNat n)

theorem NumberLiteral.ofNat_injective : Function.Injective NumberLiteral.ofNat := by
  intro a b h
  have hfirst : (ofNat a).first = (ofNat b).first := by rw [h]
  have hrest : (ofNat a).rest = (ofNat b).rest := by rw [h]
  have hcons : ∀ n, Nat.toDigits 10 n = (ofNat n).first :: (ofNat n).rest := by
    intro n
    simp only [ofNat]
    cases hd : Nat.toDigits 10 n with
    | nil => exact absurd hd Nat.toDigits_ne_nil
    | cons c cs => rfl
  have hdigits : Nat.toDigits 10 a = Nat.toDigits 10 b := by
    rw [hcons a, hcons b, hfirst, hrest]
  rw [← Nat.ofDigitChars_ten_toDigits (n := a), hdigits, Nat.ofDigitChars_ten_toDigits]

@[simp] theorem Json.nat_inj {a b : Nat} : Json.nat a = Json.nat b ↔ a = b := by
  simp [Json.nat, NumberLiteral.ofNat_injective.eq_iff]

/-- Names of the members of an object. -/
def memberNames : Json → List String
  | .obj members => members.map Prod.fst
  | _ => []

/-- Value of a member of an object. -/
def member (name : String) : Json → Option Json
  | .obj members => members.lookup name
  | _ => none

/-- A member that has a value is one of the members. -/
theorem mem_memberNames_of_member {name : String} {body value : Json}
    (h : member name body = some value) : name ∈ memberNames body := by
  cases body with
  | obj members =>
    induction members with
    | nil => simp [member] at h
    | cons entry members ih =>
      obtain ⟨key, other⟩ := entry
      by_cases hkey : name = key
      · subst hkey
        exact List.mem_cons_self
      · have hne : (name == key) = false := beq_eq_false_iff_ne.mpr hkey
        have hrest : member name (.obj members) = some value := by
          simpa [member, List.lookup_cons, hne] using h
        exact List.mem_cons_of_mem _ (ih hrest)
  | _ => simp [member] at h

end LegacyVault.JsonText
