import Mathlib.Data.List.Basic
import Mathlib.Tactic.Common

/-!
# Backtracking regular expressions

Patterns over characters with greedy quantifiers and word boundaries. A match
lists the places it can end at, in the order a backtracking matcher prefers
them. `Pattern.test` asks for a match anywhere in a text, and
`Pattern.matchAll` lists the matches from left to right.
-/

namespace LegacyVault.RegularExpressions

/-- A place in a text: the character before it, and what comes after it. -/
structure Cursor where
  /-- The character before. -/
  before : Option Char
  /-- The characters after. -/
  rest : List Char
  deriving DecidableEq

/-- A pattern. -/
inductive Pattern where
  /-- One character of a class. -/
  | char (accepts : Char → Bool)
  /-- Nothing. -/
  | empty
  /-- One pattern after the other. -/
  | seq (first second : Pattern)
  /-- One pattern or else the other. -/
  | alt (first second : Pattern)
  /-- A greedy quantifier, with no bound for `none`. -/
  | repeated (least : Nat) (most : Option Nat) (body : Pattern)
  /-- A boundary between a word character and another, or an end of the text. -/
  | boundary (isWord : Char → Bool)

/-- Repeat a match greedily. A repetition that is not required must go on in the text. -/
def repeatEnds (body : Cursor → List Cursor) : Nat → Nat → Option Nat → Cursor → List Cursor
  | 0, least, _, at_ => if least = 0 then [at_] else []
  | fuel + 1, least, most, at_ =>
    if most = some 0 then [at_]
    else
      let more := ((body at_).filter (fun next =>
        0 < least || next.rest.length < at_.rest.length)).flatMap
          (repeatEnds body fuel (least - 1) (most.map (· - 1)))
      if least = 0 then more ++ [at_] else more

/-- Where a match that begins at the cursor can end, preferred ends first. -/
def Pattern.ends : Pattern → Cursor → List Cursor
  | char accepts, ⟨_, c :: rest⟩ => if accepts c then [⟨some c, rest⟩] else []
  | char _, ⟨_, []⟩ => []
  | empty, at_ => [at_]
  | seq first second, at_ => (first.ends at_).flatMap second.ends
  | alt first second, at_ => first.ends at_ ++ second.ends at_
  | repeated least most body, at_ =>
    repeatEnds body.ends (least + at_.rest.length) least most at_
  | boundary isWord, at_ =>
    if at_.before.any isWord = at_.rest.head?.any isWord then [] else [at_]

/-- The places of a text. -/
def places : Option Char → List Char → List Cursor
  | before, [] => [⟨before, []⟩]
  | before, c :: rest => ⟨before, c :: rest⟩ :: places (some c) rest

/-- `RegExp.prototype.test`. -/
def Pattern.test (pattern : Pattern) (text : List Char) : Bool :=
  (places none text).any (fun at_ => !(pattern.ends at_).isEmpty)

/-- The matches after a cursor, each beginning where the one before it ended or later. -/
def Pattern.matchesFrom (pattern : Pattern) : Nat → Cursor → List (List Char)
  | 0, _ => []
  | fuel + 1, at_ =>
    match (pattern.ends at_).head?, at_.rest with
    | some found, rest =>
      if found.rest.length < rest.length then
        rest.take (rest.length - found.rest.length) :: matchesFrom pattern fuel found
      else match rest with
        | [] => [[]]
        | c :: rest => [] :: matchesFrom pattern fuel ⟨some c, rest⟩
    | none, [] => []
    | none, c :: rest => matchesFrom pattern fuel ⟨some c, rest⟩

/-- `String.prototype.match` with a global pattern. -/
def Pattern.matchAll (pattern : Pattern) (text : List Char) : List (List Char) :=
  pattern.matchesFrom (text.length + 1) ⟨none, text⟩

section Building

/-- Patterns in sequence. -/
def sequence : List Pattern → Pattern
  | [] => .empty
  | [pattern] => pattern
  | pattern :: patterns => .seq pattern (sequence patterns)

/-- The first of several patterns that matches. -/
def oneOf : List Pattern → Pattern
  | [] => .char (fun _ => false)
  | [pattern] => pattern
  | pattern :: patterns => .alt pattern (oneOf patterns)

/-- A pattern once or more. -/
def Pattern.plus (pattern : Pattern) : Pattern := .repeated 1 none pattern

/-- A pattern any number of times. -/
def Pattern.star (pattern : Pattern) : Pattern := .repeated 0 none pattern

/-- A pattern once or not at all. -/
def Pattern.optional (pattern : Pattern) : Pattern := .repeated 0 (some 1) pattern

/-- A pattern exactly some number of times. -/
def Pattern.times (pattern : Pattern) (n : Nat) : Pattern := .repeated n (some n) pattern

/-- A text, character by character. -/
def literal (same : Char → Char → Bool) (text : String) : Pattern :=
  sequence (text.toList.map (fun c => .char (same c)))

end Building

end LegacyVault.RegularExpressions
