/-!
# Reading TOML text

A reader takes a piece off the front of a text, and gives out what the piece
means together with the rest.  This file has the readers for what stands
between values, blanks, line ends and comments, and single digits.
-/

namespace ClusterOverlay.Toml

/-- A reader of the front of a text. -/
abbrev Reader (α : Type) := List Char → Option (α × List Char)

/-- Spaces and tabs separate the parts of a line. -/
def isBlank (char : Char) : Bool :=
  char = ' ' || char = '\t'

/-- The characters that may stand in comments and texts: no control character
but the tab. -/
def isPlain (char : Char) : Bool :=
  char = '\t' || (' ' ≤ char && char ≠ '\x7f')

/-- The value of a digit to a given base, at most sixteen. -/
def digitValue? (base : Nat) (char : Char) : Option Nat :=
  let value? :=
    if '0' ≤ char ∧ char ≤ '9' then some (char.toNat - '0'.toNat)
    else if 'a' ≤ char ∧ char ≤ 'f' then some (char.toNat - 'a'.toNat + 10)
    else if 'A' ≤ char ∧ char ≤ 'F' then some (char.toNat - 'A'.toNat + 10)
    else none
  value?.filter (· < base)

/-- Skip blanks. -/
def skipBlanks (chars : List Char) : List Char :=
  chars.dropWhile isBlank

/-- Read the end of a line. -/
def newline? : List Char → Option (List Char)
  | '\n' :: rest => some rest
  | '\r' :: '\n' :: rest => some rest
  | _ => none

/-- Skip a comment, if there is one. -/
def skipComment : List Char → List Char
  | '#' :: rest => rest.dropWhile isPlain
  | chars => chars

/-- Read what may follow a value or a header on its line, and the end of the
line or of the text. -/
def lineEnd? (chars : List Char) : Option (List Char) :=
  match skipComment (skipBlanks chars) with
  | [] => some []
  | rest => newline? rest

/-- Skip blanks, comments and line ends. -/
def skipLines (chars : List Char) : List Char :=
  match newline? (skipComment (skipBlanks chars)) with
  | some rest => if rest.length < chars.length then skipLines rest else rest
  | none => skipBlanks chars
  termination_by chars.length

/-- Read a given text. -/
def literal? : List Char → List Char → Option (List Char)
  | [], chars => some chars
  | expected :: text, char :: rest => if char = expected then literal? text rest else none
  | _ :: _, [] => none

/-- Read pieces with a comma between them, as many as there are.  Each piece
reader skips what may surround a piece. -/
def commaSeparated {α : Type} (piece : Reader α) (chars : List Char) : List α × List Char :=
  match piece chars with
  | none => ([], chars)
  | some (first, ',' :: rest) =>
      if rest.length < chars.length then
        match commaSeparated piece rest with
        | ([], _) => ([first], ',' :: rest)
        | (others, remainder) => (first :: others, remainder)
      else
        ([first], ',' :: rest)
  | some (first, rest) => ([first], rest)
  termination_by chars.length

end ClusterOverlay.Toml
