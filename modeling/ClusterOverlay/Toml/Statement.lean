import ClusterOverlay.Toml.Date
import ClusterOverlay.Toml.Number
import ClusterOverlay.Toml.Table
import ClusterOverlay.Toml.Text

/-!
# The lines of a TOML document

A document is a sequence of statements: headers of tables, headers of elements
of arrays of tables, and assignments of a value to a key.  Each ends with its
line, though a value may itself go over several lines.
-/

namespace ClusterOverlay.Toml

/-! ## Values -/

/-- Read the elements of an array up to its closing bracket.  A comma may
follow the last one. -/
def elements? (value : Reader Value) (chars : List Char) :
    Option (List Value × List Char) :=
  let element (chars : List Char) : Option (Value × List Char) :=
    (value (skipLines chars)).map fun (element, rest) => (element, skipLines rest)
  match commaSeparated element chars with
  | ([], _) =>
      match skipLines chars with
      | ']' :: rest => some ([], rest)
      | _ => none
  | (elements, rest) =>
      match rest with
      | ']' :: rest => some (elements, rest)
      | ',' :: rest =>
          match skipLines rest with
          | ']' :: rest => some (elements, rest)
          | _ => none
      | _ => none

/-- Read a key, an equals sign and a value. -/
def pair? (value : Reader Value) (chars : List Char) :
    Option ((List String × String × Value) × List Char) :=
  match key? chars with
  | some ((path, key), '=' :: rest) =>
      (value (skipBlanks rest)).map fun (value, rest) => ((path, key, value), skipBlanks rest)
  | _ => none

/-- Read the entries of an inline table up to its closing brace, all on one
line. -/
def inlineEntries? (value : Reader Value) (chars : List Char) :
    Option (Value × List Char) :=
  match commaSeparated (pair? value) chars with
  | (pairs, rest) =>
      match skipBlanks rest with
      | '}' :: rest => do
          let entries ← pairs.foldlM (fun entries (path, key, value) =>
            Entries.assign path key value entries) []
          return (.table .inline entries, rest)
      | _ => none

/-- Read a value that starts with a sign or a digit. -/
def number? (chars : List Char) : Option (Value × List Char) :=
  match dateTime? chars with
  | some (text, rest) => some (.dateTime text, rest)
  | none =>
      match float? chars with
      | some (text, rest) => some (.float text, rest)
      | none => (integer? chars).map fun (number, rest) => (.integer number, rest)

/-- Read a value that is no array and no inline table. -/
def scalar? (chars : List Char) : Option (Value × List Char) :=
  match chars with
  | '"' :: _ => (text? chars).map fun (text, rest) => (.string text, rest)
  | '\'' :: _ => (text? chars).map fun (text, rest) => (.string text, rest)
  | 't' :: _ => (literal? "true".toList chars).map (.boolean true, ·)
  | 'f' :: _ => (literal? "false".toList chars).map (.boolean false, ·)
  | _ => number? chars

/-- Read a value with at most `depth` levels of arrays and inline tables. -/
def value? : Nat → Reader Value
  | depth, '[' :: rest =>
      match depth with
      | 0 => none
      | depth + 1 =>
          (elements? (value? depth) rest).map fun (elements, rest) => (.array elements, rest)
  | depth, '{' :: rest =>
      match depth with
      | 0 => none
      | depth + 1 => inlineEntries? (value? depth) rest
  | _, chars => scalar? chars

/-! ## Statements -/

/-- What a line of a document says. -/
inductive Statement
  /-- The entries that follow belong to this table. -/
  | table (path : List String) (key : String)
  /-- The entries that follow belong to a new element of this array. -/
  | element (path : List String) (key : String)
  | assign (path : List String) (key : String) (value : Value)
  deriving Repr

/-- Read a statement with the end of its line. -/
def statement? : Reader Statement
  | '[' :: '[' :: rest => do
      let ((path, key), rest) ← key? rest
      let rest ← lineEnd? (← literal? [']', ']'] rest)
      return (.element path key, rest)
  | '[' :: rest => do
      let ((path, key), rest) ← key? rest
      let rest ← lineEnd? (← literal? [']'] rest)
      return (.table path key, rest)
  | chars => do
      let ((path, key, value), rest) ← pair? (value? nestingLimit) chars
      return (.assign path key value, ← lineEnd? rest)

/-- The statements of a text.  Blank lines and comments may stand between
them. -/
def statements? (chars : List Char) : Option (List Statement) :=
  match skipLines chars with
  | [] => some []
  | '#' :: rest => if (rest.dropWhile isPlain).isEmpty then some [] else none
  | start =>
      match statement? start with
      | some (statement, rest) =>
          if rest.length < chars.length then
            (statements? rest).map (statement :: ·)
          else
            none
      | none => none
  termination_by chars.length

end ClusterOverlay.Toml
