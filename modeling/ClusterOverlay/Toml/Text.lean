import ClusterOverlay.Toml.Scan

/-!
# Texts and keys in TOML

A text stands between quotes.  Between double quotes a backslash introduces an
escape; between single quotes every character stands for itself.  Tripled
quotes enclose a text of several lines, of which a line end directly after the
opening quotes does not count.

A key is a dotted sequence of parts, each bare or quoted.
-/

namespace ClusterOverlay.Toml

/-! ## Escapes -/

/-- The character whose number is given by hexadecimal digits. -/
def unicode? (digits : List Char) : Option Char := do
  let number ←
    digits.foldlM (fun number digit => do return number * 16 + (← digitValue? 16 digit)) 0
  if number.isValidChar then some (Char.ofNat number) else none

/-- The character that a letter stands for after a backslash. -/
def escaped? : Char → Option Char
  | 'b' => some '\x08'
  | 't' => some '\t'
  | 'n' => some '\n'
  | 'f' => some '\x0c'
  | 'r' => some '\r'
  | '"' => some '"'
  | '\\' => some '\\'
  | _ => none

/-- Put a character in front of what was read after it. -/
def prepend (char : Char) : Option (List Char × List Char) → Option (List Char × List Char) :=
  Option.map fun (text, rest) => (char :: text, rest)

/-! ## Texts of one line -/

/-- Read a text up to its closing double quote. -/
def basicText : List Char → Option (List Char × List Char)
  | '"' :: rest => some ([], rest)
  | '\\' :: 'u' :: a :: b :: c :: d :: rest => do
      prepend (← unicode? [a, b, c, d]) (basicText rest)
  | '\\' :: 'U' :: a :: b :: c :: d :: e :: f :: g :: h :: rest => do
      prepend (← unicode? [a, b, c, d, e, f, g, h]) (basicText rest)
  | '\\' :: code :: rest => do prepend (← escaped? code) (basicText rest)
  | char :: rest => if isPlain char then prepend char (basicText rest) else none
  | [] => none

/-- Read a text up to its closing single quote. -/
def literalText : List Char → Option (List Char × List Char)
  | '\'' :: rest => some ([], rest)
  | char :: rest => if isPlain char then prepend char (literalText rest) else none
  | [] => none

/-! ## Texts of several lines -/

/-- After three closing quotes, up to two more belong to the text. -/
def closingQuotes (quote : Char) : List Char → List Char × List Char
  | first :: second :: rest =>
      if first = quote then
        if second = quote then ([quote, quote], rest) else ([quote], second :: rest)
      else
        ([], first :: second :: rest)
  | [first] => if first = quote then ([quote], []) else ([], [first])
  | [] => ([], [])

/-- Whether nothing but blanks stands before the end of the line. -/
def endsLine (chars : List Char) : Bool :=
  (newline? (skipBlanks chars)).isSome

/-- Read a text of several lines up to its closing double quotes.  A backslash
at the end of a line begins a gap: blanks and line ends after it do not
count. -/
def basicLines (gap : Bool) : List Char → Option (List Char × List Char)
  | '"' :: '"' :: '"' :: rest => some (closingQuotes '"' rest)
  | '\n' :: rest => if gap then basicLines true rest else prepend '\n' (basicLines false rest)
  | '\r' :: '\n' :: rest =>
      if gap then basicLines true rest else prepend '\n' (basicLines false rest)
  | '\\' :: 'u' :: a :: b :: c :: d :: rest => do
      prepend (← unicode? [a, b, c, d]) (basicLines false rest)
  | '\\' :: 'U' :: a :: b :: c :: d :: e :: f :: g :: h :: rest => do
      prepend (← unicode? [a, b, c, d, e, f, g, h]) (basicLines false rest)
  | '\\' :: code :: rest =>
      if endsLine (code :: rest) then
        basicLines true (code :: rest)
      else do
        prepend (← escaped? code) (basicLines false rest)
  | char :: rest =>
      if gap && isBlank char then basicLines true rest
      else if isPlain char then prepend char (basicLines false rest)
      else none
  | [] => none

/-- Read a text of several lines up to its closing single quotes. -/
def literalLines : List Char → Option (List Char × List Char)
  | '\'' :: '\'' :: '\'' :: rest => some (closingQuotes '\'' rest)
  | '\n' :: rest => prepend '\n' (literalLines rest)
  | '\r' :: '\n' :: rest => prepend '\n' (literalLines rest)
  | char :: rest => if isPlain char then prepend char (literalLines rest) else none
  | [] => none

/-- Skip the line end directly after opening quotes. -/
def skipFirstNewline (chars : List Char) : List Char :=
  (newline? chars).getD chars

/-- Read a quoted text. -/
def text? : Reader String
  | '"' :: '"' :: '"' :: rest =>
      (basicLines false (skipFirstNewline rest)).map fun (text, rest) => (String.ofList text, rest)
  | '\'' :: '\'' :: '\'' :: rest =>
      (literalLines (skipFirstNewline rest)).map fun (text, rest) => (String.ofList text, rest)
  | '"' :: rest => (basicText rest).map fun (text, rest) => (String.ofList text, rest)
  | '\'' :: rest => (literalText rest).map fun (text, rest) => (String.ofList text, rest)
  | _ => none

/-! ## Keys -/

/-- The characters of bare keys. -/
def isBare (char : Char) : Bool :=
  char.isAlphanum || char = '_' || char = '-'

/-- Read one part of a key.  A quoted part is a text of one line. -/
def keyPart? : Reader String
  | '"' :: rest => (basicText rest).map fun (text, rest) => (String.ofList text, rest)
  | '\'' :: rest => (literalText rest).map fun (text, rest) => (String.ofList text, rest)
  | chars =>
      match chars.takeWhile isBare with
      | [] => none
      | part => some (String.ofList part, chars.dropWhile isBare)

/-- Read the parts of a key, with dots between them and blanks around them. -/
def keyParts? (chars : List Char) : Option (List String × List Char) :=
  match keyPart? (skipBlanks chars) with
  | none => none
  | some (part, rest) =>
      match skipBlanks rest with
      | '.' :: rest =>
          if rest.length < chars.length then
            (keyParts? rest).map fun (parts, rest) => (part :: parts, rest)
          else
            none
      | rest => some ([part], rest)
  termination_by chars.length

/-- The number of levels to which tables and arrays may be nested. -/
def nestingLimit : Nat := 79

/-- Read a key: the tables that it goes through, and its last part. -/
def key? (chars : List Char) : Option ((List String × String) × List Char) :=
  match keyParts? chars with
  | some (parts, rest) =>
      match parts.getLast? with
      | some last =>
          if parts.length ≤ nestingLimit then some ((parts.dropLast, last), rest) else none
      | none => none
  | none => none

end ClusterOverlay.Toml
