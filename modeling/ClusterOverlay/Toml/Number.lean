import ClusterOverlay.Toml.Scan

/-!
# Numbers in TOML

Integers have 64 bits with a sign and may be written to base ten, sixteen,
eight or two.  A float has a fraction, an exponent, or both, and must not be
larger than every finite double.  Between digits an underscore may stand.
-/

namespace ClusterOverlay.Toml

/-! ## Digits -/

/-- Read further digits.  An underscore must be followed by a digit. -/
def moreDigits (base : Nat) : List Char → Option (List Nat × List Char)
  | '_' :: char :: rest =>
      match digitValue? base char with
      | some value => (moreDigits base rest).map fun (values, rest) => (value :: values, rest)
      | none => none
  | char :: rest =>
      match digitValue? base char with
      | some value => (moreDigits base rest).map fun (values, rest) => (value :: values, rest)
      | none => if char = '_' then none else some ([], char :: rest)
  | [] => some ([], [])

/-- Read digits, at least one. -/
def digits? (base : Nat) : Reader (List Nat)
  | char :: rest =>
      match digitValue? base char with
      | some value => (moreDigits base rest).map fun (values, rest) => (value :: values, rest)
      | none => none
  | [] => none

/-- The number that digits stand for. -/
def ofDigits (base : Nat) (digits : List Nat) : Nat :=
  digits.foldl (fun number digit => number * base + digit) 0

/-- Read a sign, if there is one; true for minus. -/
def sign : List Char → Bool × List Char
  | '-' :: rest => (true, rest)
  | '+' :: rest => (false, rest)
  | chars => (false, chars)

/-- Read decimal digits without a superfluous zero in front. -/
def decimal? : Reader (List Nat)
  | '0' :: rest => some ([0], rest)
  | chars => digits? 10 chars

/-! ## Integers -/

/-- An integer, if it has 64 bits. -/
def integerOf? (negative : Bool) (magnitude : Nat) : Option Int :=
  if negative then
    if magnitude ≤ Nat.pow 2 63 then some (-(magnitude : Int)) else none
  else
    if magnitude < Nat.pow 2 63 then some magnitude else none

/-- Read an integer. -/
def integer? : Reader Int
  | '0' :: 'x' :: rest => do
      let (digits, rest) ← digits? 16 rest
      return (← integerOf? false (ofDigits 16 digits), rest)
  | '0' :: 'o' :: rest => do
      let (digits, rest) ← digits? 8 rest
      return (← integerOf? false (ofDigits 8 digits), rest)
  | '0' :: 'b' :: rest => do
      let (digits, rest) ← digits? 2 rest
      return (← integerOf? false (ofDigits 2 digits), rest)
  | chars => do
      let (negative, rest) := sign chars
      let (digits, rest) ← decimal? rest
      return (← integerOf? negative (ofDigits 10 digits), rest)

/-! ## Floats -/

/-- The smallest number that is nearer to infinity than to a finite double. -/
def overflowThreshold : Nat :=
  Nat.pow 2 1024 - Nat.pow 2 970

/-- Whether the number with the given decimal digits, times ten to the power of
`exponent`, is too large for a double. -/
def overflows (digits : List Nat) (exponent : Int) : Bool :=
  let magnitude := ofDigits 10 digits
  if magnitude = 0 ∨ digits.length + exponent ≤ 308 then false
  else if 308 < exponent then true
  else if 0 ≤ exponent then overflowThreshold ≤ magnitude * Nat.pow 10 exponent.toNat
  else overflowThreshold * Nat.pow 10 (-exponent).toNat ≤ magnitude

/-- Read the fraction of a float. -/
def fraction? : Reader (List Nat)
  | '.' :: rest => digits? 10 rest
  | _ => none

/-- Read the exponent of a float. -/
def exponent? : Reader Int
  | char :: rest => do
      if char ≠ 'e' ∧ char ≠ 'E' then none
      let (negative, rest) := sign rest
      let (digits, rest) ← digits? 10 rest
      return (if negative then -(ofDigits 10 digits : Int) else ofDigits 10 digits, rest)
  | [] => none

/-- Read what makes a float of an integer: a fraction, an exponent, or both. -/
def floatTail? (chars : List Char) : Option ((List Nat × Int) × List Char) :=
  match fraction? chars with
  | some (digits, rest) =>
      match exponent? rest with
      | some (exponent, rest) => some ((digits, exponent), rest)
      | none => some ((digits, 0), rest)
  | none => (exponent? chars).map fun (exponent, rest) => (([], exponent), rest)

/-- Read a float.  Only positive ones can be too large. -/
def float? (chars : List Char) : Option (String × List Char) := do
  let (negative, rest) := sign chars
  let written (rest : List Char) := String.ofList (chars.take (chars.length - rest.length))
  match (literal? "inf".toList rest).or (literal? "nan".toList rest) with
  | some rest => return (written rest, rest)
  | none =>
      let (whole, rest) ← decimal? rest
      let ((fraction, exponent), rest) ← floatTail? rest
      if !negative && overflows (whole ++ fraction) (exponent - fraction.length) then
        none
      else
        return (written rest, rest)

end ClusterOverlay.Toml
