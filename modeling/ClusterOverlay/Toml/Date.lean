import ClusterOverlay.Toml.Scan

/-!
# Dates and times in TOML

A date, a time of day, or a date with a time and perhaps an offset from
universal time.  A date must exist in the calendar.  Only the written form is
kept.
-/

namespace ClusterOverlay.Toml

/-- Read a given number of decimal digits. -/
def fixedDigits? (count : Nat) (chars : List Char) : Option (Nat × List Char) :=
  let digits := chars.take count
  if digits.length = count ∧ digits.all Char.isDigit then
    some (digits.foldl (fun number digit => number * 10 + (digit.toNat - '0'.toNat)) 0,
      chars.drop count)
  else
    none

/-- Read a number of two digits within bounds. -/
def twoDigits? (least greatest : Nat) (chars : List Char) : Option (Nat × List Char) :=
  (fixedDigits? 2 chars).filter fun (number, _) => least ≤ number && number ≤ greatest

/-- Number of days in a month. -/
def daysInMonth (year month : Nat) : Nat :=
  if month = 2 then
    if year % 4 = 0 ∧ (year % 100 ≠ 0 ∨ year % 400 = 0) then 29 else 28
  else if month = 4 ∨ month = 6 ∨ month = 9 ∨ month = 11 then 30
  else 31

/-- Read a date. -/
def date? (chars : List Char) : Option (List Char) := do
  let (year, rest) ← fixedDigits? 4 chars
  let (month, rest) ← twoDigits? 1 12 (← literal? ['-'] rest)
  let (_, rest) ← twoDigits? 1 (daysInMonth year month) (← literal? ['-'] rest)
  return rest

/-- Read the fraction of a second, if there is one. -/
def secondFraction (chars : List Char) : List Char :=
  match chars with
  | '.' :: digit :: rest => if digit.isDigit then rest.dropWhile Char.isDigit else chars
  | _ => chars

/-- Read a time of day; a minute may have a leap second. -/
def timeOfDay? (chars : List Char) : Option (List Char) := do
  let (_, rest) ← twoDigits? 0 23 chars
  let (_, rest) ← twoDigits? 0 59 (← literal? [':'] rest)
  let (_, rest) ← twoDigits? 0 60 (← literal? [':'] rest)
  return secondFraction rest

/-- Read an offset from universal time. -/
def offset? : List Char → Option (List Char)
  | char :: rest =>
      if char = 'Z' ∨ char = 'z' then some rest
      else if char = '+' ∨ char = '-' then do
        let (_, rest) ← twoDigits? 0 23 rest
        let (_, rest) ← twoDigits? 0 59 (← literal? [':'] rest)
        return rest
      else none
  | [] => none

/-- Read what may follow a date: a time of day and perhaps an offset. -/
def timeAfterDate? : List Char → Option (List Char)
  | char :: rest =>
      if char = 'T' ∨ char = 't' ∨ char = ' ' then
        (timeOfDay? rest).map fun rest => (offset? rest).getD rest
      else
        none
  | [] => none

/-- Read a date, a time of day, or both. -/
def dateTime? (chars : List Char) : Option (String × List Char) :=
  let rest? :=
    match date? chars with
    | some rest => some ((timeAfterDate? rest).getD rest)
    | none => timeOfDay? chars
  rest?.map fun rest => (String.ofList (chars.take (chars.length - rest.length)), rest)

end ClusterOverlay.Toml
