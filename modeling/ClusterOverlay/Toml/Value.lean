/-!
# TOML values

A TOML document is a table.  A table remembers how it came about, because that
decides whether later lines of the document may add to it: a table written
inline is complete, one that only occurs inside longer names may still get a
header of its own, and so on.
-/

namespace ClusterOverlay.Toml

/-- How a table came about. -/
inductive Origin
  /-- By a header of its own. -/
  | header
  /-- By the header of a table inside it. -/
  | implied
  /-- By a dotted key. -/
  | dotted
  /-- Written inline. -/
  | inline
  deriving DecidableEq, Repr

/-- A TOML value. -/
inductive Value
  | string (text : String)
  | integer (number : Int)
  | boolean (truth : Bool)
  /-- A float, as it is written. -/
  | float (text : String)
  /-- A date, a time of day, or both, as it is written. -/
  | dateTime (text : String)
  | array (elements : List Value)
  | table (origin : Origin) (entries : List (String × Value))
  /-- An array of tables given by headers. -/
  | tables (elements : List Value)
  deriving Repr

/-- The entries of a table, each key once. -/
abbrev Entries := List (String × Value)

end ClusterOverlay.Toml
