import ClusterOverlay.Toml.Value

/-!
# Building TOML tables

A table is built entry by entry.  No key may be given twice, and what is
already there decides whether a longer key may go through it: a dotted key may
only go through tables made by dotted keys or implied by headers, and headers
may go through any table that was not written inline.
-/

namespace ClusterOverlay.Toml

namespace Entries

/-- Change the value of a key, or give it a first one.  The order of the keys
is kept. -/
def alter (key : String) (change : Option Value → Option Value) : Entries → Option Entries
  | [] => (change none).map fun value => [(key, value)]
  | (name, value) :: rest =>
      if name = key then (change (some value)).map fun value => (name, value) :: rest
      else (alter key change rest).map ((name, value) :: ·)

/-- Give a key its value, if it has none. -/
def insertNew (key : String) (value : Value) (entries : Entries) : Option Entries :=
  entries.alter key fun
    | none => some value
    | some _ => none

/-- Work on the table at the end of a path.  Tables missing on the way are made
with the given origin.  Dotted keys go only through tables that have no header
of their own.  A path through an array of tables goes through its last
element. -/
def within (made : Origin) (work : Origin → Entries → Option Entries) :
    List String → Origin → Entries → Option Entries
  | [], origin, entries => work origin entries
  | key :: path, _, entries =>
      entries.alter key fun
        | none => (within made work path made []).map (.table made)
        | some (.table origin inner) =>
            if origin = .inline ∨ (made = .dotted ∧ origin = .header) then none
            else (within made work path origin inner).map (.table origin)
        | some (.tables elements) =>
            match elements.getLast? with
            | some (.table origin inner) =>
                (within made work path origin inner).map fun inner =>
                  .tables (elements.dropLast ++ [.table origin inner])
            | _ => none
        | some _ => none

/-- Assign a value to a dotted key.  The table in which it ends must have been
made by dotted keys as well, unless the key has one part only. -/
def assign (path : List String) (key : String) (value : Value) (entries : Entries) :
    Option Entries :=
  within .dotted
    (fun origin entries =>
      if path.isEmpty ∨ origin = .dotted then entries.insertNew key value else none)
    path .header entries

/-- Begin the table of a header.  A table that was only implied so far is
taken over. -/
def begin (path : List String) (key : String) (entries : Entries) : Option Entries :=
  within .implied
    (fun _ entries => entries.alter key fun
      | none => some (.table .header [])
      | some (.table .implied inner) => some (.table .header inner)
      | some _ => none)
    path .header entries

/-- Begin a new element of the array of tables of a header. -/
def beginElement (path : List String) (key : String) (entries : Entries) : Option Entries :=
  within .implied
    (fun _ entries => entries.alter key fun
      | none => some (.tables [.table .header []])
      | some (.tables elements) => some (.tables (elements ++ [.table .header []]))
      | some _ => none)
    path .header entries

end Entries

end ClusterOverlay.Toml
