import ClusterOverlay.Toml.Statement

/-!
# TOML documents

A document is read statement by statement.  A header opens a table, to which
the assignments that follow belong, up to the next header.  A text is no
document if a line cannot be read, or if it contradicts an earlier one.
-/

namespace ClusterOverlay.Toml

/-- A document of which some statements have been read. -/
structure Draft where
  entries : Entries
  /-- The path of the table that is open. -/
  current : List String

namespace Draft

/-- Nothing read yet. -/
def empty : Draft :=
  ⟨[], []⟩

/-- Add a statement. -/
def add (draft : Draft) : Statement → Option Draft
  | .table path key => do
      return ⟨← draft.entries.begin path key, path ++ [key]⟩
  | .element path key => do
      return ⟨← draft.entries.beginElement path key, path ++ [key]⟩
  | .assign path key value => do
      let entries ← draft.entries.within .implied
        (fun _ entries => entries.assign path key value) draft.current .header
      return { draft with entries }

end Draft

/-- A text without the mark that may stand at its front. -/
def withoutMark : List Char → List Char
  | '\ufeff' :: rest => rest
  | chars => chars

/-- Read a document. -/
def parse? (text : String) : Option Entries := do
  let statements ← statements? (withoutMark text.toList)
  let draft ← statements.foldlM Draft.add Draft.empty
  return draft.entries

end ClusterOverlay.Toml
