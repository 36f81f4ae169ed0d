import CellBus.Toml.Statement

/-!
# TOML documents

A document is a table.  Its statements build it from top to bottom: a header
opens a table, and the assignments below it go there until the next header.
-/

namespace CellBus.Toml

/-- A document under construction. -/
structure Draft where
  root : Table
  /-- The table that assignments go to. -/
  opened : List String

namespace Draft

/-- A document without statements. -/
def empty : Draft := ⟨[], []⟩

/-- Adds a statement, unless it contradicts the ones before. -/
def add (draft : Draft) : Statement → Option Draft
  | .assignment key item => do
    let change (_ : Bool) (target : Table) := target.assign key.path key.name item
    return { draft with root := ← Table.changeAt false change draft.opened false draft.root }
  | .tableHeader key => do
    let change (_ : Bool) (target : Table) := target.openTable key.name
    return ⟨← Table.changeAt false change key.path false draft.root, key.path ++ [key.name]⟩
  | .elementHeader key => do
    let change (_ : Bool) (target : Table) := target.openElement key.name
    return ⟨← Table.changeAt false change key.path false draft.root, key.path ++ [key.name]⟩

end Draft

/-- The table that a document describes. -/
def parse (text : String) : Option Table := do
  let statements ← statements? text
  let draft ← statements.foldlM Draft.add Draft.empty
  return draft.root

end CellBus.Toml
