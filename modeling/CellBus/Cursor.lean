import CellBus.MarshalError

/-!
# Argument cursors

A cursor walks over the raw cells of a call.  The slot counts arguments and the
cell counts raw cells; arrays make the second run ahead of the first.
-/

namespace CellBus

structure Cursor where
  /-- The cells not yet taken. -/
  remaining : List Cell
  /-- The argument under way. -/
  slot : Nat
  /-- How many cells were taken. -/
  cell : Nat
  deriving DecidableEq, Repr

namespace Cursor

/-- A cursor at the first cell and the first argument. -/
def start (cells : List Cell) : Cursor := ⟨cells, 0, 0⟩

/-- The next raw cell for the argument under way. -/
def take (cursor : Cursor) : Except MarshalError (Cell × Cursor) :=
  match cursor.remaining with
  | cell :: rest => .ok (cell, { cursor with remaining := rest, cell := cursor.cell + 1 })
  | [] => .error (.missingArgument cursor.slot cursor.cell)

/-- Ends the argument under way. -/
def advanceSlot (cursor : Cursor) : Cursor := { cursor with slot := cursor.slot + 1 }

end Cursor

end CellBus
