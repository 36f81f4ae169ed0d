import CellBus.MarshalError

/-!
# Memory of the script machine

A memory answers one question: which cells stand from an address on, up to the
end of the region.  Everything else is read through that answer.  An answer may
depend on how many questions were asked before, so a memory that changes or
fails between two questions is one as well.
-/

namespace CellBus

/-- A memory, as the answers it gives: `resolve asked address` is the answer to a
question that `asked` others came before. -/
structure Memory where
  resolve : Nat → Cell → Except MarshalError (List Cell)

namespace Memory

/-- A memory whose answers never change. -/
def fixed (resolve : Cell → Except MarshalError (List Cell)) : Memory :=
  ⟨fun _ address => resolve address⟩

/-- A memory that answers `count` questions and then finds no address any more. -/
def failingAfter (count : Nat) (memory : Memory) : Memory where
  resolve asked address :=
    if asked < count then memory.resolve asked address else .error (.invalidAddress address)

/-- A memory seen after some questions were asked. -/
def after (count : Nat) (memory : Memory) : Memory where
  resolve asked address := memory.resolve (count + asked) address

/-- A region that rounds addresses down to whole cells and lets an address point
at its very end. -/
def rounding (cells : List Cell) : Memory :=
  fixed fun address =>
    let index := address.toInt / Cell.size
    if index < 0 || (cells.length : Int) < index then .error (.invalidAddress address)
    else .ok (cells.drop index.toNat)

/-- Largest first cell of an unpacked text.  Anything above it, unsigned, marks a
packed one. -/
def unpackedMax : UInt32 := 0x00FFFFFF

/-- The cell stored at an address. -/
def deref (memory : Memory) (asked : Nat) (address : Cell) : Except MarshalError Cell := do
  match ← memory.resolve asked address with
  | cell :: _ => .ok cell
  | [] => .error (.invalidAddress address)

/-- The `length` cells from an address on. -/
def readArray (memory : Memory) (asked : Nat) (address : Cell) (length : Nat) :
    Except MarshalError (List Cell) := do
  let cells ← memory.resolve asked address
  if length ≤ cells.length then .ok (cells.take length)
  else .error (.arrayOutOfBounds address length)

/-- A text is packed, four bytes to a cell, when its first cell is too large for
a single character. -/
def isPacked : List Cell → Bool
  | cell :: _ => unpackedMax < cell.unsigned
  | [] => false

/-- The units of a packed text: its bytes, where zero ends the text. -/
def packedUnits (cells : List Cell) : List (Option UInt8) :=
  (cells.flatMap Cell.bytes).map fun byte => if byte = 0 then none else some byte

/-- The units of an unpacked text: one low byte per cell, where a zero cell ends
the text. -/
def unpackedUnits (cells : List Cell) : List (Option UInt8) :=
  cells.map fun cell => if cell = 0 then none else some cell.lowByte

/-- The units from an address on, in the layout that the first cell shows. -/
def textUnits (cells : List Cell) : List (Option UInt8) :=
  if isPacked cells then packedUnits cells else unpackedUnits cells

/-- Collects units up to the end mark, with room for `room` more bytes.  A unit for
which there is no room is refused before it is known whether the text ends at
all; `collected` is in reverse. -/
def collectText (address : Cell) (limit : Nat) :
    Nat → List UInt8 → List (Option UInt8) → Except MarshalError (List UInt8)
  | _, _, [] => .error (.unterminatedText address)
  | _, collected, none :: _ => .ok collected.reverse
  | 0, _, some _ :: _ => .error (.textTooLong (limit + 1) limit)
  | room + 1, collected, some byte :: rest =>
    collectText address limit room (byte :: collected) rest

/-- The bytes of the text at an address, at most `limit` of them. -/
def readText (memory : Memory) (asked : Nat) (address : Cell) (limit : Nat) :
    Except MarshalError (List UInt8) := do
  let cells ← memory.resolve asked address
  collectText address limit limit [] (textUnits cells)

end Memory

end CellBus
