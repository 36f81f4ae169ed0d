import CellBus.Cursor
import CellBus.Limits
import CellBus.Memory
import CellBus.Signature
import CellBus.Text.Utf8
import CellBus.Value

/-!
# Decoding arguments

A decoder turns the raw cells of a call into plain values, guided by a
signature.  Each tag gives one value; an array takes its base address and its
length from two cells.  Passed by reference, scalars and lengths are addresses of
the cells that hold them.  The first failure ends decoding.
-/

namespace CellBus

/-- How scalars and array lengths arrive. -/
inductive Passing where
  /-- The cell holds the value. -/
  | byValue
  /-- The cell holds the address of the value. -/
  | byReference
  deriving DecidableEq, Repr

/-- Where decoding stands: the cursor, and how many questions the memory was asked. -/
structure Reading where
  cursor : Cursor
  asked : Nat
  deriving DecidableEq, Repr

/-- A step of decoding.  It moves the reading on also when it fails. -/
abbrev Decoding (α : Type) := ExceptT MarshalError (StateM Reading) α

namespace Decoding

/-- Takes the next raw cell. -/
def take : Decoding Cell := do
  let reading ← get
  match reading.cursor.take with
  | .ok (cell, cursor) =>
    set { reading with cursor }
    return cell
  | .error error => throw error

/-- Asks the memory one question. -/
def ask {α : Type} (question : Nat → Except MarshalError α) : Decoding α := do
  let reading ← get
  set { reading with asked := reading.asked + 1 }
  match question reading.asked with
  | .ok found => return found
  | .error error => throw error

/-- Ends the argument under way. -/
def advanceSlot : Decoding Unit :=
  modify fun reading => { reading with cursor := reading.cursor.advanceSlot }

end Decoding

structure Decoder where
  memory : Memory
  passing : Passing
  limits : Limits

namespace Decoder

/-- A scalar: the next cell, or what it points at. -/
def scalar (decoder : Decoder) : Decoding Cell := do
  let raw ← Decoding.take
  match decoder.passing with
  | .byValue => return raw
  | .byReference => Decoding.ask fun asked => decoder.memory.deref asked raw

/-- The text whose address is the next cell, in either passing mode. -/
def text (decoder : Decoder) : Decoding String := do
  let address ← Decoding.take
  let bytes ← Decoding.ask fun asked =>
    decoder.memory.readText asked address decoder.limits.textLength
  if decoder.limits.strictUtf8 then
    match Text.decodeStrict bytes with
    | some text => return text
    | none => throw (.invalidUtf8 address)
  else
    return Text.decodeLossy bytes

/-- The elements of an array.  Its length is checked before its base address is
looked at. -/
def array (decoder : Decoder) : Decoding (List Cell) := do
  let base ← Decoding.take
  let count ← decoder.scalar
  if count.toInt < 0 then throw (.negativeLength count)
  let length := count.toInt.toNat
  if decoder.limits.arrayLength < length then
    throw (.arrayTooLong length decoder.limits.arrayLength)
  Decoding.ask fun asked => decoder.memory.readArray asked base length

/-- A cell as a single-precision number. -/
def floatValue (cell : Cell) : Value := Value.ofSingle (Binary32.ofCell cell)

/-- The argument for the slot under way. -/
def argument (decoder : Decoder) : Tag → Decoding Value
  | .text => return .text (← decoder.text)
  | .int => return .int (← decoder.scalar).toInt
  | .uint => return .int (← decoder.scalar).unsigned.toNat
  | .float => return floatValue (← decoder.scalar)
  | .intArray => return .list ((← decoder.array).map fun cell => .int cell.toInt)
  | .floatArray => return .list ((← decoder.array).map floatValue)

/-- The arguments for a list of tags, from the slot under way on. -/
def arguments (decoder : Decoder) : List Tag → Decoding (List Value)
  | [] => return []
  | tag :: rest => do
    let value ← decoder.argument tag
    Decoding.advanceSlot
    return value :: (← decoder.arguments rest)

/-- A complete argument list, decoded from the first cell on after the memory was
asked `asked` questions; with it, how many it was asked in the end. -/
def decodeFrom (decoder : Decoder) (asked : Nat) (signature : Signature) (cells : List Cell) :
    Except MarshalError (List Value) × Nat :=
  let (result, reading) := (decoder.arguments signature.tags).run ⟨Cursor.start cells, asked⟩
  (result, reading.asked)

/-- A complete argument list. -/
def decodeAll (decoder : Decoder) (signature : Signature) (cells : List Cell) :
    Except MarshalError (List Value) :=
  (decoder.decodeFrom 0 signature cells).1

end Decoder

end CellBus
