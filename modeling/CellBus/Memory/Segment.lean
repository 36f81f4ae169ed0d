import CellBus.Memory
import CellBus.Number.Binary32
import CellBus.Text.Utf8

/-!
# Data segments

A growing list of cells in which a host lays out texts and arrays the way the
script machine would.  The address of the cell at `index` is `4 * index`, taken
modulo `2 ^ 32`; every `push` returns the address of the first cell it adds.
-/

namespace CellBus

structure Segment where
  cells : List Cell
  deriving DecidableEq, Repr

namespace Segment

def empty : Segment := ⟨[]⟩

/-- The address that the next cell will have. -/
def nextAddress (segment : Segment) : Cell :=
  Cell.ofInt (segment.cells.length * Cell.size : Nat)

/-- Appends a block of cells and returns its address. -/
def push (segment : Segment) (block : List Cell) : Cell × Segment :=
  (segment.nextAddress, ⟨segment.cells ++ block⟩)

def pushCell (segment : Segment) (cell : Cell) : Cell × Segment := segment.push [cell]

def pushFloat (segment : Segment) (number : Binary32) : Cell × Segment :=
  segment.push [number.toCell]

def pushFloats (segment : Segment) (numbers : List Binary32) : Cell × Segment :=
  segment.push (numbers.map Binary32.toCell)

/-- The unpacked layout: one byte to a cell, then a zero cell. -/
def unpackedBlock (text : String) : List Cell :=
  (Text.encode text).map (fun byte => byte.toUInt32.toInt32) ++ [0]

def pushText (segment : Segment) (text : String) : Cell × Segment :=
  segment.push (unpackedBlock text)

/-- Bytes four to a cell, the last cell padded with zeros. -/
def packBytes : List UInt8 → List Cell
  | first :: second :: third :: fourth :: rest =>
    Cell.ofBytes [first, second, third, fourth] :: packBytes rest
  | [] => []
  | bytes => [Cell.ofBytes bytes]

/-- The packed layout: four bytes to a cell, with a zero byte at the end that may
share the last cell. -/
def packedBlock (text : String) : List Cell := packBytes (Text.encode text ++ [0])

def pushPackedText (segment : Segment) (text : String) : Cell × Segment :=
  segment.push (packedBlock text)

/-- The index of the cell at an address: not negative, a multiple of the cell
size, and inside the segment. -/
def index? (segment : Segment) (address : Cell) : Option Nat :=
  let offset := address.toInt
  if offset < 0 || offset % Cell.size ≠ 0 then none
  else
    let index := (offset / Cell.size).toNat
    if index < segment.cells.length then some index else none

/-- Overwrites the cell at an address. -/
def write (segment : Segment) (address value : Cell) : Except MarshalError Segment :=
  match segment.index? address with
  | some index => .ok ⟨segment.cells.set index value⟩
  | none => .error (.invalidAddress address)

/-- The cells from an address on. -/
def resolve (segment : Segment) (address : Cell) : Except MarshalError (List Cell) :=
  match segment.index? address with
  | some index => .ok (segment.cells.drop index)
  | none => .error (.invalidAddress address)

/-- The segment as a memory of the script machine. -/
def memory (segment : Segment) : Memory := Memory.fixed segment.resolve

end Segment

end CellBus
