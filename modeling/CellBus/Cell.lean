/-!
# Cells

A cell is the fixed-width word in which a script machine passes everything: a
number, the bits of a single-precision number, or a byte address into its
memory.
-/

namespace CellBus

/-- One word of the script machine. -/
abbrev Cell := Int32

namespace Cell

/-- Width of a cell in bytes.  Addresses are byte offsets. -/
def size : Nat := 4

/-- Unsigned view of a cell. -/
def unsigned (cell : Cell) : UInt32 := cell.toUInt32

/-- The integer a cell stands for, modulo `2 ^ 32`. -/
def ofInt (number : Int) : Cell := Int32.ofInt number

/-- The cell for an integer, or for the nearer end of the range of cells. -/
def saturated (number : Int) : Cell :=
  ofInt (max (-0x80000000) (min number 0x7FFFFFFF))

/-- The four bytes of a cell, the high one first. -/
def bytes (cell : Cell) : List UInt8 :=
  let word := cell.toUInt32
  [(word >>> 24).toUInt8, (word >>> 16).toUInt8, (word >>> 8).toUInt8, word.toUInt8]

/-- The low byte of a cell. -/
def lowByte (cell : Cell) : UInt8 := cell.toUInt32.toUInt8

/-- The cell whose bytes are the given ones, the high one first and zeros where
the list ends early. -/
def ofBytes (bytes : List UInt8) : Cell :=
  let byte (index : Nat) : UInt32 := (bytes.getD index 0).toUInt32
  (byte 0 <<< 24 ||| byte 1 <<< 16 ||| byte 2 <<< 8 ||| byte 3).toInt32

/-- How messages write an address: the unsigned view in hexadecimal. -/
def addressText (cell : Cell) : String :=
  "0x" ++ String.ofList (Nat.toDigits 16 cell.toUInt32.toNat)

end Cell

end CellBus
