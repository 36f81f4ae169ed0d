import CellBus.Cell
import CellBus.Number.Binary64

/-!
# Single-precision numbers

Every finite single is a double, so `widen` loses nothing: it moves the
exponent to the larger bias and pads the fraction.  A subnormal single becomes
a normal double.  A cell can hold the bits of a single.
-/

namespace CellBus

/-- A single-precision number, given by its bits. -/
structure Binary32 where
  bits : UInt32
  deriving DecidableEq, Repr

namespace Binary32

/-- The single whose bits a cell holds. -/
def ofCell (cell : Cell) : Binary32 := ⟨cell.unsigned⟩

/-- The cell that holds the bits. -/
def toCell (x : Binary32) : Cell := x.bits.toInt32

/-- The weight of the bit above the fraction, `2 ^ 23`. -/
def leadingBit : Nat := 0x800000

/-- The eight exponent bits. -/
def exponent (x : Binary32) : Nat := x.bits.toNat / leadingBit % 0x100

/-- The twenty-three fraction bits. -/
def fraction (x : Binary32) : Nat := x.bits.toNat % leadingBit

def isNegative (x : Binary32) : Bool := x.bits.toNat / 0x80000000 == 1

/-- Neither an infinity nor a NaN. -/
def isFinite (x : Binary32) : Bool := x.exponent < 255

def isNaN (x : Binary32) : Bool := x.exponent == 255 && x.fraction != 0

/-- The magnitude bits of the double with the same value. -/
def widenedMagnitude (x : Binary32) : Nat :=
  if x.exponent = 255 then Binary64.topExponent * Binary64.leadingBit + x.fraction <<< 29
  else if 0 < x.exponent then (x.exponent + 896) * Binary64.leadingBit + x.fraction <<< 29
  else if x.fraction = 0 then 0
  else
    -- The leading one of a subnormal fraction is carried into the exponent.
    let lead := x.fraction.log2
    (lead + 873) * Binary64.leadingBit + x.fraction <<< (52 - lead)

/-- The double with the same value. -/
def widen (x : Binary32) : Binary64 :=
  Binary64.withSign x.isNegative (Binary64.ofMagnitude x.widenedMagnitude)

end Binary32

end CellBus
