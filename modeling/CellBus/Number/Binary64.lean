/-!
# Double-precision numbers

A `Binary64` is the 64-bit interchange form of a double: a sign bit, eleven
exponent bits and fifty-two fraction bits.  A finite double is the dyadic
rational `± significand · 2 ^ (scale - 1075)`, so everything below is exact
arithmetic on natural numbers.  `ofRatio` is rounding to nearest with ties to
the even significand.
-/

namespace CellBus

/-- A double, given by its bits. -/
structure Binary64 where
  bits : UInt64
  deriving DecidableEq, Repr

namespace Binary64

/-- The weight of the sign bit, `2 ^ 63`. -/
def signBit : Nat := 0x8000000000000000

/-- The weight of the bit above the fraction, `2 ^ 52`. -/
def leadingBit : Nat := 0x10000000000000

/-- The exponent bits of infinities and NaNs. -/
def topExponent : Nat := 0x7FF

/-- The eleven exponent bits. -/
def exponent (x : Binary64) : Nat := x.bits.toNat / leadingBit % 0x800

/-- The fifty-two fraction bits. -/
def fraction (x : Binary64) : Nat := x.bits.toNat % leadingBit

def isNegative (x : Binary64) : Bool := x.bits.toNat / signBit == 1

/-- Neither an infinity nor a NaN. -/
def isFinite (x : Binary64) : Bool := x.exponent < topExponent

/-- The integer whose multiple by a power of two is the magnitude.  The leading
bit is implied except for the subnormal numbers. -/
def significand (x : Binary64) : Nat :=
  if x.exponent = 0 then x.fraction else leadingBit + x.fraction

/-- The magnitude of a finite double is `significand · 2 ^ (scale - 1075)`. -/
def scale (x : Binary64) : Nat := max x.exponent 1

/-- The magnitude with its fractional part dropped. -/
def integerPart (x : Binary64) : Nat :=
  x.significand <<< (x.scale - 1075) >>> (1075 - x.scale)

/-- Truncation toward zero. -/
def truncate (x : Binary64) : Int :=
  if x.isNegative then -(x.integerPart : Int) else x.integerPart

/-- The bits of a magnitude, which must be below `2 ^ 63`. -/
def ofMagnitude (magnitude : Nat) : Binary64 := ⟨UInt64.ofNat magnitude⟩

def infinity : Binary64 := ofMagnitude (topExponent * leadingBit)

/-- A quiet NaN. -/
def notANumber : Binary64 := ofMagnitude (topExponent * leadingBit + leadingBit / 2)

def zero : Binary64 := ofMagnitude 0

/-- Sets or clears the sign bit. -/
def withSign (negative : Bool) (x : Binary64) : Binary64 :=
  ⟨UInt64.ofNat (x.bits.toNat % signBit + if negative then signBit else 0)⟩

/-- The quotient rounded to the nearest integer, a half going to the even neighbour. -/
def roundedQuotient (numerator denominator : Nat) : Nat :=
  let quotient := numerator / denominator
  let twice := 2 * (numerator % denominator)
  if twice < denominator then quotient
  else if denominator < twice then quotient + 1
  else quotient + quotient % 2

/-- The largest `e` with `2 ^ e ≤ numerator / denominator`, both being positive. -/
def floorLog2 (numerator denominator : Nat) : Int :=
  let estimate : Int := (numerator.log2 : Int) - denominator.log2
  if denominator <<< estimate.toNat ≤ numerator <<< (-estimate).toNat then estimate
  else estimate - 1

/-- The double nearest to `numerator / denominator`; a tie goes to the even
significand and a quotient beyond the range is infinite. -/
def ofRatio (numerator denominator : Nat) : Binary64 :=
  if numerator = 0 then zero
  else
    -- One unit in the last place is `2 ^ unit`; below the normal range it no longer shrinks.
    let unit : Int := max (floorLog2 numerator denominator - 52) (-1074)
    let steps := roundedQuotient (numerator <<< (-unit).toNat) (denominator <<< unit.toNat)
    ofMagnitude (min ((unit + 1074).toNat * leadingBit + steps) infinity.bits.toNat)

/-- The double nearest to a natural number. -/
def ofNat (number : Nat) : Binary64 := ofRatio number 1

/-- The double nearest to an integer. -/
def ofInt (number : Int) : Binary64 := withSign (number < 0) (ofNat number.natAbs)

end Binary64

end CellBus
