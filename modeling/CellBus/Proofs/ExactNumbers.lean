import CellBus.Value
import Mathlib.Algebra.Field.Rat
import Mathlib.Algebra.Order.Group.Nat
import Mathlib.Tactic.Ring

/-!
# The numbers that singles and doubles stand for

Finite singles and doubles are dyadic rationals, an integer significand times a
power of two.  Widening keeps the number, the sign of a zero included: the power
moves from one bias to the other, and a subnormal single is shifted until its
leading one stands where a normal double implies it.
-/

namespace CellBus

namespace Binary64

/-- The number that a finite double stands for. -/
def toRat (x : Binary64) : ℚ :=
  (if x.isNegative then -1 else 1) * x.significand * 2 ^ ((x.scale : ℤ) - 1075)

variable {magnitude : Nat}

theorem toNat_bits_withSign (negative : Bool) (bounded : magnitude < signBit) :
    (withSign negative (ofMagnitude magnitude)).bits.toNat =
      magnitude + if negative then signBit else 0 := by
  unfold signBit at bounded
  have kept : (UInt64.ofNat magnitude).toNat = magnitude := by
    rw [UInt64.toNat_ofNat']
    omega
  simp only [withSign, ofMagnitude, kept, UInt64.toNat_ofNat', signBit]
  split <;> omega

/-- The sign bit and the fields below it are read apart. -/
theorem fields_withSign (negative : Bool) {exponent fraction : Nat}
    (exponentBounded : exponent < 0x800) (fractionBounded : fraction < leadingBit) :
    let x := withSign negative (ofMagnitude (exponent * leadingBit + fraction))
    x.isNegative = negative ∧ x.exponent = exponent ∧ x.fraction = fraction := by
  unfold leadingBit at fractionBounded
  have bounded : exponent * leadingBit + fraction < signBit := by
    unfold leadingBit signBit
    omega
  have bits := toNat_bits_withSign negative bounded
  dsimp only [isNegative, Binary64.exponent, Binary64.fraction]
  rw [bits]
  cases negative <;> simp only [leadingBit, signBit, reduceIte, Bool.false_eq_true,
    beq_iff_eq, beq_eq_false_iff_ne, ne_eq] <;> omega

end Binary64

namespace Binary32

/-- The integer whose multiple by a power of two is the magnitude. -/
def significand (x : Binary32) : Nat :=
  if x.exponent = 0 then x.fraction else leadingBit + x.fraction

/-- The magnitude of a finite single is `significand · 2 ^ (scale - 150)`. -/
def scale (x : Binary32) : Nat := max x.exponent 1

/-- The number that a finite single stands for. -/
def toRat (x : Binary32) : ℚ :=
  (if x.isNegative then -1 else 1) * x.significand * 2 ^ ((x.scale : ℤ) - 150)

variable {x : Binary32}

theorem fraction_lt (x : Binary32) : x.fraction < leadingBit :=
  Nat.mod_lt _ (by decide)

/-- The fields of a double with the same magnitude as a finite single.  What the
significand is shifted up by the scale makes up for. -/
structure SameMagnitude (x : Binary32) (exponent fraction shift : Nat) : Prop where
  magnitude : x.widenedMagnitude = exponent * Binary64.leadingBit + fraction
  exponent_lt : exponent < Binary64.topExponent
  fraction_lt : fraction < Binary64.leadingBit
  significand : (if exponent = 0 then fraction else Binary64.leadingBit + fraction) =
    x.significand * 2 ^ shift
  scale : max exponent 1 + shift = x.scale + 925

theorem sameMagnitude_normal (normal : 0 < x.exponent) (finite : x.exponent < 255) :
    x.SameMagnitude (x.exponent + 896) (x.fraction * 2 ^ 29) 29 := by
  have bounded := x.fraction_lt
  unfold leadingBit at bounded
  constructor
  · rw [widenedMagnitude, if_neg (Nat.ne_of_lt finite), if_pos normal, Nat.shiftLeft_eq]
  · unfold Binary64.topExponent
    omega
  · unfold Binary64.leadingBit
    omega
  · rw [if_neg (by omega), significand, if_neg (by omega), Nat.add_mul]
    rfl
  · rw [scale, max_eq_left (by omega), max_eq_left normal]

theorem sameMagnitude_zero (zeroExponent : x.exponent = 0) (zero : x.fraction = 0) :
    x.SameMagnitude 0 0 925 := by
  constructor
  · rw [widenedMagnitude, if_neg (by omega), if_neg (by omega), if_pos zero]
    rfl
  · decide
  · decide
  · rw [significand, if_pos zeroExponent, zero, Nat.zero_mul, if_pos rfl]
  · rw [scale, zeroExponent]

theorem sameMagnitude_subnormal (zeroExponent : x.exponent = 0)
    (nonzero : x.fraction ≠ 0) :
    x.SameMagnitude (x.fraction.log2 + 874)
      (x.fraction * 2 ^ (52 - x.fraction.log2) - Binary64.leadingBit)
      (52 - x.fraction.log2) := by
  generalize leadOf : x.fraction.log2 = lead
  have short : lead < 23 := by
    rw [← leadOf, Nat.log2_lt nonzero]
    exact x.fraction_lt
  have atLeast : 2 ^ lead ≤ x.fraction := leadOf ▸ Nat.log2_self_le nonzero
  have below : x.fraction < 2 ^ (lead + 1) := leadOf ▸ Nat.lt_log2_self
  -- The shift takes the leading one to the place above a double's fraction.
  have leading : 2 ^ lead * 2 ^ (52 - lead) = Binary64.leadingBit := by
    rw [← pow_add, Nat.add_sub_cancel' (by omega)]
    rfl
  have atLeastLeading : Binary64.leadingBit ≤ x.fraction * 2 ^ (52 - lead) := by
    rw [← leading]
    exact Nat.mul_le_mul_right _ atLeast
  have belowTwice : x.fraction * 2 ^ (52 - lead) < 2 * Binary64.leadingBit := by
    rw [← leading, ← mul_assoc, ← pow_succ']
    exact Nat.mul_lt_mul_of_pos_right below (Nat.two_pow_pos _)
  constructor
  · rw [widenedMagnitude, if_neg (by omega), if_neg (by omega), if_neg nonzero,
      Nat.succ_mul, Nat.add_assoc, Nat.add_sub_cancel' atLeastLeading, leadOf]
    exact congrArg _ (Nat.shiftLeft_eq _ _)
  · unfold Binary64.topExponent
    omega
  · omega
  · rw [if_neg (by omega), Nat.add_sub_cancel' atLeastLeading, significand,
      if_pos zeroExponent]
  · rw [scale, zeroExponent, max_eq_left (by omega), max_eq_right (by decide)]
    omega

theorem exists_sameMagnitude (finite : x.isFinite) :
    ∃ exponent fraction shift, x.SameMagnitude exponent fraction shift := by
  have exponentLt : x.exponent < 255 := of_decide_eq_true finite
  by_cases normal : 0 < x.exponent
  · exact ⟨_, _, _, sameMagnitude_normal normal exponentLt⟩
  have zeroExponent : x.exponent = 0 := Nat.eq_zero_of_not_pos normal
  by_cases zero : x.fraction = 0
  · exact ⟨_, _, _, sameMagnitude_zero zeroExponent zero⟩
  · exact ⟨_, _, _, sameMagnitude_subnormal zeroExponent zero⟩

/-- Widening is exact. -/
theorem widen_exact (finite : x.isFinite) :
    x.widen.isFinite ∧ x.widen.isNegative = x.isNegative ∧ x.widen.toRat = x.toRat := by
  obtain ⟨exponent, fraction, shift, fields⟩ := exists_sameMagnitude finite
  obtain ⟨sameNegative, sameExponent, sameFraction⟩ := Binary64.fields_withSign
    x.isNegative (Nat.lt_succ_of_lt fields.exponent_lt) fields.fraction_lt
  rw [← fields.magnitude] at sameNegative sameExponent sameFraction
  change x.widen.isNegative = x.isNegative at sameNegative
  change x.widen.exponent = exponent at sameExponent
  change x.widen.fraction = fraction at sameFraction
  refine ⟨?_, sameNegative, ?_⟩
  · rw [Binary64.isFinite, sameExponent]
    exact decide_eq_true fields.exponent_lt
  · have significandWidened : x.widen.significand = x.significand * 2 ^ shift := by
      rw [Binary64.significand, sameExponent, sameFraction]
      exact fields.significand
    have scaleWidened : x.widen.scale + shift = x.scale + 925 := by
      rw [Binary64.scale, sameExponent]
      exact fields.scale
    have power : (2 : ℚ) ^ shift * 2 ^ ((x.widen.scale : ℤ) - 1075) =
        2 ^ ((x.scale : ℤ) - 150) := by
      rw [← zpow_natCast, ← zpow_add₀ two_ne_zero]
      congr 1
      omega
    rw [Binary64.toRat, toRat, sameNegative, significandWidened, ← power]
    push_cast
    ring

end Binary32

namespace Value

/-- The plain form of a single: a double for the same number, and null where there
is no number. -/
def IsSingle (number : Binary32) : Value → Prop
  | .float double =>
    number.isFinite ∧ double.isFinite ∧ double.isNegative = number.isNegative ∧
      double.toRat = number.toRat
  | .null => ¬number.isFinite
  | _ => False

theorem isSingle_ofSingle (number : Binary32) : IsSingle number (ofSingle number) := by
  by_cases finite : number.isFinite
  · rw [ofSingle, if_pos finite]
    exact ⟨finite, number.widen_exact finite⟩
  · rw [ofSingle, if_neg finite]
    exact finite

end Value

end CellBus
