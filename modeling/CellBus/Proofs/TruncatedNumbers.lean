import CellBus.Proofs.NearestDoubles
import CellBus.Value.ToCell
import Mathlib.Data.Int.ModEq
import Mathlib.Data.Int.Init

/-!
# Truncated numbers

A double converts to a cell by its number with the fraction dropped, modulo `2 ^ 32`.
An integer in the signed 64-bit range converts as it is, a larger one through the
nearest double, which there is a multiple of 2048.
-/

namespace CellBus

/-- The number with its fraction dropped. -/
def towardZero (number : ℚ) : ℤ := if 0 ≤ number then ⌊number⌋ else ⌈number⌉

theorem towardZero_intCast (number : ℤ) : towardZero number = number := by
  unfold towardZero
  split
  · exact Int.floor_intCast number
  · exact Int.ceil_intCast number

/-- A double stands for the integer. -/
def IsDouble (number : ℤ) : Prop := ∃ x : Binary64, x.isFinite ∧ x.toRat = number

namespace Binary64

theorem integerPart_eq (x : Binary64) :
    (x.integerPart : ℤ) = ⌊(x.significand : ℚ) * 2 ^ ((x.scale : ℤ) - 1075)⌋ := by
  rw [integerPart, Nat.shiftRight_eq_div_pow, Nat.shiftLeft_eq]
  rcases Nat.le_total 1075 x.scale with whole | fractional
  · obtain ⟨power, placed⟩ := Nat.exists_eq_add_of_le whole
    have shift : (x.scale : ℤ) - 1075 = power := by omega
    rw [Nat.sub_eq_zero_of_le whole, pow_zero, Nat.div_one, shift, zpow_natCast,
      placed, Nat.add_sub_cancel_left]
    symm
    exact_mod_cast Int.floor_natCast (R := ℚ) (x.significand * 2 ^ power)
  · obtain ⟨power, placed⟩ := Nat.exists_eq_add_of_le fractional
    have shift : (x.scale : ℤ) - 1075 = -power := by omega
    have sub : 1075 - x.scale = power := by omega
    rw [Nat.sub_eq_zero_of_le fractional, pow_zero, Nat.mul_one, shift, sub, zpow_neg,
      zpow_natCast, ← div_eq_mul_inv]
    symm
    exact_mod_cast Rat.floor_natCast_div_natCast x.significand (2 ^ power)

theorem truncate_eq (x : Binary64) : x.truncate = towardZero x.toRat := by
  have nonnegative : (0 : ℚ) ≤ x.significand * 2 ^ ((x.scale : ℤ) - 1075) := by positivity
  rw [truncate, integerPart_eq, toRat, mul_assoc]
  generalize (x.significand : ℚ) * 2 ^ ((x.scale : ℤ) - 1075) = magnitude at *
  cases x.isNegative with
  | false =>
      rw [if_neg Bool.false_ne_true, if_neg Bool.false_ne_true, one_mul, towardZero,
        if_pos nonnegative]
  | true =>
      rw [if_pos rfl, if_pos rfl, neg_one_mul, towardZero]
      split
      case isTrue atMost =>
          obtain rfl : magnitude = 0 := le_antisymm (by linarith) nonnegative
          simp
      case isFalse => rw [Int.ceil_neg]

theorem truncate_of_eq {x : Binary64} {number : ℤ} (value : x.toRat = number) :
    x.truncate = number := by
  rw [truncate_eq, value, towardZero_intCast]

/-- A natural number of a binade is counted in units of the power of two that leaves
fifty-three bits. -/
theorem rounds_natural {number shift : Nat} (atLeast : 2 ^ (shift + 52) ≤ number)
    (below : number < 2 ^ (shift + 53)) :
    Rounds number shift (roundedQuotient number (2 ^ shift)) := by
  obtain ⟨near, even⟩ := roundedQuotient_near number (Nat.two_pow_pos shift)
  have unitOf : ((2 ^ shift : Nat) : ℚ) = 2 ^ (shift : ℤ) := by
    rw [zpow_natCast, Nat.cast_pow, Nat.cast_ofNat]
  rw [unitOf] at near even
  refine ⟨by omega, ?_, .inr ?_, near, even⟩
  · have inUnits : (number : ℚ) / 2 ^ (shift : ℤ) < 2 ^ 53 := by
      rw [div_lt_iff₀ (by positivity), zpow_natCast, ← pow_add, add_comm]
      exact_mod_cast below
    have bounded :
        (roundedQuotient number (2 ^ shift) : ℚ) < (2 ^ 53 + 1 : Nat) := by
      push_cast
      linarith [(abs_le.mp near).2]
    exact Nat.lt_succ_iff.mp (by exact_mod_cast bounded)
  · exact_mod_cast atLeast

/-- Shifted up, a number of at most fifty-three bits is a count of its unit. -/
theorem exists_exact {number : Nat} (positive : 0 < number) (small : number ≤ 2 ^ 53) :
    ∃ (unit : ℤ) (steps : Nat), -1074 ≤ unit ∧ unit ≤ 0 ∧ steps ≤ 2 ^ 53 ∧
      2 ^ 52 ≤ steps ∧ (number : ℚ) = steps * 2 ^ unit := by
  rcases Nat.lt_or_eq_of_le small with short | rfl
  · generalize leadOf : number.log2 = lead
    have leadLt : lead < 53 := by
      rw [← leadOf]
      exact (Nat.log2_lt positive.ne').mpr short
    have low : 2 ^ lead ≤ number := leadOf ▸ Nat.log2_self_le positive.ne'
    have high : number < 2 ^ (lead + 1) := leadOf ▸ Nat.lt_log2_self
    refine ⟨(lead : ℤ) - 52, number * 2 ^ (52 - lead), by omega, by omega, ?_, ?_, ?_⟩
    · calc number * 2 ^ (52 - lead) ≤ 2 ^ (lead + 1) * 2 ^ (52 - lead) :=
            Nat.mul_le_mul_right _ high.le
        _ = 2 ^ 53 := by
          rw [← pow_add]
          congr 1
          omega
    · calc 2 ^ 52 = 2 ^ lead * 2 ^ (52 - lead) := by
            rw [← pow_add]
            congr 1
            omega
        _ ≤ number * 2 ^ (52 - lead) := Nat.mul_le_mul_right _ low
    · have cancelled : (2 : ℚ) ^ (52 - lead) * 2 ^ ((lead : ℤ) - 52) = 1 := by
        rw [← zpow_natCast, ← zpow_add₀ two_ne_zero, ← zpow_zero (2 : ℚ)]
        congr 1
        omega
      push_cast
      rw [mul_assoc, cancelled, mul_one]
  · exact ⟨0, 2 ^ 53, by decide, le_refl 0, le_refl _, by decide, by simp⟩

/-- An integer of at most fifty-three bits is a double. -/
theorem isDouble_of_small {number : ℤ} (small : |number| ≤ 2 ^ 53) : IsDouble number := by
  rcases Nat.eq_zero_or_pos number.natAbs with none | positive
  · have zero : number = 0 := Int.natAbs_eq_zero.mp none
    have noSignificand : Binary64.zero.significand = 0 := by decide
    refine ⟨Binary64.zero, by decide, ?_⟩
    rw [zero, toRat, noSignificand]
    simp
  · rw [Int.abs_eq_natAbs] at small
    obtain ⟨unit, steps, least, most, atMost, normal, exact⟩ :=
      exists_exact positive (by exact_mod_cast small)
    obtain ⟨finite, _, value, _⟩ := ofSteps_finite (decide (number < 0)) least atMost
      (.inr normal) (by
        rw [infinity_bits]
        unfold leadingBit topExponent
        omega)
    exact ⟨_, finite, by rw [value, ← exact, sign_mul_natAbs]⟩

/-- Rounding leaves an integer that is a double as it is. -/
theorem IsNearest.exact {x : Binary64} {number : ℤ} (nearest : x.IsNearest number)
    (isDouble : IsDouble number) (inside : |number| < 2 ^ 64) :
    x.isFinite ∧ x.toRat = number := by
  have inRange : |(number : ℚ)| < overflow :=
    lt_of_lt_of_le (by exact_mod_cast inside) le_overflow
  obtain ⟨y, finite, value⟩ := isDouble
  have near := nearest.near inRange y finite
  rw [value, sub_self, abs_zero] at near
  exact ⟨nearest.finite_iff.mpr inRange, sub_eq_zero.mp (abs_nonpos_iff.mp near)⟩

theorem isDouble_towardZero {x : Binary64} (finite : x.isFinite) :
    IsDouble (towardZero x.toRat) := by
  obtain ⟨factor, power, bounded, _, value⟩ := x.toRat_eq
  rcases Int.le_total 0 power with whole | fractional
  · obtain ⟨exponent, rfl⟩ := Int.eq_ofNat_of_zero_le whole
    have asInteger : x.toRat = (factor * 2 ^ exponent : ℤ) := by
      rw [value]
      push_cast
      rfl
    rw [asInteger, towardZero_intCast]
    exact ⟨x, finite, asInteger⟩
  · have size : |x.toRat| ≤ 2 ^ 53 := by
      have factorLe : |(factor : ℚ)| ≤ 2 ^ 53 := by exact_mod_cast bounded.le
      have powerLe : (2 : ℚ) ^ power ≤ 1 := zpow_le_one_of_nonpos₀ one_le_two fractional
      rw [value, abs_mul, abs_of_pos (a := (2 : ℚ) ^ power) (by positivity),
        ← mul_one ((2 : ℚ) ^ 53)]
      gcongr
    obtain ⟨low, high⟩ := abs_le.mp size
    refine isDouble_of_small (abs_le.mpr ?_)
    unfold towardZero
    split
    case isTrue nonnegative =>
        have atLeast : 0 ≤ ⌊x.toRat⌋ := Int.floor_nonneg.mpr nonnegative
        refine ⟨by omega, ?_⟩
        have atMost := (Int.floor_le x.toRat).trans high
        exact_mod_cast atMost
    case isFalse negative =>
        have atMost : ⌈x.toRat⌉ ≤ 0 := Int.ceil_le.mpr (by
          push_cast
          linarith)
        refine ⟨?_, by omega⟩
        have atLeast := low.trans (Int.le_ceil x.toRat)
        exact_mod_cast atLeast

end Binary64

/-- A cell is the one integer of its range that is congruent to the number. -/
theorem Cell.toInt_ofInt_eq_iff (number result : ℤ) :
    (Cell.ofInt number).toInt = result ↔
      -2 ^ 31 ≤ result ∧ result < 2 ^ 31 ∧ result ≡ number [ZMOD 2 ^ 32] := by
  rw [Cell.ofInt, Int32.toInt_ofInt, Int.ModEq, Int.bmod]
  norm_num
  split <;> omega

theorem Cell.ofInt_eq_ofInt_iff {left right : ℤ} :
    Cell.ofInt left = Cell.ofInt right ↔ left ≡ right [ZMOD 2 ^ 32] := by
  obtain ⟨low, high, congruent⟩ := (Cell.toInt_ofInt_eq_iff left _).mp rfl
  rw [← Int32.toInt_inj, eq_comm, Cell.toInt_ofInt_eq_iff]
  exact ⟨fun same => congruent.symm.trans same.2.2,
    fun same => ⟨low, high, congruent.trans same⟩⟩

theorem Cell.saturated_of_inside {number : ℤ} (low : -2 ^ 31 ≤ number)
    (high : number < 2 ^ 31) : Cell.saturated number = Cell.ofInt number := by
  rw [saturated, min_eq_left (by omega), max_eq_right (by omega)]

namespace Binary64

/-- The least nonnegative remainder is the truncating one, moved up if it is negative. -/
theorem wrapped_eq (x : Binary64) : x.wrapped = x.truncate % 2 ^ 32 := by
  rw [wrapped, remainder, Int.tmod_eq_emod]
  norm_num
  split <;> split <;> omega

/-- The integer of a cell's range that is congruent to the number with its fraction
dropped. -/
theorem centred_spec (x : Binary64) :
    -2 ^ 31 ≤ x.centred ∧ x.centred < 2 ^ 31 ∧ x.centred ≡ x.truncate [ZMOD 2 ^ 32] := by
  rw [centred, wrapped_eq, Int.ModEq]
  split <;> omega

theorem toCell_finite {x : Binary64} (finite : x.isFinite) :
    x.toCell = Cell.ofInt x.truncate := by
  obtain ⟨low, high, congruent⟩ := x.centred_spec
  rw [toCell, if_pos finite, Cell.saturated_of_inside low high, Cell.ofInt_eq_ofInt_iff]
  exact congruent

theorem toCell_of_eq {x : Binary64} {number : ℤ} (finite : x.isFinite)
    (value : x.toRat = number) : x.toCell = Cell.ofInt number := by
  rw [toCell_finite finite, truncate_of_eq value]

end Binary64

namespace Value

theorem toCell_float {x : Binary64} (finite : x.isFinite) :
    (Value.float x).toCell = Cell.ofInt (towardZero x.toRat) := by
  rw [toCell, Binary64.toCell_finite finite, Binary64.truncate_eq]

theorem toCell_int {number : ℤ} (low : -2 ^ 63 ≤ number) (high : number < 2 ^ 63) :
    (Value.int number).toCell = Cell.ofInt number := by
  rw [toCell, integerToCell, if_pos (by simpa using ⟨low, high⟩)]

theorem toCell_int_large {number : ℤ} (large : 2 ^ 63 ≤ number) :
    (Value.int number).toCell = (Binary64.ofInt number).toCell := by
  have outside : ¬(-0x8000000000000000 ≤ number ∧ number < 0x8000000000000000) := by omega
  rw [toCell, integerToCell, if_neg (by simpa using outside)]

/-- Beyond the signed 64-bit range an integer counts as the nearest multiple of 2048, of
two equally near the even one. -/
theorem toCell_int_beyond {number : ℤ} (low : 2 ^ 63 ≤ number) (high : number < 2 ^ 64) :
    ∃ multiple : ℤ, |number - 2048 * multiple| ≤ 1024 ∧
      (|number - 2048 * multiple| = 1024 → Even multiple) ∧
      (Value.int number).toCell = Cell.ofInt (2048 * multiple) := by
  obtain ⟨natural, rfl⟩ := Int.eq_ofNat_of_zero_le (a := number) (by omega)
  have rounds : Binary64.Rounds natural (11 : Nat)
      (Binary64.roundedQuotient natural (2 ^ 11)) :=
    Binary64.rounds_natural (by exact_mod_cast low) (by exact_mod_cast high)
  generalize Binary64.roundedQuotient natural (2 ^ 11) = steps at rounds
  have distance : ((|(natural : ℤ) - 2048 * (steps : ℤ)| : ℤ) : ℚ) =
      |(steps : ℚ) - natural / 2 ^ ((11 : Nat) : ℤ)| * 2048 := by
    have unit : (2 : ℚ) ^ ((11 : Nat) : ℤ) = 2048 := by norm_num
    have inUnits := Binary64.Rounds.distance_eq natural ((11 : Nat) : ℤ) steps
    rw [unit] at inUnits ⊢
    rw [← inUnits, abs_sub_comm]
    push_cast
    rw [mul_comm]
  refine ⟨steps, ?_, fun tie => ?_, ?_⟩
  · have atMost : ((|(natural : ℤ) - 2048 * (steps : ℤ)| : ℤ) : ℚ) ≤ 1024 := by
      rw [distance]
      linarith [rounds.near]
    exact_mod_cast atMost
  · rw [tie] at distance
    exact (Int.even_coe_nat steps).mpr (rounds.even (by linarith))
  · obtain ⟨finite, value⟩ := rounds.finite (rounds.lt_overflow (by decide))
    rw [toCell_int_large low, Binary64.ofInt, Int.natAbs_natCast, rounds.ofNat_eq,
      decide_eq_false (by omega), Binary64.withSign_ofSteps]
    refine Binary64.toCell_of_eq finite ?_
    rw [value, zpow_natCast]
    push_cast
    ring

end Value

/-- A finite double converts to the cell that is congruent to its number with the
fraction dropped, modulo `2 ^ 32`; an integer in the signed 64-bit range to the one
congruent to it, and a larger one to the one congruent to the nearest multiple of 2048.
So a double and an integer for the same number convert alike.  The conversion of a double
may be done on doubles: what it passes through are integers that doubles stand for, and
the last one is in the range of cells, so that nothing is rounded or moved to an end of
it. -/
theorem numbers_convert_modulo :
    (∀ x : Binary64, x.isFinite → ∀ result : ℤ, (Value.float x).toCell.toInt = result ↔
      -2 ^ 31 ≤ result ∧ result < 2 ^ 31 ∧ result ≡ towardZero x.toRat [ZMOD 2 ^ 32]) ∧
    (∀ number : ℤ, -2 ^ 63 ≤ number → number < 2 ^ 63 → ∀ result : ℤ,
      (Value.int number).toCell.toInt = result ↔
        -2 ^ 31 ≤ result ∧ result < 2 ^ 31 ∧ result ≡ number [ZMOD 2 ^ 32]) ∧
    (∀ number : ℤ, 2 ^ 63 ≤ number → number < 2 ^ 64 →
      ∃ multiple : ℤ, |number - 2048 * multiple| ≤ 1024 ∧
        (|number - 2048 * multiple| = 1024 → Even multiple) ∧
        (Value.int number).toCell.toInt ≡ 2048 * multiple [ZMOD 2 ^ 32]) ∧
    (∀ (x : Binary64) (number : ℤ), x.isFinite → x.toRat = number →
      -2 ^ 63 ≤ number → number < 2 ^ 63 →
        (Value.float x).toCell = (Value.int number).toCell) ∧
    ∀ x : Binary64, x.isFinite →
      x.truncate = towardZero x.toRat ∧ IsDouble x.truncate ∧ IsDouble x.remainder ∧
        IsDouble x.wrapped ∧ IsDouble x.centred ∧
        -2 ^ 31 ≤ x.centred ∧ x.centred < 2 ^ 31 ∧
        (Value.float x).toCell = Cell.saturated x.centred := by
  refine ⟨?_, ?_, ?_, ?_, ?_⟩
  · intro x finite result
    rw [Value.toCell_float finite, Cell.toInt_ofInt_eq_iff]
  · intro number low high result
    rw [Value.toCell_int low high, Cell.toInt_ofInt_eq_iff]
  · intro number low high
    obtain ⟨multiple, near, even, converted⟩ := Value.toCell_int_beyond low high
    refine ⟨multiple, near, even, ?_⟩
    rw [converted]
    exact ((Cell.toInt_ofInt_eq_iff (2048 * multiple) _).mp rfl).2.2
  · intro x number finite value low high
    rw [Value.toCell_float finite, value, towardZero_intCast, Value.toCell_int low high]
  · intro x finite
    have remainderLow : -2 ^ 32 < x.remainder := Int.lt_tmod_of_pos x.truncate (by norm_num)
    have remainderHigh : x.remainder < 2 ^ 32 := Int.tmod_lt_of_pos x.truncate (by norm_num)
    have wrappedOf := x.wrapped_eq
    obtain ⟨low, high, -⟩ := x.centred_spec
    have small {number : ℤ} (low : -2 ^ 32 ≤ number) (high : number ≤ 2 ^ 32) :
        IsDouble number :=
      Binary64.isDouble_of_small (abs_le.mpr ⟨by omega, by omega⟩)
    refine ⟨x.truncate_eq, x.truncate_eq ▸ Binary64.isDouble_towardZero finite,
      small remainderLow.le remainderHigh.le, small (by omega) (by omega),
      small (by omega) (by omega), low, high, ?_⟩
    rw [Value.toCell, Binary64.toCell, if_pos finite]

/-- At the edge of the range of cells, one fraction below it; at the least signed 64-bit
integer, as an integer and as a double; and halfway between two multiples of 2048. -/
theorem numbers_at_the_edges_convert :
    let x : Binary64 := ⟨0xC1E0000000100000⟩
    let least : Binary64 := ⟨0xC3E0000000000000⟩
    x.isFinite ∧ x.toRat = -4294967297 / 2 ∧ (Value.float x).toCell.toInt = -2147483648 ∧
      (Value.int (2 ^ 63 - 1)).toCell.toInt = -1 ∧
      (Value.int (2 ^ 63 + 3072)).toCell.toInt ≡ 2 ^ 63 + 4096 [ZMOD 2 ^ 32] ∧
      least.isFinite ∧ least.toRat = (-2 ^ 63 : ℤ) ∧
      (Value.float least).toCell = (Value.int (-2 ^ 63)).toCell ∧
      (Value.float x).toCell = Cell.saturated (-2147483648) := by
  intro x least
  have finite : x.isFinite := by decide
  have value : x.toRat = -4294967297 / 2 := by
    have significandOf : x.significand = 0x10000000100000 := by decide
    have scaleOf : x.scale = 1054 := by decide
    have negative : x.isNegative = true := by decide
    rw [Binary64.toRat, significandOf, scaleOf, negative]
    norm_num
  have whole : towardZero x.toRat = -2147483648 := by
    rw [value, towardZero, if_neg (by norm_num)]
    norm_num
  have leastFinite : least.isFinite := by decide
  have leastValue : least.toRat = (-2 ^ 63 : ℤ) := by
    have significandOf : least.significand = 0x10000000000000 := by decide
    have scaleOf : least.scale = 1086 := by decide
    have negative : least.isNegative = true := by decide
    rw [Binary64.toRat, significandOf, scaleOf, negative]
    norm_num
  obtain ⟨floats, ints, beyond, alike, steps⟩ := numbers_convert_modulo
  obtain ⟨multiple, near, even, converted⟩ :=
    beyond (2 ^ 63 + 3072) (by norm_num) (by norm_num)
  have chosen : multiple = 2 ^ 52 + 2 := by
    rw [abs_le] at near
    have tie : |(2 ^ 63 + 3072 : ℤ) - 2048 * multiple| = 1024 := by
      rw [abs_eq (by norm_num)]
      omega
    have parity := Int.even_iff.mp (even tie)
    omega
  refine ⟨finite, value, ?_, ?_, ?_, leastFinite, leastValue, ?_, ?_⟩
  · refine (floats x finite _).mpr ⟨by norm_num, by norm_num, ?_⟩
    rw [whole]
  · exact (ints (2 ^ 63 - 1) (by norm_num) (by norm_num) _).mpr
      ⟨by norm_num, by norm_num, by decide⟩
  · rw [chosen] at converted
    exact converted
  · exact alike least (-2 ^ 63) leastFinite leastValue (by norm_num) (by norm_num)
  · have centredOf : x.centred = -2147483648 := by decide
    exact centredOf ▸ (steps x finite).2.2.2.2.2.2.2

end CellBus
