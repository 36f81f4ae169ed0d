import CellBus.Proofs.ExactNumbers
import Mathlib.Algebra.Order.Field.Power
import Mathlib.Algebra.Order.Field.Rat
import Mathlib.Algebra.Order.Floor.Ring
import Mathlib.Data.Rat.Floor
import Mathlib.Tactic.FieldSimp
import Mathlib.Tactic.Linarith
import Mathlib.Tactic.NormNum
import Mathlib.Tactic.Positivity

/-!
# Ratios rounded to doubles

The doubles between two powers of two lie evenly, one unit apart.  A ratio is taken in
units, the count is rounded to the nearest integer with a half going to the even one,
and unit and count together are the bits.  `Rounds` says which unit and count a number
has; it leaves open to which side a power of two belongs, as the bits are the same.
-/

namespace CellBus.Binary64

/-- The nonnegative double of so many units; what leaves the range is infinite. -/
def ofSteps (unit : ℤ) (steps : Nat) : Binary64 :=
  ofMagnitude (min ((unit + 1074).toNat * leadingBit + steps) infinity.bits.toNat)

/-- A nonnegative number in units of `2 ^ unit` is nearest to so many of them, and to an
even count if it lies halfway.  The unit is the one that doubles of this size have. -/
structure Rounds (number : ℚ) (unit : ℤ) (steps : Nat) : Prop where
  least : -1074 ≤ unit
  atMost : steps ≤ 2 ^ 53
  atLeast : unit = -1074 ∨ 2 ^ (unit + 52) ≤ number
  near : |(steps : ℚ) - number / 2 ^ unit| ≤ 1 / 2
  even : |(steps : ℚ) - number / 2 ^ unit| = 1 / 2 → Even steps

theorem roundedQuotient_near (numerator : Nat) {denominator : Nat}
    (positive : 0 < denominator) :
    |(roundedQuotient numerator denominator : ℚ) - numerator / denominator| ≤ 1 / 2 ∧
      (|(roundedQuotient numerator denominator : ℚ) - numerator / denominator| = 1 / 2 →
        Even (roundedQuotient numerator denominator)) := by
  have divisor : (0 : ℚ) < denominator := by exact_mod_cast positive
  unfold roundedQuotient
  generalize quotientOf : numerator / denominator = quotient
  generalize remainderOf : numerator % denominator = remainder
  have divided : (numerator : ℚ) / denominator = quotient + remainder / denominator := by
    rw [← quotientOf, ← remainderOf, div_eq_iff divisor.ne', add_mul,
      div_mul_cancel₀ _ divisor.ne']
    exact_mod_cast (Nat.div_add_mod' numerator denominator).symm
  have nonnegative : (0 : ℚ) ≤ remainder / denominator := by positivity
  have belowOne : (remainder : ℚ) / denominator < 1 := by
    rw [div_lt_one divisor, ← remainderOf]
    exact_mod_cast Nat.mod_lt numerator positive
  have belowHalf : 2 * remainder < denominator ↔ (remainder : ℚ) / denominator < 1 / 2 := by
    rw [div_lt_iff₀ divisor, ← Nat.cast_lt (α := ℚ)]
    push_cast
    constructor <;> intro <;> linarith
  have aboveHalf : denominator < 2 * remainder ↔ 1 / 2 < (remainder : ℚ) / denominator := by
    rw [lt_div_iff₀ divisor, ← Nat.cast_lt (α := ℚ)]
    push_cast
    constructor <;> intro <;> linarith
  rw [divided, abs_le, abs_eq (by norm_num)]
  generalize (remainder : ℚ) / denominator = part at *
  dsimp only
  split
  case isTrue low =>
      rw [belowHalf] at low
      refine ⟨⟨by linarith, by linarith⟩, ?_⟩
      rintro (half | half) <;> linarith
  case isFalse notLow =>
    rw [belowHalf, not_lt] at notLow
    split
    case isTrue high =>
        rw [aboveHalf] at high
        push_cast
        refine ⟨⟨by linarith, by linarith⟩, ?_⟩
        rintro (half | half) <;> linarith
    case isFalse notHigh =>
        rw [aboveHalf, not_lt] at notHigh
        have parity := Nat.mod_two_eq_zero_or_one quotient
        have even : Even (quotient + quotient % 2) := by
          rw [Nat.even_iff]
          omega
        refine ⟨?_, fun _ => even⟩
        rcases parity with parity | parity <;> rw [parity] <;> push_cast <;>
          constructor <;> linarith

theorem shifted_ratio (numerator denominator : Nat) (unit : ℤ) :
    ((numerator <<< (-unit).toNat : Nat) : ℚ) / ((denominator <<< unit.toNat : Nat) : ℚ) =
      numerator / denominator / 2 ^ unit := by
  rw [Nat.shiftLeft_eq, Nat.shiftLeft_eq]
  push_cast
  rcases Int.le_total 0 unit with nonnegative | nonpositive
  · obtain ⟨power, rfl⟩ := Int.eq_ofNat_of_zero_le nonnegative
    simp [div_div]
  · obtain ⟨power, negated⟩ := Int.eq_ofNat_of_zero_le (Int.neg_nonneg.mpr nonpositive)
    obtain rfl : unit = -(power : ℤ) := by omega
    simp [div_mul_eq_mul_div]

/-- The estimate from the lengths is off by one at most. -/
theorem floorLog2_spec {numerator denominator : Nat} (numeratorPos : 0 < numerator)
    (denominatorPos : 0 < denominator) :
    (2 : ℚ) ^ floorLog2 numerator denominator ≤ numerator / denominator ∧
      (numerator : ℚ) / denominator < 2 ^ (floorLog2 numerator denominator + 1) := by
  have divisor : (0 : ℚ) < denominator := by exact_mod_cast denominatorPos
  have numeratorLow : (2 : ℚ) ^ (numerator.log2 : ℤ) ≤ numerator := by
    exact_mod_cast Nat.log2_self_le numeratorPos.ne'
  have numeratorHigh : (numerator : ℚ) < 2 ^ ((numerator.log2 : ℤ) + 1) := by
    exact_mod_cast Nat.lt_log2_self (n := numerator)
  have denominatorLow : (2 : ℚ) ^ (denominator.log2 : ℤ) ≤ denominator := by
    exact_mod_cast Nat.log2_self_le denominatorPos.ne'
  have denominatorHigh : (denominator : ℚ) < 2 ^ ((denominator.log2 : ℤ) + 1) := by
    exact_mod_cast Nat.lt_log2_self (n := denominator)
  unfold floorLog2
  generalize estimateOf : (numerator.log2 : ℤ) - denominator.log2 = estimate
  have compared : denominator <<< estimate.toNat ≤ numerator <<< (-estimate).toNat ↔
      (2 : ℚ) ^ estimate ≤ numerator / denominator := by
    have shiftedPos : (0 : ℚ) < ((denominator <<< estimate.toNat : Nat) : ℚ) := by
      rw [Nat.shiftLeft_eq]
      positivity
    rw [← Nat.cast_le (α := ℚ), ← one_le_div shiftedPos, shifted_ratio,
      one_le_div (by positivity)]
  dsimp only
  split
  case isTrue reached =>
      refine ⟨compared.mp reached, ?_⟩
      rw [div_lt_iff₀ divisor]
      calc (numerator : ℚ) < 2 ^ ((numerator.log2 : ℤ) + 1) := numeratorHigh
        _ = 2 ^ (estimate + 1) * 2 ^ (denominator.log2 : ℤ) := by
          rw [← zpow_add₀ two_ne_zero]
          congr 1
          omega
        _ ≤ 2 ^ (estimate + 1) * denominator := by gcongr
  case isFalse missed =>
      rw [sub_add_cancel]
      refine ⟨?_, not_le.mp fun reached => missed (compared.mpr reached)⟩
      rw [le_div_iff₀ divisor]
      calc (2 : ℚ) ^ (estimate - 1) * denominator
          ≤ 2 ^ (estimate - 1) * 2 ^ ((denominator.log2 : ℤ) + 1) := by gcongr
        _ = 2 ^ (numerator.log2 : ℤ) := by
          rw [← zpow_add₀ two_ne_zero]
          congr 1
          omega
        _ ≤ numerator := numeratorLow

theorem exists_rounds_of_pos {numerator denominator : Nat} (numeratorPos : 0 < numerator)
    (denominatorPos : 0 < denominator) :
    ∃ unit steps, Rounds (numerator / denominator) unit steps ∧
      ofRatio numerator denominator = ofSteps unit steps := by
  obtain ⟨low, high⟩ := floorLog2_spec numeratorPos denominatorPos
  let unit : ℤ := max (floorLog2 numerator denominator - 52) (-1074)
  let steps := roundedQuotient (numerator <<< (-unit).toNat) (denominator <<< unit.toNat)
  have shiftedPos : 0 < denominator <<< unit.toNat := by
    rw [Nat.shiftLeft_eq]
    positivity
  obtain ⟨near, even⟩ :=
    roundedQuotient_near (numerator <<< (-unit).toNat) shiftedPos
  rw [shifted_ratio] at near even
  have atMost : steps ≤ 2 ^ 53 := by
    have inUnits : (numerator : ℚ) / denominator / 2 ^ unit < 2 ^ 53 := by
      rw [div_lt_iff₀ (by positivity)]
      calc (numerator : ℚ) / denominator
          < 2 ^ (floorLog2 numerator denominator + 1) := high
        _ ≤ 2 ^ ((53 : ℤ) + unit) := zpow_le_zpow_right₀ one_le_two (by omega)
        _ = 2 ^ 53 * 2 ^ unit := zpow_add₀ two_ne_zero _ _
    have bounded : (steps : ℚ) < (2 ^ 53 + 1 : Nat) := by
      push_cast
      linarith [(abs_le.mp near).2]
    exact Nat.lt_succ_iff.mp (by exact_mod_cast bounded)
  refine ⟨unit, steps, ⟨le_max_right _ _, atMost, ?_, near, even⟩, ?_⟩
  · rcases max_cases (floorLog2 numerator denominator - 52) (-1074) with
      ⟨chosen, _⟩ | ⟨chosen, _⟩
    · refine .inr (le_trans (zpow_le_zpow_right₀ one_le_two ?_) low)
      omega
    · exact .inl chosen
  · rw [ofRatio, if_neg numeratorPos.ne']
    rfl

theorem exists_rounds (numerator : Nat) {denominator : Nat} (positive : 0 < denominator) :
    ∃ unit steps, Rounds (numerator / denominator) unit steps ∧
      ofRatio numerator denominator = ofSteps unit steps := by
  rcases Nat.eq_zero_or_pos numerator with rfl | numeratorPos
  · refine ⟨-1074, 0, ⟨le_refl _, Nat.zero_le _, .inl rfl, ?_, fun _ => by decide⟩, ?_⟩
    · simp
    · rw [ofRatio, if_pos rfl]
      rfl
  · exact exists_rounds_of_pos numeratorPos positive

theorem infinity_bits : infinity.bits.toNat = topExponent * leadingBit := rfl

theorem withSign_false {magnitude : Nat} (bounded : magnitude < signBit) :
    withSign false (ofMagnitude magnitude) = ofMagnitude magnitude := by
  have bits := toNat_bits_withSign false bounded
  have kept : (UInt64.ofNat magnitude).toNat = magnitude := by
    unfold signBit at bounded
    rw [UInt64.toNat_ofNat']
    omega
  exact congrArg Binary64.mk (UInt64.toNat_inj.mp (bits.trans kept.symm))

theorem withSign_ofSteps (unit : ℤ) (steps : Nat) :
    withSign false (ofSteps unit steps) = ofSteps unit steps :=
  withSign_false (lt_of_le_of_lt (Nat.min_le_right _ _) (by decide))

/-- The fields of a double of so many units.  A count of `2 ^ 53` is carried into the
exponent. -/
structure Encodes (unit : ℤ) (steps exponent fraction carried : Nat) : Prop where
  bits : (unit + 1074).toNat * leadingBit + steps = exponent * leadingBit + fraction
  fraction_lt : fraction < leadingBit
  significand : (if exponent = 0 then fraction else leadingBit + fraction) * 2 ^ carried =
    steps
  scale : (max exponent 1 : ℤ) - 1075 = unit + carried
  even : Even steps → Even (if exponent = 0 then fraction else leadingBit + fraction)

theorem exists_encodes {unit : ℤ} {steps : Nat} (least : -1074 ≤ unit)
    (atMost : steps ≤ 2 ^ 53) (normal : unit = -1074 ∨ 2 ^ 52 ≤ steps) :
    ∃ exponent fraction carried, Encodes unit steps exponent fraction carried := by
  obtain ⟨place, placed⟩ := Int.eq_ofNat_of_zero_le (a := unit + 1074) (by omega)
  have atPlace : (unit + 1074).toNat = place := by omega
  rcases Nat.lt_or_ge steps leadingBit with subnormal | atLeast
  · refine ⟨0, steps, 0, ⟨?_, subnormal, ?_, ?_, id⟩⟩
    · unfold leadingBit at *
      omega
    · rw [if_pos rfl, pow_zero, mul_one]
    · unfold leadingBit at subnormal
      omega
  rcases Nat.lt_or_eq_of_le atMost with inside | rfl
  · have kept : leadingBit + (steps - leadingBit) = steps := Nat.add_sub_cancel' atLeast
    refine ⟨place + 1, steps - leadingBit, 0, ⟨?_, ?_, ?_, ?_, ?_⟩⟩
    · unfold leadingBit at *
      omega
    · unfold leadingBit at *
      omega
    · rw [if_neg (by omega), pow_zero, mul_one, kept]
    · omega
    · rw [if_neg (by omega), kept]
      exact id
  · refine ⟨place + 2, 0, 1, ⟨?_, by decide, ?_, ?_, fun _ => ?_⟩⟩
    · unfold leadingBit
      omega
    · rw [if_neg (by omega)]
      rfl
    · omega
    · rw [if_neg (by omega)]
      decide

/-- What a count of units stands for, as long as it is in the range. -/
theorem ofSteps_finite (negative : Bool) {unit : ℤ} {steps : Nat} (least : -1074 ≤ unit)
    (atMost : steps ≤ 2 ^ 53) (normal : unit = -1074 ∨ 2 ^ 52 ≤ steps)
    (inRange : (unit + 1074).toNat * leadingBit + steps < infinity.bits.toNat) :
    let x := withSign negative (ofSteps unit steps)
    x.isFinite ∧ x.isNegative = negative ∧
      x.toRat = (if negative then -1 else 1) * (steps * 2 ^ unit) ∧
      (Even steps → Even x.significand) := by
  intro x
  obtain ⟨exponent, fraction, carried, encodes⟩ := exists_encodes least atMost normal
  have exponentLt : exponent < topExponent := by
    have bits := encodes.bits
    rw [infinity_bits, bits] at inRange
    unfold leadingBit at inRange
    omega
  obtain ⟨sameNegative, sameExponent, sameFraction⟩ := fields_withSign negative
    (Nat.lt_trans exponentLt (by decide)) encodes.fraction_lt
  have encoded : x =
      withSign negative (ofMagnitude (exponent * leadingBit + fraction)) := by
    change withSign negative (ofMagnitude _) = _
    rw [Nat.min_eq_left inRange.le, encodes.bits]
  rw [← encoded] at sameNegative sameExponent sameFraction
  have significandOf : x.significand =
      if exponent = 0 then fraction else leadingBit + fraction := by
    rw [significand, sameExponent, sameFraction]
  refine ⟨?_, sameNegative, ?_, ?_⟩
  · rw [isFinite, sameExponent]
    exact decide_eq_true exponentLt
  · have scaleOf : (x.scale : ℤ) - 1075 = unit + carried := by
      rw [scale, sameExponent]
      push_cast
      exact encodes.scale
    rw [toRat, sameNegative, scaleOf, significandOf, zpow_add₀ two_ne_zero, zpow_natCast,
      mul_assoc]
    congr 1
    rw [← encodes.significand]
    push_cast
    ring
  · rw [significandOf]
    exact encodes.even

/-- The largest finite double and the power of two above it are equally near to this
number. -/
def overflow : ℚ := 2 ^ 1024 - 2 ^ 970

theorem overflow_eq : overflow = (2 ^ 53 - 1 / 2) * 2 ^ (971 : ℤ) := by
  have top : (2 : ℚ) ^ 1024 = 2 ^ 53 * 2 ^ (971 : ℤ) := by
    rw [← zpow_natCast, ← zpow_natCast, ← zpow_add₀ two_ne_zero]
    rfl
  have half : (2 : ℚ) ^ 970 = 1 / 2 * 2 ^ (971 : ℤ) := by
    rw [← zpow_natCast, show (971 : ℤ) = (970 : Nat) + 1 by rfl, zpow_add_one₀ two_ne_zero]
    ring
  rw [overflow, top, half, sub_mul]

namespace Rounds

variable {number : ℚ} {unit other : ℤ} {steps others : Nat}

theorem number_eq (number : ℚ) (unit : ℤ) : number = number / 2 ^ unit * 2 ^ unit :=
  (div_mul_cancel₀ _ (zpow_ne_zero _ two_ne_zero)).symm

/-- A distance, counted in units. -/
theorem distance_eq (number : ℚ) (unit : ℤ) (count : ℚ) :
    |count * 2 ^ unit - number| = |count - number / 2 ^ unit| * 2 ^ unit := by
  have positive : (0 : ℚ) < 2 ^ unit := by positivity
  rw [← abs_of_pos positive, ← abs_mul, abs_of_pos positive, sub_mul,
    div_mul_cancel₀ _ positive.ne']

theorem binade (rounds : Rounds number unit steps) (above : unit ≠ -1074) :
    2 ^ 52 * 2 ^ unit ≤ number := by
  refine le_trans (le_of_eq ?_) (rounds.atLeast.resolve_left above)
  rw [add_comm, zpow_add₀ two_ne_zero]
  rfl

theorem normal (rounds : Rounds number unit steps) : unit = -1074 ∨ 2 ^ 52 ≤ steps := by
  by_cases lowest : unit = -1074
  · exact .inl lowest
  have inUnits : (2 : ℚ) ^ 52 ≤ number / 2 ^ unit := by
    rw [le_div_iff₀ (by positivity)]
    exact rounds.binade lowest
  have bounded : ((2 ^ 52 : Nat) : ℚ) < (steps + 1 : Nat) := by
    push_cast
    linarith [(abs_le.mp rounds.near).1]
  exact .inr (Nat.lt_succ_iff.mp (by exact_mod_cast bounded))

theorem lt_overflow (rounds : Rounds number unit steps) (inside : unit < 971) :
    number < overflow := by
  obtain ⟨low, _⟩ := abs_le.mp rounds.near
  have stepsLe : (steps : ℚ) ≤ 2 ^ 53 := by exact_mod_cast rounds.atMost
  have smaller : (2 : ℚ) ^ unit ≤ 2 ^ (970 : ℤ) := zpow_le_zpow_right₀ one_le_two (by omega)
  rw [overflow_eq]
  calc number = number / 2 ^ unit * 2 ^ unit := number_eq number unit
    _ ≤ (2 ^ 53 + 1 / 2) * 2 ^ unit := by
      gcongr
      linarith
    _ ≤ (2 ^ 53 + 1 / 2) * 2 ^ (970 : ℤ) := by gcongr
    _ < (2 ^ 53 - 1 / 2) * (2 ^ (970 : ℤ) * 2) := by
      have positive : (0 : ℚ) < 2 ^ (970 : ℤ) := zpow_pos two_pos _
      generalize (2 : ℚ) ^ (970 : ℤ) = power at positive
      linarith
    _ = (2 ^ 53 - 1 / 2) * 2 ^ (971 : ℤ) := by
      rw [← zpow_add_one₀ two_ne_zero]
      rfl

theorem overflow_le (rounds : Rounds number unit steps) (outside : 971 < unit) :
    overflow ≤ number := by
  rw [overflow_eq]
  calc ((2 : ℚ) ^ 53 - 1 / 2) * 2 ^ (971 : ℤ) ≤ 2 ^ (53 : ℤ) * 2 ^ (971 : ℤ) := by
        gcongr
        norm_num
    _ = 2 ^ ((53 : ℤ) + 971) := (zpow_add₀ two_ne_zero _ _).symm
    _ ≤ 2 ^ (unit + 52) := zpow_le_zpow_right₀ one_le_two (by omega)
    _ ≤ number := rounds.atLeast.resolve_left (by omega)

/-- In the topmost unit the count `2 ^ 53` is out of range.  It is even and the one below
it is odd, so that it takes the number halfway between. -/
theorem lt_iff_of_topmost (rounds : Rounds number 971 steps) :
    steps < 2 ^ 53 ↔ number < overflow := by
  obtain ⟨low, high⟩ := abs_le.mp rounds.near
  rw [overflow_eq, ← div_lt_iff₀ (zpow_pos two_pos _)]
  constructor
  · intro fewer
    have odd : steps = 2 ^ 53 - 1 → ¬Even steps := by
      rintro rfl
      decide
    have stepsLe : (steps : ℚ) + 1 ≤ 2 ^ 53 := by exact_mod_cast fewer
    refine lt_of_le_of_ne (by linarith) fun halfway => ?_
    have topmost : (steps : ℚ) + 1 = 2 ^ 53 := by linarith
    refine odd (Nat.eq_sub_of_add_eq (by exact_mod_cast topmost)) (rounds.even ?_)
    rw [halfway, abs_eq (by norm_num)]
    exact .inr (by linarith)
  · intro below
    refine lt_of_le_of_ne rounds.atMost ?_
    rintro rfl
    rw [Nat.cast_pow, Nat.cast_ofNat] at high
    linarith

theorem inRange_iff (rounds : Rounds number unit steps) :
    (unit + 1074).toNat * leadingBit + steps < infinity.bits.toNat ↔ number < overflow := by
  have least := rounds.least
  have atMost := rounds.atMost
  have normal := rounds.normal
  rw [infinity_bits]
  unfold leadingBit topExponent
  rcases Int.lt_trichotomy unit 971 with inside | rfl | outside
  · exact iff_of_true (by omega) (rounds.lt_overflow inside)
  · rw [← rounds.lt_iff_of_topmost]
    omega
  · exact iff_of_false (by omega) (not_lt.mpr (rounds.overflow_le outside))

theorem infinite (rounds : Rounds number unit steps) (outside : overflow ≤ number) :
    ofSteps unit steps = infinity := by
  have beyond := not_lt.mp fun inRange => not_lt.mpr outside (rounds.inRange_iff.mp inRange)
  rw [ofSteps, Nat.min_eq_right beyond]
  rfl

theorem finite (rounds : Rounds number unit steps) (inside : number < overflow) :
    (ofSteps unit steps).isFinite ∧ (ofSteps unit steps).toRat = steps * 2 ^ unit := by
  obtain ⟨finite, _, value, _⟩ := ofSteps_finite false rounds.least rounds.atMost rounds.normal
    (rounds.inRange_iff.mpr inside)
  rw [withSign_ofSteps] at finite value
  rw [if_neg Bool.false_ne_true, one_mul] at value
  exact ⟨finite, value⟩

/-- Only one count is nearest in a unit. -/
theorem steps_eq (rounds : Rounds number unit steps) (again : Rounds number unit others) :
    steps = others := by
  obtain ⟨low, high⟩ := abs_le.mp rounds.near
  obtain ⟨lowAgain, highAgain⟩ := abs_le.mp again.near
  have apart : (steps : ℚ) ≤ others + 1 ∧ (others : ℚ) ≤ steps + 1 := by
    constructor <;> linarith
  norm_cast at apart
  -- Neighbours are both halfway, so they would both be even.
  have half (gap : (steps : ℚ) = others + 1 ∨ (others : ℚ) = steps + 1) :
      Even steps ∧ Even others := by
    constructor
    · refine rounds.even ((abs_eq (by norm_num)).mpr ?_)
      rcases gap with gap | gap
      · exact .inl (by linarith)
      · exact .inr (by linarith)
    · refine again.even ((abs_eq (by norm_num)).mpr ?_)
      rcases gap with gap | gap
      · exact .inr (by linarith)
      · exact .inl (by linarith)
  by_contra different
  have gap : steps = others + 1 ∨ others = steps + 1 := by omega
  obtain ⟨evenSteps, evenOthers⟩ := half (by exact_mod_cast gap)
  rw [Nat.even_iff] at evenSteps evenOthers
  omega

/-- In a smaller unit the number is the power of two where the binades meet. -/
theorem carried (rounds : Rounds number unit steps) (again : Rounds number other others)
    (smaller : unit < other) : other = unit + 1 ∧ steps = 2 ^ 53 ∧ others = 2 ^ 52 := by
  obtain ⟨low, high⟩ := abs_le.mp rounds.near
  obtain ⟨lowAgain, highAgain⟩ := abs_le.mp again.near
  have stepsLe : (steps : ℚ) ≤ 2 ^ 53 := by exact_mod_cast rounds.atMost
  have atLeast := again.atLeast.resolve_left (by have := rounds.least; omega)
  obtain ⟨gap, gapOf⟩ := Int.eq_ofNat_of_zero_le (a := other - unit) (by omega)
  have inUnits : (2 : ℚ) ^ gap * 2 ^ 52 ≤ number / 2 ^ unit := by
    rw [le_div_iff₀ (by positivity)]
    refine le_trans (le_of_eq ?_) atLeast
    rw [← zpow_natCast, ← zpow_natCast, ← zpow_add₀ two_ne_zero, ← zpow_add₀ two_ne_zero]
    congr 1
    omega
  have gapIs : gap = 1 := by
    have bounded : (2 : ℚ) ^ gap < 2 ^ 2 := by linarith
    have gapLt := (pow_lt_pow_iff_right₀ (one_lt_two (α := ℚ))).mp bounded
    omega
  subst gapIs
  obtain rfl : other = unit + 1 := by omega
  have halved : number / 2 ^ (unit + 1) = number / 2 ^ unit / 2 := by
    rw [zpow_add_one₀ two_ne_zero, div_div]
  rw [halved] at lowAgain highAgain
  refine ⟨rfl, ?_, ?_⟩
  · have bounded : ((2 ^ 53 : Nat) : ℚ) < (steps + 1 : Nat) := by
      push_cast
      linarith
    exact Nat.le_antisymm rounds.atMost (Nat.lt_succ_iff.mp (by exact_mod_cast bounded))
  · have below : (others : ℚ) < (2 ^ 52 + 1 : Nat) := by
      push_cast
      linarith
    have above : ((2 ^ 52 : Nat) : ℚ) < (others + 1 : Nat) := by
      push_cast
      linarith
    norm_cast at below above
    omega

/-- A number has one pair of unit and count, or two with the same bits. -/
theorem ofSteps_eq (rounds : Rounds number unit steps) (again : Rounds number other others) :
    ofSteps unit steps = ofSteps other others := by
  have sameBits {unit : ℤ} (least : -1074 ≤ unit) :
      ofSteps unit (2 ^ 53) = ofSteps (unit + 1) (2 ^ 52) := by
    have sameMagnitude : (unit + 1074).toNat * leadingBit + 2 ^ 53 =
        (unit + 1 + 1074).toNat * leadingBit + 2 ^ 52 := by
      unfold leadingBit
      omega
    rw [ofSteps, ofSteps, sameMagnitude]
  rcases Int.lt_trichotomy unit other with smaller | rfl | larger
  · obtain ⟨rfl, rfl, rfl⟩ := rounds.carried again smaller
    exact sameBits rounds.least
  · rw [rounds.steps_eq again]
  · obtain ⟨rfl, rfl, rfl⟩ := again.carried rounds larger
    exact (sameBits again.least).symm

/-- The double nearest to a ratio is made from its unit and count. -/
theorem ofRatio_eq {numerator denominator : Nat} (positive : 0 < denominator)
    (rounds : Rounds (numerator / denominator) unit steps) :
    ofRatio numerator denominator = ofSteps unit steps := by
  obtain ⟨other, others, again, same⟩ := exists_rounds numerator positive
  rw [same, again.ofSteps_eq rounds]

theorem ofNat_eq {natural : Nat} (rounds : Rounds natural unit steps) :
    ofNat natural = ofSteps unit steps := by
  refine ofRatio_eq Nat.one_pos ?_
  rw [Nat.cast_one, div_one]
  exact rounds

end Rounds

end CellBus.Binary64
