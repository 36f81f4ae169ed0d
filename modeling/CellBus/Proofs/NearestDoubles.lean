import CellBus.Proofs.RoundedRatios

/-!
# Nearest doubles

`IsNearest` says of a double that no finite one is nearer to a number, that it is the
even one of two equally near, and that it is infinite where the number is out of range.
Rounding a ratio gives such a double.
-/

namespace CellBus.Binary64

/-- No finite double is nearer to the number, of two equally near this is the one with
the even significand, and from `overflow` on it is infinite. -/
structure IsNearest (x : Binary64) (number : ℚ) : Prop where
  finite_iff : x.isFinite ↔ |number| < overflow
  infinite : overflow ≤ |number| → x = infinity.withSign (number < 0)
  near : |number| < overflow →
    ∀ y : Binary64, y.isFinite → |x.toRat - number| ≤ |y.toRat - number|
  even : |number| < overflow →
    ∀ y : Binary64, y.isFinite → y.toRat ≠ x.toRat →
      |x.toRat - number| = |y.toRat - number| → Even x.significand

theorem significand_lt (x : Binary64) : x.significand < 2 ^ 53 := by
  have fractionLt : x.fraction < leadingBit := Nat.mod_lt _ (by decide)
  unfold significand
  unfold leadingBit at *
  split <;> omega

/-- Every double is an integer below `2 ^ 53` times a power of two. -/
theorem toRat_eq (x : Binary64) :
    ∃ (factor power : ℤ), |factor| < 2 ^ 53 ∧ -1074 ≤ power ∧
      x.toRat = factor * 2 ^ power := by
  have bounded := x.significand_lt
  have scalePos : 1 ≤ x.scale := le_max_right _ _
  refine ⟨(if x.isNegative then -1 else 1) * x.significand, x.scale - 1075, ?_, by omega, ?_⟩
  · split
    · rw [neg_one_mul, abs_neg, Nat.abs_cast]
      exact_mod_cast bounded
    · rw [one_mul, Nat.abs_cast]
      exact_mod_cast bounded
  · rw [toRat]
    push_cast
    rfl

theorem isNegative_withSign (negative : Bool) (x : Binary64) :
    (withSign negative x).isNegative = negative := by
  have below : x.bits.toNat % signBit < signBit := Nat.mod_lt _ (by decide)
  unfold signBit at below
  dsimp only [isNegative, withSign]
  rw [UInt64.toNat_ofNat']
  cases negative <;> simp only [signBit, reduceIte, Bool.false_eq_true, beq_iff_eq,
    beq_eq_false_iff_ne, ne_eq] <;> omega

theorem overflow_pos : 0 < overflow := by
  rw [overflow_eq]
  positivity

theorem le_overflow : 2 ^ 64 ≤ overflow := by
  rw [overflow_eq]
  calc (2 : ℚ) ^ 64 ≤ 2 ^ (971 : ℤ) := by
        rw [← zpow_natCast]
        exact zpow_le_zpow_right₀ one_le_two (by decide)
    _ ≤ (2 ^ 53 - 1 / 2) * 2 ^ (971 : ℤ) :=
        le_mul_of_one_le_left (zpow_pos two_pos _).le (by norm_num)

/-- From `overflow` on the infinity with the sign of the number is nearest. -/
theorem isNearest_infinity {number : ℚ} (outside : overflow ≤ number) (negative : Bool) :
    IsNearest (withSign negative infinity) ((if negative then -1 else 1) * number) := by
  have positive : 0 < number := overflow_pos.trans_le outside
  have size : |(if negative then -1 else 1) * number| = number := by
    cases negative <;> simp [positive.le]
  constructor
  · rw [size]
    refine iff_of_false ?_ (not_lt.mpr outside)
    cases negative <;> decide
  · intro _
    congr 1
    cases negative <;> simp [positive.le, positive]
  · rw [size]
    exact fun inside => (not_lt.mpr outside inside).elim
  · rw [size]
    exact fun inside => (not_lt.mpr outside inside).elim

namespace Rounds

variable {number : ℚ} {unit : ℤ} {steps : Nat}

/-- Among the multiples of the unit. -/
theorem near_multiple (rounds : Rounds number unit steps) (count : ℤ) :
    |(steps : ℚ) - number / 2 ^ unit| ≤ |(count : ℚ) - number / 2 ^ unit| ∧
      (count ≠ steps →
        |(steps : ℚ) - number / 2 ^ unit| = |(count : ℚ) - number / 2 ^ unit| →
          Even steps) := by
  by_cases same : count = steps
  · subst same
    exact ⟨le_refl _, fun different => (different rfl).elim⟩
  have apart : (1 : ℚ) ≤ |(count : ℚ) - steps| := by
    have distinct : 1 ≤ |count - (steps : ℤ)| := Int.one_le_abs (sub_ne_zero.mpr same)
    exact_mod_cast distinct
  have triangle := abs_sub_le (count : ℚ) (number / 2 ^ unit) steps
  rw [abs_sub_comm (number / 2 ^ unit)] at triangle
  have near := rounds.near
  refine ⟨by linarith, fun _ equallyNear => rounds.even ?_⟩
  exact le_antisymm near (by linarith)

/-- Among the numbers that doubles stand for.  Those that are no multiples of the unit
lie below the binade. -/
theorem near_double (rounds : Rounds number unit steps) {factor power : ℤ}
    (bounded : |factor| < 2 ^ 53) (least : -1074 ≤ power) :
    |steps * 2 ^ unit - number| ≤ |factor * 2 ^ power - number| ∧
      ((factor * 2 ^ power : ℚ) ≠ steps * 2 ^ unit →
        |steps * 2 ^ unit - number| = |factor * 2 ^ power - number| → Even steps) := by
  have unitPos : (0 : ℚ) < 2 ^ unit := by positivity
  have distance := distance_eq number unit
  rw [distance]
  rcases le_or_gt unit power with multiple | finer
  · obtain ⟨shift, shifted⟩ := Int.eq_ofNat_of_zero_le (a := power - unit) (by omega)
    obtain rfl : power = unit + shift := by omega
    have asMultiple : (factor * 2 ^ (unit + shift) : ℚ) =
        ((factor * 2 ^ shift : ℤ) : ℚ) * 2 ^ unit := by
      rw [zpow_add₀ two_ne_zero, zpow_natCast]
      push_cast
      ring
    obtain ⟨near, even⟩ := rounds.near_multiple (factor * 2 ^ shift)
    rw [asMultiple, distance]
    refine ⟨mul_le_mul_of_nonneg_right near unitPos.le, fun different equallyNear => ?_⟩
    refine even ?_ (mul_right_cancel₀ unitPos.ne' equallyNear)
    intro same
    refine different ?_
    rw [same, Int.cast_natCast]
  · have binade := rounds.binade (by omega)
    have factorLt : (factor : ℚ) < 2 ^ (53 : ℤ) := by
      exact_mod_cast lt_of_le_of_lt (le_abs_self factor) bounded
    have below : (factor * 2 ^ power : ℚ) < 2 ^ 52 * 2 ^ unit := by
      calc (factor * 2 ^ power : ℚ) < 2 ^ (53 : ℤ) * 2 ^ power := by gcongr
        _ = 2 ^ ((53 : ℤ) + power) := (zpow_add₀ two_ne_zero _ _).symm
        _ ≤ 2 ^ ((52 : ℤ) + unit) := zpow_le_zpow_right₀ one_le_two (by omega)
        _ = 2 ^ 52 * 2 ^ unit := zpow_add₀ two_ne_zero _ _
    -- The edge of the binade is a multiple that lies between.
    have edge := (rounds.near_multiple (2 ^ 52)).1
    have nearer := mul_le_mul_of_nonneg_right edge unitPos.le
    rw [← distance, Int.cast_pow, Int.cast_ofNat, ← distance,
      abs_of_nonpos (a := 2 ^ 52 * 2 ^ unit - number) (by linarith)] at nearer
    rw [← distance, abs_of_nonpos (a := factor * 2 ^ power - number) (by linarith)]
    refine ⟨by linarith, fun _ equallyNear => ?_⟩
    linarith

theorem isNearest (rounds : Rounds number unit steps) (nonnegative : 0 ≤ number)
    (negative : Bool) :
    IsNearest (withSign negative (ofSteps unit steps))
      ((if negative then -1 else 1) * number) := by
  let sign : ℤ := if negative then -1 else 1
  have signOf : (if negative then -1 else 1 : ℚ) = sign := by
    cases negative <;> rfl
  have unitSign : |sign| = 1 := by
    cases negative <;> rfl
  have signAbs : |(sign : ℚ)| = 1 := by exact_mod_cast unitSign
  have signTwice : (sign : ℚ) * sign = 1 := by rw [← abs_mul_abs_self, signAbs, one_mul]
  have turned (value : ℚ) : |value - sign * number| = |sign * value - number| := by
    rw [← one_mul |value - sign * number|, ← signAbs, ← abs_mul, mul_sub, ← mul_assoc,
      signTwice, one_mul]
  have size : |sign * number| = number := by
    rw [abs_mul, signAbs, one_mul, abs_of_nonneg nonnegative]
  rw [signOf]
  by_cases inside : number < overflow
  · obtain ⟨finite, _, value, evenKept⟩ := ofSteps_finite negative rounds.least rounds.atMost
      rounds.normal (rounds.inRange_iff.mpr inside)
    have own : sign * (withSign negative (ofSteps unit steps)).toRat = steps * 2 ^ unit := by
      rw [value, signOf, ← mul_assoc, signTwice, one_mul]
    have nearAll (y : Binary64) :
        |steps * 2 ^ unit - number| ≤ |sign * y.toRat - number| ∧
          (sign * y.toRat ≠ steps * 2 ^ unit →
            |steps * 2 ^ unit - number| = |sign * y.toRat - number| → Even steps) := by
      obtain ⟨factor, power, bounded, least, valueOf⟩ := y.toRat_eq
      rw [valueOf, ← mul_assoc, ← Int.cast_mul]
      exact rounds.near_double (by rwa [abs_mul, unitSign, one_mul]) least
    constructor
    · exact iff_of_true finite (by rwa [size])
    · rw [size]
      exact fun outside => (not_lt.mpr outside inside).elim
    · intro _ y _
      rw [turned, turned, own]
      exact (nearAll y).1
    · intro _ y _ different equallyNear
      rw [turned, turned, own] at equallyNear
      refine evenKept ((nearAll y).2 (fun same => different ?_) equallyNear)
      rw [← own] at same
      exact mul_left_cancel₀ (left_ne_zero_of_mul_eq_one signTwice) same
  · rw [rounds.infinite (not_lt.mp inside), ← signOf]
    exact isNearest_infinity (not_lt.mp inside) negative

end Rounds

theorem isNearest_ofRatio (numerator : Nat) {denominator : Nat} (positive : 0 < denominator)
    (negative : Bool) :
    IsNearest (withSign negative (ofRatio numerator denominator))
      ((if negative then -1 else 1) * (numerator / denominator)) := by
  obtain ⟨unit, steps, rounds, same⟩ := exists_rounds numerator positive
  rw [same]
  exact rounds.isNearest (by positivity) negative

theorem withSign_ofNat (natural : Nat) : withSign false (ofNat natural) = ofNat natural := by
  obtain ⟨unit, steps, -, same⟩ := exists_rounds natural Nat.one_pos
  rw [ofNat, same, withSign_ofSteps]

/-- An integer from its sign and its magnitude. -/
theorem sign_mul_natAbs (number : ℤ) :
    (if decide (number < 0) = true then -1 else 1) * (number.natAbs : ℚ) = number := by
  rcases Int.lt_or_le number 0 with negative | nonnegative
  · rw [if_pos (decide_eq_true negative), Nat.cast_natAbs, abs_of_neg negative]
    push_cast
    ring
  · rw [if_neg (by simpa using nonnegative), Nat.cast_natAbs, abs_of_nonneg nonnegative,
      one_mul]

theorem isNearest_ofInt (number : ℤ) : IsNearest (ofInt number) number := by
  have nearest := isNearest_ofRatio number.natAbs Nat.one_pos (number < 0)
  rwa [Nat.cast_one, div_one, sign_mul_natAbs] at nearest

theorem isNearest_ofNat (natural : Nat) : IsNearest (ofNat natural) natural := by
  have nearest := isNearest_ofInt natural
  rwa [ofInt, decide_eq_false (by omega), withSign_ofNat, Int.cast_natCast] at nearest

end CellBus.Binary64
