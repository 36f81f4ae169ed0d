import CellBus.Proofs.NumericTexts
import CellBus.Proofs.TruncatedNumbers

/-!
# Texts in a radix

The digits behind the mark of a radix are read one by one, and the number read so far is
rounded after each.  From `2 ^ 53` on a further digit is less than half a step between
doubles, so that only its place counts: what is read is the number with zeros for the later
digits, rounded once.  This is the double nearest to the number itself, unless the zeros
leave it halfway between two doubles and the even one is the lower.
-/

namespace CellBus

theorem Cell.ofInt_eq_zero_iff {number : ℤ} : Cell.ofInt number = 0 ↔ 2 ^ 32 ∣ number :=
  (@Cell.ofInt_eq_ofInt_iff number 0).trans Int.modEq_zero_iff_dvd

theorem Cell.ofInt_two_pow_eq_zero_iff {bits : Nat} : Cell.ofInt (2 ^ bits) = 0 ↔ 32 ≤ bits := by
  rw [ofInt_eq_zero_iff]
  norm_cast
  exact Nat.pow_dvd_pow_iff_le_right'

namespace Binary64

theorem integerPart_of_eq {x : Binary64} {natural : Nat} (value : x.toRat = natural) :
    x.integerPart = natural := by
  have truncated : x.truncate = (natural : ℤ) := truncate_of_eq (by rw [value, Int.cast_natCast])
  rw [truncate] at truncated
  split at truncated <;> omega

/-- A natural number of at most fifty-three bits is not rounded. -/
theorem ofNat_exact {natural : Nat} (small : natural ≤ 2 ^ 53) :
    (ofNat natural).isFinite ∧ (ofNat natural).integerPart = natural := by
  have nearest : (ofNat natural).IsNearest (natural : ℤ) := by
    rw [Int.cast_natCast]
    exact isNearest_ofNat natural
  have bounded : |(natural : ℤ)| ≤ 2 ^ 53 := by
    rw [Nat.abs_cast]
    exact_mod_cast small
  obtain ⟨finite, value⟩ :=
    nearest.exact (isDouble_of_small bounded) (bounded.trans_lt (by norm_num))
  exact ⟨finite, integerPart_of_eq (by rw [value, Int.cast_natCast])⟩

/-- The unit of a natural number of more than fifty-two bits. -/
def shiftOf (number : Nat) : Nat := number.log2 - 52

theorem binade_shiftOf {number : Nat} (large : 2 ^ 52 ≤ number) :
    2 ^ (shiftOf number + 52) ≤ number ∧ number < 2 ^ (shiftOf number + 53) := by
  have nonzero : number ≠ 0 := by omega
  have bits : 52 ≤ number.log2 := (Nat.le_log2 nonzero).mpr large
  have lead : shiftOf number + 52 = number.log2 := Nat.sub_add_cancel bits
  refine ⟨lead ▸ Nat.log2_self_le nonzero, ?_⟩
  rw [show shiftOf number + 53 = number.log2 + 1 by omega]
  exact Nat.lt_log2_self

theorem rounds_shiftOf {number : Nat} (large : 2 ^ 52 ≤ number) :
    Rounds number (shiftOf number : Nat) (roundedQuotient number (2 ^ shiftOf number)) := by
  obtain ⟨low, high⟩ := binade_shiftOf large
  exact rounds_natural low high

section Natural

variable {number shift steps : Nat}

theorem Rounds.steps_large (rounds : Rounds number (shift : Nat) steps) : 2 ^ 52 ≤ steps :=
  rounds.normal.resolve_left (by omega)

/-- In a cell a number out of the range of doubles counts for as little as infinity. -/
theorem Rounds.toCell_eq (rounds : Rounds number (shift : Nat) steps) :
    (ofSteps (shift : Nat) steps).toCell = Cell.ofInt (steps * 2 ^ shift) := by
  rcases lt_or_ge (number : ℚ) overflow with inside | outside
  · obtain ⟨finite, value⟩ := rounds.finite inside
    refine toCell_of_eq finite ?_
    rw [value, zpow_natCast]
    push_cast
    rfl
  · have coarse : 971 ≤ shift := by
      by_contra fine
      exact not_lt.mpr outside (rounds.lt_overflow (by omega))
    have divides : (2 : ℤ) ^ 32 ∣ steps * 2 ^ shift :=
      Dvd.dvd.mul_left (pow_dvd_pow 2 (by omega)) _
    rw [rounds.infinite outside, Cell.ofInt_eq_zero_iff.mpr divides]
    rfl

theorem Rounds.scaled (rounds : Rounds number (shift : Nat) steps) (bits : Nat) :
    Rounds (number * 2 ^ bits : Nat) (shift + bits : Nat) steps := by
  have atLeast := rounds.atLeast.resolve_left (by omega)
  have inUnits : ((number * 2 ^ bits : Nat) : ℚ) / 2 ^ ((shift + bits : Nat) : ℤ) =
      number / 2 ^ (shift : ℤ) := by
    rw [zpow_natCast, zpow_natCast, pow_add]
    push_cast
    exact mul_div_mul_right _ _ (pow_ne_zero _ two_ne_zero)
  refine ⟨by omega, rounds.atMost, .inr ?_, ?_, ?_⟩
  · calc (2 : ℚ) ^ (((shift + bits : Nat) : ℤ) + 52) = 2 ^ ((shift : ℤ) + 52) * 2 ^ bits := by
          rw [← zpow_natCast, ← zpow_add₀ two_ne_zero]
          congr 1
          omega
      _ ≤ number * 2 ^ bits := by gcongr
      _ = (number * 2 ^ bits : Nat) := by push_cast; rfl
  · rw [inUnits]
    exact rounds.near
  · rw [inUnits]
    exact rounds.even

/-- A further digit is less than half a step. -/
theorem Rounds.extended {bits digit : Nat} (rounds : Rounds number (shift : Nat) steps)
    (coarse : 1 ≤ shift) (small : digit < 2 ^ bits) :
    Rounds (steps * 2 ^ shift * 2 ^ bits + digit : Nat) (shift + bits : Nat) steps := by
  have positive : (0 : ℚ) < 2 ^ (shift + bits) := by positivity
  have inUnits : ((steps * 2 ^ shift * 2 ^ bits + digit : Nat) : ℚ) /
      2 ^ ((shift + bits : Nat) : ℤ) = steps + digit / 2 ^ (shift + bits) := by
    rw [zpow_natCast, add_comm, mul_assoc, ← pow_add]
    push_cast
    rw [add_div, mul_div_cancel_right₀ _ positive.ne', add_comm]
  have fraction : (digit : ℚ) / 2 ^ (shift + bits) < 1 / 2 := by
    rw [div_lt_iff₀ positive]
    have digitLt : (digit : ℚ) < 2 ^ bits := by exact_mod_cast small
    have twice : (2 : ℚ) ≤ 2 ^ shift := le_self_pow₀ one_le_two (by omega)
    calc (digit : ℚ) < 1 / 2 * (2 * 2 ^ bits) := by linarith
      _ ≤ 1 / 2 * (2 ^ shift * 2 ^ bits) := by gcongr
      _ = 1 / 2 * 2 ^ (shift + bits) := by rw [pow_add]
  have distance : |(steps : ℚ) - (steps + digit / 2 ^ (shift + bits))| < 1 / 2 := by
    rw [sub_add_cancel_left, abs_neg, abs_of_nonneg (by positivity)]
    exact fraction
  refine ⟨by omega, rounds.atMost, .inr ?_, ?_, ?_⟩
  · have enough : 2 ^ (shift + bits + 52) ≤ steps * 2 ^ shift * 2 ^ bits + digit := by
      calc 2 ^ (shift + bits + 52) = 2 ^ 52 * 2 ^ shift * 2 ^ bits := by
            rw [← pow_add, ← pow_add]
            congr 1
            omega
        _ ≤ steps * 2 ^ shift * 2 ^ bits := by
            have large := rounds.steps_large
            gcongr
        _ ≤ steps * 2 ^ shift * 2 ^ bits + digit := Nat.le_add_right _ _
    exact_mod_cast enough
  · rw [inUnits]
    exact distance.le
  · rw [inUnits]
    exact fun tie => (distance.ne tie).elim

end Natural

end Binary64

namespace Number

/-- One more digit, as long as the number has at most fifty-three bits; then a zero. -/
def keepDigit (radix number digit : Nat) : Nat :=
  if number < 2 ^ 53 then number * radix + digit else number * radix

/-- The number with zeros for the digits that come after `2 ^ 53` has been reached. -/
def keptValue (radix : Nat) (digits : List Nat) : Nat := digits.foldl (keepDigit radix) 0

theorem extend_small {kept : Nat} (short : kept ≤ 2 ^ 53) (radix digit : Nat) :
    extend radix (Binary64.ofNat kept) digit = Binary64.ofNat (kept * radix + digit) := by
  obtain ⟨finite, whole⟩ := Binary64.ofNat_exact short
  rw [extend, if_pos finite, whole]

theorem extend_large {kept bits digit : Nat} (large : 2 ^ 53 ≤ kept) (small : digit < 2 ^ bits) :
    extend (2 ^ bits) (Binary64.ofNat kept) digit = Binary64.ofNat (kept * 2 ^ bits) := by
  have rounds := Binary64.rounds_shiftOf (show 2 ^ 52 ≤ kept by omega)
  have coarse : 1 ≤ Binary64.shiftOf kept := by
    have bits : 53 ≤ kept.log2 := (Nat.le_log2 (by omega)).mpr large
    unfold Binary64.shiftOf
    omega
  generalize Binary64.shiftOf kept = shift at rounds coarse
  generalize Binary64.roundedQuotient kept (2 ^ shift) = steps at rounds
  rw [extend, rounds.ofNat_eq, (rounds.scaled bits).ofNat_eq]
  rcases lt_or_ge (kept : ℚ) Binary64.overflow with inside | outside
  · obtain ⟨finite, value⟩ := rounds.finite inside
    have whole : (Binary64.ofSteps (shift : Nat) steps).integerPart = steps * 2 ^ shift := by
      refine Binary64.integerPart_of_eq ?_
      rw [value, zpow_natCast]
      push_cast
      rfl
    rw [if_pos finite, whole, (rounds.extended coarse small).ofNat_eq]
  · have larger : (kept : ℚ) ≤ (kept * 2 ^ bits : Nat) :=
      Nat.cast_le.mpr (Nat.le_mul_of_pos_right _ (Nat.two_pow_pos bits))
    rw [rounds.infinite outside, (rounds.scaled bits).infinite (outside.trans larger)]
    rfl

/-- One digit takes the rounded kept digits to the rounded kept digits. -/
theorem extend_ofNat {bits digit : Nat} (small : digit < 2 ^ bits) (kept : Nat) :
    extend (2 ^ bits) (Binary64.ofNat kept) digit =
      Binary64.ofNat (keepDigit (2 ^ bits) kept digit) := by
  unfold keepDigit
  split
  case isTrue short => exact extend_small short.le _ _
  case isFalse large => exact extend_large (Nat.not_lt.mp large) small

theorem foldl_extend {bits : Nat} {digits : List Nat} (small : ∀ digit ∈ digits, digit < 2 ^ bits)
    (kept : Nat) : digits.foldl (extend (2 ^ bits)) (Binary64.ofNat kept) =
      Binary64.ofNat (digits.foldl (keepDigit (2 ^ bits)) kept) := by
  induction digits generalizing kept with
  | nil => rfl
  | cons digit digits ih =>
      obtain ⟨first, later⟩ := List.forall_mem_cons.mp small
      rw [List.foldl_cons, List.foldl_cons, extend_ofNat first, ih later]

/-- The places behind the kept digits are below the unit of doubles of this size. -/
structure Keeps (kept value places : Nat) : Prop where
  divides : 2 ^ places ∣ kept
  atMost : kept ≤ value
  below : value < kept + 2 ^ places
  large : places = 0 ∨ 2 ^ (places + 53) ≤ kept

theorem Keeps.next {kept value places bits digit : Nat} (keeps : Keeps kept value places)
    (small : digit < 2 ^ bits) :
    ∃ further, Keeps (keepDigit (2 ^ bits) kept digit) (value * 2 ^ bits + digit) further := by
  obtain ⟨divides, atMost, below, large⟩ := keeps
  unfold keepDigit
  split
  case isTrue short =>
      -- Nothing has been lost yet, as the kept digits would be larger.
      obtain rfl : places = 0 := by
        refine large.resolve_right fun enough => ?_
        have more := (Nat.pow_le_pow_right Nat.two_pos (Nat.le_add_left 53 places)).trans enough
        omega
      obtain rfl : value = kept := by omega
      exact ⟨0, one_dvd _, le_refl _, Nat.lt_succ_self _, .inl rfl⟩
  case isFalse =>
      refine ⟨places + bits, ?_, ?_, ?_, ?_⟩
      · rw [pow_add]
        exact Nat.mul_dvd_mul_right divides _
      · exact (Nat.mul_le_mul_right _ atMost).trans (Nat.le_add_right _ _)
      · calc value * 2 ^ bits + digit < (value + 1) * 2 ^ bits := by
              rw [add_one_mul]
              exact Nat.add_lt_add_left small _
          _ ≤ (kept + 2 ^ places) * 2 ^ bits := Nat.mul_le_mul_right _ below
          _ = kept * 2 ^ bits + 2 ^ (places + bits) := by rw [add_mul, ← pow_add]
      · have enough : 2 ^ (places + 53) ≤ kept := by
          rcases large with rfl | enough
          · omega
          · exact enough
        refine .inr ?_
        calc 2 ^ (places + bits + 53) = 2 ^ (places + 53) * 2 ^ bits := by
              rw [← pow_add]
              congr 1
              omega
          _ ≤ kept * 2 ^ bits := Nat.mul_le_mul_right _ enough

theorem exists_keeps {bits : Nat} {digits : List Nat} (small : ∀ digit ∈ digits, digit < 2 ^ bits)
    {kept value places : Nat} (keeps : Keeps kept value places) :
    ∃ further, Keeps (digits.foldl (keepDigit (2 ^ bits)) kept)
      (digits.foldl (fun number digit => number * 2 ^ bits + digit) value) further := by
  induction digits generalizing kept value places with
  | nil => exact ⟨places, keeps⟩
  | cons digit digits ih =>
      obtain ⟨first, later⟩ := List.forall_mem_cons.mp small
      obtain ⟨further, next⟩ := keeps.next first
      exact ih later next

namespace Keeps

variable {kept value places shift : Nat}

/-- What is lost stays within the remainder by a coarser unit. -/
theorem div_mod (keeps : Keeps kept value places) (finer : places < shift) :
    value / 2 ^ shift = kept / 2 ^ shift ∧
      value % 2 ^ shift = kept % 2 ^ shift + (value - kept) := by
  have unit : 2 ^ places ∣ 2 ^ shift := pow_dvd_pow 2 finer.le
  have remainderLt : kept % 2 ^ shift < 2 ^ shift := Nat.mod_lt _ (Nat.two_pow_pos shift)
  have gap : 2 ^ places ≤ 2 ^ shift - kept % 2 ^ shift :=
    Nat.le_of_dvd (by omega) (Nat.dvd_sub unit ((Nat.dvd_mod_iff unit).mpr keeps.divides))
  have parts := Nat.div_add_mod kept (2 ^ shift)
  obtain ⟨-, atMost, below, -⟩ := keeps
  exact (Nat.div_mod_unique (Nat.two_pow_pos shift)).mpr ⟨by omega, by omega⟩

theorem enough (keeps : Keeps kept value places) (lost : kept < value) :
    0 < places ∧ 2 ^ (places + 53) ≤ kept := by
  obtain ⟨-, -, below, large⟩ := keeps
  have nonzero : places ≠ 0 := by
    rintro rfl
    omega
  exact ⟨Nat.pos_of_ne_zero nonzero, large.resolve_left nonzero⟩

theorem long (keeps : Keeps kept value places) (lost : kept < value) : 2 ^ 54 ≤ kept := by
  obtain ⟨some, enough⟩ := keeps.enough lost
  exact (Nat.pow_le_pow_right Nat.two_pos (by omega)).trans enough

theorem finer (keeps : Keeps kept value places) (lost : kept < value) :
    places < Binary64.shiftOf kept := by
  obtain ⟨-, enough⟩ := keeps.enough lost
  have bits : places + 53 ≤ kept.log2 :=
    (Nat.le_log2 (Nat.ne_of_gt ((Nat.two_pow_pos _).trans_le enough))).mpr enough
  unfold Binary64.shiftOf
  omega

/-- What is lost changes the rounding only if it decides a tie that went down. -/
theorem roundedQuotient_eq (keeps : Keeps kept value places) (finer : places < shift) :
    Binary64.roundedQuotient value (2 ^ shift) =
      if kept < value ∧ kept % 2 ^ shift = 2 ^ (shift - 1) ∧ Even (kept / 2 ^ shift) then
        Binary64.roundedQuotient kept (2 ^ shift) + 1
      else Binary64.roundedQuotient kept (2 ^ shift) := by
  obtain ⟨quotient, remainder⟩ := keeps.div_mod finer
  obtain ⟨half, rfl⟩ : ∃ half, shift = half + 1 := ⟨shift - 1, by omega⟩
  have unit : 2 ^ places ∣ 2 ^ half := pow_dvd_pow 2 (Nat.le_of_lt_succ finer)
  have remainderUnit : 2 ^ places ∣ kept % 2 ^ (half + 1) :=
    (Nat.dvd_mod_iff (unit.trans (pow_dvd_pow 2 (Nat.le_succ half)))).mpr keeps.divides
  have gap (lower : kept % 2 ^ (half + 1) < 2 ^ half) :
      kept % 2 ^ (half + 1) + 2 ^ places ≤ 2 ^ half := by
    have apart := Nat.le_of_dvd (by omega) (Nat.dvd_sub unit remainderUnit)
    omega
  obtain ⟨-, atMost, below, -⟩ := keeps
  simp only [Nat.add_sub_cancel, Nat.even_iff]
  unfold Binary64.roundedQuotient
  rw [quotient, remainder]
  generalize kept % 2 ^ (half + 1) = rest at *
  generalize kept / 2 ^ (half + 1) = count at *
  rw [pow_succ]
  generalize 2 ^ half = middle at *
  dsimp only
  -- Being multiples of `2 ^ places`, the remainder and the half are apart by more than is lost.
  rcases Nat.lt_trichotomy rest middle with lower | rfl | upper
  · have room := gap lower
    split_ifs <;> omega
  · split_ifs <;> omega
  · split_ifs <;> omega

/-- With what is lost the number is rounded to the same unit. -/
theorem rounds (keeps : Keeps kept value places) (lost : kept < value) :
    Binary64.Rounds kept (Binary64.shiftOf kept : Nat)
        (Binary64.roundedQuotient kept (2 ^ Binary64.shiftOf kept)) ∧
      Binary64.Rounds value (Binary64.shiftOf kept : Nat)
        (Binary64.roundedQuotient value (2 ^ Binary64.shiftOf kept)) := by
  obtain ⟨low, high⟩ := Binary64.binade_shiftOf ((show 2 ^ 52 ≤ 2 ^ 54 by decide).trans
    (keeps.long lost))
  refine ⟨Binary64.rounds_natural low high, Binary64.rounds_natural (low.trans lost.le) ?_⟩
  rw [add_comm, pow_add, ← Nat.div_lt_iff_lt_mul (Nat.two_pow_pos _)] at high ⊢
  rwa [(keeps.div_mod (keeps.finer lost)).1]

end Keeps

/-- The kept digits leave the number halfway between two doubles, the lower of them even,
and what is lost is not zero. -/
structure Slips (kept value : Nat) : Prop where
  lost : kept < value
  halfway : kept % 2 ^ Binary64.shiftOf kept = 2 ^ (Binary64.shiftOf kept - 1)
  even : Even (kept / 2 ^ Binary64.shiftOf kept)

namespace Keeps

variable {kept value places : Nat}

theorem ofNat_eq (keeps : Keeps kept value places) (sound : ¬Slips kept value) :
    Binary64.ofNat kept = Binary64.ofNat value := by
  rcases Nat.eq_or_lt_of_le keeps.atMost with rfl | lost
  · rfl
  obtain ⟨keptRounds, valueRounds⟩ := keeps.rounds lost
  rw [keeps.roundedQuotient_eq (keeps.finer lost),
    if_neg fun ⟨lost, halfway, even⟩ => sound ⟨lost, halfway, even⟩] at valueRounds
  rw [keptRounds.ofNat_eq, valueRounds.ofNat_eq]

theorem toCell_of_slips (keeps : Keeps kept value places) (slips : Slips kept value) :
    (Binary64.ofNat value).toCell =
      (Binary64.ofNat kept).toCell + Cell.ofInt (2 ^ Binary64.shiftOf kept) := by
  obtain ⟨lost, halfway, even⟩ := slips
  obtain ⟨keptRounds, valueRounds⟩ := keeps.rounds lost
  rw [keeps.roundedQuotient_eq (keeps.finer lost), if_pos ⟨lost, halfway, even⟩] at valueRounds
  rw [keptRounds.ofNat_eq, valueRounds.ofNat_eq, keptRounds.toCell_eq, valueRounds.toCell_eq,
    Cell.ofInt, Cell.ofInt, Cell.ofInt, ← Int32.ofInt_add]
  congr 1
  push_cast
  ring

end Keeps

section Read

variable {text : String} {mark : Char} {radix : Nat} {characters : List Char} {digits : List Nat}

theorem Mark.exists_bits (marked : Mark mark radix) : ∃ bits, radix = 2 ^ bits := by
  simp only [Mark, List.mem_cons, Prod.mk.injEq, List.not_mem_nil, or_false] at marked
  obtain rfl | rfl | rfl : radix = 16 ∨ radix = 8 ∨ radix = 2 := by omega
  · exact ⟨4, rfl⟩
  · exact ⟨3, rfl⟩
  · exact ⟨1, rfl⟩

theorem Spells.digit_lt (spells : Spells radix characters digits) :
    ∀ digit ∈ digits, digit < radix := by
  induction spells with
  | nil => exact List.forall_mem_nil _
  | cons own _ ih => exact List.forall_mem_cons.mpr ⟨own.1, ih⟩

theorem readNumber_inRadix (trimmed : Text.trimBlank text.toList = '0' :: mark :: characters)
    (marked : Mark mark radix) (spelled : Spells radix characters digits)
    (nonempty : digits ≠ []) :
    readNumber text = some (Binary64.ofNat (keptValue radix digits)) := by
  obtain ⟨x, read, denotes⟩ := readTrimmed_of_written (.inRadix marked spelled nonempty)
  obtain ⟨bits, rfl⟩ := marked.exists_bits
  rw [readNumber, trimmed, read, denotes]
  exact congrArg some (foldl_extend spelled.digit_lt 0)

theorem exists_keeps_value (marked : Mark mark radix) (spelled : Spells radix characters digits) :
    ∃ places, Keeps (keptValue radix digits) (valueOf radix digits) places := by
  obtain ⟨bits, rfl⟩ := marked.exists_bits
  exact exists_keeps spelled.digit_lt ⟨one_dvd _, le_refl _, Nat.one_pos, .inl rfl⟩

end Read

/-- What a text in a radix converts to.  Its number is the double nearest to the kept digits,
and that is the double nearest to all the digits unless it slips, where the cell misses one
step between doubles.  The step is lost in the cell as well if it is `2 ^ 32` or more. -/
theorem radix_texts_are_rounded_at_each_digit {text : String} {mark : Char} {radix : Nat}
    {characters : List Char} {digits : List Nat}
    (trimmed : Text.trimBlank text.toList = '0' :: mark :: characters)
    (marked : Mark mark radix) (spelled : Spells radix characters digits)
    (nonempty : digits ≠ []) :
    let value := valueOf radix digits
    let kept := keptValue radix digits
    let step := Binary64.shiftOf kept
    (Binary64.ofNat value).IsNearest value ∧ (Binary64.ofNat kept).IsNearest kept ∧
      readNumber text = some (Binary64.ofNat kept) ∧
      (¬Slips kept value → readNumber text = some (Binary64.ofNat value)) ∧
      (Slips kept value →
        (Binary64.ofNat value).toCell = (Value.text text).toCell + Cell.ofInt (2 ^ step)) ∧
      ((Value.text text).toCell = (Binary64.ofNat value).toCell ↔
        ¬(Slips kept value ∧ step < 32)) ∧
      (value ≤ 2 ^ 54 → ¬Slips kept value) := by
  intro value kept step
  have read := readNumber_inRadix trimmed marked spelled nonempty
  have converted := toCell_read read
  obtain ⟨places, keeps⟩ := exists_keeps_value marked spelled
  have sound (sound : ¬Slips kept value) : Binary64.ofNat kept = Binary64.ofNat value :=
    keeps.ofNat_eq sound
  have missed (slips : Slips kept value) : (Binary64.ofNat value).toCell =
      (Value.text text).toCell + Cell.ofInt (2 ^ step) :=
    converted ▸ keeps.toCell_of_slips slips
  refine ⟨Binary64.isNearest_ofNat _, Binary64.isNearest_ofNat _, read, ?_, missed, ?_, ?_⟩
  · intro none
    rw [read]
    exact congrArg some (sound none)
  · by_cases slips : Slips kept value
    · rw [missed slips, Int32.left_eq_add, Cell.ofInt_two_pow_eq_zero_iff]
      exact ⟨fun wide both => not_lt.mpr wide both.2, fun narrow =>
        not_lt.mp fun inside => narrow ⟨slips, inside⟩⟩
    · refine iff_of_true ?_ fun both => slips both.1
      rw [converted]
      exact congrArg Binary64.toCell (sound slips)
  · intro short slips
    have long := keeps.long slips.lost
    exact not_lt.mpr short (long.trans_lt slips.lost)

section Tie

/-- The last of these hexadecimal digits comes after `2 ^ 53` has been reached, and the ones
before it leave a tie. -/
def tieDigits : List Nat := [1, 0, 0, 0, 0, 0, 0, 0, 0, 0, 0, 0, 0, 0, 8, 1]

theorem spells_tieDigits : Spells 16 "1000000000000081".toList tieDigits := by
  simp [tieDigits, Spells, IsDigit]

theorem tieDigits_ne_nil : tieDigits ≠ [] := List.cons_ne_nil _ _

theorem trimmed_tie : Text.trimBlank "0x1000000000000081".toList =
    '0' :: 'x' :: "1000000000000081".toList := by decide

theorem valueOf_tieDigits : valueOf 16 tieDigits = 2 ^ 60 + 129 := by decide

theorem keptValue_tieDigits : keptValue 16 tieDigits = 2 ^ 60 + 128 := by decide

theorem shiftOf_tie : Binary64.shiftOf (2 ^ 60 + 128) = 8 := by decide +kernel

/-- The last digit of a tie is lost, and with it a step of 256. -/
theorem last_digit_of_a_tie_is_lost :
    readNumber "0x1000000000000081" = some (Binary64.ofNat (2 ^ 60 + 128)) ∧
      (Binary64.ofNat (2 ^ 60 + 129)).toCell =
        (Value.text "0x1000000000000081").toCell + Cell.ofInt (2 ^ 8) ∧
      (Value.text "0x1000000000000081").toCell ≠ (Binary64.ofNat (2 ^ 60 + 129)).toCell := by
  obtain ⟨-, -, read, -, missed, alike, -⟩ := radix_texts_are_rounded_at_each_digit trimmed_tie
    List.mem_cons_self spells_tieDigits tieDigits_ne_nil
  rw [valueOf_tieDigits, keptValue_tieDigits, shiftOf_tie] at missed alike
  have slips : Slips (2 ^ 60 + 128) (2 ^ 60 + 129) := by
    refine ⟨by decide, ?_, ?_⟩ <;> rw [shiftOf_tie] <;> decide
  rw [keptValue_tieDigits] at read
  exact ⟨read, missed slips, fun same => alike.mp same ⟨slips, by decide⟩⟩

/-- Rounded once, the tie would convert to 256. -/
theorem radix_texts_are_not_rounded_once :
    ¬∀ (text : String) (mark : Char) (radix : Nat) (characters : List Char)
      (digits : List Nat) (nearest : Binary64),
      Text.trimBlank text.toList = '0' :: mark :: characters → Mark mark radix →
      Spells radix characters digits → digits ≠ [] →
      nearest.IsNearest (valueOf radix digits) →
      (Value.text text).toCell = nearest.toCell := by
  intro once
  have same := once _ _ _ _ _ _ trimmed_tie List.mem_cons_self spells_tieDigits
    tieDigits_ne_nil (Binary64.isNearest_ofNat _)
  rw [toCell_read (readNumber_inRadix trimmed_tie List.mem_cons_self spells_tieDigits
    tieDigits_ne_nil), valueOf_tieDigits, keptValue_tieDigits] at same
  exact absurd same (by decide +kernel)

end Tie

end Number

end CellBus
