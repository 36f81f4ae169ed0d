import CellBus.Proofs.RadixTexts

/-!
# Integers and their texts

An integer of the signed 64-bit range converts by its low 32 bits, its text through the
nearest double.  The two agree just for the integers that doubles stand for, among them all
of at most fifty-three bits.  Beyond that range an integer converts through the nearest
double as well.
-/

namespace CellBus

namespace Number

theorem isBlank_of_decimal {character : Char} (decimal : IsDecimalCharacter character) :
    Text.isBlank character = false := by
  rcases decimal with isDigit | punctuation
  · have codes (code : Nat) (low : 48 ≤ code) (high : code ≤ 57) :
        Text.isBlank (Char.ofNat code) = false := by
      interval_cases code <;> rfl
    exact of_isDigit (Text.isBlank · = false) codes isDigit
  · simp only [List.mem_cons, List.not_mem_nil, or_false] at punctuation
    rcases punctuation with rfl | rfl | rfl | rfl | rfl <;> rfl

theorem trimBlank_of_decimal {text : List Char}
    (decimal : ∀ character ∈ text, IsDecimalCharacter character) : Text.trimBlank text = text := by
  have keep {text : List Char} (decimal : ∀ character ∈ text, IsDecimalCharacter character) :
      text.dropWhile Text.isBlank = text := by
    cases text with
    | nil => rfl
    | cons character rest =>
        have blank := isBlank_of_decimal (decimal character List.mem_cons_self)
        rw [List.dropWhile_cons_of_neg (by rw [blank]; exact Bool.false_ne_true)]
  rw [Text.trimBlank, keep decimal, keep, List.reverse_reverse]
  intro character member
  exact decimal character (List.mem_reverse.mp member)

theorem Decimal.toBinary64_natural (natural : Nat) :
    Decimal.toBinary64 ⟨natural, 0⟩ = Binary64.ofNat natural := by
  unfold toBinary64
  dsimp only
  split
  case isTrue zero => rw [zero]; rfl
  case isFalse =>
    rw [if_neg (by decide), if_neg (by omega)]
    exact congrArg (Binary64.ofRatio · 1) (Nat.mul_one natural)

theorem readTrimmed_integer {sign characters : List Char} {negative : Bool} {digits : List Nat}
    (signed : Sign sign negative) (spelled : Spells 10 characters digits)
    (nonempty : digits ≠ []) :
    readTrimmed (sign ++ characters) =
      some (Binary64.withSign negative (Binary64.ofNat (valueOf 10 digits))) := by
  have read := readTrimmed_decimal signed (.whole spelled nonempty) .none
  rwa [List.append_nil, List.append_nil, List.length_nil, Nat.cast_zero, sub_zero,
    Decimal.toBinary64_natural] at read

theorem spells_toDigits (natural : Nat) :
    ∃ digits, Spells 10 (Nat.toDigits 10 natural) digits ∧ digits ≠ [] ∧
      valueOf 10 digits = natural := by
  have decimal : (Nat.toDigits 10 natural).all Char.isDigit = true :=
    List.all_eq_true.mpr fun character member =>
      Nat.isDigit_of_mem_toDigits (by decide) (by decide) member
  obtain ⟨digits, spelled⟩ := exists_spells decimal
  refine ⟨digits, spelled, ?_, ?_⟩
  · rintro rfl
    exact Nat.toDigits_ne_nil (List.forall₂_nil_right_iff.mp spelled)
  · have sameStep : (fun number (character : Char) => number * 10 + (character.toNat - '0'.toNat)) =
        fun number character => 10 * number + (character.toNat - '0'.toNat) := by
      funext number character
      rw [Nat.mul_comm]
    rw [← decimalValue_eq spelled, decimalValue, sameStep, ← Nat.ofDigitChars_eq_foldl]
    exact Nat.ofDigitChars_ten_toDigits

theorem toList_toString (number : ℤ) :
    ∃ sign, Sign sign (decide (number < 0)) ∧
      (toString number).toList = sign ++ Nat.toDigits 10 number.natAbs := by
  rw [Int.toString_eq_repr, Int.repr_eq_if]
  split
  case isTrue nonnegative =>
      rw [decide_eq_false (not_lt.mpr nonnegative)]
      refine ⟨[], .none, ?_⟩
      rw [Nat.toList_repr, List.nil_append, show number.toNat = number.natAbs by omega]
  case isFalse negative =>
      rw [decide_eq_true (not_le.mp negative)]
      refine ⟨['-'], .minus, ?_⟩
      rw [String.toList_append, Nat.toList_repr, show (-number).toNat = number.natAbs by omega]
      rfl

theorem readNumber_toString (number : ℤ) :
    readNumber (toString number) = some (Binary64.ofInt number) := by
  obtain ⟨digits, spelled, nonempty, value⟩ := spells_toDigits number.natAbs
  obtain ⟨sign, signed, characters⟩ := toList_toString number
  have trimmed : Text.trimBlank (toString number).toList =
      sign ++ Nat.toDigits 10 number.natAbs := by
    rw [characters]
    refine trimBlank_of_decimal fun character member => ?_
    rcases List.mem_append.mp member with inside | inside
    · exact signed.characters character inside
    · exact Spells.characters spelled character inside
  rw [readNumber, trimmed, readTrimmed_integer signed spelled nonempty, value, Binary64.ofInt]

end Number

namespace Binary64

/-- A large integer is rounded to an integer near it. -/
theorem ofInt_near {number : ℤ} (large : 2 ^ 52 ≤ number.natAbs)
    (small : number.natAbs < 2 ^ 64) :
    ∃ whole : ℤ, (ofInt number).isFinite ∧ (ofInt number).toRat = whole ∧
      |whole - number| ≤ 1024 := by
  have rounds := rounds_shiftOf large
  have fine : shiftOf number.natAbs ≤ 11 := by
    have bits : number.natAbs.log2 < 64 := (Nat.log2_lt (by omega)).mpr small
    unfold shiftOf
    omega
  generalize shiftOf number.natAbs = shift at rounds fine
  generalize roundedQuotient number.natAbs (2 ^ shift) = steps at rounds
  have inRange := rounds.inRange_iff.mpr (rounds.lt_overflow (by omega))
  obtain ⟨finite, _, value, _⟩ := ofSteps_finite (decide (number < 0)) rounds.least
    rounds.atMost rounds.normal inRange
  have apart : |((steps * 2 ^ shift : Nat) : ℤ) - number.natAbs| ≤ 1024 := by
    have distance : |(steps : ℚ) * 2 ^ (shift : ℤ) - number.natAbs| ≤ 1 / 2 * 2 ^ (11 : ℤ) := by
      rw [Rounds.distance_eq]
      gcongr
      · exact rounds.near
      · exact one_le_two
      · exact_mod_cast fine
    have half : (1 / 2 * 2 ^ (11 : ℤ) : ℚ) = 1024 := by norm_num
    rw [half, zpow_natCast] at distance
    exact_mod_cast distance
  rw [ofInt, rounds.ofNat_eq]
  refine ⟨(if decide (number < 0) = true then -1 else 1) * (steps * 2 ^ shift : Nat), finite,
    ?_, ?_⟩
  · rw [value]
    push_cast
    rfl
  · generalize steps * 2 ^ shift = magnitude at apart
    rw [abs_le] at apart ⊢
    split
    case isTrue negative =>
        have below := of_decide_eq_true negative
        omega
    case isFalse nonnegative =>
        have atLeast := not_lt.mp (of_decide_eq_false (Bool.eq_false_iff.mpr nonnegative))
        omega

end Binary64

namespace Value

/-- The value in a list of one, so many times. -/
def nested : Nat → Value → Value
  | 0, value => value
  | depth + 1, value => .list [nested depth value]

theorem toCell_nested {value : Value} (alone : (Value.list [value]).toCell = value.toCell)
    (depth : Nat) : (nested depth value).toCell = value.toCell := by
  induction depth with
  | zero => rfl
  | succ depth ih =>
      cases depth with
      | zero => exact alone
      | succ depth =>
          rw [← ih]
          change (Value.list [.list [nested depth value]]).toCell = _
          rw [toCell]
          rfl

theorem toCell_nested_int (depth : Nat) (number : ℤ) :
    (nested depth (.int number)).toCell = (Value.int number).toCell :=
  toCell_nested (by rw [toCell, toCell]) depth

theorem toCell_nested_text (depth : Nat) (text : String) :
    (nested depth (.text text)).toCell = (Value.text text).toCell :=
  toCell_nested (by rw [toCell, toCell]) depth

theorem toCell_toString (number : ℤ) :
    (Value.text (toString number)).toCell = (Binary64.ofInt number).toCell :=
  Number.toCell_read (Number.readNumber_toString number)

/-- Rounding moves an integer of this range by less than `2 ^ 32`, so that the cell tells
whether it did. -/
theorem toCell_int_eq_iff {number : ℤ} (low : -2 ^ 63 ≤ number) (high : number < 2 ^ 63) :
    (Value.int number).toCell = (Binary64.ofInt number).toCell ↔ IsDouble number := by
  rw [toCell_int low high]
  constructor
  · intro same
    by_contra rounded
    have large : ¬|number| ≤ 2 ^ 53 := fun small => rounded (Binary64.isDouble_of_small small)
    rw [Int.abs_eq_natAbs] at large
    have long : 2 ^ 52 ≤ number.natAbs := by omega
    obtain ⟨whole, finite, value, near⟩ := Binary64.ofInt_near long (by omega)
    rw [Binary64.toCell_of_eq finite value, Cell.ofInt_eq_ofInt_iff, Int.ModEq] at same
    rw [abs_le] at near
    obtain rfl : whole = number := by omega
    exact rounded ⟨_, finite, value⟩
  · intro isDouble
    have inside : |number| < 2 ^ 64 := abs_lt.mpr ⟨by omega, by omega⟩
    obtain ⟨finite, value⟩ := (Binary64.isNearest_ofInt number).exact isDouble inside
    rw [Binary64.toCell_of_eq finite value]

end Value

/-- An integer of the signed 64-bit range converts as it is, a larger one and the text of
either through the nearest double, in lists of one to any depth.  So an integer and its text
convert alike just if it is beyond that range or doubles stand for it. -/
theorem integers_and_their_texts_convert {number : ℤ} (low : -2 ^ 63 ≤ number)
    (depth textDepth : Nat) :
    (number < 2 ^ 63 → (Value.nested depth (.int number)).toCell = Cell.ofInt number) ∧
      (∃ x, Number.readNumber (toString number) = some x ∧ x.IsNearest number ∧
        (Value.nested textDepth (.text (toString number))).toCell = x.toCell ∧
        (2 ^ 63 ≤ number → (Value.nested depth (.int number)).toCell = x.toCell)) ∧
      ((Value.nested depth (.int number)).toCell =
          (Value.nested textDepth (.text (toString number))).toCell ↔
        2 ^ 63 ≤ number ∨ IsDouble number) ∧
      (|number| ≤ 2 ^ 53 → IsDouble number) := by
  rw [Value.toCell_nested_int, Value.toCell_nested_text, Value.toCell_toString]
  refine ⟨Value.toCell_int low, ⟨_, Number.readNumber_toString number,
    Binary64.isNearest_ofInt number, rfl, Value.toCell_int_large⟩, ?_,
    Binary64.isDouble_of_small⟩
  rcases lt_or_ge number (2 ^ 63) with inside | large
  · rw [Value.toCell_int_eq_iff low inside, or_iff_right (not_le.mpr inside)]
  · exact iff_of_true (Value.toCell_int_large large) (.inl large)

/-- The largest integer and the least, in lists. -/
theorem extreme_integers_and_their_texts_convert :
    (Value.nested 2 (.int (2 ^ 64 - 1))).toCell =
      (Value.nested 1 (.text "18446744073709551615")).toCell ∧
    (Value.int (-2 ^ 63)).toCell = Cell.ofInt (-2 ^ 63) := by
  have largest : toString (2 ^ 64 - 1 : ℤ) = "18446744073709551615" := by decide +kernel
  obtain ⟨-, -, alike, -⟩ :=
    integers_and_their_texts_convert (show (-2 ^ 63 : ℤ) ≤ 2 ^ 64 - 1 by decide) 2 1
  obtain ⟨exact, -, -, -⟩ :=
    integers_and_their_texts_convert (show (-2 ^ 63 : ℤ) ≤ -2 ^ 63 by decide) 0 0
  rw [largest] at alike
  exact ⟨alike.mpr (.inl (by decide)), exact (by decide)⟩

/-- Beyond fifty-three bits an integer and its text may differ. -/
theorem integers_and_their_texts_differ :
    ¬∀ number : ℤ, -2 ^ 63 ≤ number → number < 2 ^ 64 → ∀ depth textDepth : Nat,
      (Value.nested depth (.int number)).toCell =
        (Value.nested textDepth (.text (toString number))).toCell := by
  intro alike
  have same := alike (2 ^ 53 + 1) (by decide) (by decide) 0 0
  rw [Value.toCell_nested_int, Value.toCell_nested_text, Value.toCell_toString,
    Value.toCell_int (by decide) (by decide)] at same
  exact absurd same (by decide +kernel)

end CellBus
