import CellBus.Proofs.NearestDoubles
import CellBus.Proofs.NumericGrammar
import CellBus.Proofs.DecodedTexts
import CellBus.Value.ToCell
import Mathlib.Data.List.TakeWhile

/-!
# Numeric texts

A text without its outer blanks is read as a number just if the grammar has a literal
written so, and the number is the double that the literal stands for: for a decimal
literal the nearest one.  Any other text converts to the cell zero.
-/

namespace CellBus.Text

/-- The first character behind the leading blanks is none. -/
theorem first_dropWhile {text : List Char} {character : Char}
    (first : character ∈ (text.dropWhile isBlank).head?) : isBlank character = false := by
  have notBlank := List.head?_dropWhile_not isBlank text
  rw [Option.mem_def.mp first] at notBlank
  exact notBlank

/-- What a text trims to lies between blanks and neither starts nor ends with one. -/
theorem exists_around_trimBlank (text : List Char) :
    ∃ before after, text = before ++ (trimBlank text ++ after) ∧
      (∀ character ∈ before ++ after, isBlank character = true) ∧
      (∀ character ∈ (trimBlank text).head?, isBlank character = false) ∧
      ∀ character ∈ (trimBlank text).getLast?, isBlank character = false := by
  let after := ((text.dropWhile isBlank).reverse.takeWhile isBlank).reverse
  have behind : trimBlank text ++ after = text.dropWhile isBlank := by
    rw [trimBlank, ← List.reverse_append, List.takeWhile_append_dropWhile, List.reverse_reverse]
  refine ⟨text.takeWhile isBlank, after, ?_, ?_, ?_, ?_⟩
  · rw [behind, List.takeWhile_append_dropWhile]
  · intro character member
    rcases List.mem_append.mp member with inside | inside
    · exact List.mem_takeWhile_imp inside
    · exact List.mem_takeWhile_imp (List.mem_reverse.mp inside)
  · intro character first
    have front : character ∈ (text.dropWhile isBlank).head? := by
      rw [← behind, List.head?_append, Option.mem_def.mp first]
      rfl
    exact first_dropWhile front
  · intro character last
    rw [trimBlank, List.getLast?_reverse] at last
    exact first_dropWhile last

/-- A text whose first byte is below 128 starts with the character of that code. -/
theorem exists_of_ascii {text : List Char} {byte : UInt8} {rest : List UInt8}
    (ascii : byte < 0x80) (bytes : text.flatMap String.utf8EncodeChar = byte :: rest) :
    ∃ characters, text = Char.ofNat byte.toNat :: characters ∧
      characters.flatMap String.utf8EncodeChar = rest := by
  have small : byte.toNat < 128 := ascii
  have whole : UInt8.ofNat byte.toNat = byte := UInt8.ofNat_toNat
  have alone := utf8EncodeChar_one small
  have read := scalarsFrom_single rest small
  rw [whole] at alone read
  cases text with
  | nil => cases bytes
  | cons character characters =>
      rw [List.flatMap_cons] at bytes
      have first := scalarsFrom_utf8EncodeChar character
        (characters.flatMap String.utf8EncodeChar)
      rw [bytes, read] at first
      obtain rfl := Option.some.inj (List.cons.inj first).1
      rw [alone] at bytes
      exact ⟨characters, rfl, (List.cons.inj bytes).2⟩

end CellBus.Text

namespace CellBus.Number

/-! ### The double that a literal stands for -/

/-- The double that a literal stands for: the nearest one if it is decimal, and what one digit
after the other makes of zero if it is in a radix. -/
def Literal.Denotes : Literal → Binary64 → Prop
  | .nothing, x => x = Binary64.zero
  | .inRadix radix digits, x => x = digits.foldl (extend radix) Binary64.zero
  | .infinite negative, x => x = Binary64.infinity.withSign negative
  | .decimal negative magnitude, x =>
    x.isNegative = negative ∧ x.IsNearest ((if negative then -1 else 1) * magnitude)

/-- The number that an unsigned decimal literal stands for. -/
def Decimal.magnitude (decimal : Decimal) : ℚ :=
  decimal.coefficient * 10 ^ decimal.exponent

namespace Decimal

theorem overflow_le : Binary64.overflow ≤ 10 ^ (309 : ℤ) := by
  have powers : ((2 ^ 1024 : Nat) : ℚ) ≤ (10 ^ 309 : Nat) :=
    Nat.cast_le.mpr (by decide +kernel)
  rw [Nat.cast_pow, Nat.cast_pow, Nat.cast_ofNat, Nat.cast_ofNat] at powers
  exact (sub_le_self _ (pow_nonneg zero_le_two _)).trans powers

theorem least_le : (10 : ℚ) ^ (-324 : ℤ) ≤ 2 ^ (-1075 : ℤ) := by
  have powers : ((2 ^ 1075 : Nat) : ℚ) ≤ (10 ^ 324 : Nat) :=
    Nat.cast_le.mpr (by decide +kernel)
  rw [Nat.cast_pow, Nat.cast_pow, Nat.cast_ofNat, Nat.cast_ofNat] at powers
  rw [zpow_neg, zpow_neg]
  exact inv_anti₀ (by positivity) powers

theorem huge {coefficient : Nat} {exponent : ℤ} (nonzero : coefficient ≠ 0)
    (large : 309 ≤ exponent) : Binary64.overflow ≤ coefficient * 10 ^ exponent := by
  have atLeastOne : (1 : ℚ) ≤ coefficient := by
    exact_mod_cast Nat.pos_of_ne_zero nonzero
  calc Binary64.overflow ≤ 10 ^ (309 : ℤ) := overflow_le
    _ ≤ 10 ^ exponent := zpow_le_zpow_right₀ (by norm_num) large
    _ ≤ coefficient * 10 ^ exponent := le_mul_of_one_le_left (by positivity) atLeastOne

/-- Less than half the least positive double is nearest to zero. -/
theorem tiny_rounds {coefficient : Nat} {exponent : ℤ}
    (small : exponent + coefficient.log2 + 1 ≤ -324) :
    Binary64.Rounds (coefficient * 10 ^ exponent) (-1074) 0 := by
  have coefficientLt : (coefficient : ℚ) < 10 ^ ((coefficient.log2 : ℤ) + 1) := by
    have bits : (coefficient : ℚ) < 2 ^ ((coefficient.log2 : ℤ) + 1) := by
      exact_mod_cast Nat.lt_log2_self (n := coefficient)
    refine bits.trans_le ?_
    exact_mod_cast Nat.pow_le_pow_left (by decide : 2 ≤ 10) (coefficient.log2 + 1)
  have below : (coefficient : ℚ) * 10 ^ exponent < 1 / 2 * 2 ^ (-1074 : ℤ) := by
    calc (coefficient : ℚ) * 10 ^ exponent
        < 10 ^ ((coefficient.log2 : ℤ) + 1) * 10 ^ exponent := by gcongr
      _ = 10 ^ ((coefficient.log2 : ℤ) + 1 + exponent) :=
        (zpow_add₀ (by norm_num) _ _).symm
      _ ≤ 10 ^ (-324 : ℤ) := zpow_le_zpow_right₀ (by norm_num) (by omega)
      _ ≤ 2 ^ (-1075 : ℤ) := least_le
      _ = 1 / 2 * 2 ^ (-1074 : ℤ) := by
        rw [show (-1075 : ℤ) = -1 + -1074 by rfl, zpow_add₀ two_ne_zero]
        norm_num
  have inUnits : (coefficient : ℚ) * 10 ^ exponent / 2 ^ (-1074 : ℤ) < 1 / 2 := by
    rwa [div_lt_iff₀ (zpow_pos two_pos _)]
  have nonnegative : (0 : ℚ) ≤ coefficient * 10 ^ exponent / 2 ^ (-1074 : ℤ) :=
    div_nonneg (by positivity) (zpow_pos two_pos _).le
  have distance : |((0 : Nat) : ℚ) - coefficient * 10 ^ exponent / 2 ^ (-1074 : ℤ)| < 1 / 2 := by
    rw [Nat.cast_zero, zero_sub, abs_neg, abs_of_nonneg nonnegative]
    exact inUnits
  exact ⟨le_refl _, Nat.zero_le _, .inl rfl, distance.le, fun _ => Even.zero⟩

theorem ratio_eq (coefficient : Nat) (exponent : ℤ) :
    ((coefficient * Nat.pow 10 exponent.toNat : Nat) : ℚ) /
      (Nat.pow 10 (-exponent).toNat : Nat) = coefficient * 10 ^ exponent := by
  rw [Nat.pow_eq, Nat.pow_eq]
  push_cast
  rcases Int.le_total 0 exponent with nonnegative | nonpositive
  · obtain ⟨power, rfl⟩ := Int.eq_ofNat_of_zero_le nonnegative
    simp
  · obtain ⟨power, negated⟩ := Int.eq_ofNat_of_zero_le (Int.neg_nonneg.mpr nonpositive)
    obtain rfl : exponent = -(power : ℤ) := by omega
    simp [div_eq_mul_inv]

theorem toBinary64_isNearest (decimal : Decimal) (negative : Bool) :
    (decimal.toBinary64.withSign negative).IsNearest
      ((if negative then -1 else 1) * decimal.magnitude) := by
  obtain ⟨coefficient, exponent⟩ := decimal
  rw [toBinary64, magnitude]
  dsimp only
  split
  case isTrue none =>
      subst none
      have nearest := Binary64.isNearest_ofRatio 0 Nat.one_pos negative
      rw [Nat.cast_zero, zero_div] at nearest
      rw [Nat.cast_zero, zero_mul]
      exact nearest
  case isFalse nonzero =>
    split
    case isTrue large => exact Binary64.isNearest_infinity (huge nonzero large) negative
    case isFalse =>
      split
      case isTrue small => exact (tiny_rounds small).isNearest (by positivity) negative
      case isFalse =>
          rw [← ratio_eq]
          exact Binary64.isNearest_ofRatio _ (Nat.pow_pos (by decide)) negative

end Decimal

/-! ### Reading a whole text -/

theorem radix?_eq_some_iff {mark : Char} {radix : Nat} :
    radix? mark = some radix ↔ Mark mark radix := by
  unfold radix? Mark
  split <;> simp_all [eq_comm]

theorem Mark.radix_le {mark : Char} {radix : Nat} (marked : Mark mark radix) : radix ≤ 16 := by
  simp only [Mark, List.mem_cons, Prod.mk.injEq, List.not_mem_nil, or_false] at marked
  omega

/-- The characters of decimal literals. -/
def IsDecimalCharacter (character : Char) : Prop :=
  character.isDigit = true ∨ character ∈ ['.', 'e', 'E', '+', '-']

/-- Their bytes pass for those of a literal. -/
theorem IsDecimalCharacter.bytes {character : Char} (decimal : IsDecimalCharacter character) :
    (String.utf8EncodeChar character).all isLiteralByte = true := by
  rcases decimal with isDigit | other
  · refine of_isDigit (fun own => (String.utf8EncodeChar own).all isLiteralByte = true)
      (fun code low high => ?_) isDigit
    interval_cases code <;> rfl
  · simp only [List.mem_cons, List.not_mem_nil, or_false] at other
    rcases other with rfl | rfl | rfl | rfl | rfl <;> rfl

theorem all_isLiteralByte {text : List Char}
    (decimal : ∀ character ∈ text, IsDecimalCharacter character) :
    (Text.encode (String.ofList text)).all isLiteralByte = true := by
  rw [Text.encode, String.toList_ofList, List.all_flatMap, List.all_eq_true]
  exact fun character member => (decimal character member).bytes

theorem beginsLiteral_iff {text : List Char} :
    beginsLiteral text = true ↔ ∃ character rest, text = character :: rest ∧
      (character.isDigit = true ∨ character = '.') := by
  cases text with
  | nil => simp [beginsLiteral]
  | cons character rest => simp [beginsLiteral]

/-- Words that stand for numbers begin with no digit and no point. -/
theorem readWord_eq_none {text : List Char} (begins : beginsLiteral text = true) :
    readWord text = none := by
  obtain ⟨character, rest, rfl, starts⟩ := beginsLiteral_iff.mp begins
  have noWord : character.toLower ≠ 'i' ∧ character.toLower ≠ 'n' := by
    rcases starts with isDigit | rfl
    · refine of_isDigit (fun own => own.toLower ≠ 'i' ∧ own.toLower ≠ 'n')
        (fun code low high => ?_) isDigit
      interval_cases code <;> decide
    · decide
  have letters : "inf".toList = ['i', 'n', 'f'] ∧ "nan".toList = ['n', 'a', 'n'] ∧
      "infinity".toList = ['i', 'n', 'f', 'i', 'n', 'i', 't', 'y'] := ⟨rfl, rfl, rfl⟩
  simp [readWord, letters, noWord]

theorem Mark.not_decimal {mark : Char} {radix : Nat} (marked : Mark mark radix) :
    ¬IsDecimalCharacter mark := by
  simp only [Mark, List.mem_cons, Prod.mk.injEq, List.not_mem_nil, or_false] at marked
  rcases marked with ⟨rfl, -⟩ | ⟨rfl, -⟩ | ⟨rfl, -⟩ | ⟨rfl, -⟩ | ⟨rfl, -⟩ | ⟨rfl, -⟩ <;>
    unfold IsDecimalCharacter <;> decide

section Characters

variable {sign mantissa exponent text : List Char} {negative : Bool}
  {whole fraction digits : List Nat} {power : ℤ}

theorem Sign.characters (signed : Sign sign negative) :
    ∀ character ∈ sign, IsDecimalCharacter character := by
  intro character member
  cases signed with
  | none => cases member
  | plus | minus =>
      obtain rfl := List.mem_singleton.mp member
      exact .inr (by decide)

theorem Spells.characters (spells : Spells 10 text digits) :
    ∀ character ∈ text, IsDecimalCharacter character := fun character member =>
  .inl (List.all_eq_true.mp (spells_decimal_iff.mp spells).1 character member)

theorem Mantissa.characters (mantissaOf : Mantissa mantissa whole fraction) :
    ∀ character ∈ mantissa, IsDecimalCharacter character := by
  intro character member
  cases mantissaOf with
  | whole spelled => exact Spells.characters spelled character member
  | pointed spelledBefore _ spelledAfter =>
      rcases List.mem_append.mp member with inside | inside
      · exact Spells.characters spelledBefore character inside
      · rcases List.mem_cons.mp inside with rfl | inside
        · exact .inr (by decide)
        · exact Spells.characters spelledAfter character inside
  | bare spelled =>
      rcases List.mem_cons.mp member with rfl | inside
      · exact .inr (by decide)
      · exact Spells.characters spelled character inside

theorem Exponent.characters (exponentOf : Exponent exponent power) :
    ∀ character ∈ exponent, IsDecimalCharacter character := by
  intro character member
  cases exponentOf with
  | none => cases member
  | marked isMark signed spelled =>
      rcases List.mem_cons.mp member with rfl | inside
      · rcases isMark with rfl | rfl <;> exact .inr (by decide)
      · rcases List.mem_append.mp inside with inside | inside
        · exact signed.characters character inside
        · exact Spells.characters spelled character inside

/-- A mantissa starts with a digit or a point. -/
theorem Mantissa.first (mantissaOf : Mantissa mantissa whole fraction) :
    ∃ character rest, mantissa = character :: rest ∧
      (character.isDigit = true ∨ character = '.') := by
  have digitFirst {characters : List Char} {digits : List Nat}
      (spelled : Spells 10 characters digits) (nonempty : digits ≠ []) :
      ∃ character rest, characters = character :: rest ∧ character.isDigit = true := by
    cases spelled with
    | nil => exact (nonempty rfl).elim
    | cons first _ => exact ⟨_, _, rfl, (isDigit_decimal_iff.mp first).1⟩
  cases mantissaOf with
  | whole spelled nonempty =>
      obtain ⟨character, rest, rfl, isDigit⟩ := digitFirst spelled nonempty
      exact ⟨character, rest, rfl, .inl isDigit⟩
  | pointed spelledBefore nonempty _ =>
      obtain ⟨character, rest, rfl, isDigit⟩ := digitFirst spelledBefore nonempty
      exact ⟨character, _, rfl, .inl isDigit⟩
  | bare => exact ⟨'.', _, rfl, .inr rfl⟩

theorem readUnmarked_infinite (signed : Sign sign negative) :
    readUnmarked (sign ++ "Infinity".toList) =
      some (Binary64.infinity.withSign negative) := by
  cases signed <;> rfl

/-- The sign of a literal is read off before what must begin it. -/
theorem splitSign_literal (signed : Sign sign negative) (begins : beginsLiteral text = true) :
    splitSign (sign ++ text) = (negative, text) := by
  obtain ⟨character, rest, rfl, starts⟩ := beginsLiteral_iff.mp begins
  apply splitSign_append signed
  rintro _ ⟨⟩
  constructor <;> rintro rfl <;> rcases starts with starts | starts <;> cases starts

/-- What begins like a literal is read as a literal or not at all. -/
theorem readFloat_unworded (signed : Sign sign negative) (begins : beginsLiteral text = true) :
    readFloat (sign ++ text) =
      (readDecimal text).map fun decimal => decimal.toBinary64.withSign negative := by
  rw [readFloat, splitSign_literal signed begins]
  dsimp only
  rw [readWord_eq_none begins, Option.none_or, Option.map_map]
  rfl

example : readFloat "-INF".toList = some (Binary64.infinity.withSign true) ∧
    readUnmarked "-INF".toList = none := by
  decide

theorem Mantissa.begins (mantissaOf : Mantissa mantissa whole fraction)
    (exponent : List Char) : beginsLiteral (mantissa ++ exponent) = true := by
  obtain ⟨character, rest, rfl, starts⟩ := mantissaOf.first
  exact beginsLiteral_iff.mpr ⟨character, rest ++ exponent, rfl, starts⟩

theorem readUnmarked_decimal (signed : Sign sign negative)
    (mantissaOf : Mantissa mantissa whole fraction) (exponentOf : Exponent exponent power) :
    readUnmarked (sign ++ (mantissa ++ exponent)) =
      some ((Decimal.toBinary64
        ⟨valueOf 10 (whole ++ fraction), power - fraction.length⟩).withSign negative) := by
  have begins := mantissaOf.begins exponent
  have literal : (Text.encode (String.ofList (mantissa ++ exponent))).all isLiteralByte =
      true := by
    apply all_isLiteralByte
    intro character member
    rcases List.mem_append.mp member with inside | inside
    · exact mantissaOf.characters character inside
    · exact exponentOf.characters character inside
  have notInfinity : mantissa ++ exponent ≠ "Infinity".toList := by
    intro same
    rw [same] at begins
    cases begins
  rw [readUnmarked, splitSign_literal signed begins]
  dsimp only
  rw [if_neg notInfinity, literal, begins, readFloat_unworded signed begins,
    readDecimal_mantissa mantissaOf exponentOf]
  rfl

/-- What is read without a radix mark is written as `Infinity` or as a decimal literal. -/
theorem exists_written_unmarked {x : Binary64} (read : readUnmarked text = some x) :
    ∃ literal, Written literal text := by
  rw [readUnmarked] at read
  rcases splitOf : splitSign text with ⟨negative, unsigned⟩
  obtain ⟨sign, signed, rfl⟩ := splitSign_eq splitOf
  rw [splitOf] at read
  dsimp only at read
  split at read
  case isTrue same =>
      subst same
      exact ⟨_, .infinite signed⟩
  case isFalse =>
    split at read
    case isTrue => cases read
    case isFalse accepted =>
        simp only [Bool.or_eq_true, not_or, Bool.not_eq_true', Bool.not_eq_false] at accepted
        rw [readFloat_unworded signed accepted.2] at read
        obtain ⟨decimal, decimalRead, _⟩ := Option.map_eq_some_iff.mp read
        obtain ⟨mantissa, exponent, whole, fraction, power, mantissaOf, exponentOf, rfl, _⟩ :=
          exists_mantissa decimalRead
        exact ⟨_, .decimal signed mantissaOf exponentOf⟩

end Characters

theorem readTrimmed_unmarked {text : List Char} (nonempty : text ≠ [])
    (unmarked : ∀ mark rest, text = '0' :: mark :: rest → radix? mark = none) :
    readTrimmed text = readUnmarked text := by
  unfold readTrimmed
  split
  case h_1 => exact (nonempty rfl).elim
  case h_2 mark first rest => rw [unmarked mark (first :: rest) rfl]
  case h_3 => rfl

/-- A radix mark with nothing behind it marks nothing, and the letter is in no literal. -/
theorem readTrimmed_marked {mark : Char} {radix : Nat} (marked : Mark mark radix)
    (characters : List Char) :
    readTrimmed ('0' :: mark :: characters) = readRadix radix characters := by
  cases characters with
  | nil =>
      simp only [Mark, List.mem_cons, Prod.mk.injEq, List.not_mem_nil, or_false] at marked
      rcases marked with ⟨rfl, rfl⟩ | ⟨rfl, rfl⟩ | ⟨rfl, rfl⟩ | ⟨rfl, rfl⟩ | ⟨rfl, rfl⟩ |
        ⟨rfl, rfl⟩ <;> rfl
  | cons first rest => rw [readTrimmed, radix?_eq_some_iff.mpr marked]

theorem readTrimmed_decimal {sign mantissa exponent : List Char} {negative : Bool}
    {whole fraction : List Nat} {power : ℤ} (signed : Sign sign negative)
    (mantissaOf : Mantissa mantissa whole fraction) (exponentOf : Exponent exponent power) :
    readTrimmed (sign ++ (mantissa ++ exponent)) =
      some ((Decimal.toBinary64
        ⟨valueOf 10 (whole ++ fraction), power - fraction.length⟩).withSign negative) := by
  refine (readTrimmed_unmarked ?_ ?_).trans (readUnmarked_decimal signed mantissaOf exponentOf)
  · obtain ⟨character, rest, rfl, _⟩ := mantissaOf.first
    simp
  · intro mark rest same
    by_contra marked
    obtain ⟨radix, marked⟩ := Option.ne_none_iff_exists'.mp marked
    refine (radix?_eq_some_iff.mp marked).not_decimal ?_
    have member : mark ∈ sign ++ (mantissa ++ exponent) := by
      rw [same]
      simp
    simp only [List.mem_append] at member
    rcases member with inside | inside | inside
    · exact signed.characters mark inside
    · exact mantissaOf.characters mark inside
    · exact exponentOf.characters mark inside

theorem readTrimmed_of_written {literal : Literal} {text : List Char}
    (written : Written literal text) :
    ∃ x, readTrimmed text = some x ∧ literal.Denotes x := by
  cases written with
  | nothing => exact ⟨_, rfl, rfl⟩
  | @inRadix mark radix characters digits marked spelled nonempty =>
      refine ⟨_, ?_, rfl⟩
      rw [readTrimmed_marked marked]
      exact (readRadix_eq_some_iff marked.radix_le).mpr ⟨digits, nonempty, spelled, rfl⟩
  | @infinite sign negative signed =>
      refine ⟨_, (readTrimmed_unmarked ?_ ?_).trans (readUnmarked_infinite signed), rfl⟩
      · cases signed <;> decide
      · intro mark rest same
        cases signed <;> cases (List.cons.inj same).1
  | decimal signed mantissaOf exponentOf =>
      exact ⟨_, readTrimmed_decimal signed mantissaOf exponentOf,
        Binary64.isNegative_withSign _ _, Decimal.toBinary64_isNearest _ _⟩

theorem exists_written {text : List Char} {x : Binary64} (read : readTrimmed text = some x) :
    ∃ literal, Written literal text := by
  unfold readTrimmed at read
  split at read
  case h_1 => exact ⟨_, .nothing⟩
  case h_2 mark first rest =>
    split at read
    case h_1 radix marked =>
        have isMark := radix?_eq_some_iff.mp marked
        obtain ⟨digits, nonempty, spelled, _⟩ :=
          (readRadix_eq_some_iff isMark.radix_le).mp read
        exact ⟨_, .inRadix isMark spelled nonempty⟩
    case h_2 => exact exists_written_unmarked read
  case h_3 => exact exists_written_unmarked read

theorem Mark.ascii {mark : UInt8} {radix : Nat} (marked : Mark (Char.ofNat mark.toNat) radix) :
    mark < 0x80 := by
  have byte := mark.toNat_lt
  have code : (Char.ofNat mark.toNat).toNat = mark.toNat := Text.toNat_char (.inl (by omega))
  simp only [Mark, List.mem_cons, Prod.mk.injEq, List.not_mem_nil, or_false] at marked
  rw [UInt8.lt_iff_toNat_lt, ← code]
  rcases marked with ⟨same, -⟩ | ⟨same, -⟩ | ⟨same, -⟩ | ⟨same, -⟩ | ⟨same, -⟩ | ⟨same, -⟩ <;>
    rw [same] <;> decide

theorem toCell_read {text : String} {x : Binary64} (read : readNumber text = some x) :
    (Value.text text).toCell = x.toCell := by
  rw [Value.toCell, Value.textToCell, read]
  rfl

theorem toCell_unread {text : String} (unread : readNumber text = none) :
    (Value.text text).toCell = 0 := by
  rw [Value.toCell, Value.textToCell, unread]
  rfl

/-- A text is a number just if, without the blanks around it, it is written as the grammar
says, and then it is the number that its literal stands for.  Any other text converts to
zero.  Where the first two bytes are a zero and the mark of a radix, the remaining ones are
those of the remaining characters. -/
theorem numeric_texts_follow_the_grammar (text : String) :
    let trimmed := Text.trimBlank text.toList
    (∃ before after, text.toList = before ++ (trimmed ++ after) ∧
      (∀ character ∈ before ++ after, Text.isBlank character = true) ∧
      (∀ character ∈ trimmed.head?, Text.isBlank character = false) ∧
      ∀ character ∈ trimmed.getLast?, Text.isBlank character = false) ∧
    ((∃ x, readNumber text = some x) ↔ ∃ literal, Written literal trimmed) ∧
    (∀ literal, Written literal trimmed → ∃ x, readNumber text = some x ∧
      literal.Denotes x ∧ (Value.text text).toCell = x.toCell) ∧
    ((¬∃ literal, Written literal trimmed) → (Value.text text).toCell = 0) ∧
    ∀ (mark : UInt8) (radix : Nat) (rest : List UInt8), Mark (Char.ofNat mark.toNat) radix →
      trimmed.flatMap String.utf8EncodeChar = 0x30 :: mark :: rest →
        ∃ characters, trimmed = '0' :: Char.ofNat mark.toNat :: characters ∧
          characters.flatMap String.utf8EncodeChar = rest ∧
          readNumber text = readRadix radix characters := by
  intro trimmed
  refine ⟨Text.exists_around_trimBlank _, ⟨?_, ?_⟩, ?_, ?_, ?_⟩
  · rintro ⟨x, read⟩
    exact exists_written read
  · rintro ⟨literal, written⟩
    obtain ⟨x, read, _⟩ := readTrimmed_of_written written
    exact ⟨x, read⟩
  · intro literal written
    obtain ⟨x, read, denotes⟩ := readTrimmed_of_written written
    exact ⟨x, read, denotes, toCell_read read⟩
  · intro unwritten
    refine toCell_unread (Option.eq_none_iff_forall_ne_some.mpr fun x read => ?_)
    exact unwritten (exists_written read)
  · intro mark radix rest marked bytes
    obtain ⟨afterZero, trimmedOf, bytesAfter⟩ := Text.exists_of_ascii (by decide) bytes
    obtain ⟨characters, rfl, bytesRest⟩ := Text.exists_of_ascii marked.ascii bytesAfter
    refine ⟨characters, trimmedOf, bytesRest, ?_⟩
    change readTrimmed trimmed = _
    rw [trimmedOf]
    exact readTrimmed_marked marked characters

/-- A decimal literal between blanks, a sign between a mark and its digits, and a
character of two bytes behind a mark. -/
theorem some_numeric_texts_follow_the_grammar :
    (∃ x, readNumber " -12.7e1\t" = some x ∧ x.isNegative = true ∧ x.IsNearest (-127) ∧
      (Value.text " -12.7e1\t").toCell = x.toCell) ∧
    (Value.text "0x+5").toCell = 0 ∧
    ∃ characters, "0xé".toList = '0' :: 'x' :: characters ∧
      characters.flatMap String.utf8EncodeChar = [0xC3, 0xA9] ∧
      readNumber "0xé" = readRadix 16 characters := by
  obtain ⟨-, -, literals, -, -⟩ := numeric_texts_follow_the_grammar " -12.7e1\t"
  obtain ⟨-, accepted, -, others, -⟩ := numeric_texts_follow_the_grammar "0x+5"
  obtain ⟨-, -, -, -, slices⟩ := numeric_texts_follow_the_grammar "0xé"
  refine ⟨?_, others fun written => ?_, ?_⟩
  · have digits (characters : List Char) (decimal : characters.all Char.isDigit = true) :
        Spells 10 characters (characters.map fun character => character.toNat - '0'.toNat) :=
      spells_decimal_iff.mpr ⟨decimal, rfl⟩
    obtain ⟨x, read, ⟨negative, nearest⟩, converted⟩ := literals _ (.decimal .minus
      (.pointed (digits ['1', '2'] rfl) (by decide) (digits ['7'] rfl))
      (.marked (.inl rfl) .none (digits ['1'] rfl) (by decide)))
    refine ⟨x, read, negative, ?_, converted⟩
    have magnitude : (-127 : ℚ) = -1 * ((127 : Nat) * 10 ^ ((1 : ℤ) - 1)) := by norm_num
    rw [magnitude]
    exact nearest
  · obtain ⟨x, read⟩ := accepted.mpr written
    cases read
  · exact slices 0x78 16 [0xC3, 0xA9] List.mem_cons_self (by decide)

end CellBus.Number
