import CellBus.Number.Literal
import Mathlib.Data.List.Forall2
import Mathlib.Tactic.IntervalCases

/-!
# The grammar of numeric texts

`Written` says how the literals of numbers are written: nothing at all, the digits of a
radix behind its mark, `Infinity`, or a decimal number, the last two with an optional
sign.  The functions that read digits, exponents and decimal numbers accept just what the
grammar says and give what the digits stand for.
-/

namespace CellBus.Number

/-! ### Digits -/

/-- A character is a digit of the radix.  Letters, in either case, come after nine. -/
def IsDigit (radix : Nat) (character : Char) (digit : Nat) : Prop :=
  digit < radix ∧ ("0123456789abcdef".toList[digit]? = some character ∨
    "0123456789ABCDEF".toList[digit]? = some character)

/-- The characters are digits of the radix. -/
abbrev Spells (radix : Nat) : List Char → List Nat → Prop := List.Forall₂ (IsDigit radix)

/-- The natural number with these digits, the highest first. -/
def valueOf (radix : Nat) (digits : List Nat) : Nat :=
  digits.foldl (fun number digit => number * radix + digit) 0

theorem digit?_of_isDigit {character : Char} {digit : Nat}
    (isDigit : IsDigit 16 character digit) : digit? 16 character = some digit := by
  obtain ⟨small, spelled⟩ := isDigit
  interval_cases digit <;> rcases spelled with spelled | spelled <;> cases spelled <;> rfl

theorem isDigit_iff (character : Char) :
    character.isDigit = true ↔ 48 ≤ character.toNat ∧ character.toNat ≤ 57 := by
  simp [Char.isDigit, UInt32.le_iff_toNat_le]

theorem between_iff (first last character : Char) :
    (decide (first ≤ character) && decide (character ≤ last)) = true ↔
      first.toNat ≤ character.toNat ∧ character.toNat ≤ last.toNat := by
  simp [Char.le_def, UInt32.le_iff_toNat_le]

theorem isDigit_of_digit? {character : Char} {digit : Nat}
    (read : digit? 16 character = some digit) : IsDigit 16 character digit := by
  have same : character = Char.ofNat character.toNat := (Char.ofNat_toNat character).symm
  unfold digit? at read
  simp only [between_iff, isDigit_iff, Option.filter_eq_some_iff, decide_eq_true_eq] at read
  obtain ⟨read, small⟩ := read
  refine ⟨small, ?_⟩
  generalize character.toNat = code at same read
  subst same
  split at read
  case isTrue decimal =>
      obtain ⟨low, high⟩ := decimal
      interval_cases code <;> cases read <;> exact .inl rfl
  case isFalse =>
    split at read
    case isTrue lower =>
        obtain rfl : code - 97 + 10 = digit := Option.some.inj read
        have low : 97 ≤ code := lower.1
        have high : code < 103 := by omega
        interval_cases code <;> exact .inl rfl
    case isFalse =>
      split at read
      case isTrue upper =>
          obtain rfl : code - 65 + 10 = digit := Option.some.inj read
          have low : 65 ≤ code := upper.1
          have high : code < 71 := by omega
          interval_cases code <;> exact .inr rfl
      case isFalse => cases read

/-- Smaller radices have the first digits of the radix sixteen. -/
theorem digit?_eq_filter {radix : Nat} (atMost : radix ≤ 16) (character : Char) :
    digit? radix character = (digit? 16 character).filter (· < radix) := by
  unfold digit?
  dsimp only
  rw [Option.filter_filter]
  congr 1
  funext digit
  rw [← Bool.decide_and, decide_eq_decide]
  omega

theorem digit?_eq_some_iff {radix : Nat} (atMost : radix ≤ 16) {character : Char}
    {digit : Nat} : digit? radix character = some digit ↔ IsDigit radix character digit := by
  rw [digit?_eq_filter atMost, Option.filter_eq_some_iff, decide_eq_true_eq]
  constructor
  · rintro ⟨read, small⟩
    exact ⟨small, (isDigit_of_digit? read).2⟩
  · rintro ⟨small, spelled⟩
    exact ⟨digit?_of_isDigit ⟨by omega, spelled⟩, small⟩

/-- What holds of the ten codes of decimal digits holds of every decimal digit. -/
theorem of_isDigit (p : Char → Prop)
    (codes : ∀ code, 48 ≤ code → code ≤ 57 → p (Char.ofNat code)) {character : Char}
    (isDigit : character.isDigit = true) : p character := by
  obtain ⟨low, high⟩ := (isDigit_iff character).mp isDigit
  have own := codes character.toNat low high
  rwa [Char.ofNat_toNat] at own

theorem isDigit_decimal_iff {character : Char} {digit : Nat} :
    IsDigit 10 character digit ↔
      character.isDigit = true ∧ digit = character.toNat - '0'.toNat := by
  constructor
  · rintro ⟨small, spelled⟩
    interval_cases digit <;> rcases spelled with spelled | spelled <;> cases spelled <;>
      exact ⟨rfl, rfl⟩
  · rintro ⟨decimal, rfl⟩
    have codes (code : Nat) (low : 48 ≤ code) (high : code ≤ 57) :
        IsDigit 10 (Char.ofNat code) ((Char.ofNat code).toNat - '0'.toNat) := by
      interval_cases code <;> exact ⟨by decide, .inl rfl⟩
    exact of_isDigit (fun own => IsDigit 10 own (own.toNat - '0'.toNat)) codes decimal

theorem spells_decimal_iff {characters : List Char} {digits : List Nat} :
    Spells 10 characters digits ↔ characters.all Char.isDigit = true ∧
      digits = characters.map fun character => character.toNat - '0'.toNat := by
  induction characters generalizing digits with
  | nil => simp
  | cons character characters ih =>
      cases digits with
      | nil => simp
      | cons digit digits =>
          refine List.forall₂_cons.trans ((and_congr isDigit_decimal_iff ih).trans ?_)
          simp only [List.all_cons, Bool.and_eq_true, List.map_cons, List.cons.injEq]
          tauto

theorem decimalValue_eq {characters : List Char} {digits : List Nat}
    (spells : Spells 10 characters digits) :
    decimalValue characters = valueOf 10 digits := by
  rw [(spells_decimal_iff.mp spells).2, valueOf, List.foldl_map]
  rfl

theorem exists_spells {characters : List Char} (decimal : characters.all Char.isDigit = true) :
    ∃ digits, Spells 10 characters digits :=
  ⟨_, spells_decimal_iff.mpr ⟨decimal, rfl⟩⟩

theorem Spells.isEmpty_eq {radix : Nat} {characters : List Char} {digits : List Nat}
    (spells : Spells radix characters digits) : characters.isEmpty = digits.isEmpty := by
  cases spells <;> rfl

theorem readDigits_eq_some_iff {radix : Nat} (atMost : radix ≤ 16) {characters : List Char}
    {start result : Binary64} :
    characters.foldlM (fun number character =>
        (digit? radix character).map (extend radix number)) start = some result ↔
      ∃ digits, Spells radix characters digits ∧
        result = digits.foldl (extend radix) start := by
  induction characters generalizing start with
  | nil => simp [eq_comm]
  | cons character characters ih =>
      rw [List.foldlM_cons, Option.bind_eq_bind, Option.bind_eq_some_iff]
      constructor
      · rintro ⟨number, read, rest⟩
        obtain ⟨digit, own, rfl⟩ := Option.map_eq_some_iff.mp read
        obtain ⟨digits, spells, rfl⟩ := ih.mp rest
        exact ⟨digit :: digits, .cons ((digit?_eq_some_iff atMost).mp own) spells, rfl⟩
      · rintro ⟨digits, spells, rfl⟩
        cases spells with
        | cons own spells =>
            refine ⟨_, ?_, ih.mpr ⟨_, spells, rfl⟩⟩
            rw [(digit?_eq_some_iff atMost).mpr own]
            rfl

theorem readRadix_eq_some_iff {radix : Nat} (atMost : radix ≤ 16) {characters : List Char}
    {result : Binary64} :
    readRadix radix characters = some result ↔ ∃ digits, digits ≠ [] ∧
      Spells radix characters digits ∧
      result = digits.foldl (extend radix) Binary64.zero := by
  unfold readRadix
  constructor
  · intro read
    split at read
    case isTrue => cases read
    case isFalse nonempty =>
        obtain ⟨digits, spells, rfl⟩ := (readDigits_eq_some_iff atMost).mp read
        refine ⟨digits, ?_, spells, rfl⟩
        rintro rfl
        rw [spells.isEmpty_eq] at nonempty
        exact nonempty rfl
  · rintro ⟨digits, nonempty, spells, rfl⟩
    rw [spells.isEmpty_eq, if_neg (by simpa using nonempty)]
    exact (readDigits_eq_some_iff atMost).mpr ⟨digits, spells, rfl⟩

/-! ### The grammar -/

/-- An optional sign; minus is negative. -/
inductive Sign : List Char → Bool → Prop where
  | none : Sign [] false
  | plus : Sign ['+'] false
  | minus : Sign ['-'] true

/-- Digits with at most one point: the digits before it and those behind it. -/
inductive Mantissa : List Char → List Nat → List Nat → Prop where
  | whole {characters : List Char} {digits : List Nat} (spelled : Spells 10 characters digits)
      (nonempty : digits ≠ []) : Mantissa characters digits []
  | pointed {before after : List Char} {whole fraction : List Nat}
      (spelledBefore : Spells 10 before whole) (nonempty : whole ≠ [])
      (spelledAfter : Spells 10 after fraction) :
      Mantissa (before ++ '.' :: after) whole fraction
  | bare {after : List Char} {fraction : List Nat} (spelled : Spells 10 after fraction)
      (nonempty : fraction ≠ []) : Mantissa ('.' :: after) [] fraction

/-- An optional exponent: a mark, an optional sign and digits. -/
inductive Exponent : List Char → ℤ → Prop where
  | none : Exponent [] 0
  | marked {mark : Char} {sign characters : List Char} {negative : Bool} {digits : List Nat}
      (isMark : mark = 'e' ∨ mark = 'E') (signed : Sign sign negative)
      (spelled : Spells 10 characters digits) (nonempty : digits ≠ []) :
      Exponent (mark :: (sign ++ characters))
        (if negative then -(valueOf 10 digits : ℤ) else valueOf 10 digits)

/-- The letters behind a zero that announce a radix. -/
def Mark (character : Char) (radix : Nat) : Prop :=
  (character, radix) ∈ [('x', 16), ('X', 16), ('o', 8), ('O', 8), ('b', 2), ('B', 2)]

/-- What a numeric text says. -/
inductive Literal where
  | nothing
  | inRadix (radix : Nat) (digits : List Nat)
  | infinite (negative : Bool)
  | decimal (negative : Bool) (magnitude : ℚ)

/-- How it is written, without blanks around. -/
inductive Written : Literal → List Char → Prop where
  | nothing : Written .nothing []
  | inRadix {mark : Char} {radix : Nat} {characters : List Char} {digits : List Nat}
      (marked : Mark mark radix) (spelled : Spells radix characters digits)
      (nonempty : digits ≠ []) : Written (.inRadix radix digits) ('0' :: mark :: characters)
  | infinite {sign : List Char} {negative : Bool} (signed : Sign sign negative) :
      Written (.infinite negative) (sign ++ "Infinity".toList)
  | decimal {sign mantissa exponent : List Char} {negative : Bool}
      {whole fraction : List Nat} {power : ℤ} (signed : Sign sign negative)
      (mantissaOf : Mantissa mantissa whole fraction) (exponentOf : Exponent exponent power) :
      Written
        (.decimal negative (valueOf 10 (whole ++ fraction) * 10 ^ (power - fraction.length)))
        (sign ++ (mantissa ++ exponent))

/-! ### Reading it -/

theorem splitSign_eq {text unsigned : List Char} {negative : Bool}
    (split : splitSign text = (negative, unsigned)) :
    ∃ sign, Sign sign negative ∧ text = sign ++ unsigned := by
  unfold splitSign at split
  split at split
  case h_1 =>
      cases split
      exact ⟨['-'], .minus, rfl⟩
  case h_2 =>
      cases split
      exact ⟨['+'], .plus, rfl⟩
  case h_3 =>
      cases split
      exact ⟨[], .none, rfl⟩

theorem splitSign_append {sign unsigned : List Char} {negative : Bool}
    (signed : Sign sign negative)
    (starts : ∀ character ∈ unsigned.head?, character ≠ '-' ∧ character ≠ '+') :
    splitSign (sign ++ unsigned) = (negative, unsigned) := by
  cases signed with
  | none =>
      cases unsigned with
      | nil => rfl
      | cons character rest =>
          obtain ⟨notMinus, notPlus⟩ := starts character rfl
          rw [List.nil_append]
          unfold splitSign
          split
          case h_1 same => exact (notMinus (List.cons.inj same).1).elim
          case h_2 same => exact (notPlus (List.cons.inj same).1).elim
          case h_3 => rfl
  | plus => rfl
  | minus => rfl

theorem Spells.starts {characters : List Char} {digits : List Nat}
    (spells : Spells 10 characters digits) :
    ∀ character ∈ characters.head?, character ≠ '-' ∧ character ≠ '+' := by
  intro character first
  have decimal := (spells_decimal_iff.mp spells).1
  have isDigit := List.all_eq_true.mp decimal character (List.mem_of_mem_head? first)
  constructor <;> rintro rfl <;> cases isDigit

theorem readExponent_eq_some_iff {text : List Char} {power : ℤ} :
    readExponent text = some power ↔ Exponent text power := by
  constructor
  · intro read
    cases text with
    | nil =>
        cases read
        exact .none
    | cons mark rest =>
        rw [readExponent] at read
        split at read
        case isFalse => cases read
        case isTrue isMark =>
          rcases splitOf : splitSign rest with ⟨negative, characters⟩
          rw [splitOf] at read
          dsimp only at read
          split at read
          case isTrue => cases read
          case isFalse accepted =>
              simp only [Bool.or_eq_true, not_or, Bool.not_eq_true', Bool.not_eq_false]
                at accepted
              obtain ⟨notEmpty, decimal⟩ := accepted
              obtain ⟨sign, signed, rfl⟩ := splitSign_eq splitOf
              obtain ⟨digits, spells⟩ := exists_spells decimal
              rw [spells.isEmpty_eq] at notEmpty
              rw [decimalValue_eq spells] at read
              cases read
              refine .marked (by simpa using isMark) signed spells ?_
              rintro rfl
              exact notEmpty rfl
  · intro exponent
    cases exponent with
    | none => rfl
    | @marked mark sign characters negative digits isMark signed spells nonempty =>
        have decimal := (spells_decimal_iff.mp spells).1
        have notEmpty : digits.isEmpty = false := by simpa using nonempty
        rw [readExponent, if_pos (by simpa using isMark), splitSign_append signed spells.starts]
        dsimp only
        rw [spells.isEmpty_eq, notEmpty, decimal, decimalValue_eq spells]
        rfl

/-- Where the digits end. -/
def EndsDigits (rest : List Char) : Prop :=
  ∀ character ∈ rest.head?, character.isDigit = false

theorem split_digits {characters rest : List Char}
    (decimal : characters.all Char.isDigit = true) (ends : EndsDigits rest) :
    (characters ++ rest).takeWhile Char.isDigit = characters ∧
      (characters ++ rest).dropWhile Char.isDigit = rest := by
  have digits : ∀ character ∈ characters, character.isDigit = true := List.all_eq_true.mp decimal
  rw [List.takeWhile_append_of_pos digits, List.dropWhile_append_of_pos digits]
  cases rest with
  | nil => simp
  | cons character rest =>
      have notDigit : ¬character.isDigit = true := by
        rw [ends character rfl]
        exact Bool.false_ne_true
      rw [List.takeWhile_cons_of_neg notDigit, List.dropWhile_cons_of_neg notDigit,
        List.append_nil]
      exact ⟨rfl, rfl⟩

theorem Exponent.ends {text : List Char} {power : ℤ} (exponent : Exponent text power) :
    EndsDigits text := by
  intro character first
  cases exponent with
  | none => cases first
  | marked isMark =>
      cases first
      rcases isMark with rfl | rfl <;> rfl

section ReadDecimal

variable {before after exponent : List Char} {whole fraction : List Nat} {power : ℤ}

theorem Mantissa.of_point (spelledBefore : Spells 10 before whole)
    (spelledAfter : Spells 10 after fraction) (some : whole ≠ [] ∨ fraction ≠ []) :
    Mantissa (before ++ '.' :: after) whole fraction := by
  by_cases nonempty : whole = []
  · subst nonempty
    cases spelledBefore
    exact .bare spelledAfter (some.resolve_left (· rfl))
  · exact .pointed spelledBefore nonempty spelledAfter

theorem readDecimal_whole (spelled : Spells 10 before whole) (nonempty : whole ≠ [])
    (exponentOf : Exponent exponent power) :
    readDecimal (before ++ exponent) = some ⟨valueOf 10 (whole ++ []), power - 0⟩ := by
  obtain ⟨taken, dropped⟩ := split_digits (spells_decimal_iff.mp spelled).1 exponentOf.ends
  have notEmpty : before.isEmpty = false := by
    rw [spelled.isEmpty_eq]
    simpa using nonempty
  have noPoint (rest : List Char) : exponent ≠ '.' :: rest := by
    rintro rfl
    cases exponentOf with
    | marked isMark => rcases isMark with isMark | isMark <;> cases isMark
  rw [readDecimal, taken, dropped]
  dsimp only
  split
  case h_1 => exact (noPoint _ rfl).elim
  case h_2 =>
      rw [notEmpty, readExponent_eq_some_iff.mpr exponentOf, List.append_nil, List.append_nil,
        decimalValue_eq spelled]
      rfl

theorem readDecimal_point (spelledBefore : Spells 10 before whole)
    (spelledAfter : Spells 10 after fraction) (some : whole ≠ [] ∨ fraction ≠ [])
    (exponentOf : Exponent exponent power) :
    readDecimal (before ++ '.' :: (after ++ exponent)) =
      Option.some ⟨valueOf 10 (whole ++ fraction), power - fraction.length⟩ := by
  have pointEnds : EndsDigits ('.' :: (after ++ exponent)) := by
    rintro _ ⟨⟩
    rfl
  obtain ⟨taken, dropped⟩ := split_digits (spells_decimal_iff.mp spelledBefore).1 pointEnds
  obtain ⟨takenAfter, droppedAfter⟩ :=
    split_digits (spells_decimal_iff.mp spelledAfter).1 exponentOf.ends
  have notEmpty : (before.isEmpty && after.isEmpty) = false := by
    rw [spelledBefore.isEmpty_eq, spelledAfter.isEmpty_eq]
    simpa [or_iff_not_imp_left] using some
  rw [readDecimal, taken, dropped]
  dsimp only
  split
  case h_1 same =>
      cases same
      rw [takenAfter, droppedAfter, notEmpty, readExponent_eq_some_iff.mpr exponentOf,
        decimalValue_eq (List.rel_append spelledBefore spelledAfter), spelledAfter.length_eq]
      rfl
  case h_2 other => exact (other _ rfl).elim

theorem exists_mantissa {text : List Char} {decimal : Decimal}
    (read : readDecimal text = some decimal) : ∃ mantissa exponent whole fraction power,
      Mantissa mantissa whole fraction ∧ Exponent exponent power ∧
      text = mantissa ++ exponent ∧
      decimal = ⟨valueOf 10 (whole ++ fraction), power - fraction.length⟩ := by
  rw [readDecimal] at read
  obtain ⟨whole, spelledBefore⟩ := exists_spells (List.all_takeWhile (l := text))
  have parts := List.takeWhile_append_dropWhile (p := Char.isDigit) (l := text)
  generalize text.takeWhile Char.isDigit = before at *
  generalize text.dropWhile Char.isDigit = behind at *
  subst parts
  dsimp only at read
  split at read
  case h_1 afterPoint =>
      obtain ⟨fraction, spelledAfter⟩ :=
        exists_spells (List.all_takeWhile (l := afterPoint))
      have partsAfter :=
        List.takeWhile_append_dropWhile (p := Char.isDigit) (l := afterPoint)
      generalize afterPoint.takeWhile Char.isDigit = after at *
      generalize afterPoint.dropWhile Char.isDigit = exponent at *
      subst partsAfter
      dsimp only at read
      split at read
      case isTrue => cases read
      case isFalse notEmpty =>
          obtain ⟨power, exponentRead, rfl⟩ := Option.map_eq_some_iff.mp read
          rw [spelledBefore.isEmpty_eq, spelledAfter.isEmpty_eq] at notEmpty
          have nonempty : whole ≠ [] ∨ fraction ≠ [] := by
            simpa [or_iff_not_imp_left] using notEmpty
          refine ⟨before ++ '.' :: after, exponent, whole, fraction, power,
            .of_point spelledBefore spelledAfter nonempty,
            readExponent_eq_some_iff.mp exponentRead, ?_, ?_⟩
          · rw [List.append_assoc]
            rfl
          · rw [decimalValue_eq (List.rel_append spelledBefore spelledAfter),
              spelledAfter.length_eq]
  case h_2 =>
      dsimp only at read
      split at read
      case isTrue => cases read
      case isFalse notEmpty =>
          obtain ⟨power, exponentRead, rfl⟩ := Option.map_eq_some_iff.mp read
          rw [spelledBefore.isEmpty_eq] at notEmpty
          have nonempty : whole ≠ [] := by simpa using notEmpty
          refine ⟨before, behind, whole, [], power, .whole spelledBefore nonempty,
            readExponent_eq_some_iff.mp exponentRead, rfl, ?_⟩
          rw [List.append_nil, List.append_nil, decimalValue_eq spelledBefore]
          rfl

theorem readDecimal_mantissa {mantissa : List Char} (mantissaOf : Mantissa mantissa whole fraction)
    (exponentOf : Exponent exponent power) : readDecimal (mantissa ++ exponent) =
      some ⟨valueOf 10 (whole ++ fraction), power - fraction.length⟩ := by
  cases mantissaOf with
  | whole spelled nonempty => exact readDecimal_whole spelled nonempty exponentOf
  | pointed spelledBefore nonempty spelledAfter =>
      rw [List.append_assoc]
      exact readDecimal_point spelledBefore spelledAfter (.inl nonempty) exponentOf
  | bare spelled nonempty =>
      exact readDecimal_point .nil spelled (.inr nonempty) exponentOf

end ReadDecimal

end CellBus.Number
