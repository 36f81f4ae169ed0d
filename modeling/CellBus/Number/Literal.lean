import CellBus.Number.Binary64
import CellBus.Text.Blank
import CellBus.Text.Utf8

/-!
# Numeric literals in text

`readNumber` gives the number that a text stands for once its outer blanks are
gone: nothing at all stands for zero, a radix mark is followed by digits of that
radix, and otherwise an optional sign may precede `Infinity`.  What is left goes to
`readFloat`, which reads floating-point numbers of every kind, if it has none but the
bytes of decimal literals and begins with a digit or a point.  Any other text stands
for no number.
-/

namespace CellBus.Number

/-- The value of a digit in `radix`, letters in either case. -/
def digit? (radix : Nat) (character : Char) : Option Nat :=
  let code := character.toNat
  let value? : Option Nat :=
    if character.isDigit then some (code - '0'.toNat)
    else if 'a' ≤ character && character ≤ 'z' then some (code - 'a'.toNat + 10)
    else if 'A' ≤ character && character ≤ 'Z' then some (code - 'A'.toNat + 10)
    else none
  value?.filter (· < radix)

/-- The natural number written by decimal digits. -/
def decimalValue (digits : List Char) : Nat :=
  digits.foldl (fun number character => number * 10 + (character.toNat - '0'.toNat)) 0

/-- One more digit: `number · radix + digit`, rounded once. -/
def extend (radix : Nat) (number : Binary64) (digit : Nat) : Binary64 :=
  if number.isFinite then Binary64.ofNat (number.integerPart * radix + digit) else number

/-- A run of one or more digits, rounded to a double after each of them. -/
def readRadix (radix : Nat) (text : List Char) : Option Binary64 :=
  if text.isEmpty then none
  else text.foldlM (fun number character => (digit? radix character).map (extend radix number))
    Binary64.zero

/-- A decimal literal: `coefficient · 10 ^ exponent`. -/
structure Decimal where
  coefficient : Nat
  exponent : Int
  deriving DecidableEq, Repr

/-- The double nearest to a decimal.  Far outside the range the power of ten is
not worked out: from `10 ^ 309` on everything is infinite, and below `10 ^ -324`
everything is nearer to zero than to the least double. -/
def Decimal.toBinary64 (decimal : Decimal) : Binary64 :=
  if decimal.coefficient = 0 then Binary64.zero
  else if 309 ≤ decimal.exponent then Binary64.infinity
  else if decimal.exponent + decimal.coefficient.log2 + 1 ≤ -324 then Binary64.zero
  else Binary64.ofRatio (decimal.coefficient * Nat.pow 10 decimal.exponent.toNat)
    (Nat.pow 10 (-decimal.exponent).toNat)

/-- Splits off an optional sign; `true` stands for minus. -/
def splitSign : List Char → Bool × List Char
  | '-' :: rest => (true, rest)
  | '+' :: rest => (false, rest)
  | text => (false, text)

/-- The exponent part of a decimal literal: nothing, or a mark, an optional sign
and digits up to the end of the text. -/
def readExponent : List Char → Option Int
  | [] => some 0
  | mark :: rest =>
    if mark = 'e' || mark = 'E' then
      let (negative, digits) := splitSign rest
      if digits.isEmpty || !digits.all Char.isDigit then none
      else some (if negative then -(decimalValue digits : Int) else decimalValue digits)
    else none

/-- An unsigned decimal literal: digits with at most one point among or around
them, then an optional exponent. -/
def readDecimal (text : List Char) : Option Decimal :=
  let whole := text.takeWhile Char.isDigit
  let afterWhole := text.dropWhile Char.isDigit
  let (fraction, rest) := match afterWhole with
    | '.' :: afterPoint => (afterPoint.takeWhile Char.isDigit, afterPoint.dropWhile Char.isDigit)
    | _ => ([], afterWhole)
  if whole.isEmpty && fraction.isEmpty then none
  else (readExponent rest).map fun exponent =>
    ⟨decimalValue (whole ++ fraction), exponent - fraction.length⟩

/-- A number that is written as a word, in letters of either case. -/
def readWord (text : List Char) : Option Binary64 :=
  let word := text.map Char.toLower
  if word = "inf".toList || word = "infinity".toList then some Binary64.infinity
  else if word = "nan".toList then some Binary64.notANumber
  else none

/-- A floating-point number of any kind: an optional sign, then a word or a decimal
literal. -/
def readFloat (text : List Char) : Option Binary64 :=
  let (negative, unsigned) := splitSign text
  ((readWord unsigned).or ((readDecimal unsigned).map Decimal.toBinary64)).map
    (Binary64.withSign negative)

/-- The bytes of decimal literals: those of the digits, and of `.`, `e`, `E`, `+` and
`-`. -/
def isLiteralByte (byte : UInt8) : Bool :=
  (0x30 ≤ byte && byte ≤ 0x39) || [0x2E, 0x65, 0x45, 0x2B, 0x2D].contains byte

/-- What an unsigned decimal literal begins with. -/
def beginsLiteral (text : List Char) : Bool :=
  text.head?.any fun character => character.isDigit || character = '.'

/-- A number without a radix mark. -/
def readUnmarked (text : List Char) : Option Binary64 :=
  let unsigned := (splitSign text).2
  if unsigned = "Infinity".toList then
    some (Binary64.infinity.withSign (text.head? = some '-'))
  else if !(Text.encode (String.ofList unsigned)).all isLiteralByte ||
      !beginsLiteral unsigned then none
  else readFloat text

/-- The radix that a letter after a leading zero announces. -/
def radix? : Char → Option Nat
  | 'x' | 'X' => some 16
  | 'o' | 'O' => some 8
  | 'b' | 'B' => some 2
  | _ => none

/-- The number that a text without outer blanks stands for.  A radix mark needs
something behind it. -/
def readTrimmed : List Char → Option Binary64
  | [] => some Binary64.zero
  | '0' :: mark :: first :: rest =>
    match radix? mark with
    | some radix => readRadix radix (first :: rest)
    | none => readUnmarked ('0' :: mark :: first :: rest)
  | text => readUnmarked text

/-- The number that a text stands for, if it stands for one. -/
def readNumber (text : String) : Option Binary64 :=
  readTrimmed (Text.trimBlank text.toList)

end CellBus.Number
