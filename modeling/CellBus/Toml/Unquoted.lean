import CellBus.Number.Literal
import CellBus.Toml.Item
import CellBus.Toml.Reader

/-!
# Unquoted values

Truth values, integers, floating-point numbers, dates and times.  Integers must
fit a 128-bit word, and a floating-point number written in digits must not round
to infinity.
-/

namespace CellBus.Toml.Unquoted

/-- A character of an unquoted value. -/
def isTokenCharacter (character : Char) : Bool :=
  character.isAlphanum || "_+-.:".toList.contains character

/-- The digits of a number without the underscores, each of which must stand
between two digits. -/
def digits (isDigit : Char → Bool) : List Char → Option (List Char)
  | [] => none
  | [last] => if isDigit last then some [last] else none
  | first :: '_' :: rest => if isDigit first then (digits isDigit rest).map (first :: ·) else none
  | first :: rest => if isDigit first then (digits isDigit rest).map (first :: ·) else none

/-- The digits of a number without a leading zero. -/
def wholeDigits (text : List Char) : Option (List Char) := do
  let found ← digits Char.isDigit text
  if found.head? = some '0' && found.length ≠ 1 then none else some found

/-- A natural number after the mark of its radix. -/
def markedNatural (text : List Char) : Option Nat := do
  let radix ← match text.take 2 with
    | ['0', 'x'] => some 16
    | ['0', 'o'] => some 8
    | ['0', 'b'] => some 2
    | _ => none
  let found ← digits (fun character => (Number.digit? radix character).isSome) (text.drop 2)
  return found.foldl (fun number character =>
    number * radix + (Number.digit? radix character).getD 0) 0

/-- An integer in one of the four radices; only decimal ones have a sign. -/
def integer (text : List Char) : Option Int := do
  let number ← match markedNatural text with
    | some number => some (number : Int)
    | none =>
      let (negative, unsigned) := Number.splitSign text
      (wholeDigits unsigned).map fun found =>
        if negative then -(Number.decimalValue found : Int) else Number.decimalValue found
  if -(Nat.pow 2 127 : Int) ≤ number && number < (Nat.pow 2 128 : Int) then some number
  else none

/-- The exponent of a floating-point number, after its mark. -/
def exponent (text : List Char) : Option Int :=
  let (negative, unsigned) := Number.splitSign text
  (digits Char.isDigit unsigned).map fun found =>
    if negative then -(Number.decimalValue found : Int) else Number.decimalValue found

/-- An unsigned floating-point number: whole digits with a fraction, an exponent
or both. -/
def decimal (text : List Char) : Option Number.Decimal := do
  let isMark (character : Char) : Bool := character = 'e' || character = 'E'
  let mantissa := text.takeWhile (!isMark ·)
  let afterMantissa := text.dropWhile (!isMark ·)
  let whole ← wholeDigits (mantissa.takeWhile (· ≠ '.'))
  let afterWhole := mantissa.dropWhile (· ≠ '.')
  if afterWhole.isEmpty && afterMantissa.isEmpty then failure
  let fraction ← if afterWhole.isEmpty then some [] else digits Char.isDigit (afterWhole.drop 1)
  let power ← if afterMantissa.isEmpty then some 0 else exponent (afterMantissa.drop 1)
  return ⟨Number.decimalValue (whole ++ fraction), power - fraction.length⟩

/-- A floating-point number with an optional sign. -/
def float (text : List Char) : Option Binary64 := do
  let (negative, unsigned) := Number.splitSign text
  let magnitude ←
    if unsigned = "inf".toList then some Binary64.infinity
    else if unsigned = "nan".toList then some Binary64.notANumber
    else (decimal unsigned).bind fun written =>
      let nearest := written.toBinary64
      if nearest.isFinite then some nearest else none
  return magnitude.withSign negative

/-- A natural number of a fixed count of digits, between two bounds. -/
def field (count least greatest : Nat) : Reader Nat := do
  let text ← get
  let found := text.take count
  set (text.drop count)
  let number := Number.decimalValue found
  if found.length = count && found.all Char.isDigit && least ≤ number && number ≤ greatest then
    return number
  failure

/-- The number of days in a month. -/
def daysInMonth (year month : Nat) : Nat :=
  if month = 2 then
    if year % 4 = 0 && (year % 100 ≠ 0 || year % 400 = 0) then 29 else 28
  else if month = 4 || month = 6 || month = 9 || month = 11 then 30
  else 31

def date : Reader Unit := do
  let year ← field 4 0 9999
  Reader.expect ['-']
  let month ← field 2 1 12
  Reader.expect ['-']
  let _ ← field 2 1 (daysInMonth year month)

/-- A time of day.  Seconds may be left out, and one may be a leap second. -/
def time : Reader Unit := do
  let _ ← field 2 0 23
  Reader.expect [':']
  let _ ← field 2 0 59
  if ← Reader.accept [':'] then
    let _ ← field 2 0 60
    if ← Reader.accept ['.'] then
      if (← Reader.takeWhile Char.isDigit).isEmpty then failure

/-- The distance of a time from universal time. -/
def offset : Reader Unit := do
  if (← Reader.accept ['Z']) then return
  if (← Reader.accept ['z']) then return
  if !(← Reader.accept ['+']) then Reader.expect ['-']
  let _ ← field 2 0 23
  Reader.expect [':']
  let _ ← field 2 0 59

/-- A date, a time, or a date and a time with an optional offset. -/
def moment : Reader Unit := do
  if ((← get).drop 2).head? = some ':' then time
  else
    date
    if (← get).isEmpty then return
    let separator ← Reader.any
    if separator ≠ 'T' && separator ≠ 't' && separator ≠ ' ' then failure
    time
    if !(← get).isEmpty then offset

/-- The value that an unquoted token stands for. -/
def ofToken (token : List Char) : Option Item :=
  if token = "true".toList then some (.bool true)
  else if token = "false".toList then some (.bool false)
  else (integer token).map .integer
    <|> (float token).map .float
    <|> (Reader.readAll moment token).map fun _ => .moment (String.ofList token)

/-- The characters of an unquoted value.  A blank may stand between a date and a
time. -/
def token : Reader (List Char) := do
  let first ← Reader.takeWhile isTokenCharacter
  match Reader.readAll date first, ← get with
  | some _, ' ' :: digit :: rest =>
    if digit.isDigit then
      set (digit :: rest)
      return first ++ ' ' :: (← Reader.takeWhile isTokenCharacter)
    return first
  | _, _ => return first

def value : Reader Item := do
  match ofToken (← token) with
  | some item => return item
  | none => failure

end CellBus.Toml.Unquoted
