import CellBus.Cell
import CellBus.Value
import CellBus.Number.Literal

/-!
# From values to cells

What a listener returns reaches the script machine as one cell.  Numbers are
truncated and taken modulo `2 ^ 32`, texts convert through the number they stand
for, and everything that stands for no finite number converts to zero.
-/

namespace CellBus

namespace Binary64

/-- What truncation leaves over multiples of `2 ^ 32`, with the sign of the number. -/
def remainder (number : Binary64) : Int := number.truncate.tmod 0x100000000

/-- The remainder from zero on. -/
def wrapped (number : Binary64) : Int :=
  if number.remainder < 0 then number.remainder + 0x100000000 else number.remainder

/-- The remainder with its upper half moved below zero. -/
def centred (number : Binary64) : Int :=
  if 0x80000000 ≤ number.wrapped then number.wrapped - 0x100000000 else number.wrapped

/-- A double truncated and taken modulo `2 ^ 32`. -/
def toCell (number : Binary64) : Cell :=
  if number.isFinite then Cell.saturated number.centred else 0

end Binary64

namespace Value

/-- Integers in the signed 64-bit range convert exactly; those beyond it pass
through the nearest double. -/
def integerToCell (number : Int) : Cell :=
  if -0x8000000000000000 ≤ number && number < 0x8000000000000000 then Cell.ofInt number
  else (Binary64.ofInt number).toCell

/-- A text converts through the number it stands for. -/
def textToCell (characters : String) : Cell :=
  ((Number.readNumber characters).map Binary64.toCell).getD 0

/-- A list converts through its written form, so only a lone number, text or
list counts. -/
def toCell : Value → Cell
  | .null | .object _ => 0
  | .bool truth => if truth then 1 else 0
  | .int number => integerToCell number
  | .float number => number.toCell
  | .text characters => textToCell characters
  | .list [.int number] => integerToCell number
  | .list [.float number] => number.toCell
  | .list [.text characters] => textToCell characters
  | .list [.list items] => toCell (.list items)
  | .list _ => 0

end Value

end CellBus
