import CellBus.Number.Binary64
import CellBus.Number.Binary32

/-!
# Plain values

The dynamic values that listeners receive and return.  Integers and doubles are
different values even when they are numerically equal.
-/

namespace CellBus

/-- A plain value.  Integers lie between `-2 ^ 63` and `2 ^ 64 - 1`, doubles are
finite. -/
inductive Value where
  | null
  | bool (truth : Bool)
  | int (number : Int)
  | float (number : Binary64)
  | text (characters : String)
  | list (items : List Value)
  | object (members : List (String × Value))
  deriving Inhabited, Repr

namespace Value

/-- The text, if the value is one. -/
def text? : Value → Option String
  | .text characters => some characters
  | _ => none

/-- A finite single as a value; infinities and NaNs have no plain form. -/
def ofSingle (number : Binary32) : Value :=
  if number.isFinite then .float number.widen else .null

end Value

end CellBus
