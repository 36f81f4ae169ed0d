import CellBus.Cell

/-!
# Marshaling errors

The reasons why an argument coming from the script machine cannot be resolved or
decoded.  Any of them ends the dispatch under way.
-/

namespace CellBus

inductive MarshalError where
  | invalidAddress (address : Cell)
  | missingArgument (slot cell : Nat)
  | unterminatedText (address : Cell)
  | textTooLong (length limit : Nat)
  | invalidUtf8 (address : Cell)
  | negativeLength (length : Cell)
  | arrayTooLong (length limit : Nat)
  | arrayOutOfBounds (address : Cell) (length : Nat)
  deriving DecidableEq, Repr

namespace MarshalError

/-- The wording of each cause. -/
def message : MarshalError → String
  | invalidAddress address => "can't resolve VM address " ++ address.addressText
  | missingArgument slot cell =>
    "missing raw cell " ++ toString cell ++ " for argument slot " ++ toString slot
  | unterminatedText address =>
    "string at " ++ address.addressText ++ " runs past the end of VM memory"
  | textTooLong length limit =>
    "string of " ++ toString length ++ " characters exceeds the limit of " ++ toString limit
  | invalidUtf8 address => "string at " ++ address.addressText ++ " is not valid UTF-8"
  | negativeLength length => "negative array length " ++ toString length.toInt
  | arrayTooLong length limit =>
    "array of " ++ toString length ++ " elements exceeds the limit of " ++ toString limit
  | arrayOutOfBounds address length =>
    "array at " ++ address.addressText ++ " with " ++ toString length
      ++ " elements runs past the end of VM memory"

end MarshalError

end CellBus
