import CellBus.Identity
import CellBus.Value

/-!
# Arguments

What a listener is handed.  Functions, alone or in lists, reach it as the same
callables.
-/

namespace CellBus

inductive Argument where
  | plain (value : Value)
  | function (callable : Callable)
  | list (items : List Argument)
  deriving Inhabited, Repr

namespace Argument

/-- The plain value, if the argument is one. -/
def plain? : Argument → Option Value
  | .plain value => some value
  | _ => none

/-- The text, if the argument is a plain text. -/
def text? (argument : Argument) : Option String := argument.plain?.bind Value.text?

/-- The function, if the argument is one. -/
def function? : Argument → Option Callable
  | .function callable => some callable
  | _ => none

/-- The items, if the argument is a list of arguments. -/
def list? : Argument → Option (List Argument)
  | .list items => some items
  | _ => none

/-- The plain form of an argument.  Functions have none and become null. -/
def toValue : Argument → Value
  | .plain value => value
  | .function _ => .null
  | .list items => .list (items.map toValue)

end Argument

end CellBus
