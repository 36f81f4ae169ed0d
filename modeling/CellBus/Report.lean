import CellBus.Argument
import CellBus.Listener
import CellBus.MarshalError
import CellBus.Value.ToCell

/-!
# Turns and reports

A dispatch gives each listener of an event its turn.  The report sums the turns
up: a fault does not stop the dispatch, while arguments that cannot be built end
it.
-/

namespace CellBus

/-- What a callable leaves behind when it gives no value. -/
structure Fault where
  message : String
  /-- Where it happened, if a body was running. -/
  stack : Option String
  deriving DecidableEq, Repr

/-- What became of one listener in a dispatch. -/
inductive Turn where
  /-- It was no longer in the event's list. -/
  | skipped (listener : Listener)
  /-- It was called, and gave a value or a fault. -/
  | called (listener : Listener) (arguments : List Argument) (outcome : Except Fault Value)
  /-- Its arguments could not be built. -/
  | refused (listener : Listener) (error : MarshalError)

structure Report where
  /-- What the last call that gave a value gave, as a cell, or zero. -/
  result : Cell := 0
  /-- How many listeners were called. -/
  invoked : Nat := 0
  /-- The faults of the listeners that were called, in order. -/
  faults : List Fault := []
  /-- Why the dispatch ended early, if it did. -/
  marshalError : Option MarshalError := none
  deriving DecidableEq, Repr

namespace Report

/-- Whether the dispatch ended early. -/
def isAborted (report : Report) : Bool := report.marshalError.isSome

/-- A report with one more turn. -/
def add (report : Report) : Turn → Report
  | .skipped _ => report
  | .called _ _ (.ok value) => { report with invoked := report.invoked + 1, result := value.toCell }
  | .called _ _ (.error fault) =>
    { report with invoked := report.invoked + 1, faults := report.faults ++ [fault] }
  | .refused _ error => { report with marshalError := some error }

/-- The report on a list of turns. -/
def ofTurns (turns : List Turn) : Report := turns.foldl add {}

end Report

end CellBus
