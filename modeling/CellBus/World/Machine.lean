import CellBus.World.Dispatch
import CellBus.World.Subscription

/-!
# Requests of the script machine

The script machine calls with raw cells.  Names are addresses of texts in its
memory; a name that cannot be read ends the request.
-/

namespace CellBus.Running

variable {σ : Type}

/-- Reads a name after the memory was asked `asked` questions.  A name that is not
UTF-8 is mended. -/
def readName (memory : Memory) (asked : Nat) (address : Cell) : Running σ (Option String) := do
  match memory.readText asked address (← get).bus.limits.textLength with
  | .ok bytes => return some (Text.decodeLossy bytes)
  | .error error =>
    note (.nameUnreadable error)
    return none

/-- Registers an event: the address of a name, then that of a signature. -/
def machineRegister (memory : Memory) : List Cell → Running σ Bool
  | nameAddress :: signatureAddress :: _ => do
    match ← readName memory 0 nameAddress with
    | none => return false
    | some name =>
      match ← readName memory 1 signatureAddress with
      | none => return false
      | some signature => register name signature
  | _ => return false

/-- Calls the event whose name is at the first address, with the other parameters
passed by reference; gives the report's result. -/
def machineCall (caller : Caller σ) (memory : Memory) : List Cell → Running σ Cell
  | nameAddress :: cells => do
    match ← readName memory 0 nameAddress with
    | none => return 0
    | some name =>
      let report ← dispatchCells caller name memory .byReference cells 1
      return (report.map Report.result).getD 0
  | [] => return 0

/-- Dispatches an event with cells passed by value; gives the report's result. -/
def machineDispatch (caller : Caller σ) (name : String) (memory : Memory) (cells : List Cell) :
    Running σ Cell := do
  let report ← dispatchCells caller name memory .byValue cells 0
  return (report.map Report.result).getD 0

end CellBus.Running
