import CellBus.World.Invocation

/-!
# Dispatch

A dispatch goes through the listeners that an event has at the start.  Each is
called if it is still in the event's list when its turn comes.  The arguments are
built anew for each call; when that fails the dispatch ends.
-/

namespace CellBus

/-- Builds the arguments of one call, given how many questions the memory was asked
before, and tells how many it was asked in the end. -/
abbrev Supply := Nat → Except MarshalError (List Argument) × Nat

/-- The same arguments for every call. -/
def Supply.given (arguments : List Argument) : Supply := fun asked => (.ok arguments, asked)

/-- Arguments decoded from cells. -/
def Supply.decoded (decoder : Decoder) (signature : Signature) (cells : List Cell) : Supply :=
  fun asked =>
    let (values, after) := decoder.decodeFrom asked signature cells
    (values.map (·.map Argument.plain), after)

/-- How a dispatch calls a listener. -/
abbrev Caller (σ : Type) := Listener → List Argument → Running σ (Except Fault Value)

namespace Running

variable {σ : Type}

/-- Calls a listener and notes its fault, if it has one. -/
def call (caller : Caller σ) (name : String) (listener : Listener) (arguments : List Argument) :
    Running σ (Except Fault Value) := do
  note (.listenerCalled name listener)
  let outcome ← caller listener arguments
  match outcome with
  | .ok _ => pure ()
  | .error fault => note (.exceptionThrown name listener fault)
  return outcome

/-- Gives each listener of a list its turn. -/
def takeTurns (caller : Caller σ) (supply : Supply) (name : String) :
    List Listener → Nat → Running σ (List Turn)
  | [], _ => return []
  | listener :: rest, asked => do
    if !(← get).bus.holds name listener then
      note (.listenerSkipped name listener)
      return .skipped listener :: (← takeTurns caller supply name rest asked)
    match supply asked with
    | (.error error, _) =>
      note (.argumentsRefused name error)
      return [.refused listener error]
    | (.ok arguments, after) =>
      let outcome ← call caller name listener arguments
      return .called listener arguments outcome :: (← takeTurns caller supply name rest after)

/-- Dispatches an event to its listeners. -/
def dispatch (caller : Caller σ) (supply : Supply) (asked : Nat) (event : Event) :
    Running σ Report := do
  let report := Report.ofTurns (← takeTurns caller supply event.name event.listeners asked)
  note (.dispatchFinished event.name report)
  return report

/-- Dispatches the event with a name, if there is one. -/
def dispatchNamed (caller : Caller σ) (supply : Event → Bus → Supply) (asked : Nat)
    (name : String) : Running σ (Option Report) := do
  let bus := (← get).bus
  match bus.event? name with
  | none => return none
  | some event => return some (← dispatch caller (supply event bus) asked event)

/-- Fires an event with arguments that every listener is handed. -/
def fire (caller : Caller σ) (name : String) (arguments : List Argument) :
    Running σ (Option Report) :=
  dispatchNamed caller (fun _ _ => Supply.given arguments) 0 name

/-- Dispatches an event with cells, decoded for each listener by the event's
signature, after the memory was asked `asked` questions. -/
def dispatchCells (caller : Caller σ) (name : String) (memory : Memory) (passing : Passing)
    (cells : List Cell) (asked : Nat) : Running σ (Option Report) :=
  dispatchNamed caller
    (fun event bus => Supply.decoded ⟨memory, passing, bus.limits⟩ event.signature cells)
    asked name

end Running

end CellBus
