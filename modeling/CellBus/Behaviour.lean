import CellBus.Hub
import CellBus.Memory
import CellBus.Decoder
import CellBus.Report

/-!
# Behaviours

A behaviour is what a function does when it is called: it looks at the hub and at
the state of its host, changes that state, defines functions, and asks for
operations, until it ends in an outcome.  It may go on differently for each
answer, so any effect on the bus can happen while a dispatch is under way.
-/

namespace CellBus

/-- An operation on the hub. -/
inductive Operation where
  | createEngine (name : String)
  | createContext (engine : EngineId)
  | reserveContext
  | destroyContext (engine : EngineId) (context : ContextId)
  | setGlobal (context : ContextId) (key : String) (value : Value)
  /-- Makes a callable that no engine can run. -/
  | makeForeign
  | tryRegister (name signature : String)
  | register (name signature : String)
  /-- Adds an event that was assembled beforehand. -/
  | insert (name : String) (signature : Signature) (listeners : List Listener)
  | subscribe (name : String) (listener : Listener)
  | unsubscribe (name : String) (context : ContextId) (target : Target)
  | unsubscribeContext (context : ContextId)
  | clear (name : String)
  | fire (name : String) (arguments : List Argument)
  | dispatchCells (name : String) (memory : Memory) (passing : Passing) (cells : List Cell)
  /-- The script asks to register an event. -/
  | scriptRegister (arguments : List Argument)
  /-- The script asks to listen to an event. -/
  | scriptOn (caller : Scope) (arguments : List Argument)
  /-- The script asks to stop listening. -/
  | scriptRemoveListener (caller : Scope) (arguments : List Argument)
  /-- The script fires an event. -/
  | scriptFire (arguments : List Argument)
  /-- The machine asks to register an event. -/
  | machineRegister (memory : Memory) (parameters : List Cell)
  /-- The machine calls an event whose name is in its memory. -/
  | machineCall (memory : Memory) (parameters : List Cell)
  /-- The machine dispatches an event of a known name. -/
  | machineDispatch (name : String) (memory : Memory) (cells : List Cell)
  /-- An engine is asked to run a callable in a scope. -/
  | invoke (scope : Scope) (engine : EngineId) (callable : Callable) (arguments : List Argument)

/-- What an operation answers. -/
def Operation.Result : Operation → Type
  | createEngine _ => EngineId
  | createContext _ | reserveContext => ContextId
  | makeForeign => Callable
  | tryRegister .. | insert .. => Except RegistryError Event
  | destroyContext .. | register .. | subscribe .. | scriptRegister _ | machineRegister .. => Bool
  | unsubscribe .. | unsubscribeContext _ => Nat
  | setGlobal .. | clear _ | scriptOn .. | scriptRemoveListener .. | scriptFire _ => Unit
  | fire .. | dispatchCells .. => Option Report
  | machineCall .. | machineDispatch .. => Cell
  | invoke .. => Except Fault Value

/-- How a body ends. -/
inductive Outcome where
  | returns (value : Value)
  | throws (message : String)
  /-- The body breaks off, with a message or with something that is none. -/
  | panics (message : Option String)

/-- What a body sees of the call that runs it. -/
structure Frame where
  context : ContextId
  arguments : List Argument
  /-- The function itself. -/
  callee : Callable

namespace Frame

/-- The plain value at a place; null when it is missing or not plain. -/
def plain (frame : Frame) (index : Nat) : Value :=
  (frame.arguments[index]?.bind Argument.plain?).getD .null

/-- The function at a place. -/
def function? (frame : Frame) (index : Nat) : Option Callable :=
  frame.arguments[index]?.bind Argument.function?

/-- All arguments in plain form. -/
def values (frame : Frame) : List Value := frame.arguments.map Argument.toValue

end Frame

/-- What a function does, among hosts with states of type `σ`. -/
inductive Behaviour (σ : Type) where
  | finish (outcome : Outcome)
  /-- Goes on as the hub and the host's state say. -/
  | consult (next : Hub → σ → Behaviour σ)
  /-- Replaces the host's state. -/
  | store (state : σ) (next : Behaviour σ)
  /-- Defines a function of a native engine. -/
  | define (name : String) (body : Frame → Behaviour σ) (next : Callable → Behaviour σ)
  /-- Asks for an operation and goes on with its answer. -/
  | perform (operation : Operation) (next : operation.Result → Behaviour σ)

end CellBus
