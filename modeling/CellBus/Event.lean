import CellBus.Listener
import CellBus.Signature

/-!
# Events

An event has a name, a fixed signature, and its listeners in the order in which
they were appended.  No two of its listeners are equal.
-/

namespace CellBus

structure Event where
  name : String
  signature : Signature
  listeners : List Listener
  deriving DecidableEq, Repr

namespace Event

/-- An event without listeners. -/
def new (name : String) (signature : Signature) : Event := ⟨name, signature, []⟩

/-- Whether an equal listener is in the list. -/
def holds (event : Event) (listener : Listener) : Bool := event.listeners.any (·.isSame listener)

/-- Appends a listener, unless an equal one is there; tells whether it did. -/
def append (listener : Listener) (event : Event) : Bool × Event :=
  if event.holds listener then (false, event)
  else (true, { event with listeners := event.listeners ++ [listener] })

/-- An event that listeners were appended to, one after the other. -/
def assemble (name : String) (signature : Signature) (listeners : List Listener) : Event :=
  listeners.foldl (fun event listener => (event.append listener).2) (new name signature)

/-- Removes the listener of a context with a callable; tells whether there was one. -/
def remove (context : ContextId) (callable : Callable) (event : Event) : Bool × Event :=
  let kept := event.listeners.filter (!·.isBound context callable)
  (kept.length ≠ event.listeners.length, { event with listeners := kept })

/-- Removes the listeners of a context with any of the callables, one by one;
counts them. -/
def removeEach (context : ContextId) : List Callable → Event → Nat × Event
  | [], event => (0, event)
  | callable :: rest, event =>
    let (removed, fewer) := event.remove context callable
    let (count, remaining) := removeEach context rest fewer
    (count + removed.toNat, remaining)

/-- Removes the listeners of a context that the list holds at the start, one by
one; counts them. -/
def removeContext (context : ContextId) (event : Event) : Nat × Event :=
  let bound := event.listeners.filter (·.context = context)
  removeEach context (bound.map Listener.callable) event

/-- Removes every listener. -/
def clear (event : Event) : Event := { event with listeners := [] }

end Event

end CellBus
