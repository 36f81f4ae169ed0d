import CellBus.Limits
import CellBus.Registry

/-!
# Buses

A bus is a registry of events with the limits for arguments that come from the
script machine.  Subscribing to an event that is not there, or twice, has no
effect.
-/

namespace CellBus

/-- Which listeners of a context an unsubscription removes. -/
inductive Target where
  /-- All of them. -/
  | all
  /-- The one with a callable. -/
  | one (callable : Callable)
  /-- Those with any of the callables. -/
  | each (callables : List Callable)
  deriving DecidableEq, Repr

/-- Removes the listeners of a context that a target names; counts them. -/
def Event.unsubscribe (context : ContextId) : Target → Event → Nat × Event
  | .all, event => event.removeContext context
  | .one callable, event =>
    let (removed, remaining) := event.remove context callable
    (removed.toNat, remaining)
  | .each callables, event => event.removeEach context callables

structure Bus where
  registry : Registry
  limits : Limits
  deriving DecidableEq, Repr

namespace Bus

/-- A bus without events. -/
def new (limits : Limits) : Bus := ⟨Registry.empty, limits⟩

/-- The event with a name. -/
def event? (bus : Bus) (name : String) : Option Event := bus.registry.event? name

/-- The listeners of the event with a name, in order. -/
def listeners (bus : Bus) (name : String) : List Listener :=
  ((bus.event? name).map Event.listeners).getD []

/-- Whether the event with a name has an equal listener. -/
def holds (bus : Bus) (name : String) (listener : Listener) : Bool :=
  (bus.event? name).any (·.holds listener)

/-- Registers an event. -/
def register (name signature : String) (bus : Bus) : Except RegistryError (Event × Bus) := do
  let (event, registry) ← bus.registry.register name signature
  return (event, { bus with registry })

/-- Inserts an event, unless its name is taken. -/
def insert (event : Event) (bus : Bus) : Except RegistryError Bus := do
  return { bus with registry := ← bus.registry.insert event }

/-- Changes the listeners of an event; a name without an event gives `absent`. -/
def change {α : Type} (name : String) (absent : α) (step : Event → α × Event) (bus : Bus) :
    α × Bus :=
  match bus.registry.change name step with
  | some (answer, registry) => (answer, { bus with registry })
  | none => (absent, bus)

/-- Appends a listener to an event; tells whether it did. -/
def subscribe (name : String) (listener : Listener) (bus : Bus) : Bool × Bus :=
  bus.change name false (Event.append listener)

/-- Removes listeners of a context from an event; counts them. -/
def unsubscribe (name : String) (context : ContextId) (target : Target) (bus : Bus) : Nat × Bus :=
  bus.change name 0 (Event.unsubscribe context target)

/-- Removes every listener of an event. -/
def clear (name : String) (bus : Bus) : Bus :=
  (bus.change name () fun event => ((), event.clear)).2

end Bus

end CellBus
