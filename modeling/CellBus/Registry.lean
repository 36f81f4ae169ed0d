import CellBus.Event

/-!
# The registry of events

Events by name, in the order of their registration.  An event stays once it is
there, and its signature never changes.
-/

namespace CellBus

/-- Why an event is not registered. -/
inductive RegistryError where
  | alreadyRegistered (name : String)
  | signature (error : SignatureError)
  deriving DecidableEq, Repr

/-- The wording of each cause. -/
def RegistryError.message : RegistryError → String
  | alreadyRegistered name => "event '" ++ name ++ "' is already registered"
  | signature error => error.message

structure Registry where
  events : List Event
  deriving DecidableEq, Repr

namespace Registry

def empty : Registry := ⟨[]⟩

/-- The event with a name. -/
def event? (registry : Registry) (name : String) : Option Event :=
  registry.events.find? (·.name = name)

def contains (registry : Registry) (name : String) : Bool := (registry.event? name).isSome

/-- How many events there are. -/
def size (registry : Registry) : Nat := registry.events.length

/-- The names in increasing order of their scalar values. -/
def names (registry : Registry) : List String :=
  (registry.events.map Event.name).mergeSort

/-- Adds an event under its own name, unless the name is taken. -/
def insert (event : Event) (registry : Registry) : Except RegistryError Registry :=
  if registry.contains event.name then .error (.alreadyRegistered event.name)
  else .ok ⟨registry.events ++ [event]⟩

/-- Adds an event without listeners.  The name is checked before the signature. -/
def register (name signature : String) (registry : Registry) :
    Except RegistryError (Event × Registry) := do
  if registry.contains name then throw (.alreadyRegistered name)
  let parsed ← (Signature.parse signature).mapError RegistryError.signature
  let event := Event.new name parsed
  return (event, ← registry.insert event)

/-- Changes the listeners of the event with a name.  The change gives an answer
as well. -/
def change {α : Type} (name : String) (step : Event → α × Event) (registry : Registry) :
    Option (α × Registry) :=
  (registry.event? name).map fun found =>
    let (answer, changed) := step found
    (answer, ⟨registry.events.map fun event => if event.name = name then changed else event⟩)

end Registry

end CellBus
