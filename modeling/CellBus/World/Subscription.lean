import CellBus.World

/-!
# Registration and subscription

Operations on the bus and on contexts that call no function.  What they do is
entered in the journal.
-/

namespace CellBus.Running

variable {σ : Type}

def createContext (engine : EngineId) : Running σ ContextId := do
  let context ← onHub (Hub.createContext engine)
  note (.contextCreated ((← get).hub.engineName engine) engine context)
  return context

def reserveContext : Running σ ContextId := do
  let context ← onHub Hub.reserveContext
  note (.contextReserved context)
  return context

def destroyContext (engine : EngineId) (context : ContextId) : Running σ Bool := do
  let existed ← onHub (Hub.destroyContext engine context)
  if existed then note (.contextDestroyed engine context)
  return existed

/-- Registers an event, or tells why not. -/
def tryRegister (name signature : String) : Running σ (Except RegistryError Event) := do
  let result ← onBus fun bus => match bus.register name signature with
    | .ok (event, changed) => (.ok event, changed)
    | .error error => (.error error, bus)
  if result.isOk then note (.eventRegistered name signature)
  return result

/-- Registers an event; tells whether it did. -/
def register (name signature : String) : Running σ Bool := do
  match ← tryRegister name signature with
  | .ok _ => return true
  | .error error =>
    note (.registrationRejected name error)
    return false

/-- Adds an event, or tells why not. -/
def insert (event : Event) : Running σ (Except RegistryError Event) := do
  let result ← onBus fun bus => match bus.insert event with
    | .ok changed => (.ok event, changed)
    | .error error => (.error error, bus)
  if result.isOk then note (.eventInserted event)
  return result

/-- Appends a listener to an event; tells whether it did. -/
def subscribe (name : String) (listener : Listener) : Running σ Bool := do
  let known := (← get).bus.registry.contains name
  let added ← onBus (Bus.subscribe name listener)
  note (if !known then .eventUnknown name
    else if added then .listenerAdded name listener
    else .duplicateIgnored name listener)
  return added

/-- Removes listeners of a context from an event; counts them. -/
def unsubscribe (name : String) (context : ContextId) (target : Target) : Running σ Nat := do
  let count ← onBus (Bus.unsubscribe name context target)
  if target = .all && 0 < count then note (.contextListenersRemoved name context count)
  return count

/-- Removes the listeners of a context from every event, in the order of the
names; counts them. -/
def unsubscribeContext (context : ContextId) : Running σ Nat := do
  let counts ← (← get).bus.registry.names.mapM fun name => unsubscribe name context .all
  note (.contextUnsubscribed context)
  return counts.foldl (· + ·) 0

end CellBus.Running
