import CellBus.Bus
import CellBus.Value

/-!
# Hubs

A hub is a bus together with the engines and the execution contexts that exist
around it.  Each context has global variables of its own.  A context that was
destroyed leaves them to the functions that still run under it.
-/

namespace CellBus

/-- The global variables of a context. -/
abbrev Globals := List (String × Value)

/-- Gives a variable a value. -/
def Globals.assign (key : String) (value : Value) (globals : Globals) : Globals :=
  (key, value) :: globals.filter (·.1 ≠ key)

/-- A script engine. -/
structure Engine where
  id : EngineId
  name : String
  deriving DecidableEq, Repr

/-- An execution context of an engine. -/
structure Context where
  id : ContextId
  /-- The engine that created it. -/
  engine : EngineId
  /-- Whether it still exists. -/
  live : Bool
  globals : Globals

structure Hub where
  bus : Bus
  engines : List Engine
  contexts : List Context
  /-- How many contexts were ever given a number. -/
  numbered : Nat

namespace Hub

/-- A hub without events, engines and contexts. -/
def new (limits : Limits) : Hub := ⟨Bus.new limits, [], [], 0⟩

def engineName (hub : Hub) (engine : EngineId) : String :=
  ((hub.engines.find? (·.id = engine)).map Engine.name).getD ""

/-- The context with a number, also after its destruction. -/
def context? (hub : Hub) (context : ContextId) : Option Context :=
  hub.contexts.find? (·.id = context)

/-- The engine that created a context. -/
def creator? (hub : Hub) (context : ContextId) : Option EngineId :=
  (hub.context? context).map Context.engine

/-- Whether a context exists on an engine. -/
def hasContext (hub : Hub) (engine : EngineId) (context : ContextId) : Bool :=
  (hub.context? context).any fun found => found.live && found.engine = engine

/-- The global variables of a context, also after its destruction. -/
def globals (hub : Hub) (context : ContextId) : Globals :=
  ((hub.context? context).map Context.globals).getD []

/-- The global variables of a context that exists on an engine. -/
def globals? (hub : Hub) (engine : EngineId) (context : ContextId) : Option Globals :=
  if hub.hasContext engine context then some (hub.globals context) else none

/-- Adds an engine. -/
def createEngine (name : String) (hub : Hub) : EngineId × Hub :=
  let id : EngineId := ⟨hub.engines.length + 1⟩
  (id, { hub with engines := hub.engines ++ [⟨id, name⟩] })

/-- Gives a number to a context that no engine knows. -/
def reserveContext (hub : Hub) : ContextId × Hub :=
  (⟨hub.numbered + 1⟩, { hub with numbered := hub.numbered + 1 })

/-- Adds a context without global variables to an engine. -/
def createContext (engine : EngineId) (hub : Hub) : ContextId × Hub :=
  let (id, numbered) := hub.reserveContext
  (id, { numbered with contexts := numbered.contexts ++ [⟨id, engine, true, []⟩] })

/-- Changes the context with a number. -/
def changeContext (context : ContextId) (step : Context → Context) (hub : Hub) : Hub :=
  { hub with contexts := hub.contexts.map fun found =>
      if found.id = context then step found else found }

/-- Ends a context on an engine; tells whether it existed there.  Listeners bound
to it stay subscribed. -/
def destroyContext (engine : EngineId) (context : ContextId) (hub : Hub) : Bool × Hub :=
  if hub.hasContext engine context then
    (true, hub.changeContext context fun found => { found with live := false })
  else (false, hub)

/-- Gives a global variable of a context a value, also after its destruction. -/
def setGlobal (context : ContextId) (key : String) (value : Value) (hub : Hub) : Hub :=
  hub.changeContext context fun found =>
    { found with globals := found.globals.assign key value }

end Hub

end CellBus
