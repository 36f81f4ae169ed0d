/-!
# Identities

Engines, contexts and callables are known by numbers.  Two handles are the same
exactly when their numbers are.
-/

namespace CellBus

/-- A script engine. -/
structure EngineId where
  number : Nat
  deriving DecidableEq, Repr

def EngineId.text (engine : EngineId) : String := "engine#" ++ toString engine.number

/-- An execution context.  Numbers of contexts are unique across all engines. -/
structure ContextId where
  number : Nat
  deriving DecidableEq, Repr

def ContextId.text (context : ContextId) : String := "ctx#" ++ toString context.number

/-- A handle to a function. -/
structure Callable where
  number : Nat
  deriving DecidableEq, Repr

/-- An engine with the context that is entered on it. -/
structure Scope where
  engine : EngineId
  context : ContextId
  deriving DecidableEq, Repr

end CellBus
