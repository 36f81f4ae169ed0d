import CellBus.Identity

/-!
# Listeners

A listener is a callable bound to the context that it runs under and to the
engine that runs it.  What makes two listeners equal is the context and the
callable alone.
-/

namespace CellBus

structure Listener where
  engine : EngineId
  context : ContextId
  callable : Callable
  deriving DecidableEq, Repr

namespace Listener

/-- Whether a listener is bound to a context with a callable. -/
def isBound (listener : Listener) (context : ContextId) (callable : Callable) : Bool :=
  listener.context = context && listener.callable = callable

/-- Equality of listeners, which leaves the engine out of account. -/
def isSame (left right : Listener) : Bool := left.isBound right.context right.callable

/-- The scope in which a listener runs. -/
def scope (listener : Listener) : Scope := ⟨listener.engine, listener.context⟩

end Listener

end CellBus
