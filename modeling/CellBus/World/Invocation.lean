import CellBus.World

/-!
# Invocation

An engine runs a callable in a scope of its own, if the callable is a function of
a native engine and the context of the scope exists on that engine.  Otherwise
nothing runs and the call is a fault without a stack.  A body that throws or
breaks off is a fault with a stack.
-/

namespace CellBus

/-- What an engine runs for a callable in a scope, or why it runs nothing. -/
def World.admission {σ : Type} (world : World σ) (scope : Scope) (engine : EngineId)
    (callable : Callable) : Except Fault (String × (Frame → Behaviour σ)) :=
  if scope.engine ≠ engine then
    .error ⟨"scope for " ++ scope.engine.text ++ " used on " ++ engine.text, none⟩
  else match world.native? callable with
    | none => .error ⟨"callable does not belong to a native engine", none⟩
    | some function =>
      if world.hub.hasContext engine scope.context then .ok function
      else .error ⟨"context " ++ scope.context.text ++ " was destroyed", none⟩

/-- The value of an outcome, or its fault with a given stack. -/
def Outcome.settle (stack : String) : Outcome → Except Fault Value
  | returns value => .ok value
  | throws message => .error ⟨message, some stack⟩
  | panics message => .error ⟨"listener panicked: " ++ message.getD "unknown panic", some stack⟩

namespace Running

variable {σ : Type}

/-- Asks an engine to run a callable in a scope. -/
def invoke (runner : Runner σ) (scope : Scope) (engine : EngineId) (callable : Callable)
    (arguments : List Argument) : Running σ (Except Fault Value) := do
  let world ← get
  match world.admission scope engine callable with
  | .error fault => return .error fault
  | .ok (name, body) =>
    note (.bodyEntered callable scope)
    let outcome ← runner (body ⟨scope.context, arguments, callable⟩)
    return outcome.settle ("    at " ++ name ++ " (" ++ world.hub.engineName engine ++ ", "
      ++ scope.context.text ++ ")")

/-- Asks the engine of a listener to run it. -/
def invokeListener (runner : Runner σ) (listener : Listener) (arguments : List Argument) :
    Running σ (Except Fault Value) :=
  invoke runner listener.scope listener.engine listener.callable arguments

end Running

end CellBus
