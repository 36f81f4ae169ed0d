import CellBus.World.Dispatch
import CellBus.World.Subscription

/-!
# Requests of the script

The script side calls with arguments of any number and shape.  A request is either
one well-formed operation on the bus or nothing.
-/

namespace CellBus.Running

variable {σ : Type}

/-- The name that a request starts with. -/
def requestName? (arguments : List Argument) : Option String :=
  arguments.head?.bind Argument.text?

/-- Registers an event: a name, then a signature. -/
def scriptRegister : List Argument → Running σ Bool
  | name :: signature :: _ =>
    match name.text?, signature.text? with
    | some name, some signature => register name signature
    | _, _ => return false
  | _ => return false

/-- Subscribes the function that stands last to the event named first. -/
def scriptOn (caller : Scope) (arguments : List Argument) : Running σ Unit := do
  match requestName? arguments with
  | none => return ()
  | some name =>
    match arguments.getLast?.bind Argument.function? with
    | none => note (.callbackMissing name)
    | some callable =>
      let _ ← subscribe name ⟨caller.engine, caller.context, callable⟩

/-- What a request to stop listening removes: without a second argument everything
of the caller's context, else one function or those in a list. -/
def removalTarget? : List Argument → Option Target
  | _ :: .function callable :: _ => some (.one callable)
  | _ :: .list items :: _ => some (.each (items.filterMap Argument.function?))
  | _ :: .plain _ :: _ => none
  | _ => some .all

/-- Unsubscribes listeners of the caller's context from the event named first. -/
def scriptRemoveListener (caller : Scope) (arguments : List Argument) : Running σ Unit := do
  match requestName? arguments with
  | none => return ()
  | some name =>
    match removalTarget? arguments with
    | none => note (.targetRefused name)
    | some target =>
      let _ ← unsubscribe name caller.context target

/-- Fires the event named first with the remaining arguments. -/
def scriptFire (caller : Caller σ) (arguments : List Argument) : Running σ Unit := do
  match requestName? arguments with
  | none => return ()
  | some name =>
    let _ ← fire caller name arguments.tail

end CellBus.Running
