import CellBus.Registry
import CellBus.Report

/-!
# Journals

A journal tells what happened, in order.  Most kinds of happening are lines of the
log, which have a level, a message and fields; the others have no line.
-/

namespace CellBus

/-- How urgent a line of the log is. -/
inductive Level where
  | error
  | warn
  | debug
  | trace
  deriving DecidableEq, Repr

/-- A line of the log. -/
structure LogLine where
  level : Level
  message : String
  fields : List (String × Value)

inductive Happening where
  | contextCreated (engineName : String) (engine : EngineId) (context : ContextId)
  /-- A number was given to a context that no engine knows. -/
  | contextReserved (context : ContextId)
  | contextDestroyed (engine : EngineId) (context : ContextId)
  /-- An event that was assembled beforehand was added. -/
  | eventInserted (event : Event)
  | eventRegistered (name signature : String)
  | registrationRejected (name : String) (error : RegistryError)
  /-- A subscription found no event of that name. -/
  | eventUnknown (name : String)
  | duplicateIgnored (name : String) (listener : Listener)
  | listenerAdded (name : String) (listener : Listener)
  | contextListenersRemoved (name : String) (context : ContextId) (count : Nat)
  /-- A context was unsubscribed from every event. -/
  | contextUnsubscribed (context : ContextId)
  | listenerSkipped (name : String) (listener : Listener)
  /-- A dispatch calls a listener. -/
  | listenerCalled (name : String) (listener : Listener)
  /-- The body of a function starts to run. -/
  | bodyEntered (callable : Callable) (scope : Scope)
  | argumentsRefused (name : String) (error : MarshalError)
  | exceptionThrown (name : String) (listener : Listener) (fault : Fault)
  | dispatchFinished (name : String) (report : Report)
  | callbackMissing (name : String)
  | targetRefused (name : String)
  | nameUnreadable (error : MarshalError)

namespace Happening

/-- The line of the log, if a happening has one. -/
def line? : Happening → Option LogLine
  | contextCreated engineName _ context =>
    some ⟨.debug, "context created",
      [("engine", .text engineName), ("context", .text context.text)]⟩
  | eventRegistered name signature =>
    some ⟨.debug, "event registered", [("event", .text name), ("param_types", .text signature)]⟩
  | registrationRejected name error =>
    some ⟨.warn, "event registration rejected",
      [("event", .text name), ("error", .text error.message)]⟩
  | eventUnknown name =>
    some ⟨.debug, "subscribe to unknown event ignored", [("event", .text name)]⟩
  | duplicateIgnored name listener =>
    some ⟨.trace, "duplicate listener ignored", eventFields name listener.context⟩
  | listenerAdded name listener =>
    some ⟨.debug, "listener added", eventFields name listener.context⟩
  | contextListenersRemoved name context count =>
    some ⟨.debug, "context listeners removed",
      eventFields name context ++ [("removed", .int count)]⟩
  | listenerSkipped name listener =>
    some ⟨.trace, "listener removed mid-fire, skipped", eventFields name listener.context⟩
  | argumentsRefused name error =>
    some ⟨.error, "Can't marshal event argument",
      [("event", .text name), ("error", .text error.message)]⟩
  | exceptionThrown name listener fault =>
    some ⟨.error, "Exception thrown: " ++ fault.message,
      eventFields name listener.context ++ [("stack", .text (fault.stack.getD "<no stack>"))]⟩
  | dispatchFinished name report =>
    some ⟨.trace, "dispatch finished",
      [("event", .text name), ("invoked", .int report.invoked),
        ("faults", .int report.faults.length), ("result", .int report.result.toInt)]⟩
  | callbackMissing name =>
    some ⟨.trace, "on() without a callback ignored", [("event", .text name)]⟩
  | targetRefused name =>
    some ⟨.trace, "removeListener() with a non-function target ignored", [("event", .text name)]⟩
  | nameUnreadable error =>
    some ⟨.warn, "Can't read event name from VM memory", [("error", .text error.message)]⟩
  | contextReserved _ | contextDestroyed .. | eventInserted _ | contextUnsubscribed _
  | listenerCalled .. | bodyEntered .. => none
where
  eventFields (name : String) (context : ContextId) : List (String × Value) :=
    [("event", .text name), ("context", .text context.text)]

end Happening

/-- What happened.  New happenings are put in front, so that noting one takes the
same time however long the journal is. -/
structure Journal where
  newestFirst : List Happening

namespace Journal

def empty : Journal := ⟨[]⟩

/-- Notes one more happening. -/
def add (happening : Happening) (journal : Journal) : Journal :=
  ⟨happening :: journal.newestFirst⟩

/-- What happened, in order. -/
def happenings (journal : Journal) : List Happening := journal.newestFirst.reverse

theorem happenings_empty : empty.happenings = [] := rfl

@[simp] theorem happenings_add (happening : Happening) (journal : Journal) :
    (journal.add happening).happenings = journal.happenings ++ [happening] := by
  simp [happenings, add]

/-- The lines of the log, in order. -/
def log (journal : Journal) : List LogLine := journal.happenings.filterMap Happening.line?

end Journal

end CellBus
