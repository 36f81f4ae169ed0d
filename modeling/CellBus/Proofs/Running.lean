import CellBus.Proofs.RegisteredEvents
import CellBus.World.Dispatch

/-!
# Evaluating steps

Equations for the steps of a dispatch, one for each way in which a turn can go.
A chain of steps gives an answer exactly when each of them does.
-/

namespace CellBus

variable {σ α β : Type}

namespace World

/-- The world after a happening was entered in its journal. -/
def noted (happening : Happening) (world : World σ) : World σ :=
  { world with journal := world.journal.add happening }

@[simp] theorem noted_hub (happening : Happening) (world : World σ) :
    (world.noted happening).hub = world.hub := rfl

@[simp] theorem noted_bus (happening : Happening) (world : World σ) :
    (world.noted happening).bus = world.bus := rfl

@[simp] theorem noted_journal (happening : Happening) (world : World σ) :
    (world.noted happening).journal = world.journal.add happening := rfl

end World

namespace Running

theorem note_run (happening : Happening) (world : World σ) :
    (note happening).run world = some ((), world.noted happening) := rfl

theorem bind_run_eq_some_iff
    {first : Running σ α} {next : α → Running σ β}
    {world final : World σ} {answer : β} :
    (first >>= next).run world = some (answer, final) ↔
      ∃ value middle, first.run world = some (value, middle) ∧
        (next value).run middle = some (answer, final) := by
  simp [StateT.run_bind, Option.bind_eq_some_iff]

variable (caller : Caller σ) (supply : Supply) (name : String)

/-- A call gives an answer exactly when the listener does, and a fault is noted
after it. -/
theorem call_run (listener : Listener) (arguments : List Argument)
    (world : World σ) :
    (call caller name listener arguments).run world =
      ((caller listener arguments).run
          (world.noted (.listenerCalled name listener))).map fun result =>
        (result.1, match result.1 with
          | .ok _ => result.2
          | .error fault =>
            result.2.noted (.exceptionThrown name listener fault)) := by
  simp only [call, StateT.run_bind, note_run, Option.bind_eq_bind,
    Option.bind_some]
  cases (caller listener arguments).run
      (world.noted (.listenerCalled name listener)) with
  | none => rfl
  | some result =>
      obtain ⟨outcome, after⟩ := result
      cases outcome <;> rfl

theorem takeTurns_nil (asked : Nat) (world : World σ) :
    (takeTurns caller supply name [] asked).run world = some ([], world) := rfl

variable {name supply} {listener : Listener} {world : World σ} {asked after : Nat}

theorem takeTurns_skipped
    (gone : world.bus.holds name listener = false) (rest : List Listener) :
    (takeTurns caller supply name (listener :: rest) asked).run world =
      ((takeTurns caller supply name rest asked).run
          (world.noted (.listenerSkipped name listener))).map fun result =>
        (.skipped listener :: result.1, result.2) := by
  simp [takeTurns, gone, note_run]

theorem takeTurns_called {arguments : List Argument}
    (live : world.bus.holds name listener = true)
    (built : supply asked = (.ok arguments, after)) (rest : List Listener) :
    (takeTurns caller supply name (listener :: rest) asked).run world =
      ((call caller name listener arguments).run world).bind fun called =>
        ((takeTurns caller supply name rest after).run called.2).map fun result =>
          (.called listener arguments called.1 :: result.1, result.2) := by
  simp [takeTurns, live, built]

theorem takeTurns_refused {error : MarshalError}
    (live : world.bus.holds name listener = true)
    (refused : supply asked = (.error error, after)) (rest : List Listener) :
    (takeTurns caller supply name (listener :: rest) asked).run world =
      some ([.refused listener error],
        world.noted (.argumentsRefused name error)) := by
  simp [takeTurns, live, refused, note_run]

theorem dispatch_run (event : Event) (world : World σ) :
    (dispatch caller supply asked event).run world =
      ((takeTurns caller supply event.name event.listeners asked).run world).map
        fun result =>
          (Report.ofTurns result.1,
            result.2.noted
              (.dispatchFinished event.name (Report.ofTurns result.1))) := by
  rw [dispatch, StateT.run_bind]
  cases (takeTurns caller supply event.name event.listeners asked).run world with
  | none => rfl
  | some result => rfl

theorem dispatchNamed_absent (supplies : Event → Bus → Supply)
    (absent : world.bus.event? name = none) :
    (dispatchNamed caller supplies asked name).run world = some (none, world) := by
  simp [dispatchNamed, absent]

/-- Dispatching an event that is found by its name gives its listeners their
turns and reports on them. -/
theorem dispatchNamed_found (supplies : Event → Bus → Supply) {event : Event}
    (found : world.bus.event? name = some event) :
    (dispatchNamed caller supplies asked name).run world =
      ((takeTurns caller (supplies event world.bus) name event.listeners asked).run
          world).map fun result =>
        (some (Report.ofTurns result.1),
          result.2.noted (.dispatchFinished name (Report.ofTurns result.1))) := by
  obtain ⟨_, eventNamed⟩ := Registry.event?_eq_some found
  subst eventNamed
  have dispatched : (dispatchNamed caller supplies asked event.name).run world =
      ((dispatch caller (supplies event world.bus) asked event).run world).map
        fun result => (some result.1, result.2) := by
    simp [dispatchNamed, found]
  rw [dispatched, dispatch_run, Option.map_map]
  rfl

end Running

end CellBus
