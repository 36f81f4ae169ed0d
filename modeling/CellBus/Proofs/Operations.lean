import CellBus.Proofs.Running
import CellBus.World.Run

/-!
# Operations that call no function

Each of them gives an answer in every world.  The equations tell which answer,
and which world is left.
-/

namespace CellBus

variable {σ : Type}

@[simp] theorem Hub.destroyContext_bus (engine : EngineId) (context : ContextId)
    (hub : Hub) : (hub.destroyContext engine context).2.bus = hub.bus := by
  unfold destroyContext
  split <;> rfl

namespace World

def withHub (hub : Hub) (world : World σ) : World σ := { world with hub }

def withBus (bus : Bus) (world : World σ) : World σ :=
  world.withHub { world.hub with bus }

theorem withHub_journal (hub : Hub) (world : World σ) :
    (world.withHub hub).journal = world.journal := rfl

@[simp] theorem withBus_bus (bus : Bus) (world : World σ) :
    (world.withBus bus).bus = bus := rfl

@[simp] theorem withBus_journal (bus : Bus) (world : World σ) :
    (world.withBus bus).journal = world.journal := rfl

/-- The named events have lost the listeners of a context, and no other part of the
hub has changed. -/
structure Loses (context : ContextId) (names : List String) (world final : World σ) :
    Prop where
  hub : final.hub =
    { world.hub with bus := { world.bus with registry := final.bus.registry } }
  namesKept : final.bus.registry.events.map Event.name =
    world.bus.registry.events.map Event.name
  left : ∀ wanted, final.bus.event? wanted =
    if wanted ∈ names then (world.bus.event? wanted).map (Event.without context)
    else world.bus.event? wanted
  told : world.journal.happenings <+: final.journal.happenings

namespace Loses

variable {context : ContextId} {names later : List String}
variable {world middle final : World σ}

theorem refl (context : ContextId) (world : World σ) : world.Loses context [] world :=
  ⟨rfl, rfl, fun _ => by simp, List.prefix_rfl⟩

theorem noted (loses : world.Loses context names final) (happening : Happening) :
    world.Loses context names (final.noted happening) where
  hub := loses.hub
  namesKept := loses.namesKept
  left := loses.left
  told := by
    rw [noted_journal, Journal.happenings_add]
    exact loses.told.trans (List.prefix_append _ _)

/-- A name may come again, and then nothing is left to take out. -/
theorem trans (first : world.Loses context names middle)
    (second : middle.Loses context later final) :
    world.Loses context (names ++ later) final where
  hub := by
    have limits : middle.bus.limits = world.bus.limits := by
      rw [bus, first.hub]
    simp only [second.hub, limits, first.hub]
  namesKept := second.namesKept.trans first.namesKept
  left := by
    intro wanted
    rw [second.left, first.left]
    by_cases before : wanted ∈ names <;> by_cases after : wanted ∈ later <;>
      simp [before, after, Function.comp_def, Event.without_without]
  told := first.told.trans second.told

/-- Once all events have lost its listeners none of them is left. -/
theorem event? (loses : world.Loses context world.bus.registry.names final)
    (name : String) :
    final.bus.event? name = (world.bus.event? name).map (Event.without context) := by
  rw [loses.left]
  split
  · rfl
  · rename_i absent
    have unknown : world.bus.event? name = none :=
      Registry.event?_eq_none_of_not_mem_names absent
    rw [unknown]
    rfl

end Loses

end World

namespace Running

theorem createContext_run (engine : EngineId) (world : World σ) :
    (createContext engine).run world =
      some ((world.hub.createContext engine).1,
        (world.withHub (world.hub.createContext engine).2).noted
          (.contextCreated ((world.hub.createContext engine).2.engineName engine)
            engine (world.hub.createContext engine).1)) := rfl

theorem reserveContext_run (world : World σ) :
    reserveContext.run world =
      some (world.hub.reserveContext.1,
        (world.withHub world.hub.reserveContext.2).noted
          (.contextReserved world.hub.reserveContext.1)) := rfl

theorem destroyContext_run (engine : EngineId) (context : ContextId)
    (world : World σ) :
    (destroyContext engine context).run world =
      some (if world.hub.hasContext engine context then
        (true, (world.withHub (world.hub.destroyContext engine context).2).noted
          (.contextDestroyed engine context))
      else (false, world)) := by
  cases existing : world.hub.hasContext engine context with
  | false => simp [destroyContext, onHub, Hub.destroyContext, existing]
  | true =>
      simp [destroyContext, onHub, Hub.destroyContext, existing, note_run,
        World.withHub]

theorem tryRegister_run (name signature : String) (world : World σ) :
    (tryRegister name signature).run world =
      some (match world.bus.register name signature with
        | .ok (event, bus) =>
          (.ok event, (world.withBus bus).noted (.eventRegistered name signature))
        | .error error => (.error error, world)) := by
  cases registered : world.bus.register name signature with
  | error error =>
      have refused : world.hub.bus.register name signature = .error error :=
        registered
      simp [tryRegister, onBus, onHub, refused, Except.isOk, Except.toBool]
  | ok result =>
      have accepted : world.hub.bus.register name signature = .ok result :=
        registered
      simp [tryRegister, onBus, onHub, accepted, Except.isOk, Except.toBool,
        note_run, World.withBus, World.withHub]

theorem register_run (name signature : String) (world : World σ) :
    (register name signature).run world =
      some (match world.bus.register name signature with
        | .ok (_, bus) =>
          (true, (world.withBus bus).noted (.eventRegistered name signature))
        | .error error =>
          (false, world.noted (.registrationRejected name error))) := by
  simp only [register, StateT.run_bind, tryRegister_run]
  cases world.bus.register name signature <;> rfl

theorem insert_run (event : Event) (world : World σ) :
    (insert event).run world =
      some (match world.bus.insert event with
        | .ok bus => (.ok event, (world.withBus bus).noted (.eventInserted event))
        | .error error => (.error error, world)) := by
  cases inserted : world.bus.insert event with
  | error error =>
      have refused : world.hub.bus.insert event = .error error := inserted
      simp [insert, onBus, onHub, refused, Except.isOk, Except.toBool]
  | ok bus =>
      have accepted : world.hub.bus.insert event = .ok bus := inserted
      simp [insert, onBus, onHub, accepted, Except.isOk, Except.toBool, note_run,
        World.withBus, World.withHub]

theorem subscribe_run (name : String) (listener : Listener) (world : World σ) :
    (subscribe name listener).run world =
      some ((world.bus.subscribe name listener).1,
        (world.withBus (world.bus.subscribe name listener).2).noted
          (if !world.bus.registry.contains name then .eventUnknown name
            else if (world.bus.subscribe name listener).1 then
              .listenerAdded name listener
            else .duplicateIgnored name listener)) := rfl

theorem unsubscribe_run (name : String) (context : ContextId) (target : Target)
    (world : World σ) :
    (unsubscribe name context target).run world =
      some ((world.bus.unsubscribe name context target).1,
        let remaining :=
          world.withBus (world.bus.unsubscribe name context target).2
        if target = .all && 0 < (world.bus.unsubscribe name context target).1 then
          remaining.noted (.contextListenersRemoved name context
            (world.bus.unsubscribe name context target).1)
        else remaining) := by
  have answered : (onBus (Bus.unsubscribe name context target)).run world =
      some ((world.bus.unsubscribe name context target).1,
        world.withBus (world.bus.unsubscribe name context target).2) := rfl
  simp only [unsubscribe, StateT.run_bind, answered, Option.bind_eq_bind,
    Option.bind_some]
  split <;> rfl

/-- Unsubscribing a context from an event takes its listeners out of it. -/
theorem unsubscribe_loses (context : ContextId) (name : String) (world : World σ) :
    ∃ final, (unsubscribe name context .all).run world =
        some ((world.bus.unsubscribe name context .all).1, final) ∧
      final.bus = (world.bus.unsubscribe name context .all).2 ∧
      world.Loses context [name] final := by
  have keepsName := Event.unsubscribe_name context .all
  have bare : world.Loses context [name]
      (world.withBus (world.bus.unsubscribe name context .all).2) := by
    refine ⟨?_, Bus.change_names keepsName 0, ?_, List.prefix_rfl⟩
    · have limits : (world.bus.unsubscribe name context .all).2.limits =
          world.bus.limits := Bus.change_limits 0
      simp only [World.withBus_bus, ← limits]
      rfl
    · intro wanted
      rw [World.withBus_bus, Bus.unsubscribe, Bus.event?_change keepsName]
      simp [Event.unsubscribe_all]
  rw [unsubscribe_run]
  refine ⟨_, rfl, ?_⟩
  dsimp only
  split
  · exact ⟨rfl, bare.noted _⟩
  · exact ⟨rfl, bare⟩

/-- Unsubscribing a context from one event after the other takes its listeners out
of each of them. -/
theorem unsubscribeEach_run (context : ContextId) (names : List String)
    (world : World σ) :
    ∃ counts final,
      (names.mapM fun name => unsubscribe name context .all).run world =
          some (counts, final) ∧
        world.Loses context names final := by
  induction names generalizing world with
  | nil => exact ⟨[], world, rfl, .refl context world⟩
  | cons name names ih =>
      obtain ⟨middle, removed, _, first⟩ := unsubscribe_loses context name world
      obtain ⟨counts, final, others, later⟩ := ih middle
      refine ⟨(world.bus.unsubscribe name context .all).1 :: counts, final, ?_,
        first.trans later⟩
      rw [List.mapM_cons, StateT.run_bind, removed, Option.bind_eq_bind,
        Option.bind_some, StateT.run_bind, others]
      rfl

theorem unsubscribeContext_run_eq (context : ContextId) (world : World σ) :
    (unsubscribeContext context).run world =
      ((world.bus.registry.names.mapM fun name => unsubscribe name context .all).run
          world).map fun result =>
        (result.1.foldl (· + ·) 0, result.2.noted (.contextUnsubscribed context)) := by
  simp only [unsubscribeContext, StateT.run_bind, StateT.run_get, Option.bind_eq_bind,
    Option.bind_some, Option.pure_def, note_run]
  cases (world.bus.registry.names.mapM fun name => unsubscribe name context .all).run
      world <;> rfl

/-- Unsubscribing a context from all events takes its listeners out of every one. -/
theorem unsubscribeContext_run (context : ContextId) (world : World σ) :
    ∃ counts final,
      (world.bus.registry.names.mapM fun name => unsubscribe name context .all).run
          world = some (counts, final) ∧
        (unsubscribeContext context).run world =
          some (counts.foldl (· + ·) 0, final.noted (.contextUnsubscribed context)) ∧
        world.Loses context world.bus.registry.names final := by
  obtain ⟨counts, final, removed, left⟩ :=
    unsubscribeEach_run context world.bus.registry.names world
  refine ⟨counts, final, removed, ?_, left⟩
  rw [unsubscribeContext_run_eq, removed, Option.map_some]

end Running

end CellBus
