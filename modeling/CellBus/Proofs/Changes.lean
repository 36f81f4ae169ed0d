import CellBus.Proofs.Course
import CellBus.Proofs.ListenerLists
import CellBus.Proofs.Operations
import CellBus.Proofs.RegisteredEvents
import Mathlib.Logic.Relation

/-!
# Elementary changes of a world

`World.Change` lists what can happen to a world in one step, each with the
condition under which it happens.  Operations and whole runs are chains of
elementary changes, so whatever every elementary change keeps is kept by every
run.
-/

namespace CellBus

open Relation

variable {σ α β : Type}

/-- Nothing but an entry in the journal goes with a remark, and the entry is
bound to no condition. -/
def Happening.IsRemark : Happening → Prop
  | .registrationRejected .. | .eventUnknown _ | .duplicateIgnored ..
  | .contextListenersRemoved .. | .listenerSkipped ..
  | .argumentsRefused .. | .exceptionThrown .. | .dispatchFinished ..
  | .callbackMissing _ | .targetRefused _ | .nameUnreadable _ => True
  | .contextCreated .. | .contextReserved _ | .contextDestroyed ..
  | .eventInserted _ | .eventRegistered .. | .listenerAdded ..
  | .contextUnsubscribed _ | .listenerCalled .. | .bodyEntered .. => False

/-- One elementary change. -/
inductive World.Change : World σ → World σ → Prop where
  | engineCreated (world : World σ) (name : String) :
      Change world (world.withHub (world.hub.createEngine name).2)
  | contextCreated (world : World σ) (engine : EngineId) :
      Change world ((world.withHub (world.hub.createContext engine).2).noted
        (.contextCreated ((world.hub.createContext engine).2.engineName engine)
          engine (world.hub.createContext engine).1))
  | contextReserved (world : World σ) :
      Change world ((world.withHub world.hub.reserveContext.2).noted
        (.contextReserved world.hub.reserveContext.1))
  | contextDestroyed {world : World σ} {engine : EngineId} {context : ContextId} :
      world.hub.hasContext engine context = true →
      Change world ((world.withHub (world.hub.destroyContext engine context).2).noted
        (.contextDestroyed engine context))
  | globalSet (world : World σ) (context : ContextId) (key : String)
      (value : Value) :
      Change world (world.withHub (world.hub.setGlobal context key value))
  | functionAdded (world : World σ) (function : Function σ) :
      Change world { world with functions := world.functions ++ [function] }
  | hostStored (world : World σ) (host : σ) : Change world { world with host }
  | eventRegistered {world : World σ} {name signature : String} {event : Event}
      {bus : Bus} :
      world.bus.register name signature = .ok (event, bus) →
      Change world ((world.withBus bus).noted (.eventRegistered name signature))
  | eventInserted {world : World σ} {event : Event} {bus : Bus} :
      Listener.Distinct event.listeners →
      world.bus.insert event = .ok bus →
      Change world ((world.withBus bus).noted (.eventInserted event))
  | listenerAdded {world : World σ} {name : String} {listener : Listener} :
      (world.bus.subscribe name listener).1 = true →
      Change world ((world.withBus (world.bus.subscribe name listener).2).noted
        (.listenerAdded name listener))
  | listenerIgnored {world : World σ} {name : String} {listener : Listener} :
      (world.bus.subscribe name listener).1 = false →
      Change world (world.withBus (world.bus.subscribe name listener).2)
  | unsubscribed (world : World σ) (name : String) (context : ContextId)
      (target : Target) :
      Change world (world.withBus (world.bus.unsubscribe name context target).2)
  | cleared (world : World σ) (name : String) :
      Change world (world.withBus (world.bus.clear name))
  | contextUnsubscribed {world : World σ} {context : ContextId} :
      world.bus.IsFreeOf context →
      Change world (world.noted (.contextUnsubscribed context))
  | listenerCalled {world : World σ} {name : String} {listener : Listener} :
      world.bus.holds name listener = true →
      Change world (world.noted (.listenerCalled name listener))
  | bodyEntered {world : World σ} {scope : Scope} {engine : EngineId}
      {callable : Callable} {function : String × (Frame → Behaviour σ)} :
      world.admission scope engine callable = .ok function →
      Change world (world.noted (.bodyEntered callable scope))
  | remarked {world : World σ} {happening : Happening} :
      happening.IsRemark → Change world (world.noted happening)

/-- A chain of elementary changes. -/
abbrev World.Changes : World σ → World σ → Prop := ReflTransGen World.Change

theorem World.Change.journal_grows {world later : World σ}
    (change : World.Change world later) :
    world.journal.happenings <+: later.journal.happenings := by
  cases change <;> simp [World.withHub_journal]

/-- Nothing is taken out of the journal. -/
theorem World.Changes.journal_grows {world later : World σ}
    (changes : world.Changes later) :
    world.journal.happenings <+: later.journal.happenings := by
  induction changes with
  | refl => exact List.prefix_rfl
  | tail _ change ih => exact ih.trans change.journal_grows

namespace Running

/-- Whenever the step gives an answer, it leaves a world that elementary changes
lead to. -/
def Advances (step : Running σ α) : Prop :=
  ∀ world answer final, step.run world = some (answer, final) →
    world.Changes final

theorem advances_pure (answer : α) : Advances (pure answer : Running σ α) := by
  intro world found final answered
  cases answered
  exact .refl

theorem advances_get : Advances (get : Running σ (World σ)) := by
  intro world found final answered
  cases answered
  exact .refl

theorem Advances.bind {first : Running σ α} {next : α → Running σ β}
    (firstAdvances : Advances first) (nextAdvances : ∀ value, Advances (next value)) :
    Advances (first >>= next) := by
  intro world answer final answered
  obtain ⟨value, middle, firstAnswered, nextAnswered⟩ :=
    bind_run_eq_some_iff.mp answered
  exact (firstAdvances world value middle firstAnswered).trans
    (nextAdvances value middle answer final nextAnswered)

theorem Advances.mapM {step : β → Running σ α}
    (advances : ∀ item, Advances (step item)) (items : List β) :
    Advances (items.mapM step) := by
  induction items with
  | nil => exact advances_pure []
  | cons item items ih =>
      rw [List.mapM_cons]
      apply (advances item).bind
      intro first
      apply ih.bind
      intro later
      exact advances_pure _

theorem advances_note {happening : Happening} (remark : happening.IsRemark) :
    Advances (note happening : Running σ Unit) := by
  intro world answer final answered
  rw [note_run] at answered
  cases answered
  exact .single (.remarked remark)

theorem advances_createEngine (name : String) :
    Advances (onHub (Hub.createEngine name) : Running σ EngineId) := by
  intro world answer final answered
  cases answered
  exact .single (.engineCreated world name)

theorem advances_createContext (engine : EngineId) :
    Advances (createContext engine : Running σ ContextId) := by
  intro world answer final answered
  rw [createContext_run] at answered
  cases answered
  exact .single (.contextCreated world engine)

theorem advances_reserveContext :
    Advances (reserveContext : Running σ ContextId) := by
  intro world answer final answered
  rw [reserveContext_run] at answered
  cases answered
  exact .single (.contextReserved world)

theorem advances_destroyContext (engine : EngineId) (context : ContextId) :
    Advances (destroyContext engine context : Running σ Bool) := by
  intro world answer final answered
  rw [destroyContext_run] at answered
  by_cases existing : world.hub.hasContext engine context = true
  · rw [if_pos existing] at answered
    cases answered
    exact .single (.contextDestroyed existing)
  · rw [if_neg existing] at answered
    cases answered
    exact .refl

theorem advances_setGlobal (context : ContextId) (key : String) (value : Value) :
    Advances (onHub fun hub => ((), hub.setGlobal context key value) :
      Running σ Unit) := by
  intro world answer final answered
  cases answered
  exact .single (.globalSet world context key value)

theorem advances_addFunction (function : Function σ) :
    Advances (addFunction function) := by
  intro world answer final answered
  cases answered
  exact .single (.functionAdded world function)

theorem advances_tryRegister (name signature : String) :
    Advances (tryRegister name signature :
      Running σ (Except RegistryError Event)) := by
  intro world answer final answered
  rw [tryRegister_run] at answered
  cases registered : world.bus.register name signature with
  | error error =>
      rw [registered] at answered
      cases answered
      exact .refl
  | ok result =>
      rw [registered] at answered
      cases answered
      exact .single (.eventRegistered registered)

theorem advances_register (name signature : String) :
    Advances (register name signature : Running σ Bool) := by
  intro world answer final answered
  rw [register_run] at answered
  cases registered : world.bus.register name signature with
  | error error =>
      rw [registered] at answered
      cases answered
      exact .single (.remarked trivial)
  | ok result =>
      rw [registered] at answered
      cases answered
      exact .single (.eventRegistered registered)

theorem advances_insert {event : Event}
    (distinct : Listener.Distinct event.listeners) :
    Advances (insert event : Running σ (Except RegistryError Event)) := by
  intro world answer final answered
  rw [insert_run] at answered
  cases inserted : world.bus.insert event with
  | error error =>
      rw [inserted] at answered
      cases answered
      exact .refl
  | ok bus =>
      rw [inserted] at answered
      cases answered
      exact .single (.eventInserted distinct inserted)

theorem advances_subscribe (name : String) (listener : Listener) :
    Advances (subscribe name listener : Running σ Bool) := by
  intro world answer final answered
  rw [subscribe_run] at answered
  cases answered
  cases known : world.bus.registry.contains name with
  | false =>
      rw [Bus.subscribe_unknown known]
      exact .single (.remarked trivial)
  | true =>
      cases added : (world.bus.subscribe name listener).1 with
      | false => exact .tail (.single (.listenerIgnored added)) (.remarked trivial)
      | true => exact .single (.listenerAdded added)

theorem advances_unsubscribe (name : String) (context : ContextId)
    (target : Target) :
    Advances (unsubscribe name context target : Running σ Nat) := by
  intro world answer final answered
  rw [unsubscribe_run] at answered
  cases answered
  have removed := World.Change.unsubscribed world name context target
  dsimp only
  split
  · exact .tail (.single removed) (.remarked trivial)
  · exact .single removed

theorem advances_unsubscribeContext (context : ContextId) :
    Advances (unsubscribeContext context : Running σ Nat) := by
  intro world answer final answered
  obtain ⟨counts, middle, removed, ran, left⟩ := unsubscribeContext_run context world
  rw [ran] at answered
  cases answered
  have emptied : world.Changes middle :=
    Advances.mapM (fun name => advances_unsubscribe name context .all) _ world counts
      middle removed
  exact emptied.tail (.contextUnsubscribed (Bus.isFreeOf_of_without left.event?))

theorem advances_clear (name : String) :
    Advances (onBus fun bus => ((), bus.clear name) : Running σ Unit) := by
  intro world answer final answered
  cases answered
  exact .single (.cleared world name)

theorem advances_scriptRegister (arguments : List Argument) :
    Advances (scriptRegister arguments : Running σ Bool) := by
  unfold scriptRegister
  split
  · split
    · exact advances_register _ _
    · exact advances_pure _
  · exact advances_pure _

theorem advances_scriptOn (scope : Scope) (arguments : List Argument) :
    Advances (scriptOn scope arguments : Running σ Unit) := by
  unfold scriptOn
  split
  · exact advances_pure _
  · split
    · exact advances_note trivial
    · apply (advances_subscribe _ _).bind
      intro _
      exact advances_pure _

theorem advances_scriptRemoveListener (scope : Scope) (arguments : List Argument) :
    Advances (scriptRemoveListener scope arguments : Running σ Unit) := by
  unfold scriptRemoveListener
  split
  · exact advances_pure _
  · split
    · exact advances_note trivial
    · apply (advances_unsubscribe _ _ _).bind
      intro _
      exact advances_pure _

theorem advances_readName (memory : Memory) (asked : Nat) (address : Cell) :
    Advances (readName memory asked address : Running σ (Option String)) := by
  apply advances_get.bind
  intro world
  split
  · exact advances_pure _
  · refine Advances.bind (advances_note ?_) ?_
    · trivial
    · intro _
      exact advances_pure _

theorem advances_machineRegister (memory : Memory) (parameters : List Cell) :
    Advances (machineRegister memory parameters : Running σ Bool) := by
  unfold machineRegister
  split
  · apply (advances_readName _ _ _).bind
    intro name
    split
    · exact advances_pure _
    · apply (advances_readName _ _ _).bind
      intro signature
      split
      · exact advances_pure _
      · exact advances_register _ _
  · exact advances_pure _

end Running

end CellBus
