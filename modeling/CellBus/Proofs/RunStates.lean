import CellBus.Proofs.Changes

/-!
# States of a run

A run comes through a state when it begins there, when it gets there after some
of its steps, or when a body that one of its operations calls comes through it,
at whatever depth.  The run need not come to an end.  Every such state is
reached by elementary changes.
-/

namespace CellBus

open Relation

variable {σ : Type}

/-- Arguments that each dispatch decodes from the same cells. -/
def Supply.ofCells (memory : Memory) (passing : Passing) (cells : List Cell) :
    Event → Bus → Supply :=
  fun event bus => .decoded ⟨memory, passing, bus.limits⟩ event.signature cells

/-- An engine that is asked to run a callable starts to run a body. -/
inductive InvocationEnters (scope : Scope) (engine : EngineId)
    (callable : Callable) (arguments : List Argument) (world : World σ) :
    Behaviour σ → World σ → Prop where
  | intro {name : String} {body : Frame → Behaviour σ} :
      world.admission scope engine callable = .ok (name, body) →
      InvocationEnters scope engine callable arguments world
        (body ⟨scope.context, arguments, callable⟩)
        (world.noted (.bodyEntered callable scope))

/-- A dispatch starts to run the body of a listener whose turn has come. -/
inductive DispatchEnters (runner : Runner σ) (supply : Event → Bus → Supply)
    (asked : Nat) (name : String) (world : World σ) :
    Behaviour σ → World σ → Prop where
  | intro {event : Event} {before rest : List Listener} {listener : Listener}
      {turns : List Turn} {after next : Nat} {middle state : World σ}
      {arguments : List Argument} {body : Behaviour σ} :
      world.bus.event? name = some event →
      event.listeners = before ++ listener :: rest →
      Course (Running.invokeListener runner) (supply event world.bus) event.name
        before asked world turns after middle →
      middle.bus.holds event.name listener = true →
      supply event world.bus after = (.ok arguments, next) →
      InvocationEnters listener.scope listener.engine listener.callable arguments
        (middle.noted (.listenerCalled event.name listener)) body state →
      DispatchEnters runner supply asked name world body state

/-- While an operation is carried out, a body starts to run. -/
inductive Operation.Enters (runner : Runner σ) :
    Operation → World σ → Behaviour σ → World σ → Prop where
  | fire {name : String} {arguments : List Argument} {world state : World σ}
      {body : Behaviour σ} :
      DispatchEnters runner (fun _ _ => .given arguments) 0 name world body state →
      Enters runner (.fire name arguments) world body state
  | dispatchCells {name : String} {memory : Memory} {passing : Passing}
      {cells : List Cell} {world state : World σ} {body : Behaviour σ} :
      DispatchEnters runner (.ofCells memory passing cells) 0 name world body
        state →
      Enters runner (.dispatchCells name memory passing cells) world body state
  | scriptFire {name : String} {arguments : List Argument}
      {world state : World σ} {body : Behaviour σ} :
      Running.requestName? arguments = some name →
      DispatchEnters runner (fun _ _ => .given arguments.tail) 0 name world body
        state →
      Enters runner (.scriptFire arguments) world body state
  | machineCall {memory : Memory} {address : Cell} {cells : List Cell}
      {bytes : List UInt8} {world state : World σ} {body : Behaviour σ} :
      memory.readText 0 address world.bus.limits.textLength = .ok bytes →
      DispatchEnters runner (.ofCells memory .byReference cells) 1
        (Text.decodeLossy bytes) world body state →
      Enters runner (.machineCall memory (address :: cells)) world body state
  | machineDispatch {name : String} {memory : Memory} {cells : List Cell}
      {world state : World σ} {body : Behaviour σ} :
      DispatchEnters runner (.ofCells memory .byValue cells) 0 name world body
        state →
      Enters runner (.machineDispatch name memory cells) world body state
  | invoke {scope : Scope} {engine : EngineId} {callable : Callable}
      {arguments : List Argument} {world state : World σ} {body : Behaviour σ} :
      InvocationEnters scope engine callable arguments world body state →
      Enters runner (.invoke scope engine callable arguments) world body state

/-- A run of a behaviour that begins in one world comes through another. -/
inductive Behaviour.Visits : Behaviour σ → World σ → World σ → Prop where
  | start (behaviour : Behaviour σ) (world : World σ) :
      Visits behaviour world world
  | consulted {next : Hub → σ → Behaviour σ} {world state : World σ} :
      Visits (next world.hub world.host) world state →
      Visits (.consult next) world state
  | stored {host : σ} {next : Behaviour σ} {world state : World σ} :
      Visits next { world with host } state →
      Visits (.store host next) world state
  | defined {name : String} {body : Frame → Behaviour σ}
      {next : Callable → Behaviour σ} {world state : World σ} :
      Visits (next ⟨world.functions.length⟩)
        { world with functions := world.functions ++ [.native name body] } state →
      Visits (.define name body next) world state
  | answered {operation : Operation} {next : operation.Result → Behaviour σ}
      {depth : Nat} {answer : operation.Result} {world middle state : World σ} :
      (operation.carryOut (run depth)).run world = some (answer, middle) →
      Visits (next answer) middle state →
      Visits (.perform operation next) world state
  | inside {operation : Operation} {next : operation.Result → Behaviour σ}
      {depth : Nat} {body : Behaviour σ} {world middle state : World σ} :
      operation.Enters (run depth) world body middle →
      Visits body middle state →
      Visits (.perform operation next) world state

/-- A state that a run comes through which begins in a world where nothing has
happened. -/
def World.Reachable (world : World σ) : Prop :=
  ∃ limits host behaviour, Behaviour.Visits behaviour (World.new limits host) world

namespace Running

variable {caller : Caller σ} {supply : Supply} {name : String}

theorem call_changes
    (advances : ∀ listener arguments, Advances (caller listener arguments))
    {listener : Listener} {arguments : List Argument} {world final : World σ}
    {outcome : Except Fault Value} (live : world.bus.holds name listener = true)
    (answered : (call caller name listener arguments).run world =
      some (outcome, final)) :
    world.Changes final := by
  rw [call_run, Option.map_eq_some_iff] at answered
  obtain ⟨⟨found, left⟩, listenerAnswered, equality⟩ := answered
  cases equality
  have called : world.Changes (world.noted (.listenerCalled name listener)) :=
    .single (.listenerCalled live)
  have whole := called.trans
    (advances listener arguments _ found left listenerAnswered)
  cases found with
  | ok value => exact whole
  | error fault => exact whole.tail (.remarked trivial)

end Running

namespace Course

variable {caller : Caller σ} {supply : Supply} {name : String}

theorem changes
    (advances : ∀ listener arguments, Running.Advances (caller listener arguments))
    {listeners : List Listener} {asked after : Nat} {world state : World σ}
    {turns : List Turn}
    (course : Course caller supply name listeners asked world turns after state) :
    world.Changes state := by
  induction course with
  | nil => exact .refl
  | @skipped listener _ _ _ _ _ _ _ _ ih =>
      have remark : (Happening.listenerSkipped name listener).IsRemark := trivial
      exact .head (.remarked remark) ih
  | called live _ answered _ ih =>
      exact (Running.call_changes advances live answered).trans ih

end Course

namespace Running

variable {caller : Caller σ}

theorem advances_takeTurns
    (advances : ∀ listener arguments, Advances (caller listener arguments))
    (supply : Supply) (name : String) (listeners : List Listener) (asked : Nat) :
    Advances (takeTurns caller supply name listeners asked) := by
  intro world turns final taken
  rcases takeTurns_eq_some_iff.mp taken with ⟨after, course⟩ | refusal
  · exact course.changes advances
  · obtain ⟨_, course, _, _⟩ := refusal
    exact (course.changes advances).tail (.remarked trivial)

theorem advances_dispatchNamed
    (advances : ∀ listener arguments, Advances (caller listener arguments))
    (supply : Event → Bus → Supply) (asked : Nat) (name : String) :
    Advances (dispatchNamed caller supply asked name) := by
  intro world answer final answered
  cases found : world.bus.event? name with
  | none =>
      rw [dispatchNamed_absent caller supply found] at answered
      cases answered
      exact .refl
  | some event =>
      rw [dispatchNamed_found caller supply found, Option.map_eq_some_iff] at answered
      obtain ⟨⟨turns, left⟩, taken, equality⟩ := answered
      cases equality
      have chain := advances_takeTurns advances (supply event world.bus) name
        event.listeners asked world turns left taken
      exact chain.tail (.remarked trivial)

theorem advances_fire
    (advances : ∀ listener arguments, Advances (caller listener arguments))
    (name : String) (arguments : List Argument) :
    Advances (fire caller name arguments) :=
  advances_dispatchNamed advances _ 0 name

theorem advances_dispatchCells
    (advances : ∀ listener arguments, Advances (caller listener arguments))
    (name : String) (memory : Memory) (passing : Passing) (cells : List Cell)
    (asked : Nat) :
    Advances (dispatchCells caller name memory passing cells asked) :=
  advances_dispatchNamed advances (.ofCells memory passing cells) asked name

theorem advances_scriptFire
    (advances : ∀ listener arguments, Advances (caller listener arguments))
    (arguments : List Argument) : Advances (scriptFire caller arguments) := by
  unfold scriptFire
  split
  · exact advances_pure _
  · apply (advances_fire advances _ _).bind
    intro _
    exact advances_pure _

theorem advances_machineCall
    (advances : ∀ listener arguments, Advances (caller listener arguments))
    (memory : Memory) (parameters : List Cell) :
    Advances (machineCall caller memory parameters) := by
  unfold machineCall
  split
  · apply (advances_readName _ _ _).bind
    intro name
    split
    · exact advances_pure _
    · apply (advances_dispatchCells advances _ _ _ _ _).bind
      intro _
      exact advances_pure _
  · exact advances_pure _

theorem advances_machineDispatch
    (advances : ∀ listener arguments, Advances (caller listener arguments))
    (name : String) (memory : Memory) (cells : List Cell) :
    Advances (machineDispatch caller name memory cells) := by
  apply (advances_dispatchCells advances _ _ _ _ _).bind
  intro _
  exact advances_pure _

theorem invoke_refused {runner : Runner σ} {scope : Scope} {engine : EngineId}
    {callable : Callable} {world : World σ} {fault : Fault}
    (refused : world.admission scope engine callable = .error fault)
    (arguments : List Argument) :
    (invoke runner scope engine callable arguments).run world =
      some (.error fault, world) := by
  simp [invoke, refused]

theorem invoke_admitted {runner : Runner σ} {scope : Scope} {engine : EngineId}
    {callable : Callable} {world : World σ} {name : String}
    {body : Frame → Behaviour σ}
    (admitted : world.admission scope engine callable = .ok (name, body))
    (arguments : List Argument) :
    (invoke runner scope engine callable arguments).run world =
      ((runner (body ⟨scope.context, arguments, callable⟩)).run
          (world.noted (.bodyEntered callable scope))).map fun result =>
        (result.1.settle ("    at " ++ name ++ " (" ++
            world.hub.engineName engine ++ ", " ++ scope.context.text ++ ")"),
          result.2) := by
  simp [invoke, admitted, note_run]

theorem advances_invoke {runner : Runner σ}
    (advances : ∀ behaviour, Advances (runner behaviour)) (scope : Scope)
    (engine : EngineId) (callable : Callable) (arguments : List Argument) :
    Advances (invoke runner scope engine callable arguments) := by
  intro world answer final answered
  cases admission : world.admission scope engine callable with
  | error fault =>
      rw [invoke_refused admission] at answered
      cases answered
      exact .refl
  | ok function =>
      rw [invoke_admitted admission, Option.map_eq_some_iff] at answered
      obtain ⟨⟨outcome, left⟩, ran, equality⟩ := answered
      cases equality
      exact .head (.bodyEntered admission) (advances _ _ outcome left ran)

end Running

/-- Carrying out an operation is a chain of elementary changes. -/
theorem Operation.carryOut_advances {runner : Runner σ}
    (advances : ∀ behaviour, Running.Advances (runner behaviour))
    (operation : Operation) : Running.Advances (operation.carryOut runner) := by
  have listenersAdvance : ∀ listener arguments,
      Running.Advances (Running.invokeListener runner listener arguments) :=
    fun listener arguments => Running.advances_invoke advances _ _ _ arguments
  cases operation with
  | createEngine name => exact Running.advances_createEngine name
  | createContext engine => exact Running.advances_createContext engine
  | reserveContext => exact Running.advances_reserveContext
  | destroyContext engine context =>
      exact Running.advances_destroyContext engine context
  | setGlobal context key value =>
      exact Running.advances_setGlobal context key value
  | makeForeign => exact Running.advances_addFunction .foreign
  | tryRegister name signature => exact Running.advances_tryRegister name signature
  | register name signature => exact Running.advances_register name signature
  | insert name signature listeners =>
      exact Running.advances_insert (Event.assemble_distinct name signature listeners)
  | subscribe name listener => exact Running.advances_subscribe name listener
  | unsubscribe name context target =>
      exact Running.advances_unsubscribe name context target
  | unsubscribeContext context => exact Running.advances_unsubscribeContext context
  | clear name => exact Running.advances_clear name
  | fire name arguments =>
      exact Running.advances_fire listenersAdvance name arguments
  | dispatchCells name memory passing cells =>
      exact Running.advances_dispatchCells listenersAdvance name memory passing
        cells 0
  | scriptRegister arguments => exact Running.advances_scriptRegister arguments
  | scriptOn scope arguments => exact Running.advances_scriptOn scope arguments
  | scriptRemoveListener scope arguments =>
      exact Running.advances_scriptRemoveListener scope arguments
  | scriptFire arguments =>
      exact Running.advances_scriptFire listenersAdvance arguments
  | machineRegister memory parameters =>
      exact Running.advances_machineRegister memory parameters
  | machineCall memory parameters =>
      exact Running.advances_machineCall listenersAdvance memory parameters
  | machineDispatch name memory cells =>
      exact Running.advances_machineDispatch listenersAdvance name memory cells
  | invoke scope engine callable arguments =>
      exact Running.advances_invoke advances scope engine callable arguments

namespace Behaviour

theorem execute_advances {runner : Runner σ}
    (advances : ∀ behaviour, Running.Advances (runner behaviour))
    (behaviour : Behaviour σ) : Running.Advances (behaviour.execute runner) := by
  induction behaviour with
  | finish outcome => exact Running.advances_pure outcome
  | consult next ih =>
      apply Running.advances_get.bind
      intro world
      exact ih world.hub world.host
  | store host next ih =>
      intro world outcome final executed
      exact .head (.hostStored world host) (ih _ outcome final executed)
  | define name body next _ ih =>
      apply (Running.advances_addFunction _).bind
      exact ih
  | perform operation next ih =>
      apply (operation.carryOut_advances advances).bind
      exact ih

/-- Every run is a chain of elementary changes. -/
theorem run_advances (depth : Nat) (behaviour : Behaviour σ) :
    Running.Advances (run depth behaviour) := by
  induction depth generalizing behaviour with
  | zero =>
      intro world outcome final ran
      cases ran
  | succ depth ih => exact execute_advances ih behaviour

end Behaviour

theorem InvocationEnters.changes {scope : Scope} {engine : EngineId}
    {callable : Callable} {arguments : List Argument} {world state : World σ}
    {body : Behaviour σ}
    (enters : InvocationEnters scope engine callable arguments world body state) :
    world.Changes state := by
  obtain ⟨admitted⟩ := enters
  exact .single (.bodyEntered admitted)

theorem DispatchEnters.changes {runner : Runner σ}
    (advances : ∀ behaviour, Running.Advances (runner behaviour))
    {supply : Event → Bus → Supply} {asked : Nat} {name : String}
    {world state : World σ} {body : Behaviour σ}
    (enters : DispatchEnters runner supply asked name world body state) :
    world.Changes state := by
  obtain ⟨_, _, course, live, _, entered⟩ := enters
  have chain := course.changes fun listener arguments =>
    Running.advances_invoke advances _ _ _ arguments
  exact (chain.tail (.listenerCalled live)).trans entered.changes

theorem Operation.Enters.changes {runner : Runner σ}
    (advances : ∀ behaviour, Running.Advances (runner behaviour))
    {operation : Operation} {world state : World σ} {body : Behaviour σ}
    (enters : operation.Enters runner world body state) :
    world.Changes state := by
  cases enters with
  | fire entered => exact entered.changes advances
  | dispatchCells entered => exact entered.changes advances
  | scriptFire _ entered => exact entered.changes advances
  | machineCall _ entered => exact entered.changes advances
  | machineDispatch entered => exact entered.changes advances
  | invoke entered => exact entered.changes

namespace Behaviour

/-- Elementary changes lead to every state that a run comes through. -/
theorem Visits.changes {behaviour : Behaviour σ} {world state : World σ}
    (visits : behaviour.Visits world state) : world.Changes state := by
  induction visits with
  | start => exact .refl
  | consulted _ ih => exact ih
  | stored _ ih => exact .head (.hostStored _ _) ih
  | defined _ ih => exact .head (.functionAdded _ _) ih
  | @answered operation _ depth _ _ _ _ carried _ ih =>
      have chain := operation.carryOut_advances (run_advances depth) _ _ _ carried
      exact chain.trans ih
  | @inside _ _ depth _ _ _ _ entered _ ih =>
      exact (entered.changes (run_advances depth)).trans ih

/-- A run comes through the world that it leaves in the end. -/
theorem visits_of_run {depth : Nat} {behaviour : Behaviour σ}
    {world final : World σ} {outcome : Outcome}
    (ran : (run depth behaviour).run world = some (outcome, final)) :
    behaviour.Visits world final := by
  cases depth with
  | zero => cases ran
  | succ depth =>
      induction behaviour generalizing world with
      | finish =>
          cases ran
          exact .start _ _
      | consult next ih => exact .consulted (ih _ _ ran)
      | store host next ih => exact .stored (ih ran)
      | define name body next _ ih => exact .defined (ih _ ran)
      | perform operation next ih =>
          obtain ⟨answer, middle, carried, rest⟩ :=
            Running.bind_run_eq_some_iff.mp ran
          exact .answered carried (ih answer rest)

end Behaviour

namespace World

theorem Reachable.changes {world : World σ} (reachable : world.Reachable) :
    ∃ limits host, (World.new limits host).Changes world := by
  obtain ⟨limits, host, behaviour, visits⟩ := reachable
  exact ⟨limits, host, visits.changes⟩

/-- What holds where nothing has happened and is kept by every elementary change
holds in every reachable world. -/
theorem Reachable.induct {invariant : World σ → Prop} {world : World σ}
    (reachable : world.Reachable)
    (fresh : ∀ limits host, invariant (World.new limits host))
    (kept : ∀ before after, World.Change before after → invariant before →
      invariant after) :
    invariant world := by
  obtain ⟨limits, host, chain⟩ := reachable.changes
  clear reachable
  induction chain with
  | refl => exact fresh limits host
  | tail _ change ih => exact kept _ _ change ih

/-- A world in which nothing has happened but that an event was added. -/
def holding (limits : Limits) (host : σ) (event : Event) : World σ :=
  ((World.new limits host).withBus ⟨⟨[event]⟩, limits⟩).noted
    (.eventInserted event)

theorem reachable_holding (limits : Limits) (host : σ) (name : String)
    (signature : Signature) (listeners : List Listener) :
    (holding limits host
      (Event.assemble name signature listeners)).Reachable := by
  have inserted :
      ((Operation.insert name signature listeners).carryOut
        (Behaviour.run 0)).run (World.new limits host) =
      some (.ok (Event.assemble name signature listeners),
        holding limits host (Event.assemble name signature listeners)) := rfl
  exact ⟨limits, host,
    .perform (.insert name signature listeners) fun _ => .finish (.returns .null),
    .answered inserted (.start _ _)⟩

theorem reachable_of_run {limits : Limits} {host : σ} {depth : Nat}
    {behaviour : Behaviour σ} {outcome : Outcome} {final : World σ}
    (ran : (behaviour.run depth).run (World.new limits host) =
      some (outcome, final)) :
    final.Reachable :=
  ⟨limits, host, behaviour, Behaviour.visits_of_run ran⟩

end World

end CellBus
