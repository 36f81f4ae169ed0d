import CellBus.Proofs.MatchingRuns
import CellBus.Proofs.Operations

/-!
# The journal is never looked at

Whatever stands in the journal, a run goes the same way: it gives the same answer
and leaves a world that differs in the journal at most.  So entries in the
journal, the log among them, have no effect on the bus, on the contexts or on
which functions are called.
-/

namespace CellBus

variable {σ α β : Type}

/-- The worlds differ in their journals at most. -/
def World.Alike (world other : World σ) : Prop :=
  ∃ journal, other = { world with journal }

theorem World.Alike.refl (world : World σ) : world.Alike world :=
  ⟨world.journal, rfl⟩

theorem World.likeness_alike : World.Likeness (World.Alike (σ := σ)) := by
  constructor
  · intro world other alike
    obtain ⟨journal, rfl⟩ := alike
    rfl
  · intro world other happening alike
    obtain ⟨journal, rfl⟩ := alike
    exact ⟨journal, rfl⟩
  · intro world other happening alike
    obtain ⟨journal, rfl⟩ := alike
    exact ⟨journal.add happening, rfl⟩

namespace Running

/-- The step goes the same way whatever stands in the journal. -/
abbrev Blind (step : Running σ α) : Prop := Matches World.Alike Eq step step

theorem blind_pure (answer : α) : Blind (pure answer : Running σ α) :=
  matches_pure rfl

theorem Blind.bind {first : Running σ α} {next : α → Running σ β}
    (firstBlind : Blind first) (nextBlind : ∀ value, Blind (next value)) :
    Blind (first >>= next) :=
  firstBlind.bind_same nextBlind

theorem Blind.mapM {step : β → Running σ α} (blind : ∀ item, Blind (step item))
    (items : List β) : Blind (items.mapM step) :=
  Matches.mapM blind items

/-- A step may look at anything in the world but the journal. -/
theorem blind_get {next : World σ → Running σ α}
    (same : ∀ (world : World σ) journal, next { world with journal } = next world)
    (blind : ∀ world, Blind (next world)) : Blind (get >>= next) := by
  intro world other alike
  obtain ⟨journal, rfl⟩ := alike
  have later := blind world world _ ⟨journal, rfl⟩
  -- Both runs go on with the same step, so it is enough that this one is blind.
  have otherNext := same world journal
  change Option.Rel _ ((next world).run world)
    ((next { world with journal }).run { world with journal })
  rw [otherNext]
  exact later

theorem blind_note (happening : Happening) :
    Blind (note happening : Running σ Unit) := by
  intro world other alike
  obtain ⟨journal, rfl⟩ := alike
  exact .some ⟨rfl, journal.add happening, rfl⟩

theorem blind_onHub (step : Hub → α × Hub) : Blind (onHub step : Running σ α) := by
  intro world other alike
  obtain ⟨journal, rfl⟩ := alike
  exact .some ⟨rfl, journal, rfl⟩

theorem blind_onBus (step : Bus → α × Bus) : Blind (onBus step : Running σ α) :=
  blind_onHub _

theorem blind_addFunction (function : Function σ) :
    Blind (addFunction function) := by
  intro world other alike
  obtain ⟨journal, rfl⟩ := alike
  exact .some ⟨rfl, journal, rfl⟩

theorem blind_createContext (engine : EngineId) :
    Blind (createContext engine : Running σ ContextId) := by
  apply (blind_onHub _).bind
  intro context
  apply blind_get (fun _ _ => rfl)
  intro world
  exact (blind_note _).bind fun _ => blind_pure _

theorem blind_reserveContext : Blind (reserveContext : Running σ ContextId) := by
  apply (blind_onHub _).bind
  intro context
  exact (blind_note _).bind fun _ => blind_pure _

theorem blind_destroyContext (engine : EngineId) (context : ContextId) :
    Blind (destroyContext engine context : Running σ Bool) := by
  apply (blind_onHub _).bind
  intro existed
  split
  · exact (blind_note _).bind fun _ => blind_pure _
  · exact blind_pure _

theorem blind_tryRegister (name signature : String) :
    Blind (tryRegister name signature : Running σ (Except RegistryError Event)) := by
  apply (blind_onBus _).bind
  intro result
  split
  · exact (blind_note _).bind fun _ => blind_pure _
  · exact blind_pure _

theorem blind_register (name signature : String) :
    Blind (register name signature : Running σ Bool) := by
  apply (blind_tryRegister name signature).bind
  intro result
  cases result with
  | ok event => exact blind_pure _
  | error error => exact (blind_note _).bind fun _ => blind_pure _

theorem blind_insert (event : Event) :
    Blind (insert event : Running σ (Except RegistryError Event)) := by
  apply (blind_onBus _).bind
  intro result
  split
  · exact (blind_note _).bind fun _ => blind_pure _
  · exact blind_pure _

theorem blind_subscribe (name : String) (listener : Listener) :
    Blind (subscribe name listener : Running σ Bool) := by
  apply blind_get (fun _ _ => rfl)
  intro world
  apply (blind_onBus _).bind
  intro added
  exact (blind_note _).bind fun _ => blind_pure _

theorem blind_unsubscribe (name : String) (context : ContextId) (target : Target) :
    Blind (unsubscribe name context target : Running σ Nat) := by
  apply (blind_onBus _).bind
  intro count
  split
  · exact (blind_note _).bind fun _ => blind_pure _
  · exact blind_pure _

theorem blind_unsubscribeContext (context : ContextId) :
    Blind (unsubscribeContext context : Running σ Nat) := by
  apply blind_get (fun _ _ => rfl)
  intro world
  apply (Blind.mapM (fun name => blind_unsubscribe name context .all) _).bind
  intro counts
  exact (blind_note _).bind fun _ => blind_pure _

theorem blind_scriptRegister (arguments : List Argument) :
    Blind (scriptRegister arguments : Running σ Bool) := by
  unfold scriptRegister
  split
  · split
    · exact blind_register _ _
    · exact blind_pure _
  · exact blind_pure _

theorem blind_scriptOn (scope : Scope) (arguments : List Argument) :
    Blind (scriptOn scope arguments : Running σ Unit) := by
  unfold scriptOn
  split
  · exact blind_pure _
  · split
    · exact blind_note _
    · exact (blind_subscribe _ _).bind fun _ => blind_pure _

theorem blind_scriptRemoveListener (scope : Scope) (arguments : List Argument) :
    Blind (scriptRemoveListener scope arguments : Running σ Unit) := by
  unfold scriptRemoveListener
  split
  · exact blind_pure _
  · split
    · exact blind_note _
    · exact (blind_unsubscribe _ _ _).bind fun _ => blind_pure _

theorem blind_readName (memory : Memory) (asked : Nat) (address : Cell) :
    Blind (readName memory asked address : Running σ (Option String)) := by
  apply blind_get (fun _ _ => rfl)
  intro world
  split
  · exact blind_pure _
  · exact (blind_note _).bind fun _ => blind_pure _

theorem blind_machineRegister (memory : Memory) (parameters : List Cell) :
    Blind (machineRegister memory parameters : Running σ Bool) := by
  unfold machineRegister
  split
  · apply (blind_readName _ _ _).bind
    intro name
    split
    · exact blind_pure _
    · apply (blind_readName _ _ _).bind
      intro signature
      split
      · exact blind_pure _
      · exact blind_register _ _
  · exact blind_pure _

variable {caller : Caller σ}

theorem blind_takeTurns
    (blind : ∀ listener arguments, Blind (caller listener arguments))
    (supply : Supply) (name : String) (listeners : List Listener) (asked : Nat) :
    Blind (takeTurns caller supply name listeners asked) := by
  have matching : Matches World.Alike (List.Forall₂ (Turn.Matches fun _ => Eq))
      (takeTurns caller supply name listeners asked)
      (takeTurns caller supply name listeners asked) :=
    takeTurns_matches World.likeness_alike blind supply name listeners asked
  apply matching.mono
  intro turns others pairs
  have same : List.Forall₂ Eq turns others := pairs.imp fun _ _ => Turn.Matches.eq
  rw [List.forall₂_eq_eq_eq] at same
  exact same

theorem blind_dispatchNamed
    (blind : ∀ listener arguments, Blind (caller listener arguments))
    (supply : Event → Bus → Supply) (asked : Nat) (name : String) :
    Blind (dispatchNamed caller supply asked name) := by
  apply blind_get (fun _ _ => rfl)
  intro world
  dsimp only
  split
  · exact blind_pure _
  · rename_i event _
    have dispatchBlind : Blind
        (dispatch caller (supply event world.bus) asked event) := by
      apply (blind_takeTurns blind _ _ _ _).bind
      intro turns
      exact (blind_note _).bind fun _ => blind_pure _
    exact dispatchBlind.bind fun _ => blind_pure _

theorem blind_fire
    (blind : ∀ listener arguments, Blind (caller listener arguments))
    (name : String) (arguments : List Argument) :
    Blind (fire caller name arguments) :=
  blind_dispatchNamed blind _ 0 name

theorem blind_dispatchCells
    (blind : ∀ listener arguments, Blind (caller listener arguments))
    (name : String) (memory : Memory) (passing : Passing) (cells : List Cell)
    (asked : Nat) :
    Blind (dispatchCells caller name memory passing cells asked) :=
  blind_dispatchNamed blind _ asked name

theorem blind_scriptFire
    (blind : ∀ listener arguments, Blind (caller listener arguments))
    (arguments : List Argument) : Blind (scriptFire caller arguments) := by
  unfold scriptFire
  split
  · exact blind_pure _
  · exact (blind_fire blind _ _).bind fun _ => blind_pure _

theorem blind_machineCall
    (blind : ∀ listener arguments, Blind (caller listener arguments))
    (memory : Memory) (parameters : List Cell) :
    Blind (machineCall caller memory parameters) := by
  unfold machineCall
  split
  · apply (blind_readName _ _ _).bind
    intro name
    split
    · exact blind_pure _
    · exact (blind_dispatchCells blind _ _ _ _ _).bind fun _ => blind_pure _
  · exact blind_pure _

theorem blind_machineDispatch
    (blind : ∀ listener arguments, Blind (caller listener arguments))
    (name : String) (memory : Memory) (cells : List Cell) :
    Blind (machineDispatch caller name memory cells) :=
  (blind_dispatchCells blind _ _ _ _ _).bind fun _ => blind_pure _

theorem blind_invoke {runner : Runner σ}
    (blind : ∀ behaviour, Blind (runner behaviour)) (scope : Scope)
    (engine : EngineId) (callable : Callable) (arguments : List Argument) :
    Blind (invoke runner scope engine callable arguments) := by
  apply blind_get (fun _ _ => rfl)
  intro world
  split
  · exact blind_pure _
  · apply (blind_note _).bind
    intro _
    exact (blind _).bind fun _ => blind_pure _

end Running

/-- No operation looks at the journal. -/
theorem Operation.carryOut_blind {runner : Runner σ}
    (blind : ∀ behaviour, Running.Blind (runner behaviour))
    (operation : Operation) : Running.Blind (operation.carryOut runner) := by
  have listenersBlind : ∀ listener arguments,
      Running.Blind (Running.invokeListener runner listener arguments) :=
    fun listener arguments => Running.blind_invoke blind _ _ _ arguments
  cases operation with
  | createEngine name => exact Running.blind_onHub (Hub.createEngine name)
  | createContext engine => exact Running.blind_createContext engine
  | reserveContext => exact Running.blind_reserveContext
  | destroyContext engine context => exact Running.blind_destroyContext engine context
  | setGlobal context key value =>
      exact Running.blind_onHub fun hub => ((), hub.setGlobal context key value)
  | makeForeign => exact Running.blind_addFunction .foreign
  | tryRegister name signature => exact Running.blind_tryRegister name signature
  | register name signature => exact Running.blind_register name signature
  | insert name signature listeners =>
      exact Running.blind_insert (Event.assemble name signature listeners)
  | subscribe name listener => exact Running.blind_subscribe name listener
  | unsubscribe name context target => exact Running.blind_unsubscribe name context target
  | unsubscribeContext context => exact Running.blind_unsubscribeContext context
  | clear name => exact Running.blind_onBus fun bus => ((), bus.clear name)
  | fire name arguments => exact Running.blind_fire listenersBlind name arguments
  | dispatchCells name memory passing cells =>
      exact Running.blind_dispatchCells listenersBlind name memory passing cells 0
  | scriptRegister arguments => exact Running.blind_scriptRegister arguments
  | scriptOn scope arguments => exact Running.blind_scriptOn scope arguments
  | scriptRemoveListener scope arguments =>
      exact Running.blind_scriptRemoveListener scope arguments
  | scriptFire arguments => exact Running.blind_scriptFire listenersBlind arguments
  | machineRegister memory parameters =>
      exact Running.blind_machineRegister memory parameters
  | machineCall memory parameters =>
      exact Running.blind_machineCall listenersBlind memory parameters
  | machineDispatch name memory cells =>
      exact Running.blind_machineDispatch listenersBlind name memory cells
  | invoke scope engine callable arguments =>
      exact Running.blind_invoke blind scope engine callable arguments

namespace Behaviour

theorem execute_blind {runner : Runner σ}
    (blind : ∀ behaviour, Running.Blind (runner behaviour))
    (behaviour : Behaviour σ) : Running.Blind (behaviour.execute runner) := by
  induction behaviour with
  | finish outcome => exact Running.blind_pure outcome
  | consult next ih =>
      apply Running.blind_get (fun _ _ => rfl)
      intro world
      exact ih world.hub world.host
  | store host next ih =>
      intro world other alike
      obtain ⟨journal, rfl⟩ := alike
      exact ih { world with host } _ ⟨journal, rfl⟩
  | define name body next _ ih =>
      apply (Running.blind_addFunction _).bind
      exact ih
  | perform operation next ih =>
      apply (operation.carryOut_blind blind).bind
      exact ih

/-- No run looks at the journal. -/
theorem run_blind (depth : Nat) (behaviour : Behaviour σ) :
    Running.Blind (run depth behaviour) := by
  induction depth generalizing behaviour with
  | zero =>
      intro world other _
      exact .none
  | succ depth ih => exact execute_blind ih behaviour

end Behaviour

/-- Nor does any listener that is called. -/
theorem Running.blind_invokeListener (depth : Nat) (listener : Listener)
    (arguments : List Argument) :
    Running.Blind (Running.invokeListener (Behaviour.run (σ := σ) depth) listener
      arguments) :=
  Running.blind_invoke (Behaviour.run_blind depth) _ _ _ arguments

end CellBus
