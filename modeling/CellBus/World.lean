import CellBus.Behaviour
import CellBus.Journal

/-!
# Worlds

A world is a hub with the functions that were defined around it, the state of
their host, and the journal of what happened.  Everything that runs in a world
turns it into another one; running gives no answer when calls are nested too
deeply.
-/

namespace CellBus

/-- What a callable stands for. -/
inductive Function (σ : Type) where
  /-- A function of a native engine. -/
  | native (name : String) (body : Frame → Behaviour σ)
  /-- Something that no engine can run. -/
  | foreign

structure World (σ : Type) where
  hub : Hub
  /-- The functions, by the numbers of their callables. -/
  functions : List (Function σ)
  host : σ
  journal : Journal

/-- A step in a world.  It gives no answer when calls are nested too deeply. -/
abbrev Running (σ : Type) := StateT (World σ) Option

/-- How behaviours are run. -/
abbrev Runner (σ : Type) := Behaviour σ → Running σ Outcome

namespace World

variable {σ : Type}

/-- A world in which nothing has happened. -/
def new (limits : Limits) (host : σ) : World σ := ⟨Hub.new limits, [], host, Journal.empty⟩

def bus (world : World σ) : Bus := world.hub.bus

/-- The function of a native engine that a callable stands for. -/
def native? (world : World σ) (callable : Callable) : Option (String × (Frame → Behaviour σ)) :=
  match world.functions[callable.number]? with
  | some (.native name body) => some (name, body)
  | some .foreign | none => none

end World

namespace Running

variable {σ α : Type}

/-- Enters a happening in the journal. -/
def note (happening : Happening) : Running σ Unit :=
  modify fun world => { world with journal := world.journal.add happening }

/-- Changes the hub. -/
def onHub (step : Hub → α × Hub) : Running σ α :=
  modifyGet fun world =>
    let (answer, hub) := step world.hub
    (answer, { world with hub })

/-- Changes the bus. -/
def onBus (step : Bus → α × Bus) : Running σ α :=
  onHub fun hub =>
    let (answer, bus) := step hub.bus
    (answer, { hub with bus })

/-- Adds a function. -/
def addFunction (function : Function σ) : Running σ Callable :=
  modifyGet fun world =>
    (⟨world.functions.length⟩, { world with functions := world.functions ++ [function] })

end Running

end CellBus
