import CellBus.World.Machine
import CellBus.World.Script

/-!
# Running behaviours

Operations are carried out in a world, and behaviours are runs of operations.
Bodies that an operation calls are run one level deeper; `run depth` gives no
answer when more than `depth` levels are needed.
-/

namespace CellBus

variable {σ : Type}

/-- Carries out an operation.  Bodies of functions are run by `runner`. -/
def Operation.carryOut (runner : Runner σ) : (operation : Operation) → Running σ operation.Result
  | createEngine name => Running.onHub (Hub.createEngine name)
  | createContext engine => Running.createContext engine
  | reserveContext => Running.reserveContext
  | destroyContext engine context => Running.destroyContext engine context
  | setGlobal context key value =>
    Running.onHub fun hub => ((), hub.setGlobal context key value)
  | makeForeign => Running.addFunction .foreign
  | tryRegister name signature => Running.tryRegister name signature
  | register name signature => Running.register name signature
  | insert name signature listeners => Running.insert (Event.assemble name signature listeners)
  | subscribe name listener => Running.subscribe name listener
  | unsubscribe name context target => Running.unsubscribe name context target
  | unsubscribeContext context => Running.unsubscribeContext context
  | clear name => Running.onBus fun bus => ((), bus.clear name)
  | fire name arguments => Running.fire (Running.invokeListener runner) name arguments
  | dispatchCells name memory passing cells =>
    Running.dispatchCells (Running.invokeListener runner) name memory passing cells 0
  | scriptRegister arguments => Running.scriptRegister arguments
  | scriptOn caller arguments => Running.scriptOn caller arguments
  | scriptRemoveListener caller arguments => Running.scriptRemoveListener caller arguments
  | scriptFire arguments => Running.scriptFire (Running.invokeListener runner) arguments
  | machineRegister memory parameters => Running.machineRegister memory parameters
  | machineCall memory parameters =>
    Running.machineCall (Running.invokeListener runner) memory parameters
  | machineDispatch name memory cells =>
    Running.machineDispatch (Running.invokeListener runner) name memory cells
  | invoke scope engine callable arguments =>
    Running.invoke runner scope engine callable arguments

namespace Behaviour

/-- Runs a behaviour.  Bodies that its operations call are run by `runner`. -/
def execute (runner : Runner σ) : Behaviour σ → Running σ Outcome
  | finish outcome => return outcome
  | consult next => do
    let world ← get
    (next world.hub world.host).execute runner
  | store host next => do
    modify fun world => { world with host }
    next.execute runner
  | define name body next => do
    let callable ← Running.addFunction (.native name body)
    (next callable).execute runner
  | perform operation next => do
    let answer ← operation.carryOut runner
    (next answer).execute runner

/-- Runs a behaviour with calls nested at most `depth` levels deep. -/
def run : Nat → Runner σ
  | 0 => fun _ => failure
  | depth + 1 => execute (run depth)

end Behaviour

end CellBus
