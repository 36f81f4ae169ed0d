import CellBus.Proofs.DecodedOnce
import CellBus.Proofs.Dereferencing
import CellBus.Proofs.MendedNames
import CellBus.Proofs.TextLayouts
import CellBus.World.Machine
import CellBus.World.Script

/-!
# Agreeing sides

The script machine and the script side reach the same events.  A text that was laid
out in memory is read back as it is, so registering by two addresses is registering
by two texts.  A call with references does what a dispatch of the cells behind them
does, however often the memory is asked on the way.
-/

namespace CellBus

variable {σ : Type}

/-- A text that can be a name stands at an address, in either layout. -/
structure Memory.StoresText (memory : Memory) (limit asked : Nat) (address : Cell)
    (text : String) : Prop where
  nonzero : '\x00' ∉ text.toList
  short : (Text.encode text).length ≤ limit
  stored : ∃ cells, memory.resolve asked address = .ok cells ∧
    (Segment.unpackedBlock text <+: cells ∨ Segment.packedBlock text <+: cells)

/-- What is stored is read back. -/
theorem Memory.StoresText.readText {memory : Memory} {limit asked : Nat}
    {address : Cell} {text : String}
    (stores : memory.StoresText limit asked address text) :
    memory.readText asked address limit = .ok (Text.encode text) := by
  obtain ⟨cells, found, layout⟩ := stores.stored
  apply readText_of_holdsText found _ stores.short
  rcases layout with ⟨rest, rfl⟩ | ⟨rest, rfl⟩
  · exact holdsText_unpackedBlock stores.nonzero rest
  · exact holdsText_packedBlock stores.nonzero rest

/-- Over a memory whose answers do not change, decoding by reference gives what
decoding the cells behind the references by value gives. -/
theorem Decoder.decodeFrom_dereferenced {memory : Memory}
    (steady : memory.SteadyFrom 0) (limits : Limits) {signature : Signature}
    {refs : List Cell} (follows : memory.Follows signature.references refs) :
    ((byReference memory limits).decodeFrom 0 signature refs).1 =
      ((byValue memory limits).decodeFrom 0 signature
        (memory.dereferenced signature.references refs)).1 := by
  change (byReference memory limits).decodeAll signature refs =
    (byValue memory limits).decodeAll signature _
  rw [decodeAll_eq_valuesFrom steady, decodeAll_eq_valuesFrom steady]
  exact valuesFrom_dereferenced (Cursor.start refs) follows

namespace Running

variable {memory : Memory} {world : World σ} {name signature : String}
variable {nameAddress signatureAddress : Cell} {caller : Caller σ} {refs : List Cell}

theorem scriptRegister_texts (name signature : String) (rest : List Argument) :
    (scriptRegister (.plain (.text name) :: .plain (.text signature) :: rest) :
      Running σ Bool) = register name signature := rfl

theorem machineRegister_stored
    (nameStored :
      memory.StoresText world.bus.limits.textLength 0 nameAddress name)
    (signatureStored :
      memory.StoresText world.bus.limits.textLength 1 signatureAddress signature)
    (rest : List Cell) :
    (machineRegister memory (nameAddress :: signatureAddress :: rest)).run world =
      (register name signature).run world := by
  rw [machineRegister_run nameStored.readText signatureStored.readText,
    Text.decodeLossy_encode, Text.decodeLossy_encode]

theorem machineCall_stored
    (nameStored :
      memory.StoresText world.bus.limits.textLength 0 nameAddress name) :
    (machineCall caller memory (nameAddress :: refs)).run world =
      ((dispatchCells caller name memory .byReference refs 1).run world).map
        fun result => ((result.1.map Report.result).getD 0, result.2) := by
  rw [machineCall_run caller nameStored.readText, Text.decodeLossy_encode]

theorem machineDispatch_run (cells : List Cell) :
    (machineDispatch caller name memory cells).run world =
      ((dispatchCells caller name memory .byValue cells 0).run world).map
        fun result => ((result.1.map Report.result).getD 0, result.2) := by
  simp only [machineDispatch, StateT.run_bind, Option.bind_eq_bind]
  cases (dispatchCells caller name memory .byValue cells 0).run world <;> rfl

/-- A dispatch by reference is a dispatch by value of the cells behind the
references, also when questions were asked before. -/
theorem dispatchCells_dereferenced (steady : memory.SteadyFrom 0) {event : Event}
    (found : world.bus.event? name = some event)
    (follows : memory.Follows event.signature.references refs) (asked : Nat) :
    (dispatchCells caller name memory .byReference refs asked).run world =
      (dispatchCells caller name memory .byValue
        (memory.dereferenced event.signature.references refs) 0).run world := by
  let limits := world.bus.limits
  let followed := memory.dereferenced event.signature.references refs
  have referring :
      (Supply.decoded (.byReference memory limits) event.signature refs).GivesFrom 0
        (((Decoder.byValue memory limits).decodeFrom 0 event.signature followed).1.map
          (·.map .plain)) := by
    rw [← Decoder.decodeFrom_dereferenced steady limits follows]
    exact Supply.givesFrom_decoded steady event.signature refs
  have direct :
      (Supply.decoded (.byValue memory limits) event.signature followed).GivesFrom 0
        (((Decoder.byValue memory limits).decodeFrom 0 event.signature followed).1.map
          (·.map .plain)) :=
    Supply.givesFrom_decoded steady event.signature followed
  rw [dispatchCells, dispatchCells, dispatchNamed_found caller _ found,
    dispatchNamed_found caller _ found, takeTurns_same_results referring direct
      event.listeners (Nat.zero_le asked) (Nat.le_refl 0) world]

end Running

open Running

/-- The two sides agree.  Registering by the addresses of two texts, in whichever
layout they are stored and whatever other parameters there are, answers and leaves
what registering by the texts themselves does.  Calling an event by the address of
its name, with references that lead somewhere, answers and leaves what dispatching
it by name with the cells behind the references does, and where no event has the
name neither does anything. -/
theorem machine_and_script_agree {memory : Memory} {world : World σ} :
    (∀ nameAddress signatureAddress name signature parameters arguments,
      memory.StoresText world.bus.limits.textLength 0 nameAddress name →
      memory.StoresText world.bus.limits.textLength 1 signatureAddress signature →
      (machineRegister memory
          (nameAddress :: signatureAddress :: parameters)).run world =
        (scriptRegister (.plain (.text name) :: .plain (.text signature) ::
          arguments)).run world) ∧
    ∀ (caller : Caller σ) nameAddress name refs,
      memory.SteadyFrom 0 →
      memory.StoresText world.bus.limits.textLength 0 nameAddress name →
      (∀ event, world.bus.event? name = some event →
        memory.Follows event.signature.references refs →
        (machineCall caller memory (nameAddress :: refs)).run world =
          (machineDispatch caller name memory
            (memory.dereferenced event.signature.references refs)).run world) ∧
      (world.bus.event? name = none → ∀ cells,
        (machineCall caller memory (nameAddress :: refs)).run world =
            some (0, world) ∧
          (machineDispatch caller name memory cells).run world = some (0, world)) := by
  constructor
  · intro nameAddress signatureAddress name signature parameters arguments nameStored
      signatureStored
    rw [machineRegister_stored nameStored signatureStored, scriptRegister_texts]
  · intro caller nameAddress name refs steady nameStored
    rw [machineCall_stored nameStored]
    constructor
    · intro event found follows
      rw [machineDispatch_run, dispatchCells_dereferenced steady found follows]
    · intro absent cells
      rw [machineDispatch_run, dispatchCells, dispatchCells,
        dispatchNamed_absent caller _ absent, dispatchNamed_absent caller _ absent]
      exact ⟨rfl, rfl⟩

/-- A packed name and an unpacked signature register an event; a call with the
address of a number is a dispatch with the number. -/
theorem machine_and_script_agree_on_one_number :
    let segment : Segment :=
      ⟨Segment.packedBlock "e" ++ Segment.unpackedBlock "i" ++ [7]⟩
    let memory := segment.memory
    let limits : Limits := { textLength := 8 }
    let fresh : World Unit := World.new limits ()
    let event := Event.assemble "e" (.ofTags [.int]) [⟨⟨1⟩, ⟨1⟩, ⟨0⟩⟩]
    let world : World Unit := World.holding limits () event
    let caller : Caller Unit := fun _ arguments =>
      pure (.ok ((arguments.head?.bind Argument.plain?).getD .null))
    memory.SteadyFrom 0 ∧ memory.StoresText 8 0 0 "e" ∧
      memory.StoresText 8 1 4 "i" ∧
      memory.Follows event.signature.references [12] ∧
      (machineRegister memory [0, 4, 9]).run fresh =
        (scriptRegister [.plain (.text "e"), .plain (.text "i")]).run fresh ∧
      (machineCall caller memory [0, 12]).run world =
        (machineDispatch caller "e" memory [7]).run world ∧
      ∃ final, (machineDispatch caller "e" memory [7]).run world =
        some (7, final) := by
  intro segment memory limits fresh event world caller
  have steady : memory.SteadyFrom 0 := Memory.steadyFrom_fixed _ 0
  have nameStored : memory.StoresText 8 0 0 "e" :=
    ⟨by decide, by decide, _, rfl, .inr ⟨_, rfl⟩⟩
  have signatureStored : memory.StoresText 8 1 4 "i" :=
    ⟨by decide, by decide, _, rfl, .inl ⟨_, rfl⟩⟩
  have follows : memory.Follows event.signature.references [12] := by
    intro position raw marked found
    match position with
    | 0 =>
        cases found
        exact ⟨7, rfl⟩
  have found : world.bus.event? "e" = some event := rfl
  obtain ⟨registers, -⟩ := @machine_and_script_agree Unit memory fresh
  obtain ⟨-, calls⟩ := @machine_and_script_agree Unit memory world
  refine ⟨steady, nameStored, signatureStored, follows, ?_, ?_, _, rfl⟩
  · exact registers 0 4 "e" "i" [9] [] nameStored signatureStored
  · exact (calls caller 0 "e" [12] steady nameStored).1 event found follows

end CellBus
