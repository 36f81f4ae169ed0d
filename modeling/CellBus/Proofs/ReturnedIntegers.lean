import CellBus.Proofs.AgreeingSides
import CellBus.Proofs.ConformingArguments

/-!
# Returned integers

An integer argument reaches its listener as the signed or the unsigned reading of one
cell, and an integer that a listener returns is taken modulo `2 ^ 32`.  So a listener
that gives an integer argument back gives back its cell, bit by bit.  Which cell that
is follows from what the arguments before it take where they are decoded; the memory
may change its answers all the time.
-/

namespace CellBus

variable {σ α β : Type}

namespace Value

theorem toCell_signed (cell : Cell) : (Value.int cell.toInt).toCell = cell := by
  have low := Int32.le_toInt cell
  have high := Int32.toInt_lt cell
  have inRange : -0x8000000000000000 ≤ cell.toInt ∧ cell.toInt < 0x8000000000000000 := by
    omega
  rw [toCell, integerToCell, if_pos (by simpa using inRange), Cell.ofInt,
    Int32.ofInt_toInt]

theorem toCell_unsigned (cell : Cell) :
    (Value.int cell.unsigned.toNat).toCell = cell := by
  have high := cell.unsigned.toNat_lt
  have inRange : -0x8000000000000000 ≤ (cell.unsigned.toNat : Int) ∧
      (cell.unsigned.toNat : Int) < 0x8000000000000000 := by
    omega
  rw [toCell, integerToCell, if_pos (by simpa using inRange), Cell.ofInt,
    Int32.ofInt_eq_ofNat, Cell.unsigned, ← UInt32.toInt32_ofNat', UInt32.ofNat_toNat,
    Int32.toInt32_toUInt32]

end Value

theorem Decoding.outcome_bind_eq_ok_iff {first : Decoding α} {next : α → Decoding β}
    {reading after : Reading} {result : β} :
    outcome (first >>= next) reading = (.ok result, after) ↔
      ∃ value middle, outcome first reading = (.ok value, middle) ∧
        outcome (next value) middle = (.ok result, after) := by
  rw [outcome_bind]
  rcases outcome first reading with ⟨error | value, middle⟩ <;> simp

namespace Decoder

open Decoding

variable {decoder : Decoder} {reading after : Reading}

/-- The cell that a raw cell stands for, where the memory was asked so often before. -/
def cellBehind (decoder : Decoder) (asked : Nat) (raw : Cell) : Except MarshalError Cell :=
  match decoder.passing with
  | .byValue => .ok raw
  | .byReference => decoder.memory.deref asked raw

theorem scalar_eq_ok {cell : Cell} (gives : outcome decoder.scalar reading = (.ok cell, after)) :
    ∃ raw rest, reading.cursor.remaining = raw :: rest ∧
      decoder.cellBehind reading.asked raw = .ok cell := by
  obtain ⟨raw, middle, taken, looked⟩ := outcome_bind_eq_ok_iff.mp gives
  obtain ⟨⟨remaining, slot, count⟩, asked⟩ := reading
  rw [outcome_take] at taken
  cases remaining with
  | nil => cases taken
  | cons first rest =>
      cases taken
      refine ⟨raw, rest, rfl, ?_⟩
      rw [cellBehind]
      cases passing : decoder.passing with
      | byValue =>
          rw [passing] at looked
          cases looked
          rfl
      | byReference =>
          rw [passing, outcome_ask] at looked
          exact congrArg Prod.fst looked

/-- An integer argument is the reading of one cell, and converts to that cell. -/
theorem argument_integer {tag : Tag} {value : Value} (integer : tag = .int ∨ tag = .uint)
    (gives : outcome (decoder.argument tag) reading = (.ok value, after)) :
    ∃ raw rest, reading.cursor.remaining = raw :: rest ∧
      decoder.cellBehind reading.asked raw = .ok value.toCell := by
  rcases integer with rfl | rfl
  · obtain ⟨cell, middle, scalarGives, built⟩ := outcome_bind_eq_ok_iff.mp gives
    cases built
    rw [Value.toCell_signed]
    exact scalar_eq_ok scalarGives
  · obtain ⟨cell, middle, scalarGives, built⟩ := outcome_bind_eq_ok_iff.mp gives
    cases built
    rw [Value.toCell_unsigned]
    exact scalar_eq_ok scalarGives

/-- The arguments behind some others are decoded from where those end. -/
theorem arguments_append {front back : List Tag} {values : List Value}
    (gives : outcome (decoder.arguments (front ++ back)) reading = (.ok values, after)) :
    ∃ earlier middle later,
      outcome (decoder.arguments front) reading = (.ok earlier, middle) ∧
        outcome (decoder.arguments back) middle = (.ok later, after) ∧
        values = earlier ++ later := by
  induction front generalizing reading values with
  | nil => exact ⟨[], reading, values, rfl, gives, rfl⟩
  | cons tag front ih =>
      obtain ⟨value, taken, first, gives⟩ := outcome_bind_eq_ok_iff.mp gives
      obtain ⟨⟨⟩, advanced, moved, gives⟩ := outcome_bind_eq_ok_iff.mp gives
      obtain ⟨rest, last, restGives, built⟩ := outcome_bind_eq_ok_iff.mp gives
      cases built
      obtain ⟨earlier, middle, later, frontGives, backGives, rfl⟩ := ih restGives
      refine ⟨value :: earlier, middle, later, ?_, backGives, rfl⟩
      apply outcome_bind_eq_ok_iff.mpr
      refine ⟨value, taken, first, outcome_bind_eq_ok_iff.mpr ⟨(), advanced, moved, ?_⟩⟩
      exact outcome_bind_eq_ok_iff.mpr ⟨earlier, middle, frontGives, rfl⟩

theorem ConformAll.length_cells {tags : List Tag} {cells : List Cell}
    {values : List Value} (conform : decoder.ConformAll tags cells values) :
    cells.length = Signature.cellCount (.ofTags tags) := by
  induction conform with
  | nil => rfl
  | @cons tag rest own cells value values conforms _ ih =>
      have complete : own.length = tag.cells := by
        cases conforms <;> rfl
      rw [List.length_append, complete, ih, Signature.cellCount_cons]

/-- An integer argument converts to the cell that stands behind those of the arguments
before it, or to the one that it points at. -/
theorem decodeFrom_integer {asked place : Nat} {signature : Signature} {cells : List Cell}
    {values : List Value} {tag : Tag}
    (decoded : (decoder.decodeFrom asked signature cells).1 = .ok values)
    (tagged : signature.tags[place]? = some tag) (integer : tag = .int ∨ tag = .uint) :
    let front : Signature := .ofTags (signature.tags.take place)
    ∃ value raw, values[place]? = some value ∧ cells[front.cellCount]? = some raw ∧
      decoder.cellBehind (decoder.decodeFrom asked front cells).2 raw =
        .ok value.toCell := by
  intro front
  obtain ⟨inside, same⟩ := List.getElem?_eq_some_iff.mp tagged
  have split : signature.tags = front.tags ++ tag :: signature.tags.drop (place + 1) := by
    rw [← same, List.getElem_cons_drop]
    exact (List.take_append_drop place signature.tags).symm
  have gives : outcome (decoder.arguments signature.tags) ⟨Cursor.start cells, asked⟩ =
      (.ok values,
        (outcome (decoder.arguments signature.tags) ⟨Cursor.start cells, asked⟩).2) :=
    Prod.ext decoded rfl
  rw [split] at gives
  obtain ⟨earlier, middle, later, frontGives, backGives, rfl⟩ := arguments_append gives
  obtain ⟨value, taken, ownGives, restGives⟩ := outcome_bind_eq_ok_iff.mp backGives
  obtain ⟨_, advanced, _, restGives⟩ := outcome_bind_eq_ok_iff.mp restGives
  obtain ⟨rest, last, _, built⟩ := outcome_bind_eq_ok_iff.mp restGives
  cases built
  obtain ⟨raw, others, remaining, behind⟩ := argument_integer integer ownGives
  obtain ⟨own, whole, conform⟩ := decoder.takes_arguments _ _ _ _ frontGives
  have earlierLength : earlier.length = place :=
    conform.length.trans (List.length_take_of_le inside.le)
  have ownLength : own.length = front.cellCount := conform.length_cells
  have ownFirst : cells = own ++ raw :: others := by
    rw [← remaining]
    exact whole
  have askedBefore : (decoder.decodeFrom asked front cells).2 = middle.asked :=
    congrArg (fun ended => ended.2.asked) frontGives
  refine ⟨value, raw, ?_, ?_, ?_⟩
  · rw [← earlierLength, List.getElem?_append_right (Nat.le_refl _), Nat.sub_self]
    rfl
  · rw [ownFirst, ← ownLength, List.getElem?_append_right (Nat.le_refl _), Nat.sub_self]
    rfl
  · rw [askedBefore, behind]

end Decoder

/-- Run in whatever world and for whatever call, the function gives back the plain
argument at a place; it may do anything else before. -/
def Echoes (runner : Runner σ) (place : Nat) (body : Frame → Behaviour σ) : Prop :=
  ∀ (frame : Frame) (value : Value) (world : World σ),
    frame.arguments[place]? = some (Argument.plain value) →
      ∃ after, (runner (body frame)).run world = some (.returns value, after)

namespace Running

variable {runner : Runner σ} {world : World σ}

/-- An invocation of such a function in a context that exists gives back the
argument. -/
theorem invoke_echo {listener : Listener} {function : String}
    {body : Frame → Behaviour σ} {place : Nat} {arguments : List Argument}
    {value : Value}
    (existing : world.hub.hasContext listener.engine listener.context = true)
    (native : world.native? listener.callable = some (function, body))
    (echoes : Echoes runner place body)
    (placed : arguments[place]? = some (Argument.plain value)) :
    ∃ final, (invokeListener runner listener arguments).run world =
      some (.ok value, final) := by
  have admitted : world.admission listener.scope listener.engine listener.callable =
      .ok (function, body) := by
    unfold World.admission
    rw [native]
    simp [Listener.scope, existing]
  obtain ⟨final, ran⟩ := echoes ⟨listener.context, arguments, listener.callable⟩ value
    (world.noted (.bodyEntered listener.callable listener.scope)) placed
  refine ⟨final, ?_⟩
  rw [invokeListener, invoke_admitted admitted]
  change Option.map _ ((runner (body ⟨listener.context, arguments,
    listener.callable⟩)).run _) = _
  rw [ran]
  rfl

/-- A dispatch to such a function alone reports the argument as a cell. -/
theorem dispatchCells_echo {name : String} {event : Event} {listener : Listener}
    {function : String} {body : Frame → Behaviour σ} {place asked : Nat}
    {memory : Memory} {passing : Passing} {cells : List Cell} {values : List Value}
    {value : Value} (found : world.bus.event? name = some event)
    (only : event.listeners = [listener])
    (existing : world.hub.hasContext listener.engine listener.context = true)
    (native : world.native? listener.callable = some (function, body))
    (echoes : Echoes runner place body)
    (decoded : (Decoder.decodeFrom ⟨memory, passing, world.bus.limits⟩ asked
      event.signature cells).1 = .ok values)
    (placed : values[place]? = some value) :
    ∃ final,
      (dispatchCells (invokeListener runner) name memory passing cells asked).run world =
        some (some { result := value.toCell, invoked := 1 }, final) := by
  have member : listener ∈ event.listeners := by
    rw [only]
    exact List.mem_singleton_self listener
  have live : world.bus.holds name listener = true := Bus.holds_of_mem found member
  let decoder : Decoder := ⟨memory, passing, world.bus.limits⟩
  have built : Supply.decoded decoder event.signature cells asked =
      (.ok (values.map .plain), (decoder.decodeFrom asked event.signature cells).2) := by
    rw [Supply.decoded_eq, decoded]
    rfl
  have handed : (values.map Argument.plain)[place]? = some (.plain value) := by
    rw [List.getElem?_map, placed, Option.map_some]
  obtain ⟨final, ran⟩ := @invoke_echo σ runner
    (world.noted (.listenerCalled name listener)) listener function body place
    (values.map .plain) value existing native echoes handed
  refine ⟨final.noted (.dispatchFinished name { result := value.toCell, invoked := 1 }), ?_⟩
  rw [dispatchCells, dispatchNamed_found _ _ found, only, takeTurns_called _ live built,
    call_run, ran]
  rfl

end Running

open Running

/-- A listener is the only one of its event, its context exists, and it gives back an
argument that the signature says is an integer.  Whenever the cells can be decoded, a
dispatch answers the cell that stands behind those of the arguments before, whatever its
bits.  A call answers the cell that the memory, when it was asked, had at the address
that stands there. -/
theorem integers_return_as_their_cells {runner : Runner σ} {world : World σ}
    {name : String} {event : Event} {listener : Listener} {function : String}
    {body : Frame → Behaviour σ} {place : Nat}
    (found : world.bus.event? name = some event)
    (only : event.listeners = [listener])
    (existing : world.hub.hasContext listener.engine listener.context = true)
    (native : world.native? listener.callable = some (function, body))
    (echoes : Echoes runner place body)
    (integer : event.signature.tags[place]? = some .int ∨
      event.signature.tags[place]? = some .uint)
    (memory : Memory) (cells : List Cell) :
    let front : Signature := .ofTags (event.signature.tags.take place)
    let byValue : Decoder := ⟨memory, .byValue, world.bus.limits⟩
    let byReference : Decoder := ⟨memory, .byReference, world.bus.limits⟩
    (∀ values, byValue.decodeAll event.signature cells = .ok values →
      ∃ cell final, cells[front.cellCount]? = some cell ∧
        (machineDispatch (invokeListener runner) name memory cells).run world =
          some (cell, final)) ∧
    ∀ nameAddress bytes values,
      memory.readText 0 nameAddress world.bus.limits.textLength = .ok bytes →
      Text.decodeLossy bytes = name →
      (byReference.decodeFrom 1 event.signature cells).1 = .ok values →
        ∃ address cell final, cells[front.cellCount]? = some address ∧
          memory.deref (byReference.decodeFrom 1 front cells).2 address = .ok cell ∧
          (machineCall (invokeListener runner) memory (nameAddress :: cells)).run world =
            some (cell, final) := by
  intro front byValue byReference
  obtain ⟨tag, tagged, isInteger⟩ :
      ∃ tag, event.signature.tags[place]? = some tag ∧ (tag = .int ∨ tag = .uint) := by
    rcases integer with signed | unsigned
    · exact ⟨.int, signed, .inl rfl⟩
    · exact ⟨.uint, unsigned, .inr rfl⟩
  constructor
  · intro values decoded
    obtain ⟨value, cell, placed, stands, behind⟩ :=
      Decoder.decodeFrom_integer decoded tagged isInteger
    cases behind
    obtain ⟨final, ran⟩ :=
      dispatchCells_echo found only existing native echoes decoded placed
    refine ⟨value.toCell, final, stands, ?_⟩
    rw [machineDispatch_run, ran]
    rfl
  · rintro nameAddress bytes values nameRead rfl decoded
    obtain ⟨value, address, placed, stands, behind⟩ :=
      Decoder.decodeFrom_integer decoded tagged isInteger
    obtain ⟨final, ran⟩ :=
      dispatchCells_echo found only existing native echoes decoded placed
    refine ⟨address, value.toCell, final, stands, behind, ?_⟩
    rw [machineCall_run _ nameRead, ran]
    rfl

/-- Behind an array an unsigned number with the highest bit set comes back, from the
cells of a dispatch and from behind an address. -/
theorem unsigned_number_returns_behind_an_array :
    let event : Event := ⟨"e", .ofTags [.intArray, .uint], [⟨⟨1⟩, ⟨1⟩, ⟨0⟩⟩]⟩
    let body : Frame → Behaviour Unit := fun frame => .finish (.returns (frame.plain 1))
    let hub : Hub :=
      ⟨⟨⟨[event]⟩, {}⟩, [⟨⟨1⟩, "a"⟩], [⟨⟨1⟩, ⟨1⟩, true, []⟩], 1⟩
    let world : World Unit := ⟨hub, [.native "f" body], (), Journal.empty⟩
    let runner : Runner Unit := Behaviour.run 1
    let memory := (Segment.mk [101, 0, 5, -1, 1]).memory
    let byValue : Decoder := ⟨memory, .byValue, {}⟩
    let byReference : Decoder := ⟨memory, .byReference, {}⟩
    Echoes runner 1 body ∧
      byValue.decodeAll event.signature [8, 1, -2] =
        .ok [.list [.int 5], .int 4294967294] ∧
      (∃ final, (machineDispatch (invokeListener runner) "e" memory [8, 1, -2]).run
        world = some (-2, final)) ∧
      memory.readText 0 0 65536 = .ok [101] ∧ Text.decodeLossy [101] = "e" ∧
      (byReference.decodeFrom 1 event.signature [8, 16, 12]).1 =
        .ok [.list [.int 5], .int 4294967295] ∧
      ∃ final, (machineCall (invokeListener runner) memory [0, 8, 16, 12]).run world =
        some (-1, final) := by
  intro event body hub world runner memory byValue byReference
  have echoes : Echoes runner 1 body := by
    intro frame value world placed
    refine ⟨world, ?_⟩
    have handed : frame.plain 1 = value := by
      rw [Frame.plain, placed]
      rfl
    change some (Outcome.returns (frame.plain 1), world) = _
    rw [handed]
  have decoded : byValue.decodeAll event.signature [8, 1, -2] =
      .ok [.list [.int 5], .int 4294967294] := rfl
  have nameRead : memory.readText 0 0 65536 = .ok [101] := rfl
  have named : Text.decodeLossy [101] = "e" := rfl
  have followed : (byReference.decodeFrom 1 event.signature [8, 16, 12]).1 =
      .ok [.list [.int 5], .int 4294967295] := rfl
  have found : world.bus.event? "e" = some event := rfl
  have native : world.native? ⟨0⟩ = some ("f", body) := rfl
  obtain ⟨dispatches, _⟩ := integers_return_as_their_cells found rfl rfl native echoes
    (.inr rfl) memory [8, 1, -2]
  obtain ⟨_, calls⟩ := integers_return_as_their_cells found rfl rfl native echoes
    (.inr rfl) memory [8, 16, 12]
  obtain ⟨cell, final, stands, ran⟩ := dispatches _ decoded
  obtain ⟨address, called, last, placed, pointed, answered⟩ :=
    calls 0 [101] _ nameRead named followed
  cases stands
  cases placed
  cases pointed
  exact ⟨echoes, decoded, ⟨final, ran⟩, nameRead, named, followed, last, answered⟩

end CellBus
