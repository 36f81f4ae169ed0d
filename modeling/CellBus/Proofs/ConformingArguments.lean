import CellBus.Memory.Segment
import CellBus.Proofs.DecodedOnce
import CellBus.Proofs.ExactNumbers
import CellBus.Proofs.TextParts

/-!
# Conforming arguments

Whatever a memory answers, also if it changes its answers all the time, decoded
values conform to the signature and to the limits: there is one for each tag, of the
tag's kind and in its range, and no text and no array is too long.  A step of
decoding is described by the cells that it takes where it succeeds, and the steps are
put together by that.  So no dispatch with cells hands a listener anything else.
-/

namespace CellBus

variable {σ α β : Type}

namespace Decoding

/-- Where the step succeeds, it takes cells that fit what it gives. -/
def Takes (step : Decoding α) (fits : List Cell → α → Prop) : Prop :=
  ∀ reading value after, outcome step reading = (.ok value, after) →
    ∃ own, reading.cursor.remaining = own ++ after.cursor.remaining ∧ fits own value

variable {first : Decoding α} {next : α → Decoding β}

theorem takes_pure {fits : List Cell → α → Prop} {value : α} (none : fits [] value) :
    Takes (pure value) fits := by
  intro reading found after gives
  cases gives
  exact ⟨[], rfl, none⟩

theorem takes_throw (error : MarshalError) (fits : List Cell → α → Prop) :
    Takes (throw error) fits := by
  intro reading value after gives
  cases gives

theorem takes_take : Takes take fun own cell => own = [cell] := by
  intro reading cell after gives
  obtain ⟨⟨remaining, slot, taken⟩, asked⟩ := reading
  rw [outcome_take] at gives
  cases remaining with
  | nil => cases gives
  | cons first rest =>
      cases gives
      exact ⟨[cell], rfl, rfl⟩

theorem takes_ask (question : Nat → Except MarshalError α) :
    Takes (ask question) fun own found =>
      own = [] ∧ ∃ asked, question asked = .ok found := by
  intro reading found after gives
  rw [outcome_ask] at gives
  obtain ⟨answered, rfl⟩ := Prod.mk.inj gives
  exact ⟨[], rfl, rfl, reading.asked, answered⟩

theorem takes_advanceSlot : Takes advanceSlot fun own _ => own = [] := by
  intro reading found after gives
  cases gives
  exact ⟨[], rfl, rfl⟩

theorem Takes.mono {fits weaker : List Cell → α → Prop} (takes : Takes first fits)
    (weakens : ∀ own value, fits own value → weaker own value) :
    Takes first weaker := by
  intro reading value after gives
  obtain ⟨own, split, found⟩ := takes reading value after gives
  exact ⟨own, split, weakens own value found⟩

/-- Two steps take the cells of the first and then those of the second. -/
theorem Takes.bind {front : List Cell → α → Prop} {fits : List Cell → β → Prop}
    (takes : Takes first front)
    (later : ∀ own value, front own value →
      Takes (next value) fun rest found => fits (own ++ rest) found) :
    Takes (first >>= next) fits := by
  intro reading found after gives
  rw [outcome_bind] at gives
  rcases firstGives : outcome first reading with ⟨error | value, middle⟩
  · rw [firstGives] at gives
    cases gives
  · rw [firstGives] at gives
    obtain ⟨own, split, fitsFirst⟩ := takes reading value middle firstGives
    obtain ⟨rest, laterSplit, fitsBoth⟩ := later own value fitsFirst middle found after gives
    exact ⟨own ++ rest, by rw [split, laterSplit, List.append_assoc], fitsBoth⟩

end Decoding

namespace Decoder

open Decoding

/-- The cell that a raw cell stands for: itself, or what some answer of the memory
says it points at. -/
def StandsFor (decoder : Decoder) (raw cell : Cell) : Prop :=
  decoder.passing = .byValue ∧ cell = raw ∨
    decoder.passing = .byReference ∧ ∃ asked, decoder.memory.deref asked raw = .ok cell

/-- A value of the tag's kind and within the limits, with the cells that it is made
of.  Texts, lengths and elements are as some answers of the memory say. -/
inductive Conforms (decoder : Decoder) : Tag → List Cell → Value → Prop where
  | text {address : Cell} {asked : Nat} {bytes : List UInt8} {text : String} :
      decoder.memory.readText asked address decoder.limits.textLength = .ok bytes →
      Text.MadeOf bytes text.toList → text.length ≤ decoder.limits.textLength →
      Conforms decoder .text [address] (.text text)
  | int {raw cell : Cell} :
      decoder.StandsFor raw cell → -2 ^ 31 ≤ cell.toInt → cell.toInt ≤ 2 ^ 31 - 1 →
      Conforms decoder .int [raw] (.int cell.toInt)
  | uint {raw cell : Cell} :
      decoder.StandsFor raw cell → cell.unsigned.toNat ≤ 2 ^ 32 - 1 →
      Conforms decoder .uint [raw] (.int cell.unsigned.toNat)
  | float {raw cell : Cell} {value : Value} :
      decoder.StandsFor raw cell → value.IsSingle (.ofCell cell) →
      Conforms decoder .float [raw] value
  | intArray {base raw count : Cell} {asked : Nat} {elements : List Cell} :
      decoder.StandsFor raw count → 0 ≤ count.toInt →
      count.toInt ≤ decoder.limits.arrayLength →
      decoder.memory.readArray asked base count.toInt.toNat = .ok elements →
      (elements.length : Int) = count.toInt →
      (∀ cell ∈ elements, -2 ^ 31 ≤ cell.toInt ∧ cell.toInt ≤ 2 ^ 31 - 1) →
      Conforms decoder .intArray [base, raw]
        (.list (elements.map fun cell => .int cell.toInt))
  | floatArray {base raw count : Cell} {asked : Nat} {elements : List Cell}
      {values : List Value} :
      decoder.StandsFor raw count → 0 ≤ count.toInt →
      count.toInt ≤ decoder.limits.arrayLength →
      decoder.memory.readArray asked base count.toInt.toNat = .ok elements →
      (values.length : Int) = count.toInt →
      List.Forall₂ (fun cell value => Value.IsSingle (.ofCell cell) value) elements
        values →
      Conforms decoder .floatArray [base, raw] (.list values)

/-- One conforming value for each tag, in order, with the cells of all. -/
inductive ConformAll (decoder : Decoder) : List Tag → List Cell → List Value → Prop where
  | nil : ConformAll decoder [] [] []
  | cons {tag : Tag} {rest : List Tag} {own cells : List Cell} {value : Value}
      {values : List Value} :
      decoder.Conforms tag own value → ConformAll decoder rest cells values →
      ConformAll decoder (tag :: rest) (own ++ cells) (value :: values)

theorem ConformAll.length {decoder : Decoder} {tags : List Tag} {cells : List Cell}
    {values : List Value} (conform : decoder.ConformAll tags cells values) :
    values.length = tags.length := by
  induction conform with
  | nil => rfl
  | cons _ _ ih => rw [List.length_cons, List.length_cons, ih]

end Decoder

theorem Cell.toInt_bounds (cell : Cell) :
    -2 ^ 31 ≤ cell.toInt ∧ cell.toInt ≤ 2 ^ 31 - 1 := by
  have most := Int32.toInt_lt cell
  exact ⟨Int32.le_toInt cell, by omega⟩

theorem Memory.length_readArray {memory : Memory} {asked length : Nat} {base : Cell}
    {elements : List Cell} (read : memory.readArray asked base length = .ok elements) :
    elements.length = length := by
  cases resolved : memory.resolve asked base with
  | error error =>
      rw [readArray, resolved] at read
      cases read
  | ok cells =>
      rw [readArray, resolved] at read
      change (if length ≤ cells.length then _ else _) = _ at read
      split at read
      · cases read
        exact List.length_take_of_le ‹_›
      · cases read

namespace Decoder

open Decoding

variable (decoder : Decoder)

theorem takes_scalar :
    Takes decoder.scalar fun own cell =>
      ∃ raw, own = [raw] ∧ decoder.StandsFor raw cell := by
  apply takes_take.bind
  rintro _ raw rfl
  cases passing : decoder.passing with
  | byValue => exact takes_pure ⟨raw, rfl, .inl ⟨passing, rfl⟩⟩
  | byReference =>
      apply (takes_ask fun asked => decoder.memory.deref asked raw).mono
      rintro _ cell ⟨rfl, answered⟩
      exact ⟨raw, rfl, .inr ⟨passing, answered⟩⟩

/-- A text is mended in any case, and where it has to be UTF-8 there is nothing to
mend. -/
theorem takes_text :
    Takes decoder.text fun own text =>
      ∃ address asked bytes, own = [address] ∧
        decoder.memory.readText asked address decoder.limits.textLength = .ok bytes ∧
        text = Text.decodeLossy bytes := by
  apply takes_take.bind
  rintro _ address rfl
  apply (takes_ask fun asked =>
    decoder.memory.readText asked address decoder.limits.textLength).bind
  rintro _ bytes ⟨rfl, asked, read⟩
  split
  · cases strict : Text.decodeStrict bytes with
    | none => exact takes_throw _ _
    | some text =>
        exact takes_pure ⟨address, asked, bytes, rfl, read,
          (Text.decodeLossy_of_strict strict).symm⟩
  · exact takes_pure ⟨address, asked, bytes, rfl, read, rfl⟩

theorem takes_array :
    Takes decoder.array fun own elements =>
      ∃ base raw count asked, own = [base, raw] ∧ decoder.StandsFor raw count ∧
        0 ≤ count.toInt ∧ count.toInt ≤ decoder.limits.arrayLength ∧
        decoder.memory.readArray asked base count.toInt.toNat = .ok elements := by
  apply takes_take.bind
  rintro _ base rfl
  apply decoder.takes_scalar.bind
  rintro _ count ⟨raw, rfl, stands⟩
  split
  · exact (takes_throw _ fun _ _ => False).bind fun _ _ => False.elim
  · rename_i positive
    dsimp only
    split
    · exact (takes_throw _ fun _ _ => False).bind fun _ _ => False.elim
    · rename_i short
      apply (takes_ask fun asked =>
        decoder.memory.readArray asked base count.toInt.toNat).mono
      rintro _ elements ⟨rfl, asked, read⟩
      exact ⟨base, raw, count, asked, rfl, stands, by omega, by omega, read⟩

/-- Every argument conforms to its tag. -/
theorem takes_argument (tag : Tag) :
    Takes (decoder.argument tag) (decoder.Conforms tag) := by
  cases tag with
  | text =>
      apply decoder.takes_text.bind
      rintro _ text ⟨address, asked, bytes, rfl, read, rfl⟩
      have made := Text.madeOf_decodeLossy bytes
      refine takes_pure (.text read made ?_)
      rw [← String.length_toList]
      exact made.length_le.trans (Memory.length_readText read)
  | int =>
      apply decoder.takes_scalar.bind
      rintro _ cell ⟨raw, rfl, stands⟩
      exact takes_pure (.int stands cell.toInt_bounds.1 cell.toInt_bounds.2)
  | uint =>
      apply decoder.takes_scalar.bind
      rintro _ cell ⟨raw, rfl, stands⟩
      exact takes_pure (.uint stands (Nat.le_sub_one_of_lt cell.unsigned.toNat_lt))
  | float =>
      apply decoder.takes_scalar.bind
      rintro _ cell ⟨raw, rfl, stands⟩
      exact takes_pure (.float stands (Value.isSingle_ofSingle _))
  | intArray =>
      apply decoder.takes_array.bind
      rintro _ elements ⟨base, raw, count, asked, rfl, stands, positive, short, read⟩
      have length := Memory.length_readArray read
      exact takes_pure (.intArray stands positive short read (by omega)
        fun cell _ => cell.toInt_bounds)
  | floatArray =>
      apply decoder.takes_array.bind
      rintro _ elements ⟨base, raw, count, asked, rfl, stands, positive, short, read⟩
      have length := Memory.length_readArray read
      refine takes_pure (.floatArray stands positive short read ?_ ?_)
      · rw [List.length_map]
        omega
      · rw [List.forall₂_map_right_iff, List.forall₂_same]
        exact fun cell _ => Value.isSingle_ofSingle _

theorem takes_arguments (tags : List Tag) :
    Takes (decoder.arguments tags) (decoder.ConformAll tags) := by
  induction tags with
  | nil => exact takes_pure .nil
  | cons tag rest ih =>
      apply (decoder.takes_argument tag).bind
      intro own value conforms
      apply takes_advanceSlot.bind
      rintro _ _ rfl
      apply ih.bind
      intro cells values conform
      exact takes_pure (by simpa using ConformAll.cons conforms conform)

/-- Whatever is decoded conforms to the signature, and is made of the first cells. -/
theorem decodeFrom_conforms {decoder : Decoder} {asked : Nat} {signature : Signature}
    {cells : List Cell} {values : List Value}
    (decoded : (decoder.decodeFrom asked signature cells).1 = .ok values) :
    ∃ own rest, cells = own ++ rest ∧
      decoder.ConformAll signature.tags own values := by
  have gives : outcome (decoder.arguments signature.tags) ⟨Cursor.start cells, asked⟩ =
      (.ok values,
        (outcome (decoder.arguments signature.tags) ⟨Cursor.start cells, asked⟩).2) :=
    Prod.ext decoded rfl
  obtain ⟨own, split, conform⟩ := decoder.takes_arguments signature.tags _ _ _ gives
  exact ⟨own, _, split, conform⟩

end Decoder

namespace Running

variable {first second : Caller σ} {supply : Supply}

/-- Listeners are called with nothing but what the supply builds. -/
theorem takeTurns_congr_caller
    (same : ∀ asked arguments after, supply asked = (.ok arguments, after) →
      ∀ listener, first listener arguments = second listener arguments)
    (name : String) (listeners : List Listener) (asked : Nat) :
    takeTurns first supply name listeners asked =
      takeTurns second supply name listeners asked := by
  induction listeners generalizing asked with
  | nil => rfl
  | cons listener rest ih =>
      rcases built : supply asked with ⟨error | arguments, after⟩
      · simp only [takeTurns, built, ih]
      · simp only [takeTurns, built, ih, call, same asked arguments after built listener]

end Running

open Running

/-- Whatever the memory answers, cells that can be decoded give one value for each tag
of the signature, in order, and each conforms to its tag and to the limits.  A
dispatch with cells calls listeners with such values and nothing else: what they would
do with anything else makes no difference to it. -/
theorem decoded_arguments_conform (memory : Memory) (passing : Passing)
    (cells : List Cell) (asked : Nat) :
    (∀ limits signature values,
      let decoder : Decoder := ⟨memory, passing, limits⟩
      (decoder.decodeFrom asked signature cells).1 = .ok values →
        values.length = signature.length ∧
          ∃ own rest, cells = own ++ rest ∧
            decoder.ConformAll signature.tags own values) ∧
    ∀ (world : World σ) name event, world.bus.event? name = some event →
      let decoder : Decoder := ⟨memory, passing, world.bus.limits⟩
      ∀ first second : Caller σ,
        (∀ listener own rest values, cells = own ++ rest →
          decoder.ConformAll event.signature.tags own values →
          first listener (values.map .plain) = second listener (values.map .plain)) →
        (dispatchCells first name memory passing cells asked).run world =
          (dispatchCells second name memory passing cells asked).run world := by
  constructor
  · intro limits signature values decoder decoded
    obtain ⟨own, rest, split, conform⟩ := Decoder.decodeFrom_conforms decoded
    exact ⟨conform.length, own, rest, split, conform⟩
  · intro world name event found decoder first second same
    have sameBuilt : ∀ asked arguments after,
        Supply.decoded decoder event.signature cells asked = (.ok arguments, after) →
        ∀ listener, first listener arguments = second listener arguments := by
      intro asked arguments after built listener
      rw [Supply.decoded_eq] at built
      cases decoded : (decoder.decodeFrom asked event.signature cells).1 with
      | error error =>
          rw [decoded] at built
          cases built
      | ok values =>
          rw [decoded] at built
          cases built
          obtain ⟨own, rest, split, conform⟩ := Decoder.decodeFrom_conforms decoded
          exact same listener own rest values split conform
    rw [dispatchCells, dispatchCells, dispatchNamed_found first _ found,
      dispatchNamed_found second _ found, takeTurns_congr_caller sameBuilt]

/-- A text that has to be mended, an unsigned number, an infinity and an array.  A
listener that counts its arguments does what one does that takes their number for
granted. -/
theorem four_decoded_arguments_conform :
    let memory := (Segment.mk [97, 255, 0, 5, -6]).memory
    let signature : Signature := .ofTags [.text, .uint, .float, .intArray]
    let cells : List Cell := [0, -1, 0x7F800000, 12, 2]
    let decoder : Decoder := ⟨memory, .byValue, {}⟩
    let values : List Value :=
      [.text "a�", .int 4294967295, .null, .list [.int 5, .int (-6)]]
    let event := Event.assemble "e" signature [⟨⟨1⟩, ⟨1⟩, ⟨0⟩⟩]
    let world : World Unit := World.holding {} () event
    let counting : Caller Unit := fun _ arguments => pure (.ok (.int arguments.length))
    let knowing : Caller Unit := fun _ _ => pure (.ok (.int 4))
    (decoder.decodeFrom 0 signature cells).1 = .ok values ∧
      (∃ own rest, cells = own ++ rest ∧
        decoder.ConformAll signature.tags own values) ∧
      (dispatchCells counting "e" memory .byValue cells 0).run world =
        (dispatchCells knowing "e" memory .byValue cells 0).run world ∧
      ∃ final, (dispatchCells knowing "e" memory .byValue cells 0).run world =
        some (some { result := 4, invoked := 1 }, final) := by
  intro memory signature cells decoder values event world counting knowing
  have decoded : (decoder.decodeFrom 0 signature cells).1 = .ok values := rfl
  have found : world.bus.event? "e" = some event := rfl
  obtain ⟨conform, same⟩ :=
    @decoded_arguments_conform Unit memory .byValue cells 0
  refine ⟨decoded, (conform {} signature values decoded).2, ?_, _, rfl⟩
  apply same world "e" event found
  intro listener own rest handed _ handedConform
  have four : handed.length = 4 := handedConform.length
  simp only [counting, knowing, List.length_map, four]
  rfl

end CellBus
