import CellBus.Proofs.DecodingSteps

/-!
# Arguments and their own cells

Over a memory whose answers never change an argument is made of its own cells
alone, two for an array and one for anything else.  `valueOf` says what it is made
of them and `valuesFrom` goes through a signature that way, with no count of
questions and no state.  Both agree with the decoder, whose cursor always ends up
behind the cells of the argument, also where decoding fails.
-/

namespace CellBus

variable {α β : Type}

namespace Cursor

/-- The cells of an argument under way, as far as they are there. -/
def own (cursor : Cursor) (tag : Tag) : List Cell := cursor.remaining.take tag.cells

/-- The cursor behind the cells of an argument. -/
def past (cursor : Cursor) (tag : Tag) : Cursor :=
  ⟨cursor.remaining.drop tag.cells, cursor.slot,
    cursor.cell + (cursor.own tag).length⟩

/-- What is reported when the cells of an argument are not all there. -/
def shortage (cursor : Cursor) (tag : Tag) : MarshalError :=
  .missingArgument cursor.slot (cursor.past tag).cell

end Cursor

namespace Decoder

/-- The cell that a scalar or a length stands for. -/
def scalarOf (decoder : Decoder) (raw : Cell) : Except MarshalError Cell :=
  match decoder.passing with
  | .byValue => .ok raw
  | .byReference => decoder.memory.deref 0 raw

/-- The text at an address. -/
def textOf (decoder : Decoder) (address : Cell) : Except MarshalError String := do
  let bytes ← decoder.memory.readText 0 address decoder.limits.textLength
  if decoder.limits.strictUtf8 then
    match Text.decodeStrict bytes with
    | some text => return text
    | none => throw (.invalidUtf8 address)
  else return Text.decodeLossy bytes

/-- As many elements at a base address as a cell says. -/
def elementsOf (decoder : Decoder) (base count : Cell) :
    Except MarshalError (List Cell) :=
  if count.toInt < 0 then .error (.negativeLength count)
  else if decoder.limits.arrayLength < count.toInt.toNat then
    .error (.arrayTooLong count.toInt.toNat decoder.limits.arrayLength)
  else decoder.memory.readArray 0 base count.toInt.toNat

/-- The elements at a base address, as many as the cell after it stands for. -/
def arrayOf (decoder : Decoder) (base raw : Cell) : Except MarshalError (List Cell) :=
  decoder.scalarOf raw >>= decoder.elementsOf base

/-- What an argument is made of its own cells. -/
def valueOf (decoder : Decoder) (shortage : MarshalError) :
    Tag → List Cell → Except MarshalError Value
  | .text, [address] => do return .text (← decoder.textOf address)
  | .int, [raw] => do return .int (← decoder.scalarOf raw).toInt
  | .uint, [raw] => do return .int (← decoder.scalarOf raw).unsigned.toNat
  | .float, [raw] => do return floatValue (← decoder.scalarOf raw)
  | .intArray, [base, raw] => do
    return .list ((← decoder.arrayOf base raw).map fun cell => .int cell.toInt)
  | .floatArray, [base, raw] => do
    return .list ((← decoder.arrayOf base raw).map floatValue)
  | _, _ => .error shortage

/-- The arguments for a list of tags, each made of its own cells. -/
def valuesFrom (decoder : Decoder) (cursor : Cursor) :
    List Tag → Except MarshalError (List Value)
  | [] => return []
  | tag :: rest => do
    let value ← decoder.valueOf (cursor.shortage tag) tag (cursor.own tag)
    return value :: (← decoder.valuesFrom (cursor.past tag).advanceSlot rest)

end Decoder

namespace Decoding

/-- However many questions were asked before, a step gives the result and takes the
cursor from one place to the other. -/
def Yields (step : Decoding α) (cursor : Cursor) (result : Except MarshalError α)
    (after : Cursor) : Prop :=
  ∀ asked, ∃ later, outcome step ⟨cursor, asked⟩ = (result, ⟨after, later⟩)

variable {cursor middle after : Cursor} {first : Decoding α} {next : α → Decoding β}

theorem yields_pure (value : α) (cursor : Cursor) :
    Yields (pure value) cursor (.ok value) cursor :=
  fun asked => ⟨asked, rfl⟩

theorem yields_throw (error : MarshalError) (cursor : Cursor) :
    Yields (throw error : Decoding α) cursor (.error error) cursor :=
  fun asked => ⟨asked, rfl⟩

theorem yields_advanceSlot (cursor : Cursor) :
    Yields advanceSlot cursor (.ok ()) cursor.advanceSlot :=
  fun asked => ⟨asked, rfl⟩

theorem yields_take (cell : Cell) (rest : List Cell) (slot taken : Nat) :
    Yields take ⟨cell :: rest, slot, taken⟩ (.ok cell) ⟨rest, slot, taken + 1⟩ := by
  intro asked
  rw [outcome_take]
  exact ⟨asked, rfl⟩

theorem yields_take_nil (slot taken : Nat) :
    Yields take ⟨[], slot, taken⟩ (.error (.missingArgument slot taken))
      ⟨[], slot, taken⟩ := by
  intro asked
  rw [outcome_take]
  exact ⟨asked, rfl⟩

theorem yields_ask (question : Nat → Except MarshalError α)
    (constant : ∀ later, question later = question 0) (cursor : Cursor) :
    Yields (ask question) cursor (question 0) cursor := by
  intro asked
  rw [outcome_ask, constant]
  exact ⟨asked + 1, rfl⟩

theorem Yields.bind {value : α} {result : Except MarshalError β}
    (gives : Yields first cursor (.ok value) middle)
    (later : Yields (next value) middle result after) :
    Yields (first >>= next) cursor result after := by
  intro asked
  obtain ⟨between, firstOutcome⟩ := gives asked
  rw [outcome_bind, firstOutcome]
  exact later between

theorem Yields.bind_error {error : MarshalError}
    (fails : Yields first cursor (.error error) after) :
    Yields (first >>= next) cursor (.error error) after := by
  intro asked
  obtain ⟨later, firstOutcome⟩ := fails asked
  rw [outcome_bind, firstOutcome]
  exact ⟨later, rfl⟩

/-- What follows takes no more cells. -/
theorem Yields.then {result : Except MarshalError α}
    {following : α → Except MarshalError β}
    (gives : Yields first cursor result after)
    (later : ∀ value, Yields (next value) after (following value) after) :
    Yields (first >>= next) cursor (result >>= following) after := by
  cases result with
  | error error => exact gives.bind_error
  | ok value => exact gives.bind (later value)

end Decoding

namespace Decoder

open Decoding

variable {decoder : Decoder}

theorem yields_scalar_nil (slot taken : Nat) :
    Yields decoder.scalar ⟨[], slot, taken⟩ (.error (.missingArgument slot taken))
      ⟨[], slot, taken⟩ :=
  (yields_take_nil slot taken).bind_error

theorem yields_array_short (remaining : List Cell) (short : remaining.length < 2)
    (slot taken : Nat) :
    Yields decoder.array ⟨remaining, slot, taken⟩
      (.error (.missingArgument slot (taken + remaining.length)))
      ⟨[], slot, taken + remaining.length⟩ := by
  match remaining, short with
  | [], _ => exact (yields_take_nil slot taken).bind_error
  | [base], _ =>
      apply (yields_take base [] slot taken).bind
      exact (yields_scalar_nil slot (taken + 1)).bind_error

theorem valuesFrom_cons_eq_ok_iff {cursor : Cursor} {tag : Tag} {rest : List Tag}
    {values : List Value} :
    decoder.valuesFrom cursor (tag :: rest) = .ok values ↔
      ∃ value later,
        decoder.valueOf (cursor.shortage tag) tag (cursor.own tag) = .ok value ∧
          decoder.valuesFrom (cursor.past tag).advanceSlot rest = .ok later ∧
          values = value :: later := by
  rw [valuesFrom]
  cases decoder.valueOf (cursor.shortage tag) tag (cursor.own tag) with
  | error error => simp [bind, Except.bind]
  | ok value =>
      cases decoder.valuesFrom (cursor.past tag).advanceSlot rest with
      | error error => simp [bind, Except.bind]
      | ok later => simp [bind, Except.bind, pure, Except.pure, eq_comm]

section Steady

variable (steady : decoder.memory.SteadyFrom 0)

include steady

theorem yields_scalar (raw : Cell) (rest : List Cell) (slot taken : Nat) :
    Yields decoder.scalar ⟨raw :: rest, slot, taken⟩ (decoder.scalarOf raw)
      ⟨rest, slot, taken + 1⟩ := by
  apply (yields_take raw rest slot taken).bind
  rw [scalarOf]
  cases decoder.passing with
  | byValue => exact yields_pure raw _
  | byReference =>
      apply yields_ask fun asked => decoder.memory.deref asked raw
      intro later
      rw [Memory.deref, Memory.deref, steady later (Nat.zero_le later)]

theorem yields_text (address : Cell) (rest : List Cell) (slot taken : Nat) :
    Yields decoder.text ⟨address :: rest, slot, taken⟩ (decoder.textOf address)
      ⟨rest, slot, taken + 1⟩ := by
  apply (yields_take address rest slot taken).bind
  have reads := yields_ask (fun asked =>
      decoder.memory.readText asked address decoder.limits.textLength) (by
    intro later
    rw [Memory.readText, Memory.readText, steady later (Nat.zero_le later)])
    ⟨rest, slot, taken + 1⟩
  apply reads.then
  intro bytes
  split
  · cases Text.decodeStrict bytes with
    | none => exact yields_throw _ _
    | some text => exact yields_pure text _
  · exact yields_pure _ _

theorem yields_array (base raw : Cell) (rest : List Cell) (slot taken : Nat) :
    Yields decoder.array ⟨base :: raw :: rest, slot, taken⟩
      (decoder.arrayOf base raw) ⟨rest, slot, taken + 1 + 1⟩ := by
  apply (yields_take base (raw :: rest) slot taken).bind
  apply (yields_scalar steady raw rest slot (taken + 1)).then
  intro count
  have reads := yields_ask (fun asked =>
      decoder.memory.readArray asked base count.toInt.toNat) (by
    intro later
    rw [Memory.readArray, Memory.readArray, steady later (Nat.zero_le later)])
    ⟨rest, slot, taken + 1 + 1⟩
  unfold elementsOf
  split
  · exact (yields_throw _ _).bind_error
  · dsimp only
    split
    · exact (yields_throw _ _).bind_error
    · exact reads

theorem yields_argument (tag : Tag) (cursor : Cursor) :
    Yields (decoder.argument tag) cursor
      (decoder.valueOf (cursor.shortage tag) tag (cursor.own tag))
      (cursor.past tag) := by
  obtain ⟨remaining, slot, taken⟩ := cursor
  cases tag with
  | text =>
      cases remaining with
      | nil => exact (yields_take_nil slot taken).bind_error.bind_error
      | cons address rest =>
          exact (yields_text steady address rest slot taken).then
            fun _ => yields_pure _ _
  | int | uint | float =>
      cases remaining with
      | nil => exact (yields_scalar_nil slot taken).bind_error
      | cons raw rest =>
          exact (yields_scalar steady raw rest slot taken).then
            fun _ => yields_pure _ _
  | intArray | floatArray =>
      match remaining with
      | [] => exact (yields_array_short [] Nat.two_pos slot taken).bind_error
      | [base] => exact (yields_array_short [base] Nat.one_lt_two slot taken).bind_error
      | base :: raw :: rest =>
          exact (yields_array steady base raw rest slot taken).then
            fun _ => yields_pure _ _

theorem yields_arguments (tags : List Tag) (cursor : Cursor) :
    ∃ after, Yields (decoder.arguments tags) cursor
      (decoder.valuesFrom cursor tags) after := by
  induction tags generalizing cursor with
  | nil => exact ⟨cursor, yields_pure [] cursor⟩
  | cons tag rest ih =>
      have own := yields_argument steady tag cursor
      rw [arguments, valuesFrom]
      cases made : decoder.valueOf (cursor.shortage tag) tag (cursor.own tag) with
      | error error =>
          rw [made] at own
          exact ⟨cursor.past tag, own.bind_error⟩
      | ok value =>
          rw [made] at own
          -- Argument, end of slot, the arguments behind it.
          obtain ⟨after, later⟩ := ih (cursor.past tag).advanceSlot
          refine ⟨after, own.bind ?_⟩
          apply (yields_advanceSlot (cursor.past tag)).bind
          exact later.then fun values => yields_pure (value :: values) after

/-- The decoder makes every argument of its own cells. -/
theorem decodeAll_eq_valuesFrom (signature : Signature) (cells : List Cell) :
    decoder.decodeAll signature cells =
      decoder.valuesFrom (Cursor.start cells) signature.tags := by
  obtain ⟨after, yields⟩ :=
    yields_arguments steady signature.tags (Cursor.start cells)
  obtain ⟨later, ran⟩ := yields 0
  exact congrArg Prod.fst ran

end Steady

end Decoder

end CellBus
