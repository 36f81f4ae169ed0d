import CellBus.Proofs.NeededCells

/-!
# Steps on one cursor

Whoever holds a cursor may take raw cells, decode arguments and end slots in any order,
and go on with the same cursor after a step that failed.  `Hands` tells which cells a
step hands out, whether it succeeds or fails: they are those by which the cursor moves
on, so a run hands out the first cells of the call, each once.  A slot ends only where
this is asked for.  When the cells run out, the cursor stands where the error says, and
it stays there.
-/

namespace CellBus

variable {α β : Type}

namespace Decoding

/-- From a reading on, a step hands out these raw cells: one each time that a cell is
taken.  A step that fails has handed out what it took before. -/
inductive Hands : {α : Type} → Decoding α → Reading → List Cell → Prop where
  | pure {α : Type} (value : α) (reading : Reading) : Hands (pure value) reading []
  | throw {α : Type} (error : MarshalError) (reading : Reading) :
      Hands (throw error : Decoding α) reading []
  | ask {α : Type} (question : Nat → Except MarshalError α) (reading : Reading) :
      Hands (ask question) reading []
  | advanceSlot (reading : Reading) : Hands advanceSlot reading []
  | taken {reading : Reading} {cell : Cell} {cursor : Cursor} :
      reading.cursor.take = .ok (cell, cursor) → Hands take reading [cell]
  | missing {reading : Reading} {error : MarshalError} :
      reading.cursor.take = .error error → Hands take reading []
  | bind {α β : Type} {first : Decoding α} {next : α → Decoding β}
      {reading middle : Reading} {value : α} {front back : List Cell} :
      Hands first reading front →
      outcome first reading = (.ok value, middle) →
      Hands (next value) middle back →
      Hands (first >>= next) reading (front ++ back)
  | stopped {α β : Type} {first : Decoding α} {next : α → Decoding β}
      {reading middle : Reading} {error : MarshalError} {front : List Cell} :
      Hands first reading front →
      outcome first reading = (.error error, middle) →
      Hands (first >>= next) reading front

/-- The cells that are handed out are those by which the cursor moves on. -/
theorem Hands.moves {step : Decoding α} {reading : Reading} {own : List Cell}
    (hands : Hands step reading own) :
    reading.cursor.remaining = own ++ (outcome step reading).2.cursor.remaining ∧
      (outcome step reading).2.cursor.cell = reading.cursor.cell + own.length := by
  induction hands with
  | pure | throw | advanceSlot => exact ⟨rfl, rfl⟩
  | ask question reading =>
      rw [outcome_ask]
      exact ⟨rfl, rfl⟩
  | @taken reading cell cursor taken =>
      rw [outcome_take, taken]
      obtain ⟨⟨remaining, slot, count⟩, asked⟩ := reading
      cases remaining with
      | nil => cases taken
      | cons first rest =>
          cases taken
          exact ⟨rfl, rfl⟩
  | missing missing =>
      rw [outcome_take, missing]
      exact ⟨rfl, rfl⟩
  | bind _ firstGives _ firstMoves nextMoves =>
      rw [firstGives] at firstMoves
      rw [outcome_bind, firstGives]
      constructor
      · rw [firstMoves.1, nextMoves.1, List.append_assoc]
      · rw [nextMoves.2, firstMoves.2, List.length_append, Nat.add_assoc]
  | stopped _ firstFails firstMoves =>
      rw [firstFails] at firstMoves
      rw [outcome_bind, firstFails]
      exact firstMoves

/-- From every reading on, it is settled which cells the step hands out. -/
def HandsOut (step : Decoding α) : Prop :=
  ∀ reading, ∃ own, Hands step reading own

variable {first : Decoding α} {next : α → Decoding β}

theorem handsOut_pure (value : α) : HandsOut (pure value) :=
  fun reading => ⟨[], .pure value reading⟩

theorem handsOut_throw (error : MarshalError) : HandsOut (throw error : Decoding α) :=
  fun reading => ⟨[], .throw error reading⟩

theorem handsOut_ask (question : Nat → Except MarshalError α) : HandsOut (ask question) :=
  fun reading => ⟨[], .ask question reading⟩

theorem handsOut_advanceSlot : HandsOut advanceSlot :=
  fun reading => ⟨[], .advanceSlot reading⟩

theorem handsOut_take : HandsOut take := by
  intro reading
  cases taken : reading.cursor.take with
  | error error => exact ⟨[], .missing taken⟩
  | ok result => exact ⟨[result.1], .taken taken⟩

theorem HandsOut.bind (handsFirst : HandsOut first)
    (handsNext : ∀ value, HandsOut (next value)) : HandsOut (first >>= next) := by
  intro reading
  obtain ⟨front, hands⟩ := handsFirst reading
  rcases gives : outcome first reading with ⟨error | value, middle⟩
  · exact ⟨front, hands.stopped gives⟩
  · obtain ⟨back, later⟩ := handsNext value middle
    exact ⟨front ++ back, hands.bind gives later⟩

end Decoding

namespace Decoder

open Decoding

variable (decoder : Decoder)

theorem handsOut_scalar : HandsOut decoder.scalar := by
  apply handsOut_take.bind
  intro raw
  split
  · exact handsOut_pure raw
  · exact handsOut_ask _

theorem handsOut_text : HandsOut decoder.text := by
  apply handsOut_take.bind
  intro address
  apply (handsOut_ask _).bind
  intro bytes
  split
  · split
    · exact handsOut_pure _
    · exact handsOut_throw _
  · exact handsOut_pure _

theorem handsOut_array : HandsOut decoder.array := by
  apply handsOut_take.bind
  intro base
  apply decoder.handsOut_scalar.bind
  intro count
  have bounded : HandsOut (do
      if decoder.limits.arrayLength < count.toInt.toNat then
        throw (.arrayTooLong count.toInt.toNat decoder.limits.arrayLength)
      ask fun asked => decoder.memory.readArray asked base count.toInt.toNat) := by
    dsimp only
    split
    · exact (handsOut_throw _).bind fun _ => handsOut_ask _
    · exact handsOut_ask _
  split
  · exact (handsOut_throw _).bind fun _ => bounded
  · exact bounded

theorem handsOut_argument (tag : Tag) : HandsOut (decoder.argument tag) := by
  cases tag with
  | text => exact decoder.handsOut_text.bind fun _ => handsOut_pure _
  | int | uint | float => exact decoder.handsOut_scalar.bind fun _ => handsOut_pure _
  | intArray | floatArray => exact decoder.handsOut_array.bind fun _ => handsOut_pure _

end Decoder

/-- Where a cursor stands after at most `count` more cells were taken in its slot. -/
def Cursor.moved (count : Nat) (cursor : Cursor) : Cursor :=
  ⟨cursor.remaining.drop count, cursor.slot,
    cursor.cell + min count cursor.remaining.length⟩

/-- A step about some cells takes all that are there of them, in the same slot.  Some are
missing exactly if this is its error, and then the error tells where the cursor is
left. -/
theorem Decoding.Uses.cursor {count : Nat} {step : Decoding α} (uses : Uses count step)
    (reading : Reading) :
    (outcome step reading).2.cursor = reading.cursor.moved count ∧
      ((count ≤ reading.cursor.remaining.length ∧ Unshort (outcome step reading).1) ∨
        (reading.cursor.remaining.length < count ∧ (outcome step reading).1 =
          .error (.missingArgument reading.cursor.slot
            (reading.cursor.moved count).cell))) := by
  obtain ⟨⟨remaining, slot, taken⟩, asked⟩ := reading
  dsimp only [Cursor.moved]
  rcases Nat.lt_or_ge remaining.length count with few | all
  · rw [uses.short remaining slot taken asked few, List.drop_of_length_le (Nat.le_of_lt few),
      Nat.min_eq_right (Nat.le_of_lt few)]
    exact ⟨rfl, .inr ⟨few, rfl⟩⟩
  · obtain ⟨result, later, unshort, comes⟩ :=
      uses.enough (remaining.take count) asked (List.length_take_of_le all)
    have whole := comes (remaining.drop count) slot taken
    rw [List.take_append_drop] at whole
    rw [whole, Nat.min_eq_left all]
    exact ⟨rfl, .inl ⟨all, unshort⟩⟩

namespace Cursor

/-- What may be done with a cursor. -/
inductive Step where
  | take
  | advanceSlot
  | decode (decoder : Decoder) (tag : Tag)

namespace Step

open Decoding

/-- What a step answers where it succeeds. -/
def Answer : Step → Type
  | take => Cell
  | advanceSlot => Unit
  | decode .. => Value

def perform : (step : Step) → Decoding step.Answer
  | take => Decoding.take
  | advanceSlot => Decoding.advanceSlot
  | decode decoder tag => decoder.argument tag

/-- Where the steps lead, one after the other, whether they succeed or fail. -/
def performAll (steps : List Step) (reading : Reading) : Reading :=
  steps.foldl (fun reading step => (outcome step.perform reading).2) reading

def isAdvance : Step → Bool
  | advanceSlot => true
  | take | decode .. => false

/-- Addresses are all that the memory of the step refuses, however its answers may
change. -/
def RefusesOnlyAddresses : Step → Prop
  | decode decoder _ => ∀ asked address error,
      decoder.memory.resolve asked address = .error error →
        ∃ refused, error = .invalidAddress refused
  | take | advanceSlot => True

/-- The raw cells that the steps hand out, one after the other. -/
inductive HandAll : List Step → Reading → List Cell → Prop where
  | nil (reading : Reading) : HandAll [] reading []
  | cons {step : Step} {rest : List Step} {reading : Reading} {own others : List Cell} :
      Hands step.perform reading own →
      HandAll rest (outcome step.perform reading).2 others →
      HandAll (step :: rest) reading (own ++ others)

variable {steps : List Step} {reading : Reading}

theorem performAll_append (front back : List Step) (reading : Reading) :
    performAll (front ++ back) reading = performAll back (performAll front reading) :=
  List.foldl_append

theorem handsOut_perform (step : Step) : HandsOut step.perform := by
  cases step with
  | take => exact handsOut_take
  | advanceSlot => exact handsOut_advanceSlot
  | decode decoder tag => exact decoder.handsOut_argument tag

theorem exists_handAll (steps : List Step) (reading : Reading) :
    ∃ handed, HandAll steps reading handed := by
  induction steps generalizing reading with
  | nil => exact ⟨[], .nil reading⟩
  | cons step rest ih =>
      obtain ⟨own, hands⟩ := step.handsOut_perform reading
      obtain ⟨others, later⟩ := ih (outcome step.perform reading).2
      exact ⟨own ++ others, .cons hands later⟩

theorem HandAll.moves {handed : List Cell} (hands : HandAll steps reading handed) :
    reading.cursor.remaining = handed ++ (performAll steps reading).cursor.remaining ∧
      (performAll steps reading).cursor.cell = reading.cursor.cell + handed.length := by
  induction hands with
  | nil => exact ⟨rfl, rfl⟩
  | cons first _ ih =>
      have moves := first.moves
      constructor
      · rw [moves.1, ih.1, List.append_assoc]
        rfl
      · rw [List.length_append, ← Nat.add_assoc, ← moves.2]
        exact ih.2

section Start

variable {cells handed : List Cell} {asked : Nat}

theorem HandAll.split (hands : HandAll steps ⟨start cells, asked⟩ handed) :
    cells = handed ++ (performAll steps ⟨start cells, asked⟩).cursor.remaining ∧
      (performAll steps ⟨start cells, asked⟩).cursor.cell = handed.length := by
  obtain ⟨split, count⟩ := hands.moves
  exact ⟨split, count.trans (Nat.zero_add _)⟩

/-- A run hands out the first cells, as many as the cursor counts. -/
theorem handAll_iff :
    HandAll steps ⟨start cells, asked⟩ handed ↔
      handed = cells.take (performAll steps ⟨start cells, asked⟩).cursor.cell := by
  have only : ∀ handed, HandAll steps ⟨start cells, asked⟩ handed →
      handed = cells.take (performAll steps ⟨start cells, asked⟩).cursor.cell := by
    intro handed hands
    obtain ⟨split, count⟩ := hands.split
    rw [count]
    exact List.prefix_iff_eq_take.mp ⟨_, split.symm⟩
  constructor
  · exact only handed
  · rintro rfl
    obtain ⟨found, hands⟩ := exists_handAll steps ⟨start cells, asked⟩
    exact only found hands ▸ hands

theorem cell_le_length (steps : List Step) (cells : List Cell) (asked : Nat) :
    (performAll steps ⟨start cells, asked⟩).cursor.cell ≤ cells.length := by
  obtain ⟨handed, hands⟩ := exists_handAll steps ⟨start cells, asked⟩
  obtain ⟨split, count⟩ := hands.split
  have total := congrArg List.length split
  rw [List.length_append] at total
  omega

end Start

theorem cell_le_performAll (steps : List Step) (reading : Reading) :
    reading.cursor.cell ≤ (performAll steps reading).cursor.cell := by
  obtain ⟨handed, hands⟩ := exists_handAll steps reading
  exact hands.moves.2 ▸ Nat.le_add_right _ _

/-- How many cells a step is about. -/
def cells : Step → Nat
  | take => 1
  | advanceSlot => 0
  | decode _ tag => tag.cells

theorem uses_decode {decoder : Decoder} {tag : Tag}
    (refusing : (decode decoder tag).RefusesOnlyAddresses) :
    Uses tag.cells (decoder.argument tag) := by
  apply Decoder.uses_argument
  intro asked address error refused
  obtain ⟨_, rfl⟩ := refusing asked address error refused
  exact id

theorem uses_perform {step : Step} (refusing : step.RefusesOnlyAddresses)
    (other : step.isAdvance = false) : Uses step.cells step.perform := by
  cases step with
  | take =>
      have uses : Uses 1 (Decoding.take >>= pure) := uses_take uses_pure
      rwa [bind_pure] at uses
  | advanceSlot => cases other
  | decode decoder tag => exact uses_decode refusing

/-- Only where a slot is ended the next one begins. -/
theorem slot_perform {step : Step} (refusing : step.RefusesOnlyAddresses)
    (reading : Reading) :
    (outcome step.perform reading).2.cursor.slot =
      reading.cursor.slot + step.isAdvance.toNat := by
  cases advance : step.isAdvance with
  | false =>
      rw [((uses_perform refusing advance).cursor reading).1]
      rfl
  | true =>
      cases step with
      | advanceSlot => rfl
      | take | decode => cases advance

theorem slot_performAll (refusing : ∀ step ∈ steps, step.RefusesOnlyAddresses)
    (reading : Reading) :
    (performAll steps reading).cursor.slot =
      reading.cursor.slot + steps.countP isAdvance := by
  induction steps generalizing reading with
  | nil => rfl
  | cons step rest ih =>
      rw [List.forall_mem_cons] at refusing
      change (performAll rest (outcome step.perform reading).2).cursor.slot = _
      rw [ih refusing.2, slot_perform refusing.1, List.countP_cons]
      cases step.isAdvance with
      | false => rfl
      | true =>
          rw [if_pos rfl, Bool.toNat_true]
          omega

/-- That a cell is missing is the error exactly where fewer cells are left than the step
is about.  It names the slot and the cell at which the cursor is left, and no cell is
left there. -/
theorem shortage {step : Step} (refusing : step.RefusesOnlyAddresses) {reading : Reading}
    {slot cell : Nat}
    (missing : (outcome step.perform reading).1 = .error (.missingArgument slot cell)) :
    (outcome step.perform reading).2.cursor = ⟨[], slot, cell⟩ ∧
      slot = reading.cursor.slot := by
  cases advance : step.isAdvance with
  | false =>
      obtain ⟨left, ⟨-, unshort⟩ | ⟨few, short⟩⟩ :=
        (uses_perform refusing advance).cursor reading
      · exact absurd trivial (unshort _ missing)
      · rw [short] at missing
        cases missing
        rw [left, Cursor.moved, List.drop_of_length_le (Nat.le_of_lt few)]
        exact ⟨rfl, rfl⟩
  | true =>
      cases step with
      | advanceSlot => cases missing
      | take | decode => cases advance

/-- Where no cell is left the cursor stays, but that slots are ended. -/
theorem performAll_exhausted (refusing : ∀ step ∈ steps, step.RefusesOnlyAddresses)
    {slot cell : Nat} (exhausted : reading.cursor = ⟨[], slot, cell⟩) :
    (performAll steps reading).cursor = ⟨[], slot + steps.countP isAdvance, cell⟩ := by
  obtain ⟨handed, hands⟩ := exists_handAll steps reading
  obtain ⟨split, count⟩ := hands.moves
  have slots := slot_performAll refusing reading
  rw [exhausted] at split count slots
  obtain ⟨rfl, none⟩ := List.append_eq_nil_iff.mp split.symm
  generalize (performAll steps reading).cursor = left at *
  obtain ⟨_, _, _⟩ := left
  cases none
  cases count
  cases slots
  rfl

end Step

end Cursor

open Cursor Decoding

/-- Let addresses be all that the memories of the decoders refuse, however their answers
may change.  All along a run of steps on one cursor, whether they succeed or fail, the
slot counts how often a slot was ended, and the cell counts the raw cells that were handed
out, which are the first of the call, each once and in order.  A decoded argument takes as
many cells as its tag says, one that fails no more.  The error that a cell is missing
tells the slot and the cell at which the cursor is left; whatever is done with the cursor
afterwards, taking a cell fails with the same error, but for the slot if that is
ended. -/
theorem cursor_counts_slots_and_cells (cells : List Cell) (asked : Nat)
    (steps : List Cursor.Step) (refusing : ∀ step ∈ steps, step.RefusesOnlyAddresses) :
    let begun : Reading := ⟨Cursor.start cells, asked⟩
    (∀ earlier, earlier <+: steps →
      let now := Step.performAll earlier begun
      now.cursor.slot = earlier.countP Step.isAdvance ∧
        now.cursor.cell ≤ cells.length ∧
        (∀ handed, Step.HandAll earlier begun handed ↔
          handed = cells.take now.cursor.cell) ∧
        ∀ before, before <+: earlier →
          (Step.performAll before begun).cursor.cell ≤ now.cursor.cell) ∧
    (∀ earlier decoder tag later,
      steps = earlier ++ Step.decode decoder tag :: later →
      let now := Step.performAll earlier begun
      let decoded := outcome (decoder.argument tag) now
      (∀ value, decoded.1 = .ok value →
          decoded.2.cursor.cell = now.cursor.cell + tag.cells) ∧
        ∀ error, decoded.1 = .error error →
          decoded.2.cursor.cell ≤ now.cursor.cell + tag.cells) ∧
    ∀ earlier step later slot cell, steps = earlier ++ step :: later →
      let now := Step.performAll earlier begun
      let performed := outcome step.perform now
      performed.1 = .error (.missingArgument slot cell) →
        slot = now.cursor.slot ∧ slot = performed.2.cursor.slot ∧
          cell = performed.2.cursor.cell ∧
          ∀ more, more <+: later →
            let left := Step.performAll (earlier ++ step :: more) begun
            outcome Decoding.take left =
              (.error (.missingArgument (slot + more.countP Step.isAdvance) cell),
                left) := by
  intro begun
  refine ⟨?_, ?_, ?_⟩
  · intro earlier isInitial now
    have refusingEarlier : ∀ step ∈ earlier, step.RefusesOnlyAddresses :=
      fun step member => refusing step (isInitial.subset member)
    refine ⟨?_, Step.cell_le_length earlier cells asked, fun _ => Step.handAll_iff, ?_⟩
    · exact (Step.slot_performAll refusingEarlier begun).trans (Nat.zero_add _)
    · rintro before ⟨between, rfl⟩
      have further := Step.cell_le_performAll between (Step.performAll before begun)
      rwa [← Step.performAll_append] at further
  · rintro earlier decoder tag later rfl now decoded
    have uses := Step.uses_decode (refusing (.decode decoder tag) (by simp))
    obtain ⟨left, ⟨all, -⟩ | ⟨few, short⟩⟩ := uses.cursor now
    all_goals rw [show decoded.2.cursor = _ from left, Cursor.moved]
    · rw [Nat.min_eq_left all]
      exact ⟨fun _ _ => rfl, fun _ _ => Nat.le_refl _⟩
    · constructor
      · intro value made
        cases short.symm.trans made
      · intro error _
        exact Nat.add_le_add_left (Nat.min_le_left _ _) _
  · rintro earlier step later slot cell rfl now performed missing
    obtain ⟨exhausted, same⟩ := Step.shortage (refusing step (by simp)) missing
    refine ⟨same, (congrArg Cursor.slot exhausted).symm,
      (congrArg Cursor.cell exhausted).symm, ?_⟩
    intro more isInitial left
    have refusingMore : ∀ step ∈ more, step.RefusesOnlyAddresses := by
      intro step member
      have behind := isInitial.subset member
      exact refusing step (by simp [behind])
    have stays : left.cursor = ⟨[], slot + more.countP Step.isAdvance, cell⟩ := by
      rw [show left = _ from Step.performAll_append earlier (step :: more) begun]
      exact Step.performAll_exhausted refusingMore exhausted
    rw [outcome_take, stays]
    rfl

/-- Addresses are all that the memory of a segment refuses. -/
theorem Segment.refuses_only_addresses (segment : Segment) (asked : Nat) (address : Cell)
    (error : MarshalError) (refused : segment.memory.resolve asked address = .error error) :
    ∃ refused, error = .invalidAddress refused := by
  change segment.resolve address = _ at refused
  rw [resolve] at refused
  split at refused
  · cases refused
  · cases refused
    exact ⟨address, rfl⟩

/-- A number whose address is refused has taken its cell, and an array the cell of its
base before its length is missed.  Taking a cell misses the same one then, and the slot
that is ended makes it one of the next. -/
theorem cells_run_out_within_array :
    let memory := (Segment.mk [7]).memory
    let decoder : Decoder := ⟨memory, .byReference, {}⟩
    let earlier : List Cursor.Step := [.take, .decode decoder .int]
    let later : List Cursor.Step := [.take, .advanceSlot]
    let steps := earlier ++ .decode decoder .intArray :: later
    let begun : Reading := ⟨Cursor.start [0, 99, 8], 0⟩
    (∀ step ∈ steps, step.RefusesOnlyAddresses) ∧
      (outcome (decoder.argument .int) (Step.performAll [.take] begun)).1 =
        .error (.invalidAddress 99) ∧
      (Step.performAll earlier begun).cursor.slot = 0 ∧
      (∀ handed, Step.HandAll earlier begun handed ↔ handed = [0, 99]) ∧
      (outcome (decoder.argument .intArray) (Step.performAll earlier begun)).1 =
        .error (.missingArgument 0 3) ∧
      outcome Decoding.take (Step.performAll steps begun) =
        (.error (.missingArgument 1 3), Step.performAll steps begun) := by
  intro memory decoder earlier later steps begun
  have numbers := (Segment.mk [7]).refuses_only_addresses
  have refusing : ∀ step ∈ steps, step.RefusesOnlyAddresses := by
    simp only [steps, earlier, later, List.cons_append, List.nil_append,
      List.forall_mem_cons, Step.RefusesOnlyAddresses]
    exact ⟨trivial, numbers, numbers, trivial, trivial, by simp⟩
  obtain ⟨along, -, short⟩ := cursor_counts_slots_and_cells [0, 99, 8] 0 steps refusing
  obtain ⟨slots, -, handed, -⟩ := along earlier (List.prefix_append _ _)
  have missing : (outcome (decoder.argument .intArray)
      (Step.performAll earlier begun)).1 = .error (.missingArgument 0 3) := rfl
  obtain ⟨-, -, -, stays⟩ :=
    short earlier (.decode decoder .intArray) later 0 3 rfl missing
  exact ⟨refusing, rfl, slots, handed, missing, stays later List.prefix_rfl⟩

end CellBus
