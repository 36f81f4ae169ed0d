import CellBus.Proofs.ExactNumbers
import CellBus.Proofs.OwnCells
import CellBus.Proofs.SegmentBlocks
import CellBus.Proofs.TextLayouts
import Mathlib.Data.List.Forall2

/-!
# Marshaling and decoding

A host that lays texts and arrays out in a segment, and passes their addresses and
scalars in the way that the decoder expects, gets its arguments decoded as they
were.  What a push stored stays where it is, so an argument is right on its own,
and a whole list of them is right argument by argument.
-/

namespace CellBus

/-- An argument as a host has it. -/
inductive Datum where
  | text (characters : String)
  | int (number : Int32)
  | uint (number : UInt32)
  | float (number : Binary32)
  | intArray (numbers : List Int32)
  | floatArray (numbers : List Binary32)

namespace Datum

def tag : Datum → Tag
  | text _ => .text
  | int _ => .int
  | uint _ => .uint
  | float _ => .float
  | intArray _ => .intArray
  | floatArray _ => .floatArray

/-- What a host may marshal: a text that is not too long and has no zero character,
an array that is neither empty nor too long, and any number. -/
def Fits (limits : Limits) : Datum → Prop
  | text characters =>
    '\x00' ∉ characters.toList ∧ (Text.encode characters).length ≤ limits.textLength
  | intArray numbers => numbers ≠ [] ∧ numbers.length ≤ limits.arrayLength
  | floatArray numbers => numbers ≠ [] ∧ numbers.length ≤ limits.arrayLength
  | int _ | uint _ | float _ => True

/-- The plain value of an argument.  A single is the double for the same number. -/
def Denotes : Datum → Value → Prop
  | text characters, value => value = .text characters
  | int number, value => value = .int number.toInt
  | uint number, value => value = .int number.toNat
  | float number, value => value.IsSingle number
  | intArray numbers, value =>
    value = .list (numbers.map fun number => .int number.toInt)
  | floatArray numbers, value =>
    ∃ items, value = .list items ∧ List.Forall₂ Value.IsSingle numbers items

end Datum

/-- A cell stands for a scalar, either itself or as the address of a push. -/
inductive Carries (placed : List (Push × Cell)) : Passing → Cell → Cell → Prop where
  | value (scalar : Cell) : Carries placed .byValue scalar scalar
  | cell {scalar address : Cell} :
      (Push.cell scalar, address) ∈ placed →
      Carries placed .byReference scalar address
  | float {number : Binary32} {address : Cell} :
      (Push.float number, address) ∈ placed →
      Carries placed .byReference number.toCell address

/-- The cells with which a host passes an argument whose data it laid out. -/
inductive Passed (placed : List (Push × Cell)) (passing : Passing) :
    Datum → List Cell → Prop where
  | text {characters : String} {address : Cell} :
      (Push.text characters, address) ∈ placed →
      Passed placed passing (.text characters) [address]
  | packedText {characters : String} {address : Cell} :
      (Push.packedText characters, address) ∈ placed →
      Passed placed passing (.text characters) [address]
  | int {number : Int32} {raw : Cell} :
      Carries placed passing number raw →
      Passed placed passing (.int number) [raw]
  | uint {number : UInt32} {raw : Cell} :
      Carries placed passing number.toInt32 raw →
      Passed placed passing (.uint number) [raw]
  | float {number : Binary32} {raw : Cell} :
      Carries placed passing number.toCell raw →
      Passed placed passing (.float number) [raw]
  | intArray {numbers : List Int32} {base raw : Cell} :
      (Push.array numbers, base) ∈ placed →
      Carries placed passing (Cell.ofInt numbers.length) raw →
      Passed placed passing (.intArray numbers) [base, raw]
  | floatArray {numbers : List Binary32} {base raw : Cell} :
      (Push.floats numbers, base) ∈ placed →
      Carries placed passing (Cell.ofInt numbers.length) raw →
      Passed placed passing (.floatArray numbers) [base, raw]

theorem Passed.length {placed : List (Push × Cell)} {passing : Passing} {datum : Datum}
    {own : List Cell} (passed : Passed placed passing datum own) :
    own.length = datum.tag.cells := by
  cases passed <;> rfl

/-- The memory has every block at the address that its push returned, and no block
is longer than an array can be. -/
def Memory.Stores (memory : Memory) (placed : List (Push × Cell)) : Prop :=
  ∀ push address, (push, address) ∈ placed → push.block ≠ [] →
    push.block.length ≤ 2 ^ 29 ∧
      ∃ after, memory.resolve 0 address = .ok (push.block ++ after)

theorem Segment.stores_layOut {segment : Segment} {pushes : List Push}
    (fits : (segment.layOut pushes).2.cells.length ≤ 2 ^ 29) :
    (segment.layOut pushes).2.memory.Stores (pushes.zip (segment.layOut pushes).1) := by
  intro push address placed nonempty
  refine ⟨?_, resolve_layOut fits placed nonempty⟩
  obtain ⟨before, after, -, laid⟩ := exists_block_layOut placed
  rw [laid, List.length_append, List.length_append] at fits
  omega

namespace Decoder

variable {decoder : Decoder} {placed : List (Push × Cell)}
variable (stores : decoder.memory.Stores placed)

include stores

theorem deref_placed {push : Push} {stored address : Cell}
    (laid : (push, address) ∈ placed) (block : push.block = [stored]) :
    decoder.memory.deref 0 address = .ok stored := by
  obtain ⟨-, after, found⟩ := stores push address laid (by simp [block])
  rw [Memory.deref, found, block]
  rfl

theorem scalarOf_carried {scalar raw : Cell}
    (carried : Carries placed decoder.passing scalar raw) :
    decoder.scalarOf raw = .ok scalar := by
  rw [scalarOf]
  cases passing : decoder.passing with
  | byValue =>
      rw [passing] at carried
      cases carried
      rfl
  | byReference =>
      rw [passing] at carried
      cases carried with
      | cell laid => exact deref_placed stores laid rfl
      | float laid => exact deref_placed stores laid rfl

theorem textOf_placed {characters : String} {push : Push} {address : Cell}
    (laid : (push, address) ∈ placed) (nonempty : push.block ≠ [])
    (holds : ∀ after,
      Memory.HoldsText (push.block ++ after) (Text.encode characters))
    (short : (Text.encode characters).length ≤ decoder.limits.textLength) :
    decoder.textOf address = .ok characters := by
  obtain ⟨-, after, found⟩ := stores push address laid nonempty
  rw [textOf, Memory.readText_of_holdsText found (holds after) short]
  change (if decoder.limits.strictUtf8 then _ else _) = _
  rw [Text.decodeStrict_encode, Text.decodeLossy_encode]
  split <;> rfl

theorem arrayOf_placed {push : Push} {base raw : Cell}
    (laid : (push, base) ∈ placed) (nonempty : push.block ≠ [])
    (carried : Carries placed decoder.passing (Cell.ofInt push.block.length) raw)
    (short : push.block.length ≤ decoder.limits.arrayLength) :
    decoder.arrayOf base raw = .ok push.block := by
  obtain ⟨bounded, after, found⟩ := stores push base laid nonempty
  have count : (Cell.ofInt push.block.length).toInt = push.block.length := by
    rw [Cell.ofInt, Int32.toInt_ofInt_of_le] <;> omega
  rw [arrayOf, scalarOf_carried stores carried]
  change decoder.elementsOf base (Cell.ofInt push.block.length) = _
  rw [elementsOf, count, if_neg (by omega), Int.toNat_natCast,
    if_neg (Nat.not_lt.mpr short), Memory.readArray, found]
  simp [bind, Except.bind]

/-- An argument is decoded as it was. -/
theorem valueOf_passed (shortage : MarshalError) {datum : Datum} {own : List Cell}
    (fits : datum.Fits decoder.limits)
    (passed : Passed placed decoder.passing datum own) :
    ∃ value, decoder.valueOf shortage datum.tag own = .ok value ∧
      datum.Denotes value := by
  cases passed with
  | text laid =>
      obtain ⟨nonzero, short⟩ := fits
      refine ⟨_, ?_, rfl⟩
      rw [Datum.tag, valueOf, textOf_placed stores laid
        (Segment.unpackedBlock_ne_nil _) (Memory.holdsText_unpackedBlock nonzero) short]
      rfl
  | packedText laid =>
      obtain ⟨nonzero, short⟩ := fits
      refine ⟨_, ?_, rfl⟩
      rw [Datum.tag, valueOf, textOf_placed stores laid
        (Segment.packedBlock_ne_nil _) (Memory.holdsText_packedBlock nonzero) short]
      rfl
  | int carried =>
      refine ⟨_, ?_, rfl⟩
      rw [Datum.tag, valueOf, scalarOf_carried stores carried]
      rfl
  | uint carried =>
      refine ⟨_, ?_, rfl⟩
      rw [Datum.tag, valueOf, scalarOf_carried stores carried]
      rfl
  | float carried =>
      refine ⟨_, ?_, Value.isSingle_ofSingle _⟩
      rw [Datum.tag, valueOf, scalarOf_carried stores carried]
      rfl
  | intArray laid carried =>
      obtain ⟨nonempty, short⟩ := fits
      refine ⟨_, ?_, rfl⟩
      rw [Datum.tag, valueOf, arrayOf_placed stores laid nonempty carried short]
      rfl
  | @floatArray numbers base raw laid carried =>
      obtain ⟨nonempty, short⟩ := fits
      have array : decoder.arrayOf base raw = .ok (numbers.map Binary32.toCell) := by
        apply arrayOf_placed stores laid
        · exact mt List.map_eq_nil_iff.mp nonempty
        · rw [Push.block, List.length_map]
          exact carried
        · rw [Push.block, List.length_map]
          exact short
      refine ⟨_, ?_, numbers.map Value.ofSingle, rfl, ?_⟩
      · rw [Datum.tag, valueOf, array]
        change Except.ok (Value.list ((numbers.map Binary32.toCell).map floatValue)) = _
        rw [List.map_map]
        rfl
      · rw [List.forall₂_map_right_iff, List.forall₂_same]
        exact fun number _ => Value.isSingle_ofSingle number

variable {arguments : List Datum} {owns : List (List Cell)}

/-- So are the arguments one after the other. -/
theorem valuesFrom_passed (cursor : Cursor) (cells : cursor.remaining = owns.flatten)
    (fits : ∀ datum ∈ arguments, datum.Fits decoder.limits)
    (passed : List.Forall₂ (Passed placed decoder.passing) arguments owns) :
    ∃ values, decoder.valuesFrom cursor (arguments.map Datum.tag) = .ok values ∧
      List.Forall₂ Datum.Denotes arguments values := by
  induction passed generalizing cursor with
  | nil => exact ⟨[], rfl, .nil⟩
  | @cons datum own arguments owns first later ih =>
      rw [List.flatten_cons] at cells
      have ownCells : cursor.own datum.tag = own := by
        rw [Cursor.own, cells, ← first.length, List.take_left]
      have pastCells : (cursor.past datum.tag).advanceSlot.remaining = owns.flatten := by
        change cursor.remaining.drop datum.tag.cells = _
        rw [cells, ← first.length, List.drop_left]
      obtain ⟨value, made, denotes⟩ := valueOf_passed stores
        (cursor.shortage datum.tag) (fits datum List.mem_cons_self) first
      obtain ⟨values, laterMade, laterDenote⟩ := ih _ pastCells
        fun other member => fits other (List.mem_cons_of_mem _ member)
      refine ⟨value :: values, ?_, .cons denotes laterDenote⟩
      rw [List.map_cons, valuesFrom_cons_eq_ok_iff, ownCells]
      exact ⟨value, values, made, laterMade, rfl⟩

end Decoder

/-- Marshaled arguments are decoded as they were: in whatever order their data were
laid out, with whatever before, between and behind, packed or not, passed by value
or by reference, and whether or not texts have to be UTF-8. -/
theorem decodeAll_recovers_arguments (segment : Segment) (pushes : List Push)
    (passing : Passing) (limits : Limits) {arguments : List Datum}
    {owns : List (List Cell)}
    (small : (segment.layOut pushes).2.cells.length ≤ 2 ^ 29)
    (fits : ∀ datum ∈ arguments, datum.Fits limits)
    (passed : List.Forall₂ (Passed (pushes.zip (segment.layOut pushes).1) passing)
      arguments owns) :
    ∃ values,
      Decoder.decodeAll ⟨(segment.layOut pushes).2.memory, passing, limits⟩
          (.ofTags (arguments.map Datum.tag)) owns.flatten = .ok values ∧
        List.Forall₂ Datum.Denotes arguments values := by
  have steady : (segment.layOut pushes).2.memory.SteadyFrom 0 :=
    Memory.steadyFrom_fixed _ 0
  rw [Decoder.decodeAll_eq_valuesFrom steady]
  exact Decoder.valuesFrom_passed (Segment.stores_layOut small) _ rfl fits passed

/-- A packed text, two numbers and an array by reference. -/
theorem decodeAll_recovers_packed_text_and_array :
    let segment : Segment := ⟨[9]⟩
    let pushes : List Push :=
      [.cell 2, .packedText "hé!?", .array [5, -6], .text "", .float ⟨0xBFC00000⟩]
    let arguments : List Datum :=
      [.text "hé!?", .intArray [5, -6], .float ⟨0xBFC00000⟩, .uint 2]
    let owns : List (List Cell) := [[8], [16, 4], [28], [4]]
    let limits : Limits := { strictUtf8 := true }
    (segment.layOut pushes).2.cells.length ≤ 2 ^ 29 ∧
      (∀ datum ∈ arguments, datum.Fits limits) ∧
      List.Forall₂ (Passed (pushes.zip (segment.layOut pushes).1) .byReference)
        arguments owns ∧
      ∃ values,
        Decoder.decodeAll ⟨(segment.layOut pushes).2.memory, .byReference, limits⟩
            (.ofTags (arguments.map Datum.tag)) owns.flatten = .ok values ∧
          List.Forall₂ Datum.Denotes arguments values ∧
          values = [.text "hé!?", .list [.int 5, .int (-6)],
            .float ⟨0xBFF8000000000000⟩, .int 2] := by
  intro segment pushes arguments owns limits
  have placed : pushes.zip (segment.layOut pushes).1 =
      [(.cell 2, 4), (.packedText "hé!?", 8), (.array [5, -6], 16), (.text "", 24),
        (.float ⟨0xBFC00000⟩, 28)] := rfl
  have small : (segment.layOut pushes).2.cells.length ≤ 2 ^ 29 := by decide
  have fits : ∀ datum ∈ arguments, datum.Fits limits := by
    simp [arguments, limits, Datum.Fits]
    decide
  have passed : List.Forall₂
      (Passed (pushes.zip (segment.layOut pushes).1) .byReference) arguments owns := by
    rw [placed]
    have two : Cell.ofInt ([5, -6] : List Int32).length = 2 := rfl
    refine .cons (.packedText ?_) (.cons (.intArray ?_ (two ▸ .cell ?_))
      (.cons (.float (.float ?_)) (.cons (.uint (.cell ?_)) .nil)))
    all_goals simp
  obtain ⟨values, decoded, denoted⟩ :=
    decodeAll_recovers_arguments segment pushes .byReference limits small fits passed
  refine ⟨small, fits, passed, values, decoded, denoted, ?_⟩
  exact Except.ok.inj (decoded.symm.trans rfl)

end CellBus
