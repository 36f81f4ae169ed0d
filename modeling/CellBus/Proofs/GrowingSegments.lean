import CellBus.Proofs.ExcusedErrors
import CellBus.Proofs.SegmentBlocks

/-!
# Growing segments

Every reader is handed the cells from an address to the end of the segment, so it sees
also what was pushed behind the data that it is about.  It looks no further than that
data: once a segment can be read, what is pushed later changes nothing.  Only the three
errors that come of reaching the end may go away.
-/

namespace CellBus

/-- The error of a reader that looks behind the last cell. -/
def MarshalError.IsBeyond : MarshalError → Prop
  | invalidAddress _ | unterminatedText _ | arrayOutOfBounds .. => True
  | missingArgument .. | textTooLong .. | invalidUtf8 _ | negativeLength _
  | arrayTooLong .. => False

namespace Memory

open MarshalError

/-- Behind every address of the one memory the other has the same cells and perhaps
more. -/
def Continues (memory grown : Memory) : Prop :=
  ∀ asked address,
    (∃ error, memory.resolve asked address = .error error ∧ error.IsBeyond) ∨
      ∃ cells more, memory.resolve asked address = .ok cells ∧
        grown.resolve asked address = .ok (cells ++ more)

/-- The first cell already shows the layout. -/
theorem exists_textUnits_append (first : Cell) (rest more : List Cell) :
    ∃ later, textUnits (first :: rest ++ more) = textUnits (first :: rest) ++ later := by
  rw [textUnits, textUnits]
  change ∃ later, (if isPacked (first :: rest) then _ else _) = _
  split
  · exact ⟨packedUnits more, by simp [packedUnits]⟩
  · exact ⟨unpackedUnits more, by simp [unpackedUnits]⟩

/-- What stands behind the end mark, or behind the byte that is one too many, is not
looked at. -/
theorem collectText_append (address : Cell) (limit room : Nat) (collected : List UInt8)
    (units later : List (Option UInt8)) :
    SameUnless IsBeyond (collectText address limit room collected units)
      (collectText address limit room collected (units ++ later)) := by
  induction units generalizing room collected with
  | nil => exact .inr ⟨.unterminatedText address, by rw [collectText], trivial⟩
  | cons unit rest ih =>
      cases unit with
      | none => exact .inl (by simp [collectText])
      | some byte =>
          cases room with
          | zero => exact .inl rfl
          | succ room => exact ih room (byte :: collected)

namespace Continues

variable {memory grown : Memory} (continues : memory.Continues grown)

include continues

theorem deref (asked : Nat) (address : Cell) :
    SameUnless IsBeyond (memory.deref asked address) (grown.deref asked address) := by
  rw [Memory.deref, Memory.deref]
  rcases continues asked address with ⟨error, failed, beyond⟩ | ⟨cells, more, found, longer⟩
  · exact .inr ⟨error, by rw [failed]; rfl, beyond⟩
  · rw [found, longer]
    cases cells with
    | nil => exact .inr ⟨.invalidAddress address, rfl, trivial⟩
    | cons cell rest => exact .inl rfl

theorem readArray (asked : Nat) (base : Cell) (length : Nat) :
    SameUnless IsBeyond (memory.readArray asked base length)
      (grown.readArray asked base length) := by
  rw [Memory.readArray, Memory.readArray]
  rcases continues asked base with ⟨error, failed, beyond⟩ | ⟨cells, more, found, longer⟩
  · exact .inr ⟨error, by rw [failed]; rfl, beyond⟩
  · rw [found, longer]
    change SameUnless IsBeyond (if length ≤ cells.length then _ else _)
      (if length ≤ (cells ++ more).length then _ else _)
    by_cases inside : length ≤ cells.length
    · have stillInside : length ≤ (cells ++ more).length := by
        rw [List.length_append]
        omega
      rw [if_pos inside, if_pos stillInside, List.take_append_of_le_length inside]
      exact .inl rfl
    · rw [if_neg inside]
      exact .inr ⟨.arrayOutOfBounds base length, rfl, trivial⟩

theorem readText (asked : Nat) (address : Cell) (limit : Nat) :
    SameUnless IsBeyond (memory.readText asked address limit)
      (grown.readText asked address limit) := by
  rw [Memory.readText, Memory.readText]
  rcases continues asked address with ⟨error, failed, beyond⟩ | ⟨cells, more, found, longer⟩
  · exact .inr ⟨error, by rw [failed]; rfl, beyond⟩
  · rw [found, longer]
    cases cells with
    | nil =>
        have ended : collectText address limit limit [] (textUnits []) =
            .error (.unterminatedText address) := by
          rw [show textUnits [] = [] from rfl, collectText]
        exact .inr ⟨_, ended, trivial⟩
    | cons first rest =>
        obtain ⟨later, split⟩ := exists_textUnits_append first rest more
        change SameUnless IsBeyond (collectText address limit limit [] _)
          (collectText address limit limit [] _)
        rw [split]
        exact collectText_append address limit limit [] _ later

/-- Decoders over the two memories read alike but for the end of the first. -/
theorem readsAlike (passing : Passing) (limits : Limits) :
    Decoder.ReadsAlike IsBeyond ⟨memory, passing, limits⟩ ⟨grown, passing, limits⟩ where
  passing := rfl
  cells := continues.deref
  texts asked address := continues.readText asked address limits.textLength
  arrays := continues.readArray
  strictness := .inl rfl
  lengths := .inl rfl

end Continues

end Memory

namespace Segment

/-- An index inside the segment is still the one of its address when there are more
cells. -/
theorem index?_append {segment : Segment} {address : Cell} {index : Nat}
    (found : segment.index? address = some index) (more : List Cell) :
    index < segment.cells.length ∧
      index? ⟨segment.cells ++ more⟩ address = some index := by
  unfold index? at found ⊢
  dsimp only at found ⊢
  split at found
  · cases found
  · rename_i usable
    rw [if_neg usable]
    split at found
    · rename_i inside
      cases found
      rw [List.length_append, if_pos (Nat.lt_add_right more.length inside)]
      exact ⟨inside, rfl⟩
    · cases found

theorem continues_layOut (segment : Segment) (pushes : List Push) :
    segment.memory.Continues (segment.layOut pushes).2.memory := by
  intro asked address
  change (∃ error, segment.resolve address = _ ∧ _) ∨
    ∃ cells more, segment.resolve address = _ ∧
      (segment.layOut pushes).2.resolve address = _
  have grown : (segment.layOut pushes).2 =
      ⟨segment.cells ++ pushes.flatMap Push.block⟩ := by
    rw [← cells_layOut]
  cases found : segment.index? address with
  | none => exact .inl ⟨.invalidAddress address, by rw [resolve, found], trivial⟩
  | some index =>
      obtain ⟨inside, same⟩ := index?_append found (pushes.flatMap Push.block)
      refine .inr ⟨segment.cells.drop index, pushes.flatMap Push.block, ?_, ?_⟩
      · rw [resolve, found]
      · rw [grown, resolve, same]
        exact congrArg Except.ok (List.drop_append_of_le_length inside.le)

end Segment

/-- Whatever is pushed on a segment, a cell, an array or a text at any address reads as
before, and cells decode by any signature as before, be it to values or to an error,
unless the reader had come to the end of the segment. -/
theorem growing_keeps_what_was_read (segment : Segment) (pushes : List Push) :
    let before := segment.memory
    let grown := (segment.layOut pushes).2.memory
    (∀ asked address,
      SameUnless MarshalError.IsBeyond (before.deref asked address)
          (grown.deref asked address) ∧
        (∀ length, SameUnless MarshalError.IsBeyond
          (before.readArray asked address length)
          (grown.readArray asked address length)) ∧
        ∀ limit, SameUnless MarshalError.IsBeyond (before.readText asked address limit)
          (grown.readText asked address limit)) ∧
    ∀ passing limits signature cells,
      SameUnless MarshalError.IsBeyond
        (Decoder.decodeAll ⟨before, passing, limits⟩ signature cells)
        (Decoder.decodeAll ⟨grown, passing, limits⟩ signature cells) := by
  intro before grown
  have continues : before.Continues grown := segment.continues_layOut pushes
  constructor
  · intro asked address
    exact ⟨continues.deref asked address, continues.readArray asked address,
      continues.readText asked address⟩
  · intro passing limits signature cells
    rcases (continues.readsAlike passing limits).decodeFrom 0 signature cells with
      same | ended
    · exact .inl (congrArg Prod.fst same)
    · exact .inr ended

/-- The three errors may go away: a cell, a text and an array that lacked their end. -/
example :
    let before := Segment.mk [97]
    let grown := (before.layOut [.cell 0]).2
    before.memory.deref 0 4 = .error (.invalidAddress 4) ∧
      grown.memory.deref 0 4 = .ok 0 ∧
      before.memory.readText 0 0 8 = .error (.unterminatedText 0) ∧
      grown.memory.readText 0 0 8 = .ok [97] ∧
      before.memory.readArray 0 0 2 = .error (.arrayOutOfBounds 0 2) ∧
      grown.memory.readArray 0 0 2 = .ok [97, 0] :=
  ⟨rfl, rfl, rfl, rfl, rfl, rfl⟩

end CellBus
