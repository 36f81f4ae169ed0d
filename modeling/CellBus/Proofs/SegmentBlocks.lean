import CellBus.Memory.Segment
import Mathlib.Algebra.Order.Group.Nat

/-!
# Blocks of a segment

A host lays data out in a segment push after push, and keeps the addresses.  A push
only adds cells, so when all is laid out every block still stands at the address
that its push returned, with whatever was pushed later behind it.  An address can
be told from all others as long as the segment has no more than `2 ^ 29` cells.
-/

namespace CellBus

/-- A push of a host. -/
inductive Push where
  | cell (value : Cell)
  | float (number : Binary32)
  | array (elements : List Cell)
  | floats (numbers : List Binary32)
  | text (characters : String)
  | packedText (characters : String)
  deriving DecidableEq

namespace Push

/-- The push on a segment: the address it returns and the segment after it. -/
def run (segment : Segment) : Push → Cell × Segment
  | cell value => segment.pushCell value
  | float number => segment.pushFloat number
  | array elements => segment.push elements
  | floats numbers => segment.pushFloats numbers
  | text characters => segment.pushText characters
  | packedText characters => segment.pushPackedText characters

/-- The cells that a push adds. -/
def block : Push → List Cell
  | cell value => [value]
  | float number => [number.toCell]
  | array elements => elements
  | floats numbers => numbers.map Binary32.toCell
  | text characters => Segment.unpackedBlock characters
  | packedText characters => Segment.packedBlock characters

/-- The push is of an array without elements. -/
def Empty (push : Push) : Prop := push = .array [] ∨ push = .floats []

instance (push : Push) : Decidable push.Empty := inferInstanceAs (Decidable (_ ∨ _))

theorem run_eq_push (segment : Segment) (push : Push) :
    push.run segment = segment.push push.block := by
  cases push <;> rfl

end Push

namespace Segment

/-- Pushes one after the other: the addresses they return and the segment after
them. -/
def layOut (segment : Segment) : List Push → List Cell × Segment
  | [] => ([], segment)
  | push :: later =>
    let (address, grown) := push.run segment
    let (addresses, final) := grown.layOut later
    (address :: addresses, final)

/-- The address of the cell at an index. -/
def addressAt (index : Nat) : Cell := Cell.ofInt (index * Cell.size : Nat)

variable {segment : Segment}

theorem layOut_cons (push : Push) (later : List Push) :
    segment.layOut (push :: later) =
      (addressAt segment.cells.length ::
          (layOut ⟨segment.cells ++ push.block⟩ later).1,
        (layOut ⟨segment.cells ++ push.block⟩ later).2) := by
  rw [layOut, Push.run_eq_push]
  rfl

theorem cells_layOut (pushes : List Push) :
    (segment.layOut pushes).2.cells = segment.cells ++ pushes.flatMap Push.block := by
  induction pushes generalizing segment with
  | nil => simp [layOut]
  | cons push later ih =>
      rw [layOut_cons, ih, List.flatMap_cons, List.append_assoc]

/-- A block stands at the address that its push returned. -/
theorem exists_block_layOut {pushes : List Push} {push : Push} {address : Cell}
    (placed : (push, address) ∈ pushes.zip (segment.layOut pushes).1) :
    ∃ before after, address = addressAt before.length ∧
      (segment.layOut pushes).2.cells = before ++ (push.block ++ after) := by
  induction pushes generalizing segment with
  | nil => simp at placed
  | cons head later ih =>
      rw [layOut_cons, List.zip_cons_cons, List.mem_cons] at placed
      rw [layOut_cons]
      rcases placed with here | inLater
      · -- Later pushes go behind the block.
        obtain ⟨rfl, rfl⟩ := Prod.mk.inj here
        refine ⟨segment.cells, later.flatMap Push.block, rfl, ?_⟩
        rw [cells_layOut, List.append_assoc]
      · exact ih inLater

theorem toInt_addressAt {index : Nat} (low : index < 2 ^ 29) :
    (addressAt index).toInt = index * 4 := by
  rw [addressAt, Cell.ofInt, Int32.toInt_ofInt_of_le]
  all_goals (simp only [Cell.size]; omega)

theorem index?_addressAt {index : Nat} (inside : index < segment.cells.length)
    (fits : segment.cells.length ≤ 2 ^ 29) :
    segment.index? (addressAt index) = some index := by
  have offset := toInt_addressAt (Nat.lt_of_lt_of_le inside fits)
  have nonnegative : ¬(index : Int) * 4 < 0 := by omega
  have aligned : (index : Int) * 4 % 4 = 0 := Int.mul_emod_left _ _
  simp [index?, offset, Cell.size, nonnegative, aligned, inside]

/-- Every block is found under its address, whatever was pushed before and after. -/
theorem resolve_layOut {pushes : List Push}
    (fits : (segment.layOut pushes).2.cells.length ≤ 2 ^ 29) {push : Push}
    {address : Cell} (placed : (push, address) ∈ pushes.zip (segment.layOut pushes).1)
    (nonempty : push.block ≠ []) :
    ∃ after, (segment.layOut pushes).2.resolve address = .ok (push.block ++ after) := by
  obtain ⟨before, after, rfl, laid⟩ := exists_block_layOut placed
  have inside : before.length < (segment.layOut pushes).2.cells.length := by
    have positive := List.length_pos_iff.mpr nonempty
    rw [laid, List.length_append, List.length_append]
    omega
  refine ⟨after, ?_⟩
  rw [resolve, index?_addressAt inside fits, laid]
  simp

end Segment

end CellBus
