import CellBus.Proofs.SegmentAddresses
import CellBus.Proofs.SignatureParts

/-!
# Empty arrays

An array is borrowed from the cells at its base address, so even one without elements
needs an address that a cell stands at.  A push that adds no cell returns the address
behind the last one.  It becomes good with the next cell that is pushed, and until then
an empty array there is refused.
-/

namespace CellBus

theorem Segment.unmoved_resolve (segment : Segment) (address : Cell) :
    Unmoved (segment.resolve address) := by
  rw [Segment.resolve]
  split
  · exact .ok _
  · exact fun _ _ => rfl

/-- Under the address of an empty array stands what was pushed behind it. -/
theorem Segment.resolve_empty {segment grown : Segment} {push : Push} {later : List Push}
    {base : Cell} {addresses : List Cell} (low : segment.cells.length < 2 ^ 29)
    (empty : push.Empty)
    (laid : segment.layOut (push :: later) = (base :: addresses, grown)) :
    grown.resolve base =
      if ∀ other ∈ later, other.Empty then .error (.invalidAddress base)
      else .ok (later.flatMap Push.block) := by
  have stands := Segment.resolve_layOut_end low (push :: later)
  rw [List.flatMap_cons, push.block_eq_nil_iff.mpr empty, List.nil_append, laid] at stands
  rw [Segment.layOut_cons] at laid
  cases laid
  simp only [List.flatMap_eq_nil_iff, Push.block_eq_nil_iff] at stands
  exact stands

namespace Decoder

variable {decoder : Decoder} {tag : Tag} {base count : Cell}

/-- An array without elements decodes just where its base address has cells. -/
theorem valueOf_empty (array : tag = .intArray ∨ tag = .floatArray)
    (zero : decoder.scalarOf count = .ok 0) (shortage : MarshalError) :
    decoder.valueOf shortage tag [base, count] =
      (decoder.memory.resolve 0 base).map fun _ => .list [] := by
  have elements : decoder.arrayOf base count =
      (decoder.memory.resolve 0 base).map fun _ => [] := by
    rw [arrayOf, zero]
    change decoder.memory.readArray 0 base 0 = _
    rw [Memory.readArray]
    cases decoder.memory.resolve 0 base <;> rfl
  rcases array with rfl | rfl <;> rw [valueOf, elements] <;>
    cases decoder.memory.resolve 0 base <;> rfl

end Decoder

/-- An empty array that was laid out in a segment decodes, in any place of a signature
and however its length is passed, unless nothing but empty arrays was pushed behind it.
Its address is then refused.  What stands behind it in the signature is decoded from the
cells behind its two, with the places that a shortage names moved accordingly. -/
theorem empty_arrays_need_a_cell_behind {segment grown : Segment} {push : Push}
    {later : List Push} {base : Cell} {addresses : List Cell}
    (low : segment.cells.length < 2 ^ 29) (empty : push.Empty)
    (laid : segment.layOut (push :: later) = (base :: addresses, grown))
    {decoder : Decoder} (same : decoder.memory = grown.memory) {tag : Tag}
    (array : tag = .intArray ∨ tag = .floatArray) {count : Cell}
    (zero : decoder.scalarOf count = .ok 0) {front rest : List Tag}
    {cells more : List Cell} {earlier : List Value}
    (made : decoder.decodeAll (.ofTags front) cells = .ok earlier)
    (behind : cells.drop (Signature.cellCount (.ofTags front)) = base :: count :: more) :
    decoder.decodeAll (.ofTags (front ++ tag :: rest)) cells =
      if ∀ other ∈ later, other.Empty then .error (.invalidAddress base)
      else match decoder.decodeAll (.ofTags rest) more with
        | .ok values => .ok (earlier ++ .list [] :: values)
        | .error error => .error (error.shifted (front.length + 1)
            (Signature.cellCount (.ofTags front) + 2)) := by
  have steady : decoder.memory.SteadyFrom 0 := by
    rw [same]
    exact Memory.steadyFrom_fixed _ 0
  have resolving : ∀ address, Unmoved (decoder.memory.resolve 0 address) := by
    rw [same]
    exact grown.unmoved_resolve
  have found : decoder.memory.resolve 0 base =
      if ∀ other ∈ later, other.Empty then .error (.invalidAddress base)
      else .ok (later.flatMap Push.block) := by
    rw [same]
    exact Segment.resolve_empty low empty laid
  have two : tag.cells = 2 := by
    rcases array with rfl | rfl <;> rfl
  have upTo : Signature.cellCount (.ofTags (front ++ [tag])) =
      Signature.cellCount (.ofTags front) + 2 := by
    rw [Signature.cellCount_append, Signature.cellCount_cons, two]
    rfl
  have first : decoder.decodeAll (.ofTags (front ++ [tag])) cells =
      if ∀ other ∈ later, other.Empty then .error (.invalidAddress base)
      else .ok (earlier ++ [.list []]) := by
    rw [Decoder.decodeAll_append steady resolving, made, behind,
      Decoder.decodeAll_singleton steady, two]
    simp only [List.take_succ_cons, List.take_zero, Decoder.valueOf_empty array zero, found]
    split <;> rfl
  rw [List.append_cons, Decoder.decodeAll_append steady resolving, first, upTo,
    ← List.drop_drop, behind]
  split
  case isTrue => rfl
  case isFalse =>
    change (((decoder.decodeAll (.ofTags rest) more).mapError _ >>= _) : Except _ _) = _
    cases decoder.decodeAll (.ofTags rest) more with
    | error error =>
        rw [List.length_append]
        rfl
    | ok values => exact congrArg Except.ok (List.append_cons earlier (.list []) values).symm

/-- Behind a text and before a number, an empty array decodes by reference when its
length is pushed after it. -/
theorem empty_array_decodes_before_its_length :
    let segment := Segment.mk [97, 0]
    let later := [Push.cell 0]
    let grown := (segment.layOut (.floats [] :: later)).2
    let decoder : Decoder := ⟨grown.memory, .byReference, {}⟩
    segment.cells.length < 2 ^ 29 ∧ (Push.floats []).Empty ∧
      segment.layOut (.floats [] :: later) = ([8, 8], grown) ∧
      decoder.scalarOf 8 = .ok 0 ∧
      decoder.decodeAll (.ofTags [.text]) [0, 8, 8, 0] = .ok [.text "a"] ∧
      decoder.decodeAll (.ofTags [.text, .floatArray, .int]) [0, 8, 8, 0] =
        .ok [.text "a", .list [], .int 97] := by
  intro segment later grown decoder
  have low : segment.cells.length < 2 ^ 29 := by decide
  have empty : (Push.floats []).Empty := .inr rfl
  have laid : segment.layOut (.floats [] :: later) = ([8, 8], grown) := rfl
  have zero : decoder.scalarOf 8 = .ok 0 := rfl
  have made : decoder.decodeAll (.ofTags [.text]) [0, 8, 8, 0] = .ok [.text "a"] := rfl
  exact ⟨low, empty, laid, zero, made,
    empty_arrays_need_a_cell_behind low empty laid rfl (.inr rfl) zero made rfl⟩

/-- At the end of a segment an empty array is refused, by value and by reference. -/
theorem empty_array_at_the_end_is_refused :
    let laid := (Push.array []).run (Segment.mk [0])
    let decoder (passing : Passing) : Decoder := ⟨laid.2.memory, passing, {}⟩
    laid.1 = 4 ∧ (decoder .byReference).scalarOf 0 = .ok 0 ∧
      (decoder .byValue).decodeAll (.ofTags [.intArray]) [4, 0] = .error (.invalidAddress 4) ∧
      (decoder .byReference).decodeAll (.ofTags [.intArray]) [4, 0] =
        .error (.invalidAddress 4) :=
  ⟨rfl, rfl, rfl, rfl⟩

end CellBus
