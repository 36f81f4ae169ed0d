import CellBus.Proofs.SegmentBlocks
import CellBus.Proofs.TextLayouts
import CellBus.Proofs.TruncatedNumbers

/-!
# Addresses in a segment

The number of cells becomes an address modulo `2 ^ 32` bytes, so two cells have one
address when their indices differ by a multiple of `2 ^ 30`, and the addresses of the
cells from `2 ^ 29` on are negative or those of lower cells.  Below that bound a block is
found under the address that its push returned, whatever the host pushes afterwards and
whatever it writes elsewhere.

`Push.Lays` says which cells make up the block of each push, without the functions that
lay them.
-/

namespace CellBus

namespace Push

/-- The cells are those of a push: the bits of a number, an array cell by cell, the bytes
of a text one to a cell with a zero cell at the end, or four to a cell, the first at the
high end, with a zero byte at the end and zeros in what is left of the last cell. -/
inductive Lays : Push → List Cell → Prop where
  | cell (value : Cell) : Lays (.cell value) [value]
  | float (number : Binary32) : Lays (.float number) [number.bits.toInt32]
  | array (elements : List Cell) : Lays (.array elements) elements
  | floats (numbers : List Binary32) :
      Lays (.floats numbers) (numbers.map fun number => number.bits.toInt32)
  | text (characters : String) :
      Lays (.text characters)
        ((characters.toList.flatMap String.utf8EncodeChar).map
          (fun byte => Int32.ofNat byte.toNat) ++ [0])
  | packedText {characters : String} {cells : List Cell} {padding : Nat}
      (few : padding < 4)
      (bytes : cells.flatMap Cell.bytes =
        characters.toList.flatMap String.utf8EncodeChar ++ 0 :: List.replicate padding 0) :
      Lays (.packedText characters) cells

theorem lays_block (push : Push) : push.Lays push.block := by
  cases push with
  | cell value => exact .cell value
  | float number => exact .float number
  | array elements => exact .array elements
  | floats numbers => exact .floats numbers
  | text characters =>
      have laid := Lays.text characters
      simp only [Cell.ofNat_byte] at laid
      exact laid
  | packedText characters =>
      obtain ⟨padding, few, unpacked⟩ :=
        Segment.exists_padding_packBytes (Text.encode characters ++ [0])
      rw [List.append_assoc] at unpacked
      exact .packedText few unpacked

/-- Only an empty array adds no cell. -/
theorem block_eq_nil_iff (push : Push) : push.block = [] ↔ push.Empty := by
  cases push with
  | text characters => simp [block, Empty, Segment.unpackedBlock_ne_nil]
  | packedText characters => simp [block, Empty, Segment.packedBlock_ne_nil]
  | _ => simp [block, Empty]

end Push

namespace Segment

variable {segment : Segment} {address : Cell}

/-- The address is that of a cell of the segment. -/
def Valid (segment : Segment) (address : Cell) : Prop :=
  0 ≤ address.toInt ∧ 4 ∣ address.toInt ∧ address.toInt / 4 < segment.cells.length

instance (segment : Segment) (address : Cell) : Decidable (segment.Valid address) :=
  inferInstanceAs (Decidable (_ ∧ _ ∧ _))

theorem valid_iff :
    segment.Valid address ↔ ∃ index < segment.cells.length, address.toInt = 4 * index := by
  constructor
  · rintro ⟨nonnegative, aligned, inside⟩
    exact ⟨(address.toInt / 4).toNat, by omega, by omega⟩
  · rintro ⟨index, inside, offset⟩
    exact ⟨by omega, by omega, by omega⟩

theorem index?_eq_some_iff {index : Nat} :
    segment.index? address = some index ↔
      index < segment.cells.length ∧ address.toInt = 4 * index := by
  dsimp only [index?]
  split
  case isTrue unusable =>
    rw [Bool.or_eq_true, decide_eq_true_eq, decide_eq_true_eq, Cell.size] at unusable
    simp only [reduceCtorEq, false_iff]
    omega
  case isFalse usable =>
    rw [Bool.or_eq_true, decide_eq_true_eq, decide_eq_true_eq, Cell.size] at usable
    rw [Option.ite_none_right_eq_some, Option.some.injEq, Cell.size]
    omega

theorem index?_eq_none_iff : segment.index? address = none ↔ ¬segment.Valid address := by
  rw [valid_iff, Option.eq_none_iff_forall_ne_some]
  simp only [ne_eq, index?_eq_some_iff, not_exists, not_and]

theorem resolve_eq_ok_iff {cells : List Cell} :
    segment.resolve address = .ok cells ↔
      ∃ index < segment.cells.length,
        address.toInt = 4 * index ∧ cells = segment.cells.drop index := by
  rw [resolve]
  cases found : segment.index? address with
  | none =>
      have invalid := index?_eq_none_iff.mp found
      rw [valid_iff] at invalid
      simp only [reduceCtorEq, false_iff]
      rintro ⟨index, inside, offset, -⟩
      exact invalid ⟨index, inside, offset⟩
  | some index =>
      obtain ⟨inside, offset⟩ := index?_eq_some_iff.mp found
      constructor
      · rintro ⟨⟩
        exact ⟨index, inside, offset, rfl⟩
      · rintro ⟨other, -, same, rfl⟩
        obtain rfl : index = other := by omega
        rfl

theorem write_eq_ok {index : Nat} (inside : index < segment.cells.length)
    (offset : address.toInt = 4 * index) (value : Cell) :
    segment.write address value = .ok ⟨segment.cells.set index value⟩ := by
  rw [write, index?_eq_some_iff.mpr ⟨inside, offset⟩]

theorem resolve_invalid (invalid : ¬segment.Valid address) :
    segment.resolve address = .error (.invalidAddress address) := by
  rw [resolve, index?_eq_none_iff.mpr invalid]

theorem write_invalid (invalid : ¬segment.Valid address) (value : Cell) :
    segment.write address value = .error (.invalidAddress address) := by
  rw [write, index?_eq_none_iff.mpr invalid]

theorem toInt_addressAt_eq_iff {index : Nat} :
    (addressAt index).toInt = 4 * index ↔ index < 2 ^ 29 := by
  constructor
  · intro exact
    have high := (addressAt index).toInt_lt
    omega
  · intro low
    rw [toInt_addressAt low, mul_comm]

/-- What is found at the end of a segment is what was pushed later, and nothing if no
cell was. -/
theorem resolve_layOut_end (low : segment.cells.length < 2 ^ 29) (pushes : List Push) :
    (segment.layOut pushes).2.resolve (addressAt segment.cells.length) =
      if pushes.flatMap Push.block = [] then
        .error (.invalidAddress (addressAt segment.cells.length))
      else .ok (pushes.flatMap Push.block) := by
  have offset := toInt_addressAt_eq_iff.mpr low
  have laid : (segment.layOut pushes).2.cells = _ := cells_layOut pushes
  split
  case isTrue empty =>
    apply resolve_invalid
    rw [Valid, laid, empty, List.append_nil, offset]
    omega
  case isFalse nonempty =>
    have positive := List.length_pos_iff.mpr nonempty
    refine resolve_eq_ok_iff.mpr ⟨segment.cells.length, ?_, offset, ?_⟩
    · rw [laid, List.length_append]
      omega
    · rw [laid, List.drop_left]

/-- Addresses repeat after `2 ^ 30` cells. -/
theorem addressAt_eq_iff {index other : Nat} :
    addressAt index = addressAt other ↔ index ≡ other [MOD 2 ^ 30] := by
  rw [addressAt, addressAt, Cell.ofInt_eq_ofInt_iff, Int.ModEq, Nat.ModEq, Cell.size]
  omega

example : addressAt (2 ^ 29) = Int32.minValue ∧ addressAt (2 ^ 30 + 5) = addressAt 5 := by
  decide

end Segment

/-- What a host does to a segment. -/
inductive Edit where
  | push (push : Push)
  | write (address value : Cell)

namespace Edit

/-- The segment after an edit.  A write that is refused leaves it as it is. -/
def run (segment : Segment) : Edit → Segment
  | push laid => (laid.run segment).2
  | write address value =>
    match segment.write address value with
    | .ok written => written
    | .error _ => segment

/-- The edit does not write to the cells from one index up to another. -/
def Spares (first last : Nat) : Edit → Prop
  | push _ => True
  | write address _ => ¬(4 * (first : Int) ≤ address.toInt ∧ address.toInt < 4 * last)

/-- An edit only adds cells at the end or replaces one that it does not spare. -/
theorem cells_run (edit : Edit) (segment : Segment) :
    (∃ more, (edit.run segment).cells = segment.cells ++ more) ∨
      ∃ index value, (edit.run segment).cells = segment.cells.set index value ∧
        ∀ first last, edit.Spares first last → ¬(first ≤ index ∧ index < last) := by
  cases edit with
  | push laid => exact .inl ⟨laid.block, by rw [run, Push.run_eq_push]; rfl⟩
  | write address value =>
      by_cases valid : segment.Valid address
      · obtain ⟨index, inside, offset⟩ := Segment.valid_iff.mp valid
        refine .inr ⟨index, value, by rw [run, Segment.write_eq_ok inside offset], ?_⟩
        simp only [Spares]
        omega
      · exact .inl ⟨[], by rw [run, Segment.write_invalid valid, List.append_nil]⟩

theorem length_le_run (edit : Edit) (segment : Segment) :
    segment.cells.length ≤ (edit.run segment).cells.length := by
  rcases edit.cells_run segment with ⟨more, grown⟩ | ⟨index, value, replaced, -⟩
  · rw [grown, List.length_append]
    exact Nat.le_add_right _ _
  · rw [replaced, List.length_set]

/-- A block stands where it stood after an edit that does not write to it. -/
theorem isPrefix_run {edit : Edit} {segment : Segment} {first : Nat} {block : List Cell}
    (stands : block <+: segment.cells.drop first)
    (spares : edit.Spares first (first + block.length)) :
    block <+: (edit.run segment).cells.drop first := by
  rcases edit.cells_run segment with ⟨more, grown⟩ | ⟨index, value, replaced, spared⟩
  · rw [grown, List.drop_append]
    exact stands.trans (List.prefix_append _ _)
  · rw [replaced, List.drop_set]
    split
    case isTrue before => exact stands
    case isFalse inside =>
        have behind := spared _ _ spares
        obtain ⟨after, split⟩ := stands
        rw [← split, List.set_append_right _ _ (by omega)]
        exact List.prefix_append _ _

end Edit

namespace Segment

variable {segment : Segment}

/-- The segment after edits one after the other. -/
def edited (segment : Segment) (edits : List Edit) : Segment := edits.foldl Edit.run segment

theorem length_le_edited (segment : Segment) (edits : List Edit) :
    segment.cells.length ≤ (segment.edited edits).cells.length := by
  induction edits generalizing segment with
  | nil => exact le_rfl
  | cons edit later ih => exact (edit.length_le_run segment).trans (ih _)

theorem isPrefix_edited {edits : List Edit} {first : Nat} {block : List Cell}
    (stands : block <+: segment.cells.drop first)
    (spares : ∀ edit ∈ edits, edit.Spares first (first + block.length)) :
    block <+: (segment.edited edits).cells.drop first := by
  induction edits generalizing segment with
  | nil => exact stands
  | cons edit later ih =>
      rw [List.forall_mem_cons] at spares
      exact ih (Edit.isPrefix_run stands spares.1) spares.2

/-- The whole of what stands under an address is the block just pushed only if the
number of cells before it fits an address. -/
theorem resolve_push_iff {block : List Cell} (nonempty : block ≠ []) :
    resolve ⟨segment.cells ++ block⟩ (addressAt segment.cells.length) = .ok block ↔
      segment.cells.length < 2 ^ 29 := by
  have positive := List.length_pos_iff.mpr nonempty
  rw [resolve_eq_ok_iff, ← toInt_addressAt_eq_iff]
  constructor
  · rintro ⟨index, inside, offset, whole⟩
    -- The lengths tell the index.
    have lengths := congrArg List.length whole
    simp only [List.length_drop, List.length_append] at inside lengths
    obtain rfl : index = segment.cells.length := by omega
    exact offset
  · intro offset
    refine ⟨segment.cells.length, ?_, offset, List.drop_left.symm⟩
    rw [List.length_append]
    omega

/-- Edits keep a block under its address. -/
theorem exists_resolve_edited {block : List Cell} (nonempty : block ≠ [])
    (low : segment.cells.length < 2 ^ 29) {edits : List Edit}
    (spares : ∀ edit ∈ edits,
      edit.Spares segment.cells.length (segment.cells.length + block.length)) :
    ∃ after, (edited ⟨segment.cells ++ block⟩ edits).resolve
      (addressAt segment.cells.length) = .ok (block ++ after) := by
  have pushed : block <+: (segment.cells ++ block).drop segment.cells.length := by
    rw [List.drop_left]
  obtain ⟨after, standing⟩ :
      block <+: (edited ⟨segment.cells ++ block⟩ edits).cells.drop segment.cells.length :=
    isPrefix_edited pushed spares
  refine ⟨after, resolve_eq_ok_iff.mpr
    ⟨segment.cells.length, ?_, toInt_addressAt_eq_iff.mpr low, standing⟩⟩
  have positive := List.length_pos_iff.mpr nonempty
  have grown := length_le_edited ⟨segment.cells ++ block⟩ edits
  simp only [List.length_append] at grown
  omega

/-- A cell can be overwritten: it then has the new value, every other cell the old one,
and the same addresses are valid. -/
theorem exists_write {address : Cell} (valid : segment.Valid address) :
    ∃ index < segment.cells.length, address.toInt = 4 * index ∧
      segment.resolve address = .ok (segment.cells.drop index) ∧
      ∀ value, ∃ written, segment.write address value = .ok written ∧
        (∀ asked, written.memory.deref asked address = .ok value) ∧
        (∀ other, other ≠ index → written.cells[other]? = segment.cells[other]?) ∧
        ∀ other, written.Valid other ↔ segment.Valid other := by
  obtain ⟨index, inside, offset⟩ := valid_iff.mp valid
  refine ⟨index, inside, offset, resolve_eq_ok_iff.mpr ⟨index, inside, offset, rfl⟩, ?_⟩
  intro value
  refine ⟨_, write_eq_ok inside offset value, ?_, ?_, ?_⟩
  · intro asked
    have stillInside : index < (segment.cells.set index value).length := by
      rwa [List.length_set]
    have found : resolve ⟨segment.cells.set index value⟩ address = _ :=
      resolve_eq_ok_iff.mpr ⟨index, stillInside, offset, rfl⟩
    change (resolve ⟨segment.cells.set index value⟩ address >>= _) = _
    rw [found, List.drop_eq_getElem_cons stillInside, List.getElem_set_self]
    rfl
  · intro other different
    exact List.getElem?_set_ne different.symm
  · intro other
    rw [Valid, Valid, List.length_set]

end Segment

/-- A push adds its block behind the cells there are.  The block is empty for an empty
array alone.  Otherwise the address that the push returns is that of the block, all of it
and nothing else, if and only if there were fewer than `2 ^ 29` cells.  It is then four
times their number, and the block stays under it whatever is pushed later and whatever is
written outside the block.  A block pushed later has the same address just if the numbers
of cells differ by a multiple of `2 ^ 30`.
An address serves for reading and writing alike, exactly if it is that of a cell. -/
theorem segments_store_faithfully (segment : Segment) :
    (∀ push : Push, ∃ block address grown,
      push.Lays block ∧ (block = [] ↔ push.Empty) ∧
      push.run segment = (address, grown) ∧ grown.cells = segment.cells ++ block ∧
      (block ≠ [] →
        (grown.resolve address = .ok block ↔ segment.cells.length < 2 ^ 29) ∧
        (segment.cells.length < 2 ^ 29 →
          address.toInt = 4 * segment.cells.length ∧
          ∀ edits : List Edit,
            (∀ edit ∈ edits, edit.Spares segment.cells.length grown.cells.length) →
            ∃ after, (grown.edited edits).resolve address = .ok (block ++ after)) ∧
        ∀ (edits : List Edit) (other : Push),
          ((other.run (grown.edited edits)).1 = address ↔
            (grown.edited edits).cells.length ≡ segment.cells.length [MOD 2 ^ 30]) ∧
          ((grown.edited edits).cells.length < 2 ^ 30 →
            (other.run (grown.edited edits)).1 ≠ address))) ∧
    ∀ address : Cell,
      (segment.Valid address → ∃ index < segment.cells.length,
        address.toInt = 4 * index ∧
        segment.resolve address = .ok (segment.cells.drop index) ∧
        ∀ value, ∃ written, segment.write address value = .ok written ∧
          (∀ asked, written.memory.deref asked address = .ok value) ∧
          (∀ other, other ≠ index → written.cells[other]? = segment.cells[other]?) ∧
          ∀ other, written.Valid other ↔ segment.Valid other) ∧
      (¬segment.Valid address →
        segment.resolve address = .error (.invalidAddress address) ∧
        ∀ value, segment.write address value = .error (.invalidAddress address) ∧
          (Edit.write address value).run segment = segment) := by
  constructor
  · intro push
    refine ⟨push.block, Segment.addressAt segment.cells.length,
      ⟨segment.cells ++ push.block⟩, push.lays_block, push.block_eq_nil_iff,
      push.run_eq_push segment, rfl, fun nonempty => ?_⟩
    refine ⟨Segment.resolve_push_iff nonempty, ?_, ?_⟩
    · intro low
      refine ⟨Segment.toInt_addressAt_eq_iff.mpr low, ?_⟩
      intro edits spares
      rw [List.length_append] at spares
      exact Segment.exists_resolve_edited nonempty low spares
    · intro edits other
      rw [Push.run_eq_push]
      refine ⟨Segment.addressAt_eq_iff, fun few same => ?_⟩
      have congruent := Segment.addressAt_eq_iff.mp same
      have positive := List.length_pos_iff.mpr nonempty
      have grown := Segment.length_le_edited ⟨segment.cells ++ push.block⟩ edits
      simp only [List.length_append] at grown
      rw [Nat.ModEq, Nat.mod_eq_of_lt few, Nat.mod_eq_of_lt (by omega)] at congruent
      omega
  · intro address
    refine ⟨Segment.exists_write, fun invalid => ?_⟩
    refine ⟨Segment.resolve_invalid invalid, fun value => ?_⟩
    have refused := Segment.write_invalid invalid value
    exact ⟨refused, by rw [Edit.run, refused]⟩

/-- A text packed into two cells keeps its place between a cell that is overwritten and a
text that is pushed later; an address between two cells serves for nothing. -/
theorem packed_text_keeps_its_place :
    let segment := Segment.mk [7]
    let text := Push.packedText "abcd"
    let edits := [Edit.write 0 9, Edit.push (.text "hi")]
    let grown := Segment.mk [7, 0x61626364, 0]
    ¬text.Empty ∧ segment.cells.length < 2 ^ 29 ∧
      text.run segment = (4, grown) ∧
      (∀ edit ∈ edits, edit.Spares segment.cells.length grown.cells.length) ∧
      (∃ after, (grown.edited edits).resolve 4 = .ok ([0x61626364, 0] ++ after)) ∧
      (grown.edited edits).cells.length < 2 ^ 30 ∧
      ((Push.cell 5).run (grown.edited edits)).1 ≠ 4 ∧
      grown.Valid 4 ∧ (∃ written, grown.write 4 8 = .ok written) ∧
      ¬grown.Valid 6 ∧ grown.resolve 6 = .error (.invalidAddress 6) := by
  intro segment text edits grown
  have other : ¬text.Empty := by decide
  have low : segment.cells.length < 2 ^ 29 := by decide
  have ran : text.run segment = (4, grown) := by decide
  have spares : ∀ edit ∈ edits,
      edit.Spares segment.cells.length grown.cells.length := by
    simp [edits, Edit.Spares, segment, grown]
  have valid : grown.Valid 4 := by decide
  have invalid : ¬grown.Valid 6 := by decide
  have few : (grown.edited edits).cells.length < 2 ^ 30 := by decide
  obtain ⟨block, _, _, -, empty, runs, cells, stored⟩ :=
    (segments_store_faithfully segment).1 text
  cases ran.symm.trans runs
  have whole : [0x61626364, 0] = block := (List.cons.inj cells).2
  subst whole
  obtain ⟨-, stays, apart⟩ := stored (mt empty.mp other)
  obtain ⟨_, -, -, -, writes⟩ := ((segments_store_faithfully grown).2 4).1 valid
  obtain ⟨written, wrote, -⟩ := writes 8
  have refused := ((segments_store_faithfully grown).2 6).2 invalid
  exact ⟨other, low, ran, spares, (stays low).2 edits spares, few,
    (apart edits (.cell 5)).2 few, valid, ⟨written, wrote⟩, invalid, refused.1⟩

end CellBus
