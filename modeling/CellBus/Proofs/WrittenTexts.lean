import CellBus.Proofs.DecodedTexts
import CellBus.Proofs.SegmentAddresses
import CellBus.Proofs.TextBytes
import CellBus.Proofs.TextLayouts
import Mathlib.Data.List.TakeWhile

/-!
# Texts written and read back

A text is written with all its characters and read up to its first zero.  Which layout
it was written in does not show, with one exception: packed behind a zero byte, the
other bytes of the first cell look like a single character, and the text is read as
unpacked.  What was read out of any memory can be written in either layout and read
again if it has no zero byte, and it has one only where an unpacked text was narrowed
to bytes.
-/

namespace CellBus

namespace Text

/-- The characters of a text before its first zero character. -/
def beforeZero (text : String) : String :=
  String.ofList (text.toList.takeWhile (· ≠ '\x00'))

/-- The first byte of the text is zero and another one of the first four is not. -/
def Masked (text : String) : Prop :=
  (encode text).head? = some 0 ∧ ∃ byte ∈ (encode text).take 4, byte ≠ 0

instance (text : String) : Decidable (Masked text) :=
  inferInstanceAs (Decidable (_ ∧ _))

variable {text : String}

theorem encode_beforeZero (text : String) :
    encode (beforeZero text) = (encode text).takeWhile (· ≠ 0) := by
  rw [encode, encode, beforeZero, String.toList_ofList]
  induction text.toList with
  | nil => rfl
  | cons character rest ih =>
      by_cases zero : character = '\x00'
      · subst zero
        rfl
      · have bytes : ∀ byte ∈ String.utf8EncodeChar character, byte ≠ 0 :=
          fun _ member => ne_zero_of_mem_utf8EncodeChar zero member
        rw [List.flatMap_cons, List.takeWhile_append_of_pos (by simpa using bytes), ← ih]
        simp [zero]

theorem encode_beforeZero_eq_iff :
    encode (beforeZero text) = encode text ↔ 0 ∉ encode text := by
  rw [encode_beforeZero, List.takeWhile_eq_self_iff]
  constructor
  · intro nonzero zero
    simpa using nonzero 0 zero
  · intro nonzero byte member
    have different : byte ≠ 0 := fun zero => nonzero (zero ▸ member)
    exact decide_eq_true different

theorem encode_beforeZero_of_head (starts : (encode text).head? = some 0) :
    encode (beforeZero text) = [] := by
  obtain ⟨rest, encoded⟩ := List.head?_eq_some_iff.mp starts
  rw [encode_beforeZero, encoded]
  rfl

end Text

namespace Cell

theorem eq_zero_iff {cell : Cell} : cell = 0 ↔ cell.unsigned.toNat = 0 := by
  constructor
  · rintro rfl
    rfl
  · intro zero
    exact Int32.toBitVec_inj.mp (BitVec.eq_of_toNat_eq zero)

/-- The first four bytes alone make a cell, and it is zero just if they are. -/
theorem ofBytes_eq_zero_iff {bytes : List UInt8} :
    ofBytes bytes = 0 ↔ ∀ byte ∈ bytes.take 4, byte = 0 := by
  have parts : (ofBytes bytes).unsigned.toNat = 0 ↔
      byteAt bytes 0 = 0 ∧ byteAt bytes 1 = 0 ∧ byteAt bytes 2 = 0 ∧
        byteAt bytes 3 = 0 := by
    rw [toNat_ofBytes]
    omega
  have zero (byte : UInt8) : byte.toNat = 0 ↔ byte = 0 := UInt8.toNat_inj (b := 0)
  rw [eq_zero_iff, parts]
  simp only [byteAt, zero]
  rcases bytes with _ | ⟨first, _ | ⟨second, _ | ⟨third, _ | ⟨fourth, rest⟩⟩⟩⟩ <;> simp

end Cell

namespace Segment

theorem length_packBytes (bytes : List UInt8) :
    4 * (packBytes bytes).length ≤ bytes.length + 3 := by
  fun_induction packBytes bytes with
  | case1 first second third fourth rest ih =>
      simp only [List.length_cons]
      omega
  | case2 => exact Nat.zero_le _
  | case3 bytes short nonempty =>
      have positive := List.length_pos_iff.mpr nonempty
      rw [List.length_singleton]
      omega

variable {text : String}

/-- Behind a zero byte the first packed cell is small, and it is zero unless it masks
another byte. -/
theorem exists_packedBlock (starts : (Text.encode text).head? = some 0) :
    ∃ first later, packedBlock text = first :: later ∧
      first.unsigned.toNat ≤ 0x00FFFFFF ∧ (first = 0 ↔ ¬Text.Masked text) := by
  obtain ⟨bytes, encoded⟩ := List.head?_eq_some_iff.mp starts
  have block : packedBlock text =
      Cell.ofBytes (0 :: (bytes ++ [0]).take 3) :: packBytes ((bytes ++ [0]).drop 3) := by
    rw [packedBlock, encoded, List.cons_append, packBytes_cons]
  refine ⟨_, _, block, ?_, ?_⟩
  · have second := Cell.byteAt_lt (0 :: (bytes ++ [0]).take 3) 1
    have third := Cell.byteAt_lt (0 :: (bytes ++ [0]).take 3) 2
    have fourth := Cell.byteAt_lt (0 :: (bytes ++ [0]).take 3) 3
    have first : Cell.byteAt (0 :: (bytes ++ [0]).take 3) 0 = 0 := rfl
    rw [Cell.toNat_ofBytes, first]
    omega
  · rw [Cell.ofBytes_eq_zero_iff, Text.Masked, encoded]
    -- The end mark that may stand in the same cell is zero as well.
    rcases bytes with _ | ⟨second, _ | ⟨third, _ | ⟨fourth, rest⟩⟩⟩ <;> simp

end Segment

namespace Memory

variable {memory : Memory} {asked limit : Nat} {address : Cell} {cells : List Cell}

theorem readText_of_reads (found : memory.resolve asked address = .ok cells)
    {bytes : List UInt8} (reads : textBytes cells = bytes ∧ TextEnds cells) :
    memory.readText asked address limit =
      if bytes.length ≤ limit then .ok bytes
      else .error (.textTooLong (limit + 1) limit) := by
  obtain ⟨rfl, ends⟩ := reads
  rw [readText, found]
  change collectText address limit limit [] (textUnits cells) = _
  rw [collectText_textUnits, if_pos ends]
  simp only [← not_le, ite_not]

theorem readText_eq_ok_iff (found : memory.resolve asked address = .ok cells)
    {bytes : List UInt8} :
    memory.readText asked address limit = .ok bytes ↔
      TextEnds cells ∧ textBytes cells = bytes ∧ bytes.length ≤ limit := by
  rw [readText, found]
  change collectText address limit limit [] (textUnits cells) = _ ↔ _
  rw [collectText_textUnits]
  split
  case isTrue long =>
    simp only [reduceCtorEq, false_iff]
    rintro ⟨-, rfl, short⟩
    omega
  case isFalse short =>
    by_cases ends : TextEnds cells
    · simp only [ends, if_true, Except.ok.injEq, true_and]
      constructor
      · rintro rfl
        exact ⟨rfl, not_lt.mp short⟩
      · exact And.left
    · simp [ends]

/-- Of the items before a first zero none is that zero or stands behind it. -/
theorem takeWhile_append_zero {α : Type} [DecidableEq α] (zero : α) (items rest : List α) :
    (items ++ zero :: rest).takeWhile (· ≠ zero) = items.takeWhile (· ≠ zero) := by
  induction items with
  | nil => simp
  | cons item items ih =>
      by_cases ends : item = zero
      · simp [ends]
      · simpa [ends] using ih

theorem length_takeWhile_lt (ends : 0 ∈ cells) :
    (cells.takeWhile (· ≠ 0)).length < cells.length := by
  have before := List.takeWhile_prefix (· ≠ 0) (l := cells)
  refine Nat.lt_of_le_of_ne before.length_le fun whole => ?_
  have nonzero := List.takeWhile_eq_self_iff.mp (before.eq_of_length whole)
  simpa using nonzero 0 ends

variable {text : String}

theorem not_packed_unpackedBlock (text : String) (rest : List Cell) :
    ¬Packed (Segment.unpackedBlock text ++ rest) := by
  rw [← isPacked_iff, isPacked_unpackedBlock]
  exact Bool.false_ne_true

/-- Whatever stands behind it, an unpacked text is read up to its first zero. -/
theorem reads_unpackedBlock (text : String) (rest : List Cell) :
    textBytes (Segment.unpackedBlock text ++ rest) =
        Text.encode (Text.beforeZero text) ∧
      TextEnds (Segment.unpackedBlock text ++ rest) := by
  have unpacked := not_packed_unpackedBlock text rest
  have nonzero : (fun byte : UInt8 => decide (byte.toUInt32.toInt32 ≠ 0)) =
      fun byte => decide (byte ≠ 0) := by
    funext byte
    by_cases zero : byte = 0
    · rw [zero]
      rfl
    · simp [zero, Cell.byte_ne_zero zero]
  rw [textBytes, TextEnds, if_neg unpacked, if_neg unpacked, Segment.unpackedBlock,
    List.append_assoc, List.singleton_append, takeWhile_append_zero, List.takeWhile_map,
    List.map_map, Text.encode_beforeZero]
  constructor
  · change (List.takeWhile (fun byte : UInt8 => decide (byte.toUInt32.toInt32 ≠ 0))
      _).map _ = _
    rw [nonzero]
    simp [Function.comp_def, Cell.lowByte_byte]
  · simp

theorem reads_zero_cons (rest : List Cell) :
    textBytes (0 :: rest) = [] ∧ TextEnds (0 :: rest) := by
  have unpacked : ¬Packed (0 :: rest) := by
    rintro ⟨first, ⟨⟩, large⟩
    exact absurd large (by decide)
  simp [textBytes, TextEnds, unpacked]

/-- A packed text is read up to its first zero, unless it is masked. -/
theorem reads_packedBlock (plain : ¬Text.Masked text) (rest : List Cell) :
    textBytes (Segment.packedBlock text ++ rest) = Text.encode (Text.beforeZero text) ∧
      TextEnds (Segment.packedBlock text ++ rest) := by
  cases encoded : Text.encode text with
  | nil =>
      -- The end mark alone makes a zero cell.
      rw [Segment.packedBlock, Text.encode_beforeZero, encoded]
      exact reads_zero_cons rest
  | cons byte bytes =>
      by_cases zero : byte = 0
      · have starts : (Text.encode text).head? = some 0 := by rw [encoded, zero]; rfl
        obtain ⟨first, later, block, -, blank⟩ := Segment.exists_packedBlock starts
        rw [block, blank.mpr plain, Text.encode_beforeZero_of_head starts]
        exact reads_zero_cons _
      · have packed : Packed (Segment.packedBlock text ++ rest) := by
          rw [← isPacked_iff, Segment.packedBlock, encoded]
          exact isPacked_packBytes zero _ _
        obtain ⟨padding, -, unpacked⟩ :=
          Segment.exists_padding_packBytes (Text.encode text ++ [0])
        have units : (Segment.packedBlock text ++ rest).flatMap Cell.bytes =
            Text.encode text ++
              0 :: (List.replicate padding 0 ++ rest.flatMap Cell.bytes) := by
          rw [List.flatMap_append, Segment.packedBlock, unpacked]
          simp
        rw [textBytes, TextEnds, if_pos packed, if_pos packed, units,
          takeWhile_append_zero, Text.encode_beforeZero]
        exact ⟨rfl, by simp⟩

/-- A masked text is read as if it were unpacked, and not as empty. -/
theorem reads_masked (masked : Text.Masked text) (rest : List Cell) :
    ¬Packed (Segment.packedBlock text ++ rest) ∧
      textBytes (Segment.packedBlock text ++ rest) ≠ [] := by
  obtain ⟨first, later, block, small, blank⟩ := Segment.exists_packedBlock masked.1
  have nonzero : first ≠ 0 := fun zero => blank.mp zero masked
  have unpacked : ¬Packed (Segment.packedBlock text ++ rest) := by
    simpa [Packed, block] using small
  refine ⟨unpacked, ?_⟩
  rw [textBytes, if_neg unpacked, block]
  simp [nonzero]

/-- A text reads back out of a block, whatever stands behind it, if it has no zero byte,
and does not read back out of the block alone if it has one. -/
structure WritesBack (text : String) (block : List Cell) : Prop where
  nonempty : block ≠ []
  kept : 0 ∉ Text.encode text → ∀ rest,
    textBytes (block ++ rest) = Text.encode text ∧ TextEnds (block ++ rest)
  lost : 0 ∈ Text.encode text → TextEnds block → textBytes block ≠ Text.encode text

theorem writesBack_unpackedBlock (text : String) :
    WritesBack text (Segment.unpackedBlock text) where
  nonempty := Segment.unpackedBlock_ne_nil text
  kept nonzero rest := by
    rw [← Text.encode_beforeZero_eq_iff.mpr nonzero]
    exact reads_unpackedBlock text rest
  lost zero _ same := by
    have bytes := (reads_unpackedBlock text []).1
    rw [List.append_nil, same] at bytes
    exact Text.encode_beforeZero_eq_iff.mp bytes.symm zero

theorem writesBack_packedBlock (text : String) :
    WritesBack text (Segment.packedBlock text) where
  nonempty := Segment.packedBlock_ne_nil text
  kept nonzero rest := by
    rw [← Text.encode_beforeZero_eq_iff.mpr nonzero]
    exact reads_packedBlock (fun masked => nonzero (List.mem_of_head? masked.1)) rest
  lost zero ends same := by
    by_cases masked : Text.Masked text
    · -- Read as unpacked, the block gives a byte for each cell before its end mark, so
      -- fewer than the text has.
      obtain ⟨unpacked, -⟩ := reads_masked masked []
      rw [List.append_nil] at unpacked
      rw [TextEnds, if_neg unpacked] at ends
      rw [textBytes, if_neg unpacked] at same
      have count := congrArg List.length same
      have fewer := length_takeWhile_lt ends
      have cells := Segment.length_packBytes (Text.encode text ++ [0])
      change 4 * (Segment.packedBlock text).length ≤ _ at cells
      rw [List.length_append, List.length_singleton] at cells
      rw [List.length_map] at count
      have positive := List.length_pos_of_mem zero
      omega
    · have bytes := (reads_packedBlock masked []).1
      rw [List.append_nil, same] at bytes
      exact Text.encode_beforeZero_eq_iff.mp bytes.symm zero

/-- A text out of memory has a zero byte just where a cell that does not end it is
narrowed to one. -/
theorem zero_mem_textBytes_iff :
    0 ∈ textBytes cells ↔
      ¬Packed cells ∧ ∃ cell ∈ cells.takeWhile (· ≠ 0), cell.lowByte = 0 := by
  rw [textBytes]
  split
  case isTrue packed =>
    have nonzero : 0 ∉ (cells.flatMap Cell.bytes).takeWhile (· ≠ 0) := by
      intro member
      simpa using List.mem_takeWhile_imp member
    simp only [nonzero, packed, not_true, false_and]
  case isFalse unpacked =>
    simp only [List.mem_map, unpacked, not_false_eq_true, true_and]

end Memory

namespace Segment

/-- A block is read under its address, with what was pushed later behind it. -/
theorem resolve_pushed {segment : Segment} (low : segment.cells.length < 2 ^ 29)
    (push : Push) (nonempty : push.block ≠ []) (later : List Push) (asked : Nat) :
    ((push.run segment).2.layOut later).2.memory.resolve asked (push.run segment).1 =
      .ok (push.block ++ later.flatMap Push.block) := by
  have found := resolve_layOut_end low (push :: later)
  rw [List.flatMap_cons, if_neg (List.append_ne_nil_of_left_ne_nil nonempty _)] at found
  rw [Push.run_eq_push]
  rw [layOut_cons] at found
  exact found

end Segment

open Memory

/-- A text reads back out of the unpacked layout as its bytes before the first zero
character, or as too long if there is no room for them.  Out of the packed layout it
reads back in the same way, unless it is masked. -/
theorem layouts_read_alike_unless_masked (text : String) (segment : Segment)
    (low : segment.cells.length < 2 ^ 29) (later : List Push) (asked limit : Nat) :
    let bytes := Text.encode (Text.beforeZero text)
    let reading : Except MarshalError (List UInt8) :=
      if bytes.length ≤ limit then .ok bytes else .error (.textTooLong (limit + 1) limit)
    let unpacked := segment.pushText text
    let packed := segment.pushPackedText text
    (unpacked.2.layOut later).2.memory.readText asked unpacked.1 limit = reading ∧
      ((packed.2.layOut later).2.memory.readText asked packed.1 limit = reading ↔
        ¬Text.Masked text) := by
  intro bytes reading unpacked packed
  constructor
  · have found := Segment.resolve_pushed low (.text text)
      (Segment.unpackedBlock_ne_nil text) later asked
    exact readText_of_reads found (reads_unpackedBlock text _)
  · have found := Segment.resolve_pushed low (.packedText text)
      (Segment.packedBlock_ne_nil text) later asked
    constructor
    · intro same masked
      -- An empty text is due, and the first cell gives a byte.
      have empty : reading = .ok [] := by
        change (if bytes.length ≤ limit then _ else _) = _
        rw [show bytes = [] from Text.encode_beforeZero_of_head masked.1]
        rfl
      obtain ⟨-, nothing, -⟩ := (readText_eq_ok_iff found).mp (same.trans empty)
      exact (reads_masked masked _).2 nothing
    · intro plain
      exact readText_of_reads found (reads_packedBlock plain _)

/-- A text with a zero character in the middle reads back alike, with room for the bytes
before it and without. -/
theorem text_with_zero_reads_back_alike :
    let text := "ab\x00c"
    let segment := Segment.mk [7]
    let unpacked := segment.pushText text
    let packed := segment.pushPackedText text
    segment.cells.length < 2 ^ 29 ∧ ¬Text.Masked text ∧
      unpacked.2.memory.readText 0 unpacked.1 2 = .ok [97, 98] ∧
      packed.2.memory.readText 0 packed.1 2 = .ok [97, 98] ∧
      unpacked.2.memory.readText 0 unpacked.1 1 = .error (.textTooLong 2 1) ∧
      packed.2.memory.readText 0 packed.1 1 = .error (.textTooLong 2 1) := by
  intro text segment unpacked packed
  have low : segment.cells.length < 2 ^ 29 := by decide
  have plain : ¬Text.Masked text := by decide
  have bytes : Text.encode (Text.beforeZero text) = [97, 98] := by
    rw [Text.encode_beforeZero]
    decide
  obtain ⟨longUnpacked, longPacked⟩ :=
    layouts_read_alike_unless_masked text segment low [] 0 2
  obtain ⟨shortUnpacked, shortPacked⟩ :=
    layouts_read_alike_unless_masked text segment low [] 0 1
  rw [bytes] at longUnpacked longPacked shortUnpacked shortPacked
  exact ⟨low, plain, longUnpacked, longPacked.mpr plain, shortUnpacked,
    shortPacked.mpr plain⟩

/-- Behind a zero character three others are masked: unpacked the text is empty, and
packed it reads as the last of them. -/
theorem masked_text_reads_differently :
    let text := "\x00abc"
    let unpacked := Segment.empty.pushText text
    let packed := Segment.empty.pushPackedText text
    Text.encode (Text.beforeZero text) = [] ∧
      unpacked.2.memory.readText 0 unpacked.1 16 = .ok [] ∧
      packed.2.memory.readText 0 packed.1 16 = .ok [99] ∧
      packed.2.memory.readText 0 packed.1 16 ≠ unpacked.2.memory.readText 0 unpacked.1 16 := by
  refine ⟨?_, rfl, rfl, nofun⟩
  rw [Text.encode_beforeZero]
  decide

/-- A text read out of any memory reads back out of either layout if it has no zero
byte, whatever is pushed behind it, and does not if it has one.  It has one just where
it was unpacked, with a cell before its end whose low byte alone is zero. -/
theorem texts_without_zero_can_be_written_back {memory : Memory} {asked limit : Nat}
    {address : Cell} {bytes : List UInt8} {text : String}
    (read : memory.readText asked address limit = .ok bytes)
    (valid : Text.decodeStrict bytes = some text) :
    (∀ segment : Segment, segment.cells.length < 2 ^ 29 →
      ∀ push ∈ [Push.text text, Push.packedText text], ∀ again : Nat,
        let laid := push.run segment
        (0 ∉ bytes → ∀ later,
          (laid.2.layOut later).2.memory.readText again laid.1 limit = .ok bytes) ∧
        (0 ∈ bytes → laid.2.memory.readText again laid.1 limit ≠ .ok bytes)) ∧
    ∃ cells, memory.resolve asked address = .ok cells ∧
      (0 ∈ bytes ↔
        ¬Packed cells ∧ ∃ cell ∈ cells.takeWhile (· ≠ 0), cell.lowByte = 0) := by
  obtain ⟨cells, found⟩ : ∃ cells, memory.resolve asked address = .ok cells := by
    cases found : memory.resolve asked address with
    | error error =>
        rw [readText, found] at read
        cases read
    | ok cells => exact ⟨cells, rfl⟩
  obtain ⟨-, stored, fits⟩ := (readText_eq_ok_iff found).mp read
  have encoded : bytes = Text.encode text := Text.decodeStrict_eq_some_iff.mp valid
  constructor
  · intro segment low push member again laid
    have writes : WritesBack text push.block := by
      simp only [List.mem_cons, List.not_mem_nil, or_false] at member
      rcases member with rfl | rfl
      · exact writesBack_unpackedBlock text
      · exact writesBack_packedBlock text
    rw [encoded] at fits ⊢
    constructor
    · intro nonzero later
      obtain ⟨same, ends⟩ := writes.kept nonzero (later.flatMap Push.block)
      have foundAgain := Segment.resolve_pushed low push writes.nonempty later again
      exact (readText_eq_ok_iff foundAgain).mpr ⟨ends, same, fits⟩
    · intro zero same
      have foundAgain := Segment.resolve_pushed low push writes.nonempty [] again
      rw [List.flatMap_nil, List.append_nil] at foundAgain
      obtain ⟨ends, kept, -⟩ := (readText_eq_ok_iff foundAgain).mp same
      exact writes.lost zero ends kept
  · refine ⟨cells, found, ?_⟩
    rw [← stored]
    exact zero_mem_textBytes_iff

/-- Two bytes of a packed text are written back into either layout, and narrowed bytes
with a zero among them into neither. -/
theorem two_bytes_are_written_back :
    let memory := (Segment.mk [0x61620000]).memory
    let narrowed := (Segment.mk [353, 256, 0]).memory
    let unpacked := (Segment.mk [7]).pushText "ab"
    let packed := Segment.empty.pushPackedText "a\x00"
    memory.readText 0 0 2 = .ok [97, 98] ∧ Text.decodeStrict [97, 98] = some "ab" ∧
      ((unpacked.2.layOut [.cell 5]).2.memory.readText 3 unpacked.1 2 = .ok [97, 98]) ∧
      narrowed.readText 0 0 2 = .ok [97, 0] ∧
      Text.decodeStrict [97, 0] = some "a\x00" ∧
      packed.2.memory.readText 0 packed.1 2 ≠ .ok [97, 0] := by
  intro memory narrowed unpacked packed
  have read : memory.readText 0 0 2 = .ok [97, 98] := rfl
  have valid : Text.decodeStrict [97, 98] = some "ab" := rfl
  have readNarrowed : narrowed.readText 0 0 2 = .ok [97, 0] := rfl
  have validNarrowed : Text.decodeStrict [97, 0] = some "a\x00" := rfl
  obtain ⟨kept, -⟩ := texts_without_zero_can_be_written_back read valid
  obtain ⟨lost, -⟩ := texts_without_zero_can_be_written_back readNarrowed validNarrowed
  have written := kept (Segment.mk [7]) (by decide) (.text "ab") (by simp) 3
  have refused := lost Segment.empty (by decide) (.packedText "a\x00") (by simp) 0
  exact ⟨read, valid, written.1 (by decide) [.cell 5], readNarrowed, validNarrowed,
    refused.2 (by decide)⟩

/-- A text with a zero between two letters, narrowed to bytes from an unpacked text,
reads back as the first letter alone. -/
theorem narrowed_zero_is_not_written_back :
    let memory := (Segment.mk [97, 256, 98, 0]).memory
    let text := "a\x00b"
    let unpacked := Segment.empty.pushText text
    let packed := Segment.empty.pushPackedText text
    memory.readText 0 0 8 = .ok [97, 0, 98] ∧
      Text.decodeStrict [97, 0, 98] = some text ∧
      unpacked.2.memory.readText 0 unpacked.1 8 = .ok [97] ∧
      packed.2.memory.readText 0 packed.1 8 = .ok [97] :=
  ⟨rfl, rfl, rfl, rfl⟩

end CellBus
