import CellBus.Memory.Segment
import CellBus.Proofs.EncodedTexts

/-!
# Texts in memory

A text without a zero character is read back out of either layout, whatever stands
behind it.  Its first cell tells the layouts apart: unpacked it is one byte, and
packed it has the first byte, which is not zero, at the high end.  The packed form
of the empty text is a zero cell and is read as unpacked.
-/

namespace CellBus

namespace Cell

variable (bytes : List UInt8)

/-- The byte at an index of a list, zero where the list ends early. -/
def byteAt (index : Nat) : Nat := (bytes.getD index 0).toNat

theorem byteAt_lt (index : Nat) : byteAt bytes index < 256 := UInt8.toNat_lt _

/-- A byte behind the bits that stand above it, joined as bits or added as numbers. -/
theorem shiftLeft_or_shiftLeft (high : Nat) {low : Nat} (small : low < 2 ^ 8)
    (shift : Nat) :
    high <<< (8 + shift) ||| low <<< shift = (high * 2 ^ 8 + low) <<< shift := by
  have below : low <<< shift < 2 ^ (8 + shift) := by
    rw [Nat.shiftLeft_eq, Nat.pow_add]
    exact Nat.mul_lt_mul_of_pos_right small (Nat.two_pow_pos shift)
  rw [← Nat.shiftLeft_add_eq_or_of_lt below, Nat.shiftLeft_eq, Nat.shiftLeft_eq,
    Nat.shiftLeft_eq, Nat.pow_add, Nat.add_mul, Nat.mul_assoc]

theorem toNat_ofBytes :
    (ofBytes bytes).unsigned.toNat =
      ((byteAt bytes 0 * 2 ^ 8 + byteAt bytes 1) * 2 ^ 8 + byteAt bytes 2) * 2 ^ 8
        + byteAt bytes 3 := by
  have first := byteAt_lt bytes 0
  have second := byteAt_lt bytes 1
  have third := byteAt_lt bytes 2
  have fourth := byteAt_lt bytes 3
  have word : (ofBytes bytes).unsigned.toNat =
      byteAt bytes 0 <<< 24 % 2 ^ 32 ||| byteAt bytes 1 <<< 16 % 2 ^ 32 |||
        byteAt bytes 2 <<< 8 % 2 ^ 32 ||| byteAt bytes 3 := by
    simp [ofBytes, unsigned, byteAt, UInt32.toNat_or, UInt32.toNat_shiftLeft]
  rw [word]
  generalize byteAt bytes 0 = high at *
  generalize byteAt bytes 1 = next at *
  have two : high <<< 24 ||| next <<< 16 = (high * 2 ^ 8 + next) <<< 16 :=
    shiftLeft_or_shiftLeft high second 16
  have three : (high * 2 ^ 8 + next) <<< 16 ||| byteAt bytes 2 <<< 8 =
      ((high * 2 ^ 8 + next) * 2 ^ 8 + byteAt bytes 2) <<< 8 :=
    shiftLeft_or_shiftLeft _ third 8
  -- No byte is shifted out at the high end.
  rw [Nat.mod_eq_of_lt (by rw [Nat.shiftLeft_eq]; omega),
    Nat.mod_eq_of_lt (by rw [Nat.shiftLeft_eq]; omega),
    Nat.mod_eq_of_lt (by rw [Nat.shiftLeft_eq]; omega), two, three]
  exact shiftLeft_or_shiftLeft _ fourth 0

/-- The bytes of a cell as parts of its number. -/
theorem bytes_eq (cell : Cell) :
    cell.bytes = [UInt8.ofNat (cell.unsigned.toNat / 2 ^ 24),
      UInt8.ofNat (cell.unsigned.toNat / 2 ^ 16),
      UInt8.ofNat (cell.unsigned.toNat / 2 ^ 8), UInt8.ofNat cell.unsigned.toNat] := by
  simp [Cell.bytes, unsigned, ← UInt8.toNat_inj, Nat.shiftRight_eq_div_pow]

theorem bytes_ofBytes :
    (ofBytes bytes).bytes =
      [bytes.getD 0 0, bytes.getD 1 0, bytes.getD 2 0, bytes.getD 3 0] := by
  have first := byteAt_lt bytes 0
  have second := byteAt_lt bytes 1
  have third := byteAt_lt bytes 2
  have fourth := byteAt_lt bytes 3
  rw [bytes_eq, toNat_ofBytes]
  unfold byteAt at *
  simp only [← UInt8.toNat_inj, List.cons.injEq, UInt8.toNat_ofNat', and_true]
  omega

theorem lowByte_byte (byte : UInt8) : lowByte byte.toUInt32.toInt32 = byte :=
  UInt8.toUInt8_toUInt32 byte

/-- The cell of a byte has its number. -/
theorem ofNat_byte (byte : UInt8) : Int32.ofNat byte.toNat = byte.toUInt32.toInt32 := by
  apply Int32.toBitVec_inj.mp
  exact BitVec.ofNat_toNat 32 byte.toBitVec

theorem byte_ne_zero {byte : UInt8} (nonzero : byte ≠ 0) :
    byte.toUInt32.toInt32 ≠ 0 := by
  intro zero
  apply nonzero
  rw [← lowByte_byte byte, zero]
  rfl

end Cell

namespace Segment

/-- Reading packed cells byte by byte gives the bytes back, padded with zeros to the end
of the last cell. -/
theorem exists_padding_packBytes (bytes : List UInt8) :
    ∃ padding < 4,
      (packBytes bytes).flatMap Cell.bytes = bytes ++ List.replicate padding 0 := by
  fun_induction packBytes bytes with
  | case1 first second third fourth rest ih =>
      obtain ⟨padding, few, unpacked⟩ := ih
      refine ⟨padding, few, ?_⟩
      rw [List.flatMap_cons, Cell.bytes_ofBytes, unpacked]
      rfl
  | case2 => exact ⟨0, by decide, rfl⟩
  | case3 bytes short nonempty =>
      -- Only one to three bytes are left, and the cell is padded to four.
      rw [List.flatMap_singleton, Cell.bytes_ofBytes]
      match bytes, short, nonempty with
      | [_], _, _ => exact ⟨3, by decide, rfl⟩
      | [_, _], _, _ => exact ⟨2, by decide, rfl⟩
      | [_, _, _], _, _ => exact ⟨1, by decide, rfl⟩
      | [], _, nonempty => exact absurd rfl nonempty
      | first :: second :: third :: fourth :: rest, short, _ =>
          exact absurd rfl (short first second third fourth rest)

/-- The first cell takes up to four bytes. -/
theorem packBytes_cons (byte : UInt8) (bytes : List UInt8) :
    packBytes (byte :: bytes) =
      Cell.ofBytes (byte :: bytes.take 3) :: packBytes (bytes.drop 3) := by
  match bytes with
  | [] | [_] | [_, _] | _ :: _ :: _ :: _ => rfl

theorem unpackedBlock_ne_nil (text : String) : unpackedBlock text ≠ [] :=
  List.append_ne_nil_of_right_ne_nil _ (List.cons_ne_nil 0 [])

theorem packedBlock_ne_nil (text : String) : packedBlock text ≠ [] := by
  rw [packedBlock]
  cases Text.encode text with
  | nil => exact List.cons_ne_nil _ _
  | cons byte bytes =>
      rw [List.cons_append, packBytes_cons]
      exact List.cons_ne_nil _ _

end Segment

namespace Memory

variable {address : Cell} {limit : Nat}

theorem collectText_ended {bytes : List UInt8} (rest : List (Option UInt8))
    (collected : List UInt8) {room : Nat} (short : bytes.length ≤ room) :
    collectText address limit room collected (bytes.map some ++ none :: rest) =
      .ok (collected.reverse ++ bytes) := by
  induction bytes generalizing collected room with
  | nil => simp [collectText]
  | cons byte bytes ih =>
      cases room with
      | zero => simp at short
      | succ room =>
          have shorter : bytes.length ≤ room := Nat.le_of_succ_le_succ short
          simp [collectText, ih (byte :: collected) shorter]

/-- The cells begin with a text of these bytes. -/
def HoldsText (cells : List Cell) (bytes : List UInt8) : Prop :=
  ∃ rest, textUnits cells = bytes.map some ++ none :: rest

theorem readText_of_holdsText {memory : Memory} {asked : Nat} {cells : List Cell}
    {bytes : List UInt8} (found : memory.resolve asked address = .ok cells)
    (holds : HoldsText cells bytes) (short : bytes.length ≤ limit) :
    memory.readText asked address limit = .ok bytes := by
  obtain ⟨rest, units⟩ := holds
  rw [readText, found]
  change collectText address limit limit [] (textUnits cells) = _
  rw [units, collectText_ended rest [] short]
  rfl

theorem unpackedUnits_unpackedBlock {text : String} (nonzero : '\x00' ∉ text.toList)
    (rest : List Cell) :
    unpackedUnits (Segment.unpackedBlock text ++ rest) =
      (Text.encode text).map some ++ none :: unpackedUnits rest := by
  have bytes : ∀ byte ∈ Text.encode text, byte ≠ 0 :=
    fun _ member => Text.ne_zero_of_mem_encode nonzero member
  rw [Segment.unpackedBlock, unpackedUnits, List.map_append, List.map_append,
    List.map_map, List.append_assoc]
  congr 1
  apply List.map_congr_left
  intro byte member
  simp [Cell.byte_ne_zero (bytes byte member), Cell.lowByte_byte]

theorem isPacked_unpackedBlock (text : String) (rest : List Cell) :
    isPacked (Segment.unpackedBlock text ++ rest) = false := by
  rw [Segment.unpackedBlock]
  cases Text.encode text with
  | nil => rfl
  | cons byte bytes =>
      have small : ¬unpackedMax < byte.toUInt32 := by
        have bounded := UInt8.toNat_lt byte
        rw [UInt32.lt_iff_toNat_lt, UInt8.toNat_toUInt32, Nat.not_lt]
        exact Nat.le_trans (Nat.le_of_lt bounded) (by decide)
      exact decide_eq_false small

theorem isPacked_packBytes {byte : UInt8} (nonzero : byte ≠ 0) (bytes : List UInt8)
    (rest : List Cell) :
    isPacked (Segment.packBytes (byte :: bytes) ++ rest) := by
  have positive : 0 < byte.toNat := by
    rw [Nat.pos_iff_ne_zero]
    exact fun zero => nonzero (UInt8.toNat_inj.mp zero)
  have large : unpackedMax < (Cell.ofBytes (byte :: bytes.take 3)).unsigned := by
    rw [UInt32.lt_iff_toNat_lt, Cell.toNat_ofBytes]
    change 0x00FFFFFF < ((byte.toNat * _ + _) * _ + _) * _ + _
    omega
  rw [Segment.packBytes_cons]
  exact decide_eq_true large

theorem packedUnits_packedBlock {text : String} (nonzero : '\x00' ∉ text.toList)
    (rest : List Cell) :
    ∃ later, packedUnits (Segment.packedBlock text ++ rest) =
      (Text.encode text).map some ++ none :: later := by
  obtain ⟨padding, -, unpacked⟩ :=
    Segment.exists_padding_packBytes (Text.encode text ++ [0])
  have units : (Text.encode text).map (fun byte => if byte = 0 then none else some byte) =
      (Text.encode text).map some := by
    apply List.map_congr_left
    intro byte member
    exact if_neg (Text.ne_zero_of_mem_encode nonzero member)
  rw [packedUnits, Segment.packedBlock, List.flatMap_append, unpacked]
  simp only [List.append_assoc, List.map_append, units, List.map_cons, List.cons_append]
  exact ⟨_, rfl⟩

variable {text : String}

theorem holdsText_unpackedBlock (nonzero : '\x00' ∉ text.toList) (rest : List Cell) :
    HoldsText (Segment.unpackedBlock text ++ rest) (Text.encode text) := by
  refine ⟨unpackedUnits rest, ?_⟩
  rw [textUnits, isPacked_unpackedBlock, if_neg Bool.false_ne_true,
    unpackedUnits_unpackedBlock nonzero]

theorem holdsText_packedBlock (nonzero : '\x00' ∉ text.toList) (rest : List Cell) :
    HoldsText (Segment.packedBlock text ++ rest) (Text.encode text) := by
  cases encoded : Text.encode text with
  | nil =>
      -- The end mark alone makes a zero cell, which does not look packed.
      refine ⟨unpackedUnits rest, ?_⟩
      rw [Segment.packedBlock, encoded]
      rfl
  | cons byte bytes =>
      have packed : isPacked (Segment.packedBlock text ++ rest) := by
        rw [Segment.packedBlock, encoded]
        exact isPacked_packBytes (Text.ne_zero_of_mem_encode nonzero
          (encoded ▸ List.mem_cons_self)) _ _
      obtain ⟨later, units⟩ := packedUnits_packedBlock nonzero rest
      exact ⟨later, by rw [textUnits, if_pos packed, units, encoded]⟩

end Memory

end CellBus
