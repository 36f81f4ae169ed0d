import CellBus.Memory.Segment

/-!
# The bytes of a text

A text is collected unit by unit, and a unit for which there is no room ends it at
once.  What comes of that is said without a loop: the bytes up to the first zero are
counted, whether or not a zero comes, and only if they are few enough it matters that
one does.  In a packed text the zero is a byte, in an unpacked one it is a whole cell,
so a cell whose low byte alone is zero stands for a zero byte there.
-/

namespace CellBus.Memory

/-- The first cell, as a number without sign, is too large for a single character. -/
def Packed (cells : List Cell) : Prop :=
  ∃ first ∈ cells.head?, 0x00FFFFFF < first.unsigned.toNat

/-- A text is packed as its first cell shows. -/
theorem isPacked_iff {cells : List Cell} : isPacked cells ↔ Packed cells := by
  cases cells with
  | nil => simp [isPacked, Packed]
  | cons first rest => simp [isPacked, Packed, unpackedMax, UInt32.lt_iff_toNat_lt]

instance (cells : List Cell) : Decidable (Packed cells) :=
  decidable_of_iff _ isPacked_iff

/-- The bytes of the text that cells begin with, up to the first zero or else up to
the end. -/
def textBytes (cells : List Cell) : List UInt8 :=
  if Packed cells then (cells.flatMap Cell.bytes).takeWhile (· ≠ 0)
  else (cells.takeWhile (· ≠ 0)).map Cell.lowByte

/-- The text that cells begin with ends before they do. -/
def TextEnds (cells : List Cell) : Prop :=
  if Packed cells then 0 ∈ cells.flatMap Cell.bytes else 0 ∈ cells

instance (cells : List Cell) : Decidable (TextEnds cells) :=
  inferInstanceAs (Decidable (if Packed cells then _ else _))

variable {address : Cell} {limit : Nat}

/-- Items, of which the zero ends a text and any other stands for a byte, are collected
up to the zero. -/
theorem collectText_marked {α : Type} [DecidableEq α] (zero : α) (byte : α → UInt8)
    (items : List α) (room : Nat) (collected : List UInt8) :
    collectText address limit room collected
        (items.map fun item => if item = zero then none else some (byte item)) =
      if room < (items.takeWhile (· ≠ zero)).length then
        .error (.textTooLong (limit + 1) limit)
      else if zero ∈ items then
        .ok (collected.reverse ++ (items.takeWhile (· ≠ zero)).map byte)
      else .error (.unterminatedText address) := by
  induction items generalizing room collected with
  | nil => simp [collectText]
  | cons item rest ih =>
      by_cases ends : item = zero
      · simp [collectText, ends]
      · have kept : (item :: rest).takeWhile (· ≠ zero) =
            item :: rest.takeWhile (· ≠ zero) := by
          simp [ends]
        rw [List.map_cons, if_neg ends, kept]
        cases room with
        | zero => simp [collectText]
        | succ room =>
            rw [collectText, ih]
            simp [Ne.symm ends]

/-- The text that cells begin with, if there is room for it and it ends. -/
theorem collectText_textUnits (cells : List Cell) :
    collectText address limit limit [] (textUnits cells) =
      if limit < (textBytes cells).length then .error (.textTooLong (limit + 1) limit)
      else if TextEnds cells then .ok (textBytes cells)
      else .error (.unterminatedText address) := by
  by_cases packed : Packed cells
  · have units : textUnits cells =
        (cells.flatMap Cell.bytes).map fun byte =>
          if byte = 0 then none else some (id byte) := by
      rw [textUnits, if_pos (isPacked_iff.mpr packed)]
      rfl
    rw [units, collectText_marked]
    simp [textBytes, TextEnds, packed]
  · have units : textUnits cells =
        cells.map fun cell => if cell = 0 then none else some cell.lowByte := by
      rw [textUnits, if_neg (mt isPacked_iff.mp packed)]
      rfl
    rw [units, collectText_marked]
    simp [textBytes, TextEnds, packed]

end CellBus.Memory

namespace CellBus

open Memory

/-- Where the memory has cells, the text there is the bytes before the first zero, byte
by byte if the first cell shows that it is packed, and cell by cell if not.  More bytes
than the limit are refused, also when no zero comes; as many as the limit are not.  Only
then does a text that does not end count as an error.  Where the memory has no cells its
error is passed on. -/
theorem texts_end_at_their_first_zero (memory : Memory) (asked : Nat) (address : Cell)
    (limit : Nat) :
    (∀ cells, memory.resolve asked address = .ok cells →
      memory.readText asked address limit =
        if limit < (textBytes cells).length then .error (.textTooLong (limit + 1) limit)
        else if TextEnds cells then .ok (textBytes cells)
        else .error (.unterminatedText address)) ∧
    ∀ error, memory.resolve asked address = .error error →
      memory.readText asked address limit = .error error := by
  constructor
  · intro cells found
    rw [readText, found]
    exact collectText_textUnits cells
  · intro error failed
    rw [readText, failed]
    rfl

/-- Two bytes fit where two may be and are one too many where one may be, packed and
with an end or unpacked and without.  A cell that ends no text may have zero as its low
byte, which is then a byte of the text. -/
theorem two_bytes_fit_a_limit_of_two :
    let packed : List Cell := [0x61620063, 7]
    let endless : List Cell := [97, 256]
    let memory := Memory.fixed fun address =>
      if address = 0 then .ok packed
      else if address = 8 then .ok endless
      else .error (.invalidAddress address)
    (memory.resolve 0 0 = .ok packed ∧ memory.readText 0 0 2 = .ok [97, 98] ∧
      memory.readText 0 0 1 = .error (.textTooLong 2 1)) ∧
    (memory.resolve 0 8 = .ok endless ∧ textBytes endless = [97, 0] ∧
      memory.readText 0 8 2 = .error (.unterminatedText 8) ∧
      memory.readText 0 8 1 = .error (.textTooLong 2 1)) ∧
    memory.resolve 0 4 = .error (.invalidAddress 4) ∧
      memory.readText 0 4 2 = .error (.invalidAddress 4) := by
  intro packed endless memory
  have first : memory.resolve 0 0 = .ok packed := rfl
  have second : memory.resolve 0 8 = .ok endless := rfl
  have outside : memory.resolve 0 4 = .error (.invalidAddress 4) := rfl
  have reads address limit := texts_end_at_their_first_zero memory 0 address limit
  exact ⟨⟨first, (reads 0 2).1 packed first, (reads 0 1).1 packed first⟩,
    ⟨second, rfl, (reads 8 2).1 endless second, (reads 8 1).1 endless second⟩,
    outside, (reads 4 2).2 _ outside⟩

end CellBus
