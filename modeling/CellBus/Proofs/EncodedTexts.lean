import CellBus.Text.Utf8
import Mathlib.Data.List.Basic
import Mathlib.Tactic.IntervalCases

/-!
# Texts and their bytes

Decoding the bytes of a text gives the text back, strictly and lossily.  The bytes
of one character take the decoder from between two sequences to between two
sequences again, so texts of any length follow character by character.  Only the
zero character has a zero byte.
-/

namespace CellBus.Text

theorem toNat_ofNat {byte : Nat} (small : byte < 256) :
    (UInt8.ofNat byte).toNat = byte := by
  rw [UInt8.toNat_ofNat']
  exact Nat.mod_eq_of_lt small

section Bytes

variable {bits missing code : Nat} {low high : UInt8} {state : Utf8State}
variable (rest : List UInt8)

theorem scalarsFrom_single (single : bits < 0x80) :
    scalarsFrom .between (UInt8.ofNat bits :: rest) =
      some (Char.ofNat bits) :: scalarsFrom .between rest := by
  have value : (UInt8.ofNat bits).toNat = bits := toNat_ofNat (by omega)
  have small : UInt8.ofNat bits < 0x80 := by
    rw [UInt8.lt_iff_toNat_lt, value]
    exact single
  simp [scalarsFrom, readByte, beginSequence, small, value]

theorem scalarsFrom_lead (several : 0x80 ≤ bits) (byte : bits < 256)
    (leads : Utf8State.ofLead? (UInt8.ofNat bits) = some state) :
    scalarsFrom .between (UInt8.ofNat bits :: rest) = scalarsFrom state rest := by
  have large : ¬UInt8.ofNat bits < 0x80 := by
    rw [UInt8.lt_iff_toNat_lt, toNat_ofNat byte]
    exact Nat.not_lt.mpr several
  simp [scalarsFrom, readByte, beginSequence, large, leads]

/-- A byte that goes on with a sequence adds its six low bits. -/
theorem readByte_inside (six : bits < 64) (above : low.toNat ≤ bits + 128)
    (below : bits + 128 ≤ high.toNat) :
    readByte (UInt8.ofNat (bits + 128)) (.inside missing low high code) =
      if missing ≤ 1 then ([some (Char.ofNat (code * 64 + bits))], .between)
      else ([], .inside (missing - 1) 0x80 0xBF (code * 64 + bits)) := by
  have value : (UInt8.ofNat (bits + 128)).toNat = bits + 128 := toNat_ofNat (by omega)
  generalize UInt8.ofNat (bits + 128) = byte at value
  have inside : low ≤ byte ∧ byte ≤ high := by
    rw [UInt8.le_iff_toNat_le, UInt8.le_iff_toNat_le, value]
    exact ⟨above, below⟩
  have added : (bits + 128) % 64 = bits := by omega
  simp [readByte, inside, value, added]

/-- What any byte but the second one has to lie between. -/
theorem continuation_bounds (six : bits < 64) :
    (0x80 : UInt8).toNat ≤ bits + 128 ∧ bits + 128 ≤ (0xBF : UInt8).toNat := by
  change 128 ≤ bits + 128 ∧ bits + 128 ≤ 191
  omega

theorem scalarsFrom_next (more : 1 < missing) (six : bits < 64)
    (above : low.toNat ≤ bits + 128) (below : bits + 128 ≤ high.toNat) :
    scalarsFrom (.inside missing low high code) (UInt8.ofNat (bits + 128) :: rest) =
      scalarsFrom (.inside (missing - 1) 0x80 0xBF (code * 64 + bits)) rest := by
  rw [scalarsFrom, readByte_inside six above below, if_neg (Nat.not_le.mpr more)]
  rfl

theorem scalarsFrom_last (six : bits < 64) :
    scalarsFrom (.inside 1 0x80 0xBF code) (UInt8.ofNat (bits + 128) :: rest) =
      some (Char.ofNat (code * 64 + bits)) :: scalarsFrom .between rest := by
  obtain ⟨above, below⟩ := continuation_bounds six
  rw [scalarsFrom, readByte_inside six above below, if_pos (Nat.le_refl 1)]
  rfl

end Bytes

namespace Utf8State

theorem ofLead?_two (bits : Nat) (atLeast : 2 ≤ bits) (atMost : bits < 32) :
    ofLead? (UInt8.ofNat (bits + 192)) = some (.inside 1 0x80 0xBF bits) := by
  interval_cases bits <;> rfl

/-- The second byte tells an overlong form and a surrogate. -/
theorem ofLead?_three (bits : Nat) (small : bits < 16) :
    ∃ low high, ofLead? (UInt8.ofNat (bits + 224)) = some (.inside 2 low high bits) ∧
      low.toNat = (if bits = 0 then 160 else 128) ∧
      high.toNat = if bits = 13 then 159 else 191 := by
  interval_cases bits <;> exact ⟨_, _, rfl, rfl, rfl⟩

/-- The second byte tells an overlong form and a code beyond the last one. -/
theorem ofLead?_four (bits : Nat) (small : bits < 5) :
    ∃ low high, ofLead? (UInt8.ofNat (bits + 240)) = some (.inside 3 low high bits) ∧
      low.toNat = (if bits = 0 then 144 else 128) ∧
      high.toNat = if bits = 4 then 143 else 191 := by
  interval_cases bits <;> exact ⟨_, _, rfl, rfl, rfl⟩

end Utf8State

/-- The bytes of a character, by how many it takes. -/
theorem utf8EncodeChar_eq (character : Char) :
    String.utf8EncodeChar character =
      if character.toNat ≤ 127 then [UInt8.ofNat character.toNat]
      else if character.toNat ≤ 2047 then
        [UInt8.ofNat (character.toNat / 64 % 32 + 192),
          UInt8.ofNat (character.toNat % 64 + 128)]
      else if character.toNat ≤ 65535 then
        [UInt8.ofNat (character.toNat / 4096 % 16 + 224),
          UInt8.ofNat (character.toNat / 64 % 64 + 128),
          UInt8.ofNat (character.toNat % 64 + 128)]
      else
        [UInt8.ofNat (character.toNat / 262144 % 8 + 240),
          UInt8.ofNat (character.toNat / 4096 % 64 + 128),
          UInt8.ofNat (character.toNat / 64 % 64 + 128),
          UInt8.ofNat (character.toNat % 64 + 128)] := rfl

section Codes

variable {code : Nat} (rest : List UInt8)

theorem scalarsFrom_two (long : 127 < code) (short : code ≤ 2047) :
    scalarsFrom .between (UInt8.ofNat (code / 64 % 32 + 192) ::
        UInt8.ofNat (code % 64 + 128) :: rest) =
      some (Char.ofNat code) :: scalarsFrom .between rest := by
  have leads := Utf8State.ofLead?_two (code / 64 % 32) (by omega) (by omega)
  have whole : code / 64 % 32 * 64 + code % 64 = code := by omega
  rw [scalarsFrom_lead _ (by omega) (by omega) leads, scalarsFrom_last _ (by omega),
    whole]

theorem scalarsFrom_three (long : 2047 < code) (short : code ≤ 65535)
    (valid : code.isValidChar) :
    scalarsFrom .between (UInt8.ofNat (code / 4096 % 16 + 224) ::
        UInt8.ofNat (code / 64 % 64 + 128) :: UInt8.ofNat (code % 64 + 128) :: rest) =
      some (Char.ofNat code) :: scalarsFrom .between rest := by
  obtain ⟨low, high, leads, lowest, highest⟩ :=
    Utf8State.ofLead?_three (code / 4096 % 16) (by omega)
  -- A second byte out of bounds would make a shorter code or a surrogate.
  have above : low.toNat ≤ code / 64 % 64 + 128 := by
    rw [lowest]
    split <;> omega
  have below : code / 64 % 64 + 128 ≤ high.toNat := by
    unfold Nat.isValidChar at valid
    rw [highest]
    split <;> omega
  have whole : (code / 4096 % 16 * 64 + code / 64 % 64) * 64 + code % 64 = code := by
    omega
  rw [scalarsFrom_lead _ (by omega) (by omega) leads,
    scalarsFrom_next _ Nat.one_lt_two (by omega) above below,
    scalarsFrom_last _ (by omega), whole]

theorem scalarsFrom_four (long : 65535 < code) (valid : code.isValidChar) :
    scalarsFrom .between (UInt8.ofNat (code / 262144 % 8 + 240) ::
        UInt8.ofNat (code / 4096 % 64 + 128) :: UInt8.ofNat (code / 64 % 64 + 128) ::
        UInt8.ofNat (code % 64 + 128) :: rest) =
      some (Char.ofNat code) :: scalarsFrom .between rest := by
  unfold Nat.isValidChar at valid
  obtain ⟨low, high, leads, lowest, highest⟩ :=
    Utf8State.ofLead?_four (code / 262144 % 8) (by omega)
  -- A second byte out of bounds would make a shorter code or one beyond the last.
  have above : low.toNat ≤ code / 4096 % 64 + 128 := by
    rw [lowest]
    split <;> omega
  have below : code / 4096 % 64 + 128 ≤ high.toNat := by
    rw [highest]
    split <;> omega
  have third : code / 64 % 64 < 64 := Nat.mod_lt _ (by decide)
  obtain ⟨thirdAbove, thirdBelow⟩ := continuation_bounds third
  have whole : ((code / 262144 % 8 * 64 + code / 4096 % 64) * 64
      + code / 64 % 64) * 64 + code % 64 = code := by
    omega
  rw [scalarsFrom_lead _ (by omega) (by omega) leads,
    scalarsFrom_next _ (by decide) (by omega) above below,
    scalarsFrom_next _ (by decide) third thirdAbove thirdBelow,
    scalarsFrom_last _ (by omega), whole]

end Codes

/-- The bytes of a character are read as that character. -/
theorem scalarsFrom_utf8EncodeChar (character : Char) (rest : List UInt8) :
    scalarsFrom .between (String.utf8EncodeChar character ++ rest) =
      some character :: scalarsFrom .between rest := by
  have valid : character.toNat.isValidChar := character.valid
  have back : Char.ofNat character.toNat = character := Char.ofNat_toNat character
  rw [utf8EncodeChar_eq]
  generalize character.toNat = code at valid back
  by_cases one : code ≤ 127
  · rw [if_pos one, ← back]
    exact scalarsFrom_single rest (Nat.lt_succ_of_le one)
  by_cases two : code ≤ 2047
  · rw [if_neg one, if_pos two, ← back]
    exact scalarsFrom_two rest (Nat.not_le.mp one) two
  by_cases three : code ≤ 65535
  · rw [if_neg one, if_neg two, if_pos three, ← back]
    exact scalarsFrom_three rest (Nat.not_le.mp two) three valid
  · rw [if_neg one, if_neg two, if_neg three, ← back]
    exact scalarsFrom_four rest (Nat.not_le.mp three) valid

theorem scalars_encode (text : String) :
    scalars (encode text) = text.toList.map some := by
  rw [scalars, encode]
  induction text.toList with
  | nil => rfl
  | cons character rest ih =>
      rw [List.flatMap_cons, scalarsFrom_utf8EncodeChar, ih, List.map_cons]

theorem decodeStrict_encode (text : String) : decodeStrict (encode text) = some text := by
  have read : (text.toList.map some).mapM id = some text.toList := by
    induction text.toList with
    | nil => rfl
    | cons character rest ih => simp [ih]
  rw [decodeStrict, scalars_encode, read, Option.map_some, String.ofList_toList]

theorem decodeLossy_encode (text : String) : decodeLossy (encode text) = text := by
  rw [decodeLossy, scalars_encode, List.map_map]
  simp [Function.comp_def]

theorem ofNat_ne_zero {bits : Nat} (positive : 0 < bits) (byte : bits < 256) :
    UInt8.ofNat bits ≠ 0 := by
  intro zero
  have value := toNat_ofNat byte
  rw [zero] at value
  exact Nat.ne_of_lt positive value

theorem ne_zero_of_mem_utf8EncodeChar {character : Char} (nonzero : character ≠ '\x00')
    {byte : UInt8} (member : byte ∈ String.utf8EncodeChar character) : byte ≠ 0 := by
  have valid : character.toNat.isValidChar := character.valid
  have positive : 0 < character.toNat := by
    rw [Nat.pos_iff_ne_zero]
    intro zero
    exact nonzero (Char.toNat_inj.mp zero)
  unfold Nat.isValidChar at valid
  rw [utf8EncodeChar_eq] at member
  generalize character.toNat = code at valid positive member
  split at member
  · obtain rfl := List.mem_singleton.mp member
    exact ofNat_ne_zero positive (by omega)
  split at member
  · simp only [List.mem_cons, List.not_mem_nil, or_false] at member
    rcases member with rfl | rfl <;> exact ofNat_ne_zero (by omega) (by omega)
  split at member
  · simp only [List.mem_cons, List.not_mem_nil, or_false] at member
    rcases member with rfl | rfl | rfl <;> exact ofNat_ne_zero (by omega) (by omega)
  · simp only [List.mem_cons, List.not_mem_nil, or_false] at member
    rcases member with rfl | rfl | rfl | rfl <;>
      exact ofNat_ne_zero (by omega) (by omega)

/-- Only the zero character has a zero byte. -/
theorem ne_zero_of_mem_encode {text : String} (nonzero : '\x00' ∉ text.toList)
    {byte : UInt8} (member : byte ∈ encode text) : byte ≠ 0 := by
  obtain ⟨character, inText, inCharacter⟩ := List.mem_flatMap.mp member
  have different : character ≠ '\x00' := fun zero => nonzero (zero ▸ inText)
  exact ne_zero_of_mem_utf8EncodeChar different inCharacter

end CellBus.Text
