import CellBus.Proofs.EncodedTexts

/-!
# Decoded texts and their bytes

A byte string without ill-formed parts is the byte string of a text, so strict
decoding undoes encoding and nothing else.  Lossy decoding reads well-formed bytes
in the same way; any other byte string it gives a text with a replacement
character, and that text has bytes of its own.
-/

namespace CellBus.Text

/-- A sequence under way that ends well goes on with a byte between the bounds. -/
theorem exists_continuation {missing code : Nat} {low high : UInt8} {bytes : List UInt8}
    (least : 128 ≤ low.toNat) (most : high.toNat ≤ 191)
    (wellFormed : none ∉ scalarsFrom (.inside missing low high code) bytes) :
    ∃ bits rest, bytes = UInt8.ofNat (bits + 128) :: rest ∧ bits < 64 ∧
      low.toNat ≤ bits + 128 ∧ bits + 128 ≤ high.toNat := by
  cases bytes with
  | nil => simp [scalarsFrom] at wellFormed
  | cons byte rest =>
      by_cases inside : low ≤ byte ∧ byte ≤ high
      · obtain ⟨above, below⟩ := inside
        rw [UInt8.le_iff_toNat_le] at above below
        have split : byte.toNat - 128 + 128 = byte.toNat := by omega
        refine ⟨byte.toNat - 128, rest, ?_, by omega, by omega, by omega⟩
        rw [split, UInt8.ofNat_toNat]
      · simp [scalarsFrom, readByte, inside] at wellFormed

/-- How many bytes a first byte announces, and the bits it holds. -/
theorem Utf8State.ofLead?_eq_some {lead : UInt8} {state : Utf8State}
    (leads : ofLead? lead = some state) :
    (∃ bits, 2 ≤ bits ∧ bits < 32 ∧ lead = UInt8.ofNat (bits + 192)) ∨
      (∃ bits, bits < 16 ∧ lead = UInt8.ofNat (bits + 224)) ∨
      ∃ bits, bits < 5 ∧ lead = UInt8.ofNat (bits + 240) := by
  have shifted : ∀ base, base ≤ lead.toNat →
      lead = UInt8.ofNat (lead.toNat - base + base) := by
    intro base atLeast
    rw [Nat.sub_add_cancel atLeast, UInt8.ofNat_toNat]
  have range : 194 ≤ lead.toNat ∧ lead.toNat ≤ 244 := by
    unfold ofLead? at leads
    simp only [Bool.and_eq_true, decide_eq_true_eq] at leads
    repeat' split at leads
    all_goals first | omega | cases leads
  obtain ⟨atLeast, atMost⟩ := range
  by_cases two : lead.toNat < 224
  · exact .inl ⟨lead.toNat - 192, by omega, by omega, shifted 192 (by omega)⟩
  by_cases three : lead.toNat < 240
  · exact .inr (.inl ⟨lead.toNat - 224, by omega, shifted 224 (by omega)⟩)
  · exact .inr (.inr ⟨lead.toNat - 240, by omega, shifted 240 (by omega)⟩)

section Characters

variable {first second third fourth : Nat}

theorem toNat_char {code : Nat} (valid : code.isValidChar) :
    (Char.ofNat code).toNat = code := by
  rw [Char.ofNat, dif_pos valid]
  rfl

theorem utf8EncodeChar_one (small : first < 128) :
    String.utf8EncodeChar (Char.ofNat first) = [UInt8.ofNat first] := by
  have valid : first.isValidChar := .inl (by omega)
  have code := toNat_char valid
  rw [utf8EncodeChar_eq, code, if_pos (by omega)]

theorem utf8EncodeChar_two (least : 2 ≤ first) (most : first < 32)
    (six : second < 64) :
    String.utf8EncodeChar (Char.ofNat (first * 64 + second)) =
      [UInt8.ofNat (first + 192), UInt8.ofNat (second + 128)] := by
  have valid : (first * 64 + second).isValidChar := .inl (by omega)
  have code := toNat_char valid
  have lead : (first * 64 + second) / 64 % 32 = first := by omega
  have last : (first * 64 + second) % 64 = second := by omega
  rw [utf8EncodeChar_eq, code, if_neg (by omega), if_pos (by omega), lead, last]

theorem utf8EncodeChar_three (four : first < 16) (six : second < 64)
    (lastSix : third < 64) (long : first = 0 → 32 ≤ second)
    (scalar : first = 13 → second < 32) :
    String.utf8EncodeChar (Char.ofNat ((first * 64 + second) * 64 + third)) =
      [UInt8.ofNat (first + 224), UInt8.ofNat (second + 128),
        UInt8.ofNat (third + 128)] := by
  have valid : ((first * 64 + second) * 64 + third).isValidChar := by
    unfold Nat.isValidChar
    omega
  have code := toNat_char valid
  have lead : ((first * 64 + second) * 64 + third) / 4096 % 16 = first := by omega
  have middle : ((first * 64 + second) * 64 + third) / 64 % 64 = second := by omega
  have last : ((first * 64 + second) * 64 + third) % 64 = third := by omega
  rw [utf8EncodeChar_eq, code, if_neg (by omega), if_neg (by omega), if_pos (by omega),
    lead, middle, last]

theorem utf8EncodeChar_four (three : first < 5) (six : second < 64)
    (thirdSix : third < 64) (lastSix : fourth < 64) (long : first = 0 → 16 ≤ second)
    (scalar : first = 4 → second < 16) :
    String.utf8EncodeChar
        (Char.ofNat (((first * 64 + second) * 64 + third) * 64 + fourth)) =
      [UInt8.ofNat (first + 240), UInt8.ofNat (second + 128),
        UInt8.ofNat (third + 128), UInt8.ofNat (fourth + 128)] := by
  have valid : (((first * 64 + second) * 64 + third) * 64 + fourth).isValidChar := by
    unfold Nat.isValidChar
    omega
  have code := toNat_char valid
  have lead : (((first * 64 + second) * 64 + third) * 64 + fourth) / 262144 % 8 =
      first := by omega
  have next : (((first * 64 + second) * 64 + third) * 64 + fourth) / 4096 % 64 =
      second := by omega
  have middle : (((first * 64 + second) * 64 + third) * 64 + fourth) / 64 % 64 =
      third := by omega
  have last : (((first * 64 + second) * 64 + third) * 64 + fourth) % 64 = fourth := by
    omega
  rw [utf8EncodeChar_eq, code, if_neg (by omega), if_neg (by omega), if_neg (by omega),
    lead, next, middle, last]

end Characters

/-- Bytes without ill-formed parts start with those of a character. -/
theorem exists_utf8EncodeChar {byte : UInt8} {rest : List UInt8}
    (wellFormed : none ∉ scalars (byte :: rest)) :
    ∃ character after, byte :: rest = String.utf8EncodeChar character ++ after := by
  unfold scalars at wellFormed
  by_cases single : byte < 0x80
  · have small : byte.toNat < 128 := single
    refine ⟨Char.ofNat byte.toNat, rest, ?_⟩
    rw [utf8EncodeChar_one small, UInt8.ofNat_toNat]
    rfl
  cases leads : Utf8State.ofLead? byte with
  | none => simp [scalarsFrom, readByte, beginSequence, single, leads] at wellFormed
  | some state =>
      obtain ⟨bits, least, most, rfl⟩ | ⟨bits, small, rfl⟩ | ⟨bits, small, rfl⟩ :=
        Utf8State.ofLead?_eq_some leads
      · rw [scalarsFrom_lead _ (by omega) (by omega)
          (Utf8State.ofLead?_two bits least most)] at wellFormed
        obtain ⟨second, after, rfl, six, -⟩ :=
          exists_continuation (by decide) (by decide) wellFormed
        refine ⟨Char.ofNat (bits * 64 + second), after, ?_⟩
        rw [utf8EncodeChar_two least most six]
        rfl
      · obtain ⟨low, high, reads, lowest, highest⟩ :=
          Utf8State.ofLead?_three bits small
        rw [scalarsFrom_lead _ (by omega) (by omega) reads] at wellFormed
        obtain ⟨second, later, rfl, six, above, below⟩ :=
          exists_continuation (by split at lowest <;> omega)
            (by split at highest <;> omega) wellFormed
        rw [scalarsFrom_next _ (by decide) six above below] at wellFormed
        obtain ⟨third, after, rfl, lastSix, -⟩ :=
          exists_continuation (by decide) (by decide) wellFormed
        refine ⟨Char.ofNat ((bits * 64 + second) * 64 + third), after, ?_⟩
        rw [utf8EncodeChar_three small six lastSix (by split at lowest <;> omega)
          (by split at highest <;> omega)]
        rfl
      · obtain ⟨low, high, reads, lowest, highest⟩ :=
          Utf8State.ofLead?_four bits small
        rw [scalarsFrom_lead _ (by omega) (by omega) reads] at wellFormed
        obtain ⟨second, later, rfl, six, above, below⟩ :=
          exists_continuation (by split at lowest <;> omega)
            (by split at highest <;> omega) wellFormed
        rw [scalarsFrom_next _ (by decide) six above below] at wellFormed
        obtain ⟨third, later, rfl, thirdSix, thirdAbove, thirdBelow⟩ :=
          exists_continuation (by decide) (by decide) wellFormed
        rw [scalarsFrom_next _ (by decide) thirdSix thirdAbove thirdBelow] at wellFormed
        obtain ⟨fourth, after, rfl, lastSix, -⟩ :=
          exists_continuation (by decide) (by decide) wellFormed
        refine ⟨Char.ofNat (((bits * 64 + second) * 64 + third) * 64 + fourth),
          after, ?_⟩
        rw [utf8EncodeChar_four small six thirdSix lastSix
          (by split at lowest <;> omega) (by split at highest <;> omega)]
        rfl

/-- Bytes without ill-formed parts are those of a text. -/
theorem exists_encode {bytes : List UInt8} (wellFormed : none ∉ scalars bytes) :
    ∃ text, bytes = encode text := by
  suffices characters : ∃ characters : List Char,
      bytes = characters.flatMap String.utf8EncodeChar by
    obtain ⟨characters, same⟩ := characters
    exact ⟨String.ofList characters, by rw [encode, String.toList_ofList, same]⟩
  -- One character at a time: the bytes behind it are fewer and well formed again.
  induction length : bytes.length using Nat.strong_induction_on generalizing bytes with
  | _ count ih =>
      cases bytes with
      | nil => exact ⟨[], rfl⟩
      | cons byte rest =>
          obtain ⟨character, after, same⟩ := exists_utf8EncodeChar wellFormed
          rw [same] at wellFormed length ⊢
          rw [scalars, scalarsFrom_utf8EncodeChar] at wellFormed
          have shorter : after.length < count := by
            have := String.length_utf8EncodeChar character
            have := Char.utf8Size_pos character
            rw [List.length_append] at length
            omega
          obtain ⟨characters, later⟩ := ih after.length shorter
            (fun illFormed => wellFormed (List.mem_cons_of_mem _ illFormed)) rfl
          exact ⟨character :: characters, by rw [later, List.flatMap_cons]⟩

theorem decodeStrict_eq_none_iff {bytes : List UInt8} :
    decodeStrict bytes = none ↔ none ∈ scalars bytes := by
  constructor
  · intro refused
    by_contra wellFormed
    obtain ⟨text, rfl⟩ := exists_encode wellFormed
    rw [decodeStrict_encode] at refused
    cases refused
  · intro illFormed
    have stops : (scalars bytes).mapM id = none := by
      generalize scalars bytes = parts at illFormed
      induction parts with
      | nil => cases illFormed
      | cons part parts ih =>
          cases part with
          | none => simp
          | some character => simp [ih (by simpa using illFormed)]
    rw [decodeStrict, stops, Option.map_none]

/-- Strict decoding undoes encoding and nothing else. -/
theorem decodeStrict_eq_some_iff {bytes : List UInt8} {text : String} :
    decodeStrict bytes = some text ↔ bytes = encode text := by
  constructor
  · intro strict
    have wellFormed : none ∉ scalars bytes := by
      rw [← decodeStrict_eq_none_iff, strict]
      exact Option.some_ne_none text
    obtain ⟨found, rfl⟩ := exists_encode wellFormed
    rw [decodeStrict_encode] at strict
    cases strict
    rfl
  · rintro rfl
    exact decodeStrict_encode text

/-- Well-formed bytes need no mending. -/
theorem decodeLossy_of_strict {bytes : List UInt8} {text : String}
    (strict : decodeStrict bytes = some text) : decodeLossy bytes = text := by
  rw [decodeStrict_eq_some_iff.mp strict, decodeLossy_encode]

/-- Mending leaves a mark in the text. -/
theorem replacement_mem_decodeLossy {bytes : List UInt8}
    (refused : decodeStrict bytes = none) : '\ufffd' ∈ (decodeLossy bytes).toList := by
  rw [decodeLossy, String.toList_ofList]
  exact List.mem_map.mpr ⟨none, decodeStrict_eq_none_iff.mp refused, rfl⟩

/-- A mended text has other bytes than those that it was made of. -/
theorem encode_decodeLossy_ne {bytes : List UInt8}
    (refused : decodeStrict bytes = none) : encode (decodeLossy bytes) ≠ bytes := by
  intro same
  rw [← same, decodeStrict_encode] at refused
  cases refused

end CellBus.Text
