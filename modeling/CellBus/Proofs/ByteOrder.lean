import CellBus.Proofs.EncodedTexts

/-!
# Texts in the order of their bytes

Texts are compared by their scalar values.  UTF-8 keeps that order: where two
characters differ, the first byte in which their forms differ is smaller for the
smaller character, and no form is the beginning of another.  So sorting texts by
scalar values is sorting them by bytes.
-/

namespace CellBus

namespace Text

section Bytes

variable {left right : Nat} {rest others : List UInt8}

theorem cons_lt_cons (leftByte : left < 256) (rightByte : right < 256)
    (less : left < right ∨ left = right ∧ rest < others) :
    UInt8.ofNat left :: rest < UInt8.ofNat right :: others := by
  rw [List.cons_lt_cons_iff, UInt8.lt_iff_toNat_lt, toNat_ofNat leftByte,
    toNat_ofNat rightByte]
  rcases less with smaller | ⟨same, later⟩
  · exact .inl smaller
  · exact .inr ⟨congrArg UInt8.ofNat same, later⟩

theorem cons_lt_cons_of_lt (leftByte : left < 256) (rightByte : right < 256)
    (smaller : left < right) :
    UInt8.ofNat left :: rest < UInt8.ofNat right :: others :=
  cons_lt_cons leftByte rightByte (.inl smaller)

/-- A byte that goes on with a sequence, followed by smaller or by other bytes. -/
theorem continuation_lt
    (less : left % 64 < right % 64 ∨ left % 64 = right % 64 ∧ rest < others) :
    UInt8.ofNat (left % 64 + 128) :: rest < UInt8.ofNat (right % 64 + 128) :: others := by
  apply cons_lt_cons (by omega) (by omega)
  rcases less with smaller | ⟨same, later⟩
  · exact .inl (by omega)
  · exact .inr ⟨by omega, later⟩

end Bytes

section Codes

variable {low high : Nat} (less : low < high) (rest others : List UInt8)

include less

theorem two_bytes_lt (long : 127 < low) (short : high ≤ 2047) :
    UInt8.ofNat (low / 64 % 32 + 192) :: UInt8.ofNat (low % 64 + 128) :: rest <
      UInt8.ofNat (high / 64 % 32 + 192) :: UInt8.ofNat (high % 64 + 128) ::
        others := by
  apply cons_lt_cons (by omega) (by omega)
  rcases Nat.lt_or_ge (low / 64) (high / 64) with lead | sameLead
  · exact .inl (by omega)
  · exact .inr ⟨by omega, continuation_lt (.inl (by omega))⟩

theorem three_bytes_lt (long : 2047 < low) (short : high ≤ 65535) :
    UInt8.ofNat (low / 4096 % 16 + 224) :: UInt8.ofNat (low / 64 % 64 + 128) ::
        UInt8.ofNat (low % 64 + 128) :: rest <
      UInt8.ofNat (high / 4096 % 16 + 224) :: UInt8.ofNat (high / 64 % 64 + 128) ::
        UInt8.ofNat (high % 64 + 128) :: others := by
  apply cons_lt_cons (by omega) (by omega)
  rcases Nat.lt_or_ge (low / 4096) (high / 4096) with lead | sameLead
  · exact .inl (by omega)
  refine .inr ⟨by omega, continuation_lt ?_⟩
  rcases Nat.lt_or_ge (low / 64) (high / 64) with second | sameSecond
  · exact .inl (by omega)
  · exact .inr ⟨by omega, continuation_lt (.inl (by omega))⟩

theorem four_bytes_lt (long : 65535 < low) (short : high < 1114112) :
    UInt8.ofNat (low / 262144 % 8 + 240) :: UInt8.ofNat (low / 4096 % 64 + 128) ::
        UInt8.ofNat (low / 64 % 64 + 128) :: UInt8.ofNat (low % 64 + 128) :: rest <
      UInt8.ofNat (high / 262144 % 8 + 240) :: UInt8.ofNat (high / 4096 % 64 + 128) ::
        UInt8.ofNat (high / 64 % 64 + 128) :: UInt8.ofNat (high % 64 + 128) ::
        others := by
  apply cons_lt_cons (by omega) (by omega)
  rcases Nat.lt_or_ge (low / 262144) (high / 262144) with lead | sameLead
  · exact .inl (by omega)
  refine .inr ⟨by omega, continuation_lt ?_⟩
  rcases Nat.lt_or_ge (low / 4096) (high / 4096) with second | sameSecond
  · exact .inl (by omega)
  refine .inr ⟨by omega, continuation_lt ?_⟩
  rcases Nat.lt_or_ge (low / 64) (high / 64) with third | sameThird
  · exact .inl (by omega)
  · exact .inr ⟨by omega, continuation_lt (.inl (by omega))⟩

end Codes

/-- The bytes of the smaller of two characters come first, whatever follows. -/
theorem utf8EncodeChar_lt {left right : Char} (smaller : left < right)
    (rest others : List UInt8) :
    String.utf8EncodeChar left ++ rest < String.utf8EncodeChar right ++ others := by
  have valid : right.toNat.isValidChar := right.valid
  have less : left.toNat < right.toNat := smaller
  rw [utf8EncodeChar_eq, utf8EncodeChar_eq]
  generalize left.toNat = low at less
  generalize right.toNat = high at valid less
  unfold Nat.isValidChar at valid
  -- A longer form has a larger first byte; forms of one length differ further on.
  by_cases one : low ≤ 127
  · rw [if_pos one]
    split
    · exact cons_lt_cons_of_lt (by omega) (by omega) less
    split
    · exact cons_lt_cons_of_lt (by omega) (by omega) (by omega)
    split <;> exact cons_lt_cons_of_lt (by omega) (by omega) (by omega)
  have highTwo : ¬high ≤ 127 := by omega
  rw [if_neg one, if_neg highTwo]
  by_cases two : low ≤ 2047
  · rw [if_pos two]
    split
    · exact two_bytes_lt less rest others (by omega) (by omega)
    split <;> exact cons_lt_cons_of_lt (by omega) (by omega) (by omega)
  have highThree : ¬high ≤ 2047 := by omega
  rw [if_neg two, if_neg highThree]
  by_cases three : low ≤ 65535
  · rw [if_pos three]
    split
    · exact three_bytes_lt less rest others (by omega) (by omega)
    · exact cons_lt_cons_of_lt (by omega) (by omega) (by omega)
  have highFour : ¬high ≤ 65535 := by omega
  rw [if_neg three, if_neg highFour]
  exact four_bytes_lt less rest others (by omega) (by omega)

/-- The bytes of the smaller of two texts come first. -/
theorem encode_lt_encode {left right : String} (smaller : left < right) :
    encode left < encode right := by
  rw [String.lt_iff] at smaller
  rw [encode, encode]
  generalize left.toList = lefts at smaller
  generalize right.toList = rights at smaller
  induction lefts generalizing rights with
  | nil =>
      cases rights with
      | nil => exact absurd smaller (List.not_lt_nil [])
      | cons character rights =>
          obtain ⟨byte, rest, form⟩ :=
            List.exists_cons_of_ne_nil (String.utf8EncodeChar_ne_nil (c := character))
          rw [List.flatMap_cons, form]
          exact List.nil_lt_cons _ _
  | cons first lefts ih =>
      cases rights with
      | nil => exact absurd smaller (List.not_lt_nil _)
      | cons character rights =>
          rw [List.flatMap_cons, List.flatMap_cons]
          rcases List.cons_lt_cons_iff.mp smaller with less | ⟨rfl, later⟩
          · exact utf8EncodeChar_lt less _ _
          · exact List.append_left_lt (ih rights later)

end Text

end CellBus
