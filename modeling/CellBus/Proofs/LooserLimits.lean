import CellBus.Memory.Segment
import CellBus.Proofs.ExcusedErrors

/-!
# Looser limits

A limit only refuses.  What is decoded under some limits is decoded to the same values
under looser ones, over any memory.  Refusing texts that are not UTF-8 changes a result
only to that refusal, which may come before the error that decoding would end with
otherwise.
-/

namespace CellBus

/-- One set of limits refuses no more than another. -/
structure Limits.Loosens (tighter looser : Limits) : Prop where
  textLength : tighter.textLength ≤ looser.textLength
  arrayLength : tighter.arrayLength ≤ looser.arrayLength
  strictUtf8 : looser.strictUtf8 = true → tighter.strictUtf8 = true

namespace MarshalError

/-- The refusal of a text that is not UTF-8. -/
def IsIllFormed : MarshalError → Prop
  | invalidUtf8 _ => True
  | invalidAddress _ | missingArgument .. | unterminatedText _ | textTooLong ..
  | negativeLength _ | arrayTooLong .. | arrayOutOfBounds .. => False

/-- A refusal that hangs on the limits. -/
def IsRefusal : MarshalError → Prop
  | textTooLong .. | arrayTooLong .. | invalidUtf8 _ => True
  | invalidAddress _ | missingArgument .. | unterminatedText _
  | negativeLength _ | arrayOutOfBounds .. => False

theorem isIllFormed_iff {error : MarshalError} :
    error.IsIllFormed ↔ ∃ address, error = .invalidUtf8 address := by
  cases error <;> simp [IsIllFormed]

end MarshalError

namespace Memory

variable {limit looser : Nat}

/-- With more room a text is collected in the same way, unless it was too long for
less. -/
theorem collectText_room (address : Cell) {room more : Nat} (enough : room ≤ more)
    (collected : List UInt8) (units : List (Option UInt8)) :
    SameUnless MarshalError.IsRefusal (collectText address limit room collected units)
      (collectText address looser more collected units) := by
  induction units generalizing room more collected with
  | nil => exact .inl (by simp [collectText])
  | cons unit rest ih =>
      cases unit with
      | none => exact .inl (by simp [collectText])
      | some byte =>
          cases room with
          | zero =>
              have full : collectText address limit 0 collected (some byte :: rest) =
                  .error (.textTooLong (limit + 1) limit) := rfl
              exact .inr ⟨_, full, trivial⟩
          | succ room =>
              obtain ⟨more, rfl⟩ := Nat.exists_eq_add_of_lt enough
              rw [collectText, collectText]
              exact ih (Nat.le_add_right room more) (byte :: collected)

theorem readText_limit (memory : Memory) (enough : limit ≤ looser) (asked : Nat)
    (address : Cell) :
    SameUnless MarshalError.IsRefusal (memory.readText asked address limit)
      (memory.readText asked address looser) := by
  rw [readText, readText]
  cases memory.resolve asked address with
  | error error => exact .inl rfl
  | ok cells => exact collectText_room address enough [] (textUnits cells)

end Memory

namespace Decoder

variable {memory : Memory} {passing : Passing}

/-- Decoders with different limits read alike but for refusals. -/
theorem readsAlike_of_loosens {tighter looser : Limits} (loosens : tighter.Loosens looser) :
    ReadsAlike MarshalError.IsRefusal ⟨memory, passing, tighter⟩
      ⟨memory, passing, looser⟩ where
  passing := rfl
  cells _ _ := .inl rfl
  texts asked address := memory.readText_limit loosens.textLength asked address
  arrays _ _ _ := .inl rfl
  strictness := by
    cases refuses : looser.strictUtf8 with
    | true => exact .inl (loosens.strictUtf8 refuses)
    | false =>
        cases tighter.strictUtf8 with
        | true => exact .inr ⟨rfl, fun _ => trivial⟩
        | false => exact .inl rfl
  lengths := .inr ⟨loosens.arrayLength, fun _ _ => trivial⟩

/-- A decoder that refuses texts that are not UTF-8 and one that mends them read alike
but for that. -/
theorem readsAlike_of_mending (limits : Limits) :
    ReadsAlike MarshalError.IsIllFormed
      ⟨memory, passing, { limits with strictUtf8 := true }⟩
      ⟨memory, passing, { limits with strictUtf8 := false }⟩ where
  passing := rfl
  cells _ _ := .inl rfl
  texts _ _ := .inl rfl
  arrays _ _ _ := .inl rfl
  strictness := .inr ⟨rfl, fun _ => trivial⟩
  lengths := .inl rfl

end Decoder

/-- Whatever the memory answers: what can be decoded under some limits can be decoded
under looser ones, to the same values, and so do the errors stay that are no refusals.
Where decoding fails although texts are mended, it fails with the same error if they are
not, or with the refusal of a text that came before; and an error other than that
refusal is the same if they are mended. -/
theorem limits_only_refuse (memory : Memory) (passing : Passing) (signature : Signature)
    (cells : List Cell) (asked : Nat) :
    let decoded (limits : Limits) : Except MarshalError (List Value) :=
      (Decoder.decodeFrom ⟨memory, passing, limits⟩ asked signature cells).1
    (∀ tighter looser : Limits, tighter.Loosens looser →
      (∀ values, decoded tighter = .ok values → decoded looser = .ok values) ∧
      ∀ error, decoded tighter = .error error → ¬error.IsRefusal →
        decoded looser = .error error) ∧
    ∀ limits : Limits,
      let mending := decoded { limits with strictUtf8 := false }
      let strict := decoded { limits with strictUtf8 := true }
      (∀ error, mending = .error error →
        strict = .error error ∨ ∃ address, strict = .error (.invalidUtf8 address)) ∧
      ∀ error, strict = .error error → (∀ address, error ≠ .invalidUtf8 address) →
        mending = .error error := by
  intro decoded
  constructor
  · intro tighter looser loosens
    rcases (Decoder.readsAlike_of_loosens loosens).decodeFrom asked signature cells with
      same | ⟨refusal, refused, known⟩
    · have equal : decoded tighter = decoded looser := congrArg Prod.fst same
      rw [equal]
      exact ⟨fun _ => id, fun _ failed _ => failed⟩
    · have tightRefused : decoded tighter = .error refusal := refused
      rw [tightRefused]
      constructor
      · intro values made
        cases made
      · rintro error ⟨⟩ unknown
        exact absurd known unknown
  · intro limits mending strict
    rcases (Decoder.readsAlike_of_mending limits).decodeFrom asked signature cells with
      same | ⟨refusal, refused, known⟩
    · have equal : strict = mending := congrArg Prod.fst same
      rw [equal]
      exact ⟨fun _ => .inl, fun _ failed _ => failed⟩
    · have strictRefused : strict = .error refusal := refused
      obtain ⟨address, rfl⟩ := MarshalError.isIllFormed_iff.mp known
      rw [strictRefused]
      constructor
      · intro error _
        exact .inr ⟨address, rfl⟩
      · rintro error ⟨⟩ other
        exact absurd rfl (other address)

/-- A text and an array that just fit; a length that no limits accept; a text that is
not UTF-8 and hides that an argument is missing; and a missing argument that comes
first. -/
theorem two_bytes_and_two_elements_fit :
    let memory := (Segment.mk [195, 169, 0, 5, 6, 255, 0]).memory
    let tight : Limits := ⟨2, 2, true⟩
    let mending : Limits := { tight with strictUtf8 := false }
    let decoded (limits : Limits) (tags : List Tag) (cells : List Cell) :=
      (Decoder.decodeFrom ⟨memory, .byValue, limits⟩ 0 (.ofTags tags) cells).1
    let fitting : List Value := [.text "é", .list [.int 5, .int 6]]
    let negative : MarshalError := .negativeLength (-1)
    let missing : MarshalError := .missingArgument 1 1
    tight.Loosens {} ∧ ¬negative.IsRefusal ∧
      decoded tight [.text, .intArray] [0, 12, 2] = .ok fitting ∧
      decoded {} [.text, .intArray] [0, 12, 2] = .ok fitting ∧
      decoded tight [.text, .intArray] [0, 12, -1] = .error negative ∧
      decoded {} [.text, .intArray] [0, 12, -1] = .error negative ∧
      decoded mending [.text, .int] [20] = .error missing ∧
      (decoded tight [.text, .int] [20] = .error missing ∨
        ∃ address, decoded tight [.text, .int] [20] = .error (.invalidUtf8 address)) ∧
      decoded tight [.text, .int] [0] = .error missing ∧
      decoded mending [.text, .int] [0] = .error missing := by
  intro memory tight mending decoded fitting negative missing
  have loosens : tight.Loosens {} := ⟨by decide, by decide, fun _ => rfl⟩
  have fits : decoded tight [.text, .intArray] [0, 12, 2] = .ok fitting := rfl
  have refused : decoded tight [.text, .intArray] [0, 12, -1] = .error negative := rfl
  have hidden : decoded mending [.text, .int] [20] = .error missing := rfl
  have first : decoded tight [.text, .int] [0] = .error missing := rfl
  obtain ⟨succeeds, _⟩ :=
    (limits_only_refuse memory .byValue (.ofTags [.text, .intArray]) [0, 12, 2] 0).1 tight {}
      loosens
  obtain ⟨_, fails⟩ :=
    (limits_only_refuse memory .byValue (.ofTags [.text, .intArray]) [0, 12, -1] 0).1 tight {}
      loosens
  obtain ⟨hides, _⟩ :=
    (limits_only_refuse memory .byValue (.ofTags [.text, .int]) [20] 0).2 tight
  obtain ⟨_, shows⟩ :=
    (limits_only_refuse memory .byValue (.ofTags [.text, .int]) [0] 0).2 tight
  exact ⟨loosens, id, fits, succeeds fitting fits, refused, fails negative refused id,
    hidden, hides missing hidden, first, shows missing first nofun⟩

end CellBus
