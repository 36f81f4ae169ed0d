import CellBus.Proofs.DecodedTexts
import CellBus.Proofs.DecodingSteps

/-!
# Excused errors

Two decoders may differ in their limits, or in how much of the memory they see, and
still give the same result wherever neither difference shows.  It shows first as one
of a few errors of the decoder that is worse off; these errors are excused.  Results
that are the same unless the first is an excused error stay so under every step of
decoding, so two decoders agree on whole argument lists once their readers agree on
single cells, texts and arrays.
-/

namespace CellBus

variable {α β : Type} {excused : MarshalError → Prop}

/-- The results are the same, unless the first is an excused error. -/
def SameUnless (excused : MarshalError → Prop) (first second : Except MarshalError α) :
    Prop :=
  first = second ∨ ∃ error, first = .error error ∧ excused error

namespace Decoding

/-- From every reading the steps give the same and leave the same, unless the first
fails with an excused error. -/
def AlikeUnless (excused : MarshalError → Prop) (first second : Decoding α) : Prop :=
  ∀ reading, outcome first reading = outcome second reading ∨
    ∃ error after, outcome first reading = (.error error, after) ∧ excused error

theorem AlikeUnless.refl (step : Decoding α) : AlikeUnless excused step step :=
  fun _ => .inl rfl

theorem alikeUnless_throw {error : MarshalError} (known : excused error)
    (second : Decoding α) : AlikeUnless excused (throw error) second :=
  fun reading => .inr ⟨error, reading, rfl, known⟩

theorem alikeUnless_ask {first second : Nat → Except MarshalError α}
    (same : ∀ asked, SameUnless excused (first asked) (second asked)) :
    AlikeUnless excused (ask first) (ask second) := by
  intro reading
  rw [outcome_ask, outcome_ask]
  rcases same reading.asked with equal | ⟨error, failed, known⟩
  · exact .inl (by rw [equal])
  · exact .inr ⟨error, _, by rw [failed], known⟩

theorem AlikeUnless.bind {first second : Decoding α} {next later : α → Decoding β}
    (alike : AlikeUnless excused first second)
    (follow : ∀ value, AlikeUnless excused (next value) (later value)) :
    AlikeUnless excused (first >>= next) (second >>= later) := by
  intro reading
  rw [outcome_bind, outcome_bind]
  rcases alike reading with same | ⟨error, after, failed, known⟩
  · rw [← same]
    rcases outcome first reading with ⟨error | value, middle⟩
    · exact .inl rfl
    · exact follow value middle
  · rw [failed]
    exact .inr ⟨error, after, rfl, known⟩

end Decoding

namespace Decoder

/-- The decoders read alike, unless the first one's reader fails with an excused
error.  Where their limits differ, the first is the stricter one, and what it refuses
for that is excused. -/
structure ReadsAlike (excused : MarshalError → Prop) (first second : Decoder) : Prop where
  passing : first.passing = second.passing
  cells : ∀ asked address,
    SameUnless excused (first.memory.deref asked address)
      (second.memory.deref asked address)
  texts : ∀ asked address,
    SameUnless excused (first.memory.readText asked address first.limits.textLength)
      (second.memory.readText asked address second.limits.textLength)
  arrays : ∀ asked base length,
    SameUnless excused (first.memory.readArray asked base length)
      (second.memory.readArray asked base length)
  strictness : first.limits.strictUtf8 = second.limits.strictUtf8 ∨
    first.limits.strictUtf8 = true ∧ ∀ address, excused (.invalidUtf8 address)
  lengths : first.limits.arrayLength = second.limits.arrayLength ∨
    first.limits.arrayLength ≤ second.limits.arrayLength ∧
      ∀ length limit, excused (.arrayTooLong length limit)

namespace ReadsAlike

open Decoding

variable {first second : Decoder} (alike : ReadsAlike excused first second)

include alike

theorem scalar : AlikeUnless excused first.scalar second.scalar := by
  apply (AlikeUnless.refl take).bind
  intro raw
  rw [alike.passing]
  cases second.passing with
  | byValue => exact .refl _
  | byReference => exact alikeUnless_ask fun asked => alike.cells asked raw

/-- Bytes that are UTF-8 read the same whether or not they have to be. -/
theorem text : AlikeUnless excused first.text second.text := by
  apply (AlikeUnless.refl take).bind
  intro address
  apply (alikeUnless_ask fun asked => alike.texts asked address).bind
  intro bytes
  rcases alike.strictness with same | ⟨strict, known⟩
  · rw [same]
    exact .refl _
  · rw [if_pos strict]
    cases decoded : Text.decodeStrict bytes with
    | none => exact alikeUnless_throw (known address) _
    | some text =>
        rw [Text.decodeLossy_of_strict decoded, ite_self]
        exact .refl _

/-- A length that is within the lower limit is within the higher one. -/
theorem array : AlikeUnless excused first.array second.array := by
  apply (AlikeUnless.refl take).bind
  intro base
  apply alike.scalar.bind
  intro count
  have reads : AlikeUnless excused
      (ask fun asked => first.memory.readArray asked base count.toInt.toNat)
      (ask fun asked => second.memory.readArray asked base count.toInt.toNat) :=
    alikeUnless_ask fun asked => alike.arrays asked base count.toInt.toNat
  by_cases negative : count.toInt < 0
  · rw [if_pos negative, if_pos negative]
    exact fun _ => .inl rfl
  · rw [if_neg negative, if_neg negative]
    dsimp only
    rcases alike.lengths with same | ⟨lower, known⟩
    · rw [same]
      split
      · exact fun _ => .inl rfl
      · exact reads
    · by_cases long : first.limits.arrayLength < count.toInt.toNat
      · rw [if_pos long]
        exact fun reading => .inr ⟨_, reading, rfl, known _ _⟩
      · rw [if_neg long, if_neg (by omega)]
        exact reads

theorem argument (tag : Tag) :
    AlikeUnless excused (first.argument tag) (second.argument tag) := by
  cases tag with
  | text => exact alike.text.bind fun _ => .refl _
  | int => exact alike.scalar.bind fun _ => .refl _
  | uint => exact alike.scalar.bind fun _ => .refl _
  | float => exact alike.scalar.bind fun _ => .refl _
  | intArray => exact alike.array.bind fun _ => .refl _
  | floatArray => exact alike.array.bind fun _ => .refl _

theorem arguments (tags : List Tag) :
    AlikeUnless excused (first.arguments tags) (second.arguments tags) := by
  induction tags with
  | nil => exact .refl _
  | cons tag rest ih =>
      apply (alike.argument tag).bind
      intro value
      apply (AlikeUnless.refl advanceSlot).bind
      intro _
      apply ih.bind
      intro values
      exact .refl _

/-- Whole argument lists are decoded to the same values or the same error, with as
many questions, unless the first decoder ends with an excused error. -/
theorem decodeFrom (asked : Nat) (signature : Signature) (cells : List Cell) :
    first.decodeFrom asked signature cells = second.decodeFrom asked signature cells ∨
      ∃ error, (first.decodeFrom asked signature cells).1 = .error error ∧
        excused error := by
  rcases alike.arguments signature.tags ⟨Cursor.start cells, asked⟩ with
    same | ⟨error, after, failed, known⟩
  · exact .inl (congrArg (fun ended => (ended.1, ended.2.asked)) same)
  · exact .inr ⟨error, congrArg Prod.fst failed, known⟩

end ReadsAlike

end Decoder

end CellBus
