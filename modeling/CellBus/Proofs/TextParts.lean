import CellBus.Memory
import CellBus.Proofs.DecodedTexts

/-!
# Parts of a text

Whatever the bytes are, they fall into pieces, one for each character that they are
decoded to: a well-formed sequence gives its character, an ill-formed part a
replacement character.  No piece is empty, so a decoded text has no more characters
than bytes were read, and those are limited.
-/

namespace CellBus.Text

/-- Every character stands for bytes of its own, and every byte belongs to a
character. -/
inductive MadeOf : List UInt8 → List Char → Prop where
  | nil : MadeOf [] []
  | cons {piece bytes : List UInt8} {character : Char} {characters : List Char} :
      piece ≠ [] → decodeLossy piece = String.singleton character →
      MadeOf bytes characters →
      MadeOf (piece ++ bytes) (character :: characters)

theorem MadeOf.length_le {bytes : List UInt8} {characters : List Char}
    (made : MadeOf bytes characters) : characters.length ≤ bytes.length := by
  induction made with
  | nil => exact Nat.le_refl 0
  | cons nonempty _ _ ih =>
      have positive := List.length_pos_iff.mpr nonempty
      rw [List.length_cons, List.length_append]
      omega

/-- A piece that is one part gives its character. -/
theorem MadeOf.part {piece bytes : List UInt8} {part : Option Char}
    {characters : List Char} (nonempty : piece ≠ []) (whole : scalars piece = [part])
    (made : MadeOf bytes characters) :
    MadeOf (piece ++ bytes) (part.getD '\ufffd' :: characters) := by
  refine .cons nonempty ?_ made
  rw [decodeLossy, whole]
  rfl

/-- These bytes of an unfinished sequence have brought the decoder to a state. -/
structure Pending (state : Utf8State) (bytes : List UInt8) : Prop where
  nonempty : bytes ≠ []
  inside : state ≠ .between
  resumes : ∀ rest, scalars (bytes ++ rest) = scalarsFrom state rest

theorem scalarsFrom_cons (state : Utf8State) (byte : UInt8) (rest : List UInt8) :
    scalarsFrom state (byte :: rest) =
      (readByte byte state).1 ++ scalarsFrom (readByte byte state).2 rest := rfl

theorem Utf8State.ofLead?_ne_between {lead : UInt8} {state : Utf8State}
    (leads : ofLead? lead = some state) : state ≠ .between := by
  rintro rfl
  simp only [ofLead?] at leads
  grind

/-- A byte at the start of a sequence is a part by itself or leaves one pending. -/
theorem beginSequence_cases (byte : UInt8) :
    (∃ part, beginSequence byte = ([part], .between)) ∨
      ∃ state, beginSequence byte = ([], state) ∧ state ≠ .between := by
  unfold beginSequence
  split
  · exact .inl ⟨_, rfl⟩
  · cases leads : Utf8State.ofLead? byte with
    | none => exact .inl ⟨none, rfl⟩
    | some state => exact .inr ⟨state, rfl, Utf8State.ofLead?_ne_between leads⟩

/-- A byte inside a sequence ends it, goes on with it, or ends an ill-formed part
and begins afresh. -/
theorem readByte_cases {state : Utf8State} (inside : state ≠ .between) (byte : UInt8) :
    (∃ part, readByte byte state = ([part], .between)) ∨
      (∃ next, readByte byte state = ([], next) ∧ next ≠ .between) ∨
      readByte byte state =
        (none :: (beginSequence byte).1, (beginSequence byte).2) := by
  cases state with
  | between => exact absurd rfl inside
  | inside missing low high code =>
      rw [readByte]
      split
      · split
        · exact .inl ⟨_, rfl⟩
        · exact .inr (.inl ⟨_, rfl, by simp⟩)
      · exact .inr (.inr rfl)

namespace Pending

variable {state : Utf8State} {pending : List UInt8}

theorem first {byte : UInt8} (begins : beginSequence byte = ([], state))
    (inside : state ≠ .between) : Pending state [byte] where
  nonempty := List.cons_ne_nil _ _
  inside := inside
  resumes := by
    intro rest
    rw [List.singleton_append, scalars, scalarsFrom_cons, readByte, begins]
    rfl

theorem next {byte : UInt8} {after : Utf8State} (unfinished : Pending state pending)
    (reads : readByte byte state = ([], after)) (inside : after ≠ .between) :
    Pending after (pending ++ [byte]) where
  nonempty := List.append_ne_nil_of_right_ne_nil _ (List.cons_ne_nil _ _)
  inside := inside
  resumes := by
    intro rest
    rw [List.append_assoc, unfinished.resumes, List.singleton_append,
      scalarsFrom_cons, reads]
    rfl

/-- The bytes of a sequence that breaks off are one ill-formed part. -/
theorem scalars_eq (unfinished : Pending state pending) : scalars pending = [none] := by
  have broken := unfinished.resumes []
  rw [List.append_nil] at broken
  rw [broken]
  cases state with
  | between => exact absurd rfl unfinished.inside
  | inside missing low high code => rfl

end Pending

/-- From between two sequences and from inside one the bytes fall into pieces, the
first of which has the bytes that are pending. -/
theorem madeOf_scalarsFrom (bytes : List UInt8) :
    MadeOf bytes ((scalars bytes).map (·.getD '\ufffd')) ∧
      ∀ state pending, Pending state pending →
        MadeOf (pending ++ bytes) ((scalarsFrom state bytes).map (·.getD '\ufffd')) := by
  induction bytes with
  | nil =>
      refine ⟨.nil, ?_⟩
      intro state pending unfinished
      have whole := unfinished.scalars_eq
      have ended := unfinished.resumes []
      rw [List.append_nil, whole] at ended
      rw [← ended]
      exact MadeOf.nil.part unfinished.nonempty whole
  | cons byte rest ih =>
      obtain ⟨fresh, resumed⟩ := ih
      have begun : MadeOf (byte :: rest)
          ((scalars (byte :: rest)).map (·.getD '\ufffd')) := by
        rw [scalars, scalarsFrom_cons, readByte]
        rcases beginSequence_cases byte with ⟨part, single⟩ | ⟨state, begins, inside⟩
        · have whole : scalars [byte] = [part] := by
            rw [scalars, scalarsFrom_cons, readByte, single]
            rfl
          rw [single]
          exact fresh.part (List.cons_ne_nil byte []) whole
        · rw [begins]
          exact resumed state [byte] (.first begins inside)
      refine ⟨begun, ?_⟩
      intro state pending unfinished
      rcases readByte_cases unfinished.inside byte with
        ⟨part, ends⟩ | ⟨next, reads, inside⟩ | broken
      · have whole : scalars (pending ++ [byte]) = [part] := by
          rw [unfinished.resumes, scalarsFrom_cons, ends]
          rfl
        have nonempty : pending ++ [byte] ≠ [] :=
          List.append_ne_nil_of_right_ne_nil _ (List.cons_ne_nil byte [])
        have made := fresh.part nonempty whole
        rw [List.append_assoc, List.singleton_append] at made
        rw [scalarsFrom_cons, ends]
        exact made
      · have made := resumed next (pending ++ [byte]) (unfinished.next reads inside)
        rw [List.append_assoc, List.singleton_append] at made
        rw [scalarsFrom_cons, reads]
        exact made
      · -- The byte that breaks the sequence off is read once more, from the start.
        rw [scalarsFrom_cons, broken]
        exact begun.part unfinished.nonempty unfinished.scalars_eq

/-- Every character of a decoded text comes from at least one byte. -/
theorem madeOf_decodeLossy (bytes : List UInt8) :
    MadeOf bytes (decodeLossy bytes).toList := by
  rw [decodeLossy, String.toList_ofList]
  exact (madeOf_scalarsFrom bytes).1

end CellBus.Text

namespace CellBus.Memory

variable {address : Cell} {limit : Nat} {bytes : List UInt8}

/-- No more bytes are collected than there is room for. -/
theorem length_collectText {room : Nat} {collected : List UInt8}
    {units : List (Option UInt8)}
    (ended : collectText address limit room collected units = .ok bytes) :
    bytes.length ≤ collected.length + room := by
  fun_induction collectText address limit room collected units with
  | case1 => cases ended
  | case2 =>
      cases ended
      rw [List.length_reverse]
      exact Nat.le_add_right _ _
  | case3 => cases ended
  | case4 room collected byte rest ih =>
      have bounded := ih ended
      rw [List.length_cons] at bounded
      omega

theorem length_readText {memory : Memory} {asked : Nat}
    (read : memory.readText asked address limit = .ok bytes) :
    bytes.length ≤ limit := by
  cases resolved : memory.resolve asked address with
  | error error =>
      rw [readText, resolved] at read
      cases read
  | ok cells =>
      rw [readText, resolved] at read
      simpa using length_collectText read

end CellBus.Memory
