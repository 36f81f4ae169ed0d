import CellBus.Memory.Segment
import CellBus.Proofs.SignatureParts
import CellBus.Proofs.TextBytes

/-!
# The cells that decoding needs

An argument looks at as many cells as its tag says and at no others.  If one of them is
missing, this is all that is wrong with it, for nothing is asked of the memory before;
if none is, it makes no difference what stands behind them.  So decoding comes as far as
the first argument that lacks a cell, and says of which slot and of which cell it was,
unless an argument before has failed for another reason.  The memory may change its
answers all the time.
-/

namespace CellBus

variable {α β : Type}

/-- The error of a cell that is not there. -/
def MarshalError.IsShortage : MarshalError → Prop
  | missingArgument .. => True
  | invalidAddress _ | unterminatedText _ | textTooLong .. | invalidUtf8 _
  | negativeLength _ | arrayTooLong .. | arrayOutOfBounds .. => False

/-- Whatever the result is, it is not that a cell is missing. -/
def Unshort (result : Except MarshalError α) : Prop :=
  ∀ error, result = .error error → ¬error.IsShortage

theorem Unshort.ok (value : α) : Unshort (.ok value : Except MarshalError α) := by
  rintro error ⟨⟩

theorem Unshort.error {error : MarshalError} (other : ¬error.IsShortage) :
    Unshort (.error error : Except MarshalError α) := by
  rintro _ ⟨⟩
  exact other

theorem Unshort.bind {result : Except MarshalError α} {next : α → Except MarshalError β}
    (unshort : Unshort result) (later : ∀ value, Unshort (next value)) :
    Unshort (result >>= next) := by
  cases result with
  | error error => exact .error (unshort error rfl)
  | ok value => exact later value

namespace Memory

variable {memory : Memory} (resolving : ∀ asked address, Unshort (memory.resolve asked address))

include resolving

theorem unshort_deref (asked : Nat) (address : Cell) :
    Unshort (memory.deref asked address) := by
  apply (resolving asked address).bind
  intro cells
  cases cells with
  | nil => exact .error id
  | cons cell rest => exact .ok cell

theorem unshort_readArray (asked : Nat) (base : Cell) (length : Nat) :
    Unshort (memory.readArray asked base length) := by
  apply (resolving asked base).bind
  intro cells
  split
  · exact .ok _
  · exact .error id

theorem unshort_readText (asked : Nat) (address : Cell) (limit : Nat) :
    Unshort (memory.readText asked address limit) := by
  apply (resolving asked address).bind
  intro cells
  rw [collectText_textUnits]
  split
  · exact .error id
  · split
    · exact .ok _
    · exact .error id

end Memory

namespace Decoding

/-- The step is about the next `count` cells.  If they are not all there it fails at the
first that is missing and has asked nothing.  If they are, it fails for no such reason,
it comes out the same whatever stands behind them, and the cursor is left there. -/
structure Uses (count : Nat) (step : Decoding α) : Prop where
  short : ∀ remaining slot taken asked, remaining.length < count →
    outcome step ⟨⟨remaining, slot, taken⟩, asked⟩ =
      (.error (.missingArgument slot (taken + remaining.length)),
        ⟨⟨[], slot, taken + remaining.length⟩, asked⟩)
  enough : ∀ own asked, own.length = count → ∃ result later, Unshort result ∧
    ∀ rest slot taken, outcome step ⟨⟨own ++ rest, slot, taken⟩, asked⟩ =
      (result, ⟨⟨rest, slot, taken + count⟩, later⟩)

variable {count : Nat} {first : Decoding α} {next : α → Decoding β}

/-- A step that takes no cell. -/
theorem uses_zero {step : Decoding α}
    (comes : ∀ asked, ∃ result later, Unshort result ∧
      ∀ cursor, outcome step ⟨cursor, asked⟩ = (result, ⟨cursor, later⟩)) :
    Uses 0 step where
  short remaining _ _ _ few := absurd few (Nat.not_lt_zero _)
  enough own asked none := by
    obtain rfl := List.length_eq_zero_iff.mp none
    obtain ⟨result, later, unshort, same⟩ := comes asked
    exact ⟨result, later, unshort, fun rest slot taken => same ⟨rest, slot, taken⟩⟩

theorem uses_pure (value : α) : Uses 0 (pure value) :=
  uses_zero fun asked => ⟨.ok value, asked, .ok value, fun _ => rfl⟩

theorem uses_throw {error : MarshalError} (other : ¬error.IsShortage) :
    Uses 0 (throw error : Decoding α) :=
  uses_zero fun asked => ⟨.error error, asked, .error other, fun _ => rfl⟩

/-- What would follow a failure does not matter. -/
theorem uses_throw_bind {error : MarshalError} (other : ¬error.IsShortage) :
    Uses 0 (throw error >>= next) :=
  uses_zero fun asked => ⟨.error error, asked, .error other, fun _ => rfl⟩

theorem uses_ask {question : Nat → Except MarshalError α}
    (unshort : ∀ asked, Unshort (question asked)) : Uses 0 (ask question) :=
  uses_zero fun asked => ⟨question asked, asked + 1, unshort asked, fun cursor =>
    outcome_ask question ⟨cursor, asked⟩⟩

/-- What follows takes no more cells. -/
theorem Uses.then (uses : Uses count first) (quiet : ∀ value, Uses 0 (next value)) :
    Uses count (first >>= next) where
  short remaining slot taken asked few := by
    rw [outcome_bind, uses.short remaining slot taken asked few]
  enough own asked all := by
    obtain ⟨result, later, unshort, same⟩ := uses.enough own asked all
    cases result with
    | error error =>
        refine ⟨.error error, later, .error (unshort error rfl), ?_⟩
        intro rest slot taken
        rw [outcome_bind, same]
    | ok value =>
        obtain ⟨given, last, laterUnshort, laterSame⟩ := (quiet value).enough [] later rfl
        refine ⟨given, last, laterUnshort, ?_⟩
        intro rest slot taken
        rw [outcome_bind, same]
        exact laterSame rest slot (taken + count)

/-- Taking a cell fails only if there is none. -/
theorem uses_take {next : Cell → Decoding β} (uses : ∀ cell, Uses count (next cell)) :
    Uses (count + 1) (take >>= next) where
  short remaining slot taken asked few := by
    rw [outcome_bind, outcome_take]
    cases remaining with
    | nil => rfl
    | cons cell rest =>
        have fewer : rest.length < count := Nat.lt_of_succ_lt_succ few
        have fails := (uses cell).short rest slot (taken + 1) asked fewer
        rw [Nat.add_assoc, Nat.add_comm 1] at fails
        exact fails
  enough own asked all := by
    cases own with
    | nil => cases all
    | cons cell others =>
        obtain ⟨result, later, unshort, same⟩ :=
          (uses cell).enough others asked (Nat.succ.inj all)
        refine ⟨result, later, unshort, ?_⟩
        intro rest slot taken
        have comes := same rest slot (taken + 1)
        rw [Nat.add_assoc, Nat.add_comm 1] at comes
        rw [outcome_bind, outcome_take]
        exact comes

end Decoding

namespace Decoder

open Decoding

/-- An argument is followed by the end of its slot and by the arguments behind it. -/
theorem outcome_arguments_cons (decoder : Decoder) (tag : Tag) (rest : List Tag)
    (reading : Reading) :
    outcome (decoder.arguments (tag :: rest)) reading =
      match outcome (decoder.argument tag) reading with
      | (.error error, middle) => (.error error, middle)
      | (.ok value, middle) =>
        match outcome (decoder.arguments rest)
          { middle with cursor := middle.cursor.advanceSlot } with
        | (.error error, after) => (.error error, after)
        | (.ok values, after) => (.ok (value :: values), after) := by
  rw [arguments, outcome_bind]
  rcases outcome (decoder.argument tag) reading with ⟨error | value, middle⟩
  · rfl
  · change outcome (decoder.arguments rest >>= _)
      { middle with cursor := middle.cursor.advanceSlot } = _
    rw [outcome_bind]
    dsimp only
    rcases outcome (decoder.arguments rest) _ with ⟨error | values, after⟩ <;> rfl

section Arguments

variable {decoder : Decoder}
variable (resolving : ∀ asked address, Unshort (decoder.memory.resolve asked address))

include resolving

theorem uses_scalar : Uses 1 decoder.scalar := by
  apply uses_take
  intro raw
  split
  · exact uses_pure raw
  · exact uses_ask fun asked => Memory.unshort_deref resolving asked raw

theorem uses_text : Uses 1 decoder.text := by
  apply uses_take
  intro address
  refine (uses_ask fun asked => Memory.unshort_readText resolving asked address _).then ?_
  intro bytes
  split
  · split
    · exact uses_pure _
    · exact uses_throw id
  · exact uses_pure _

theorem uses_array : Uses 2 decoder.array := by
  apply uses_take
  intro base
  apply (uses_scalar resolving).then
  intro count
  split
  · exact uses_throw_bind id
  · dsimp only
    split
    · exact uses_throw_bind id
    · exact uses_ask fun asked => Memory.unshort_readArray resolving asked base _

theorem uses_argument (tag : Tag) : Uses tag.cells (decoder.argument tag) := by
  cases tag with
  | text => exact (uses_text resolving).then fun _ => uses_pure _
  | int | uint | float => exact (uses_scalar resolving).then fun _ => uses_pure _
  | intArray | floatArray => exact (uses_array resolving).then fun _ => uses_pure _

/-- Arguments that have all their cells fail for no lack of one, and come out the same
whatever stands behind their cells; where they do not fail the cursor is left there. -/
theorem arguments_enough {tags : List Tag} {own : List Cell}
    (all : own.length = Signature.cellCount (.ofTags tags)) (asked : Nat) :
    (∃ values later, ∀ rest slot taken,
      outcome (decoder.arguments tags) ⟨⟨own ++ rest, slot, taken⟩, asked⟩ =
        (.ok values, ⟨⟨rest, slot + tags.length, taken + own.length⟩, later⟩)) ∨
    ∃ error later, ¬error.IsShortage ∧ ∀ rest slot taken, ∃ cursor,
      outcome (decoder.arguments tags) ⟨⟨own ++ rest, slot, taken⟩, asked⟩ =
        (.error error, ⟨cursor, later⟩) := by
  induction tags generalizing own asked with
  | nil =>
      obtain rfl := List.length_eq_zero_iff.mp all
      exact .inl ⟨[], asked, fun _ _ _ => rfl⟩
  | cons tag tags ih =>
      rw [Signature.cellCount_cons] at all
      obtain ⟨front, back, rfl, frontLength⟩ :
          ∃ front back, own = front ++ back ∧ front.length = tag.cells :=
        ⟨own.take tag.cells, own.drop tag.cells, (List.take_append_drop ..).symm,
          List.length_take_of_le (by omega)⟩
      rw [List.length_append] at all
      obtain ⟨result, middle, unshort, first⟩ :=
        (uses_argument resolving tag).enough front asked frontLength
      cases result with
      | error error =>
          refine .inr ⟨error, middle, unshort error rfl, ?_⟩
          intro rest slot taken
          exact ⟨_, by rw [outcome_arguments_cons, List.append_assoc, first]⟩
      | ok value =>
          have backLength : back.length = Signature.cellCount (.ofTags tags) := by omega
          rcases ih backLength middle with
            ⟨values, later, decoded⟩ | ⟨error, later, other, failed⟩
          · refine .inl ⟨value :: values, later, ?_⟩
            intro rest slot taken
            rw [outcome_arguments_cons, List.append_assoc, first]
            dsimp only [Cursor.advanceSlot]
            rw [decoded]
            simp only [List.length_cons, List.length_append, frontLength, Nat.add_assoc,
              Nat.add_comm 1]
          · refine .inr ⟨error, later, other, ?_⟩
            intro rest slot taken
            obtain ⟨cursor, failed⟩ := failed rest (slot + 1) (taken + tag.cells)
            refine ⟨cursor, ?_⟩
            rw [outcome_arguments_cons, List.append_assoc, first]
            dsimp only [Cursor.advanceSlot]
            rw [failed]

end Arguments

/-- The arguments behind some others are decoded where those end. -/
theorem arguments_concat (decoder : Decoder) (front back : List Tag) :
    decoder.arguments (front ++ back) = do
      let earlier ← decoder.arguments front
      let later ← decoder.arguments back
      return earlier ++ later := by
  induction front with
  | nil => simp [arguments]
  | cons tag front ih => simp [arguments, ih]

end Decoder

namespace Signature

/-- Fewer cells than the signature takes run out in one of its slots. -/
theorem exists_shortage {tags : List Tag} {count : Nat} (few : count < cellCount (.ofTags tags)) :
    ∃ front tag back, tags = front ++ tag :: back ∧ cellCount (.ofTags front) ≤ count ∧
      count < cellCount (.ofTags front) + tag.cells := by
  induction tags generalizing count with
  | nil => exact absurd few (Nat.not_lt_zero _)
  | cons tag tags ih =>
      rw [cellCount_cons] at few
      by_cases here : count < tag.cells
      · refine ⟨[], tag, tags, rfl, Nat.zero_le _, ?_⟩
        rwa [cellCount, tags_ofTags, List.foldr_nil, Nat.zero_add]
      · obtain ⟨front, last, back, rfl, low, high⟩ :=
          @ih (count - tag.cells) (by omega)
        refine ⟨tag :: front, last, back, rfl, ?_, ?_⟩
        all_goals rw [cellCount_cons]; omega

/-- The slot in which cells run out is the only one. -/
theorem shortage_unique {tags : List Tag} {count slot other : Nat}
    (low : cellCount (.ofTags (tags.take slot)) ≤ count)
    (high : count < cellCount (.ofTags (tags.take (slot + 1))))
    (otherLow : cellCount (.ofTags (tags.take other)) ≤ count)
    (otherHigh : count < cellCount (.ofTags (tags.take (other + 1)))) : slot = other := by
  have grows : ∀ fewer more, fewer ≤ more →
      cellCount (.ofTags (tags.take fewer)) ≤ cellCount (.ofTags (tags.take more)) := by
    intro fewer more before
    obtain ⟨behind, whole⟩ := List.take_prefix_take_left before (l := tags)
    rw [← whole, cellCount_append]
    exact Nat.le_add_right _ _
  rcases Nat.lt_trichotomy slot other with before | same | behind
  · have passed := grows (slot + 1) other before
    omega
  · exact same
  · have passed := grows (other + 1) slot behind
    omega

end Signature

namespace Decoder

open Decoding

variable {decoder : Decoder}
variable (resolving : ∀ asked address, Unshort (decoder.memory.resolve asked address))

theorem decodeFrom_eq (asked : Nat) (signature : Signature) (cells : List Cell) :
    decoder.decodeFrom asked signature cells =
      ((outcome (decoder.arguments signature.tags) ⟨Cursor.start cells, asked⟩).1,
        (outcome (decoder.arguments signature.tags) ⟨Cursor.start cells, asked⟩).2.asked) :=
  rfl

include resolving

/-- Cells that are all there decide the outcome, whatever stands behind them, and none is
missing. -/
theorem decodeFrom_enough {signature : Signature} {cells : List Cell}
    (all : signature.cellCount ≤ cells.length) (asked : Nat) :
    ∃ result later, Unshort result ∧
      ∀ others, others.take signature.cellCount = cells.take signature.cellCount →
        decoder.decodeFrom asked signature others = (result, later) := by
  have whole : (cells.take signature.cellCount).length =
      Signature.cellCount (.ofTags signature.tags) := List.length_take_of_le all
  rcases arguments_enough resolving whole asked with
    ⟨values, later, decoded⟩ | ⟨error, later, other, failed⟩
  · refine ⟨.ok values, later, .ok values, ?_⟩
    intro others same
    rw [decodeFrom_eq, ← others.take_append_drop signature.cellCount, same, Cursor.start,
      decoded]
  · refine ⟨.error error, later, .error other, ?_⟩
    intro others same
    obtain ⟨cursor, failed⟩ := failed (others.drop signature.cellCount) 0 0
    rw [decodeFrom_eq, ← others.take_append_drop signature.cellCount, same, Cursor.start,
      failed]

/-- Where the cells run out in a slot, decoding ends there if it comes so far, and
otherwise it has ended before, whatever cells come behind. -/
theorem decodeFrom_short {signature : Signature} {cells : List Cell}
    (few : cells.length < signature.cellCount) (asked : Nat) :
    ∃ slot, Signature.cellCount (.ofTags (signature.tags.take slot)) ≤ cells.length ∧
      cells.length < Signature.cellCount (.ofTags (signature.tags.take (slot + 1))) ∧
      ((∃ values,
          (decoder.decodeFrom asked (.ofTags (signature.tags.take slot)) cells).1 = .ok values ∧
            (decoder.decodeFrom asked signature cells).1 =
              .error (.missingArgument slot cells.length)) ∨
        ∃ error later, ¬error.IsShortage ∧
          (decoder.decodeFrom asked (.ofTags (signature.tags.take slot)) cells).1 =
            .error error ∧
          decoder.decodeFrom asked signature cells = (.error error, later) ∧
          ∀ more, decoder.decodeFrom asked signature (cells ++ more) =
            (.error error, later)) := by
  obtain ⟨text, tags⟩ := signature
  have short : cells.length < Signature.cellCount (.ofTags tags) := few
  obtain ⟨front, tag, back, rfl, low, high⟩ := Signature.exists_shortage short
  have next : (front ++ tag :: back).take (front.length + 1) = front ++ [tag] := by
    rw [List.take_length_add_append]
    rfl
  refine ⟨front.length, ?_⟩
  dsimp only
  rw [List.take_left, next, Signature.cellCount_append]
  refine ⟨low, high, ?_⟩
  obtain ⟨own, rest, rfl, ownLength⟩ :
      ∃ own rest, cells = own ++ rest ∧ own.length = Signature.cellCount (.ofTags front) :=
    ⟨cells.take _, cells.drop _, (List.take_append_drop ..).symm,
      List.length_take_of_le low⟩
  rw [List.length_append] at high
  simp only [decodeFrom_eq, Signature.tags_ofTags, arguments_concat, outcome_bind, Cursor.start,
    List.append_assoc]
  rcases arguments_enough resolving ownLength asked with
    ⟨values, later, decoded⟩ | ⟨error, later, other, failed⟩
  · left
    refine ⟨values, by rw [decoded], ?_⟩
    have missing := (uses_argument resolving tag).short rest (0 + front.length)
      (0 + own.length) later (by omega)
    rw [decoded]
    dsimp only
    rw [outcome_arguments_cons, missing]
    simp
  · right
    refine ⟨error, later, other, ?_, ?_, ?_⟩
    · obtain ⟨cursor, failed⟩ := failed rest 0 0
      rw [failed]
    · obtain ⟨cursor, failed⟩ := failed rest 0 0
      rw [failed]
    · intro more
      obtain ⟨cursor, failed⟩ := failed (rest ++ more) 0 0
      rw [failed]

/-- Arguments that decode have all their cells. -/
theorem cellCount_le_of_decodeFrom {signature : Signature} {cells : List Cell} {asked : Nat}
    {values : List Value}
    (made : (decoder.decodeFrom asked signature cells).1 = .ok values) :
    signature.cellCount ≤ cells.length := by
  by_contra few
  obtain ⟨_, _, _, ⟨_, _, missing⟩ | ⟨_, _, _, _, ended, _⟩⟩ :=
    decodeFrom_short resolving (Nat.lt_of_not_le few) asked
  · rw [made] at missing
    cases missing
  · rw [ended] at made
    cases made

/-- Cells that are appended make no difference if none was missing. -/
theorem decodeFrom_append {signature : Signature} {cells : List Cell} {asked : Nat}
    (unshort : Unshort (decoder.decodeFrom asked signature cells).1) (more : List Cell) :
    decoder.decodeFrom asked signature (cells ++ more) =
      decoder.decodeFrom asked signature cells := by
  rcases Nat.lt_or_ge cells.length signature.cellCount with few | all
  · obtain ⟨_, _, _, ⟨_, _, missing⟩ | ⟨_, _, _, _, ended, longer⟩⟩ :=
      decodeFrom_short resolving few asked
    · exact absurd trivial (unshort _ missing)
    · rw [longer, ended]
  · obtain ⟨_, _, _, same⟩ := decodeFrom_enough resolving all asked
    rw [same cells rfl, same (cells ++ more) (List.take_append_of_le_length all)]

/-- Cells behind those of the signature may be dropped. -/
theorem decodeFrom_take {signature : Signature} {cells : List Cell} {kept : Nat}
    (all : signature.cellCount ≤ cells.length) (enough : signature.cellCount ≤ kept)
    (asked : Nat) :
    decoder.decodeFrom asked signature (cells.take kept) =
      decoder.decodeFrom asked signature cells := by
  obtain ⟨_, _, _, same⟩ := decodeFrom_enough resolving all asked
  rw [same cells rfl, same (cells.take kept)]
  rw [List.take_take, Nat.min_eq_left enough]

/-- A shortage tells of the slot in which the cells run out and of how many there are, and
there is one if decoding comes so far. -/
theorem decodeFrom_missing_iff {signature : Signature} {cells : List Cell}
    {asked slot cell : Nat} :
    (decoder.decodeFrom asked signature cells).1 = .error (.missingArgument slot cell) ↔
      cells.length < signature.cellCount ∧ cell = cells.length ∧
        Signature.cellCount (.ofTags (signature.tags.take slot)) ≤ cell ∧
        cell < Signature.cellCount (.ofTags (signature.tags.take (slot + 1))) ∧
        ∃ values,
          (decoder.decodeFrom asked (.ofTags (signature.tags.take slot)) cells).1 = .ok values := by
  constructor
  · intro missing
    rcases Nat.lt_or_ge cells.length signature.cellCount with few | all
    · obtain ⟨_, low, high, ⟨values, made, short⟩ | ⟨_, _, other, _, ended, _⟩⟩ :=
        decodeFrom_short resolving few asked
      · rw [missing] at short
        cases short
        exact ⟨few, rfl, low, high, values, made⟩
      · rw [ended] at missing
        cases missing
        exact absurd trivial other
    · obtain ⟨_, _, unshort, same⟩ := decodeFrom_enough resolving all asked
      rw [same cells rfl] at missing
      exact absurd trivial (unshort _ missing)
  · rintro ⟨few, rfl, low, high, values, made⟩
    obtain ⟨reached, reachedLow, reachedHigh, fate⟩ := decodeFrom_short resolving few asked
    obtain rfl := Signature.shortage_unique reachedLow reachedHigh low high
    rcases fate with ⟨_, _, short⟩ | ⟨_, _, _, fails, _⟩
    · exact short
    · rw [made] at fails
      cases fails

end Decoder

open Decoder

/-- Let addresses be all that the memory refuses, however its answers may change.  If
arguments can be decoded, all their cells are there, and others may stand behind them or
not.  That a cell is missing is the error exactly if there are fewer cells than the
signature takes and the arguments before the slot in which they run out can be decoded;
it tells that slot, which is the only one, and how many cells there are.  So decoding
never succeeds with fewer cells, and no other outcome changes when cells are appended. -/
theorem decoding_needs_exactly_its_cells {memory : Memory}
    (refusing : ∀ asked address error, memory.resolve asked address = .error error →
      ∃ refused, error = .invalidAddress refused)
    (passing : Passing) (limits : Limits) (signature : Signature) (cells : List Cell)
    (asked : Nat) :
    let decoder : Decoder := ⟨memory, passing, limits⟩
    let decoded := decoder.decodeFrom asked signature cells
    let before (slot : Nat) : Signature := .ofTags (signature.tags.take slot)
    (∀ values, decoded.1 = .ok values →
      signature.cellCount ≤ cells.length ∧
        (∀ more, decoder.decodeFrom asked signature (cells ++ more) = decoded) ∧
        ∀ kept, signature.cellCount ≤ kept →
          decoder.decodeFrom asked signature (cells.take kept) = decoded) ∧
    (∀ slot cell, decoded.1 = .error (.missingArgument slot cell) ↔
      cells.length < signature.cellCount ∧ cell = cells.length ∧
        (before slot).cellCount ≤ cell ∧ cell < (before (slot + 1)).cellCount ∧
        ∃ values, (decoder.decodeFrom asked (before slot) cells).1 = .ok values) ∧
    (cells.length < signature.cellCount →
      (∃ error, decoded.1 = .error error) ∧
        ∃! slot, (before slot).cellCount ≤ cells.length ∧
          cells.length < (before (slot + 1)).cellCount) ∧
    ((∀ slot cell, decoded.1 ≠ .error (.missingArgument slot cell)) →
      ∀ more, decoder.decodeFrom asked signature (cells ++ more) = decoded) := by
  intro decoder decoded before
  have resolving : ∀ asked address, Unshort (decoder.memory.resolve asked address) := by
    intro asked address error failed
    obtain ⟨refused, rfl⟩ := refusing asked address error failed
    exact id
  refine ⟨?_, fun slot cell => decodeFrom_missing_iff resolving, ?_, ?_⟩
  · intro values made
    have all := cellCount_le_of_decodeFrom resolving made
    have unshort : Unshort decoded.1 := made ▸ .ok values
    exact ⟨all, decodeFrom_append resolving unshort,
      fun kept enough => decodeFrom_take resolving all enough asked⟩
  · intro few
    constructor
    · cases made : decoded.1 with
      | error error => exact ⟨error, rfl⟩
      | ok values =>
          exact absurd (cellCount_le_of_decodeFrom resolving made) (Nat.not_le_of_lt few)
    · obtain ⟨slot, low, high, _⟩ := decodeFrom_short resolving few asked
      exact ⟨slot, ⟨low, high⟩, fun other ⟨otherLow, otherHigh⟩ =>
        Signature.shortage_unique otherLow otherHigh low high⟩
  · intro present more
    apply decodeFrom_append resolving
    intro error failed shortage
    cases error with
    | missingArgument slot cell => exact present slot cell failed
    | _ => exact shortage

/-- A cell too many makes no difference, and one too few is missed where it should stand,
behind the base address of an array.  A text that cannot be found comes before it.  The
memory answers but two questions. -/
theorem array_lacks_its_length :
    let memory := Memory.failingAfter 2 (Segment.mk [97, 0, 5, 6]).memory
    let signature : Signature := .ofTags [.text, .intArray, .int]
    let decoder : Decoder := ⟨memory, .byValue, {}⟩
    let values : List Value := [.text "a", .list [.int 5, .int 6], .int 7]
    (∀ asked address error, memory.resolve asked address = .error error →
      ∃ refused, error = .invalidAddress refused) ∧
    (decoder.decodeFrom 0 signature [0, 8, 2, 7, 9] = (.ok values, 2) ∧
      signature.cellCount ≤ 5 ∧
      decoder.decodeFrom 0 signature [0, 8, 2, 7] = (.ok values, 2)) ∧
    ((decoder.decodeFrom 0 (.ofTags [.text]) [0, 8]).1 = .ok [.text "a"] ∧
      (decoder.decodeFrom 0 signature [0, 8]).1 = .error (.missingArgument 1 2)) ∧
    decoder.decodeFrom 0 signature [-4, 8] = (.error (.invalidAddress (-4)), 1) ∧
      decoder.decodeFrom 0 signature [-4, 8, 2, 7] = (.error (.invalidAddress (-4)), 1) := by
  intro memory signature decoder values
  have refusing : ∀ asked address error, memory.resolve asked address = .error error →
      ∃ refused, error = .invalidAddress refused := by
    intro asked address error refused
    change (if asked < 2 then Segment.resolve _ address else _) = _ at refused
    split at refused
    · rw [Segment.resolve] at refused
      split at refused
      · cases refused
      · cases refused
        exact ⟨address, rfl⟩
    · cases refused
      exact ⟨address, rfl⟩
  have needs cells := decoding_needs_exactly_its_cells refusing .byValue {} signature cells 0
  have decoded : decoder.decodeFrom 0 signature [0, 8, 2, 7, 9] = (.ok values, 2) := rfl
  have first : (decoder.decodeFrom 0 (.ofTags [.text]) [0, 8]).1 = .ok [.text "a"] := rfl
  have refused : decoder.decodeFrom 0 signature [-4, 8] =
      (.error (.invalidAddress (-4)), 1) := rfl
  obtain ⟨all, _, dropped⟩ := (needs [0, 8, 2, 7, 9]).1 values (congrArg Prod.fst decoded)
  have missing := (needs [0, 8]).2.1 1 2
  have appended := (needs [-4, 8]).2.2.2 (by rintro _ _ ⟨⟩) [2, 7]
  exact ⟨refusing, ⟨decoded, all, (dropped 4 (Nat.le_refl 4)).trans decoded⟩,
    ⟨first, missing.mpr ⟨by decide, rfl, by decide, by decide, _, first⟩⟩,
    refused, appended.trans refused⟩

end CellBus
