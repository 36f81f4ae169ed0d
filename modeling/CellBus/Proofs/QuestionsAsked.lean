import CellBus.Proofs.SignatureParts
import Mathlib.Data.List.Basic

/-!
# The questions of a signature

Decoding asks the memory about the address of every text and every array, and by
reference about that of every scalar and every length as well.  The raw cells alone
tell which addresses these are and in which order they come, a length before its
array.  A memory that fails from some question on makes no difference to arguments
whose questions were all asked before, and the others end with the first address
that is not found.
-/

namespace CellBus

variable {α β : Type}

/-- The addresses that are asked about for a scalar or a length. -/
def Passing.questions (passing : Passing) (raw : Cell) : List Cell :=
  match passing with
  | .byValue => []
  | .byReference => [raw]

/-- The addresses that are asked about for an argument, by its own cells. -/
def Tag.questions (passing : Passing) : Tag → List Cell → List Cell
  | .text, [address] => [address]
  | .int, [raw] | .uint, [raw] | .float, [raw] => passing.questions raw
  | .intArray, [base, raw] | .floatArray, [base, raw] => passing.questions raw ++ [base]
  | _, _ => []

namespace Signature

/-- The addresses that are asked about for a list of tags, in order. -/
def questionsOf (passing : Passing) : List Tag → List Cell → List Cell
  | [], _ => []
  | tag :: rest, cells =>
    tag.questions passing (cells.take tag.cells) ++
      questionsOf passing rest (cells.drop tag.cells)

def questions (signature : Signature) (passing : Passing) (cells : List Cell) :
    List Cell :=
  questionsOf passing signature.tags cells

/-- How many questions a complete argument list takes. -/
def questionCount (signature : Signature) (passing : Passing) : Nat :=
  let texts := signature.tags.count .text
  let scalars := signature.tags.count .int + signature.tags.count .uint +
    signature.tags.count .float
  let arrays := signature.tags.count .intArray + signature.tags.count .floatArray
  match passing with
  | .byValue => texts + arrays
  | .byReference => texts + scalars + 2 * arrays

theorem questionCount_cons (tag : Tag) (rest : List Tag) (passing : Passing) :
    questionCount (.ofTags (tag :: rest)) passing =
      questionCount (.ofTags [tag]) passing + questionCount (.ofTags rest) passing := by
  cases tag <;> cases passing <;> simp [questionCount] <;> omega

theorem length_tag_questions {tag : Tag} {own : List Cell}
    (complete : own.length = tag.cells) (passing : Passing) :
    (tag.questions passing own).length = questionCount (.ofTags [tag]) passing := by
  cases tag with
  | text =>
      obtain ⟨address, rfl⟩ := List.length_eq_one_iff.mp complete
      cases passing <;> rfl
  | int | uint | float =>
      obtain ⟨raw, rfl⟩ := List.length_eq_one_iff.mp complete
      cases passing <;> rfl
  | intArray | floatArray =>
      obtain ⟨base, raw, rfl⟩ := List.length_eq_two.mp complete
      cases passing <;> rfl

theorem length_questionsOf {tags : List Tag} {cells : List Cell}
    (enough : cellCount (.ofTags tags) ≤ cells.length) (passing : Passing) :
    (questionsOf passing tags cells).length = questionCount (.ofTags tags) passing := by
  induction tags generalizing cells with
  | nil => cases passing <;> rfl
  | cons tag rest ih =>
      rw [cellCount_cons] at enough
      have complete : (cells.take tag.cells).length = tag.cells := by
        rw [List.length_take]
        omega
      have restEnough : Signature.cellCount (.ofTags rest) ≤ (cells.drop tag.cells).length := by
        rw [List.length_drop]
        omega
      rw [questionCount_cons, questionsOf, List.length_append,
        length_tag_questions complete, ih restEnough]

theorem length_questions {signature : Signature} {cells : List Cell}
    (enough : signature.cellCount ≤ cells.length) (passing : Passing) :
    (signature.questions passing cells).length = signature.questionCount passing :=
  length_questionsOf enough passing

end Signature

/-- The decoder over a memory that answers no more than so many questions. -/
def Decoder.rationed (limit : Nat) (decoder : Decoder) : Decoder :=
  { decoder with memory := decoder.memory.failingAfter limit }

namespace Memory

variable {memory : Memory} {asked limit : Nat} {address : Cell}

theorem resolve_before (steady : memory.SteadyFrom 0) (early : asked < limit) :
    (memory.failingAfter limit).resolve asked address = memory.resolve 0 address := by
  unfold failingAfter
  dsimp only
  rw [if_pos early, steady asked (Nat.zero_le asked)]

theorem resolve_at_limit :
    (memory.failingAfter limit).resolve limit address =
      .error (.invalidAddress address) := by
  unfold failingAfter
  dsimp only
  rw [if_neg (Nat.lt_irrefl limit)]

end Memory

namespace Decoding

/-- A step that asks the questions, in order, of a memory that answers no more than
`limit`: where they all find an answer, the step gives the value and takes the cursor
from one place to the other, and else the first that finds none ends it. -/
structure Spends (limit : Nat) (step : Decoding α) (cursor : Cursor)
    (questions : List Cell) (value : α) (after : Cursor) : Prop where
  answered : ∀ asked, asked + questions.length ≤ limit →
    outcome step ⟨cursor, asked⟩ = (.ok value, ⟨after, asked + questions.length⟩)
  unanswered : ∀ asked address, asked ≤ limit →
    questions[limit - asked]? = some address →
    (outcome step ⟨cursor, asked⟩).1 = .error (.invalidAddress address)

variable {limit : Nat} {cursor middle after : Cursor}

theorem spends_pure (value : α) (cursor : Cursor) :
    Spends limit (pure value) cursor [] value cursor where
  answered _ _ := rfl
  unanswered _ _ _ found := by cases found

theorem spends_advanceSlot (cursor : Cursor) :
    Spends limit advanceSlot cursor [] () cursor.advanceSlot where
  answered _ _ := rfl
  unanswered _ _ _ found := by cases found

theorem spends_take (cell : Cell) (rest : List Cell) (slot taken : Nat) :
    Spends limit take ⟨cell :: rest, slot, taken⟩ [] cell ⟨rest, slot, taken + 1⟩ where
  answered asked _ := by
    rw [outcome_take]
    rfl
  unanswered _ _ _ found := by cases found

theorem spends_ask {question : Nat → Except MarshalError α} {address : Cell} {value : α}
    (answers : ∀ asked, asked < limit → question asked = .ok value)
    (fails : question limit = .error (.invalidAddress address)) (cursor : Cursor) :
    Spends limit (ask question) cursor [address] value cursor where
  answered asked enough := by
    rw [outcome_ask, answers asked enough]
    rfl
  unanswered asked other within found := by
    obtain ⟨position, same⟩ := List.getElem?_eq_some_iff.mp found
    have last : asked = limit := by
      rw [List.length_singleton] at position
      omega
    subst last
    rw [outcome_ask, fails]
    simp only [Nat.sub_self, List.getElem_cons_zero] at same
    rw [same]

/-- The questions of the first step come before those of the next. -/
theorem Spends.bind {first : Decoding α} {next : α → Decoding β} {value : α}
    {result : β} {earlier later : List Cell}
    (spends : Spends limit first cursor earlier value middle)
    (follows : Spends limit (next value) middle later result after) :
    Spends limit (first >>= next) cursor (earlier ++ later) result after where
  answered asked enough := by
    rw [List.length_append] at enough ⊢
    rw [outcome_bind, spends.answered asked (by omega)]
    dsimp only
    rw [follows.answered _ (by omega), Nat.add_assoc]
  unanswered asked address within found := by
    rw [outcome_bind]
    -- The question that finds no answer is asked by one step or by the other.
    rcases Nat.lt_or_ge (limit - asked) earlier.length with inFirst | inNext
    · rw [List.getElem?_append_left inFirst] at found
      have failed := spends.unanswered asked address within found
      rcases ran : outcome first ⟨cursor, asked⟩ with ⟨answer, reading⟩
      rw [ran] at failed
      cases failed
      rfl
    · rw [List.getElem?_append_right inNext, Nat.sub_sub] at found
      rw [spends.answered asked (by omega)]
      exact follows.unanswered _ address (by omega) found

/-- What follows asks nothing. -/
theorem Spends.then {first : Decoding α} {next : α → Decoding β} {value : α}
    {result : β} {questions : List Cell}
    (spends : Spends limit first cursor questions value middle)
    (follows : Spends limit (next value) middle [] result after) :
    Spends limit (first >>= next) cursor questions result after := by
  have whole := spends.bind follows
  rw [List.append_nil] at whole
  exact whole

end Decoding

namespace Decoder

open Decoding

variable {decoder : Decoder} {limit : Nat} {raw base cell : Cell} {rest : List Cell}
variable {slot taken : Nat}

private theorem exists_of_bind_pure {made : Except MarshalError α} {build : α → β}
    {result : β} (built : (do return build (← made)) = .ok result) :
    ∃ value, made = .ok value ∧ build value = result := by
  cases made with
  | error error => cases built
  | ok value =>
      cases built
      exact ⟨value, rfl, rfl⟩

section Steady

variable (steady : decoder.memory.SteadyFrom 0)

include steady

theorem spends_scalar (made : decoder.scalarOf raw = .ok cell) :
    Spends limit (decoder.rationed limit).scalar ⟨raw :: rest, slot, taken⟩
      (decoder.passing.questions raw) cell ⟨rest, slot, taken + 1⟩ := by
  apply (spends_take raw rest slot taken).bind
  unfold scalarOf at made
  unfold rationed
  dsimp only
  cases passing : decoder.passing with
  | byValue =>
      rw [passing] at made
      cases made
      exact spends_pure _ _
  | byReference =>
      rw [passing] at made
      apply spends_ask
      · intro asked early
        rw [Memory.deref, Memory.resolve_before steady early]
        exact made
      · rw [Memory.deref, Memory.resolve_at_limit]
        rfl

theorem spends_text {text : String} (made : decoder.textOf base = .ok text) :
    Spends limit (decoder.rationed limit).text ⟨base :: rest, slot, taken⟩ [base] text
      ⟨rest, slot, taken + 1⟩ := by
  apply (spends_take base rest slot taken).bind
  unfold textOf at made
  cases read : decoder.memory.readText 0 base decoder.limits.textLength with
  | error error =>
      rw [read] at made
      cases made
  | ok bytes =>
      rw [read] at made
      have asks : Spends limit (ask fun asked =>
          (decoder.rationed limit).memory.readText asked base
            (decoder.rationed limit).limits.textLength)
          ⟨rest, slot, taken + 1⟩ [base] bytes ⟨rest, slot, taken + 1⟩ := by
        apply spends_ask
        · intro asked early
          rw [rationed, Memory.readText, Memory.resolve_before steady early]
          exact read
        · rw [rationed, Memory.readText, Memory.resolve_at_limit]
          rfl
      apply asks.then
      change (if decoder.limits.strictUtf8 then _ else _) = _ at made
      change Spends limit (if decoder.limits.strictUtf8 then _ else _) _ _ _ _
      split at made
      · cases strict : Text.decodeStrict bytes with
        | none =>
            rw [strict] at made
            cases made
        | some found =>
            rw [strict] at made
            cases made
            rw [if_pos ‹_›]
            exact spends_pure _ _
      · cases made
        rw [if_neg ‹_›]
        exact spends_pure _ _

theorem spends_array {elements : List Cell}
    (made : decoder.arrayOf base raw = .ok elements) :
    Spends limit (decoder.rationed limit).array ⟨base :: raw :: rest, slot, taken⟩
      (decoder.passing.questions raw ++ [base]) elements ⟨rest, slot, taken + 1 + 1⟩ := by
  apply (spends_take base (raw :: rest) slot taken).bind
  unfold arrayOf at made
  cases counted : decoder.scalarOf raw with
  | error error =>
      rw [counted] at made
      cases made
  | ok count =>
      rw [counted] at made
      change decoder.elementsOf base count = _ at made
      apply (spends_scalar steady counted).bind
      unfold elementsOf at made
      split at made
      · cases made
      split at made
      · cases made
      rw [if_neg ‹_›]
      dsimp only
      rw [rationed, if_neg ‹_›]
      apply spends_ask
      · intro asked early
        rw [Memory.readArray, Memory.resolve_before steady early]
        exact made
      · rw [Memory.readArray, Memory.resolve_at_limit]
        rfl

theorem spends_argument {shortage : MarshalError} {tag : Tag} {cursor : Cursor}
    {value : Value} (made : decoder.valueOf shortage tag (cursor.own tag) = .ok value) :
    Spends limit ((decoder.rationed limit).argument tag) cursor
      (tag.questions decoder.passing (cursor.own tag)) value (cursor.past tag) := by
  obtain ⟨remaining, slot, taken⟩ := cursor
  cases tag with
  | text =>
      cases remaining with
      | nil => cases made
      | cons address rest =>
          obtain ⟨text, textMade, rfl⟩ := exists_of_bind_pure made
          exact (spends_text steady textMade).then (spends_pure _ _)
  | int | uint | float =>
      cases remaining with
      | nil => cases made
      | cons raw rest =>
          obtain ⟨cell, cellMade, rfl⟩ := exists_of_bind_pure made
          exact (spends_scalar steady cellMade).then (spends_pure _ _)
  | intArray | floatArray =>
      match remaining with
      | [] => cases made
      | [base] => cases made
      | base :: raw :: rest =>
          obtain ⟨elements, arrayMade, rfl⟩ := exists_of_bind_pure made
          exact (spends_array steady arrayMade).then (spends_pure _ _)

theorem spends_arguments {tags : List Tag} {cursor : Cursor} {values : List Value}
    (made : decoder.valuesFrom cursor tags = .ok values) :
    ∃ after, Spends limit ((decoder.rationed limit).arguments tags) cursor
      (Signature.questionsOf decoder.passing tags cursor.remaining) values after := by
  induction tags generalizing cursor values with
  | nil =>
      cases made
      exact ⟨cursor, spends_pure [] cursor⟩
  | cons tag rest ih =>
      obtain ⟨value, later, ownMade, laterMade, rfl⟩ :=
        valuesFrom_cons_eq_ok_iff.mp made
      -- Argument, end of slot, the arguments behind it.
      obtain ⟨after, spends⟩ := ih laterMade
      refine ⟨after, (spends_argument steady ownMade).bind ?_⟩
      apply (spends_advanceSlot (cursor.past tag)).bind
      exact spends.then (spends_pure _ _)

/-- Over a memory that answers no more than so many questions, arguments that decode
over the memory itself decode as long as theirs are among them, and otherwise the first
question that finds no answer is what ends decoding. -/
theorem decodeFrom_rationed {signature : Signature} {cells : List Cell}
    {values : List Value} (decoded : decoder.decodeAll signature cells = .ok values)
    (limit : Nat) :
    let questions := signature.questions decoder.passing cells
    (∀ asked, asked + questions.length ≤ limit →
      (decoder.rationed limit).decodeFrom asked signature cells =
        (.ok values, asked + questions.length)) ∧
    ∀ asked address, asked ≤ limit → questions[limit - asked]? = some address →
      ((decoder.rationed limit).decodeFrom asked signature cells).1 =
        .error (.invalidAddress address) := by
  intro questions
  rw [decodeAll_eq_valuesFrom steady] at decoded
  obtain ⟨after, spends⟩ := spends_arguments steady decoded
  refine ⟨?_, spends.unanswered⟩
  intro asked enough
  exact congrArg (fun ended => (ended.1, ended.2.asked)) (spends.answered asked enough)

theorem length_questions_of_decoded {signature : Signature} {cells : List Cell}
    {values : List Value} (decoded : decoder.decodeAll signature cells = .ok values)
    (passing : Passing) :
    (signature.questions passing cells).length = signature.questionCount passing := by
  rw [decodeAll_eq_valuesFrom steady] at decoded
  exact Signature.length_questions (valuesFrom_enough decoded) passing

end Steady

end Decoder

end CellBus
