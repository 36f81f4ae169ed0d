import CellBus.Memory.Segment
import CellBus.Proofs.OwnCells
import Mathlib.Data.List.Induction

/-!
# Decoding a signature part by part

What stands before an argument in a signature moves its cells and the places that
a shortage of cells names, and nothing else.  So a signature is decoded part by
part: the second part sees the cells behind those of the first, and of the
arguments that fail the one furthest to the left decides the error.
-/

namespace CellBus

variable {α β : Type}

/-- The error as it reads when some slots and cells stand before. -/
def MarshalError.shifted (slots cells : Nat) : MarshalError → MarshalError
  | .missingArgument slot cell => .missingArgument (slot + slots) (cell + cells)
  | error => error

/-- A result that does not depend on where in a signature it comes up. -/
def Unmoved (result : Except MarshalError α) : Prop :=
  ∀ slots cells, result.mapError (MarshalError.shifted slots cells) = result

/-- A cursor that some slots and cells stand before. -/
def Cursor.shifted (slots cells : Nat) (cursor : Cursor) : Cursor :=
  ⟨cursor.remaining, cursor.slot + slots, cursor.cell + cells⟩

/-- The cursor behind the cells of several arguments. -/
def Cursor.passed (cursor : Cursor) : List Tag → Cursor
  | [] => cursor
  | tag :: rest => (cursor.past tag).advanceSlot.passed rest

theorem Signature.cellCount_cons (tag : Tag) (rest : List Tag) :
    Signature.cellCount (.ofTags (tag :: rest)) =
      tag.cells + Signature.cellCount (.ofTags rest) := rfl

/-- Every array takes one cell more than there are arguments. -/
theorem Signature.cellCount_eq (tags : List Tag) :
    Signature.cellCount (.ofTags tags) =
      tags.length + tags.count .intArray + tags.count .floatArray := by
  induction tags with
  | nil => rfl
  | cons tag rest ih =>
      rw [cellCount_cons, ih]
      cases tag <;> simp [Tag.cells] <;> omega

theorem Signature.cellCount_append (front back : List Tag) :
    cellCount (.ofTags (front ++ back)) =
      cellCount (.ofTags front) + cellCount (.ofTags back) := by
  simp only [cellCount_eq, List.length_append, List.count_append]
  omega

/-- The cells of the argument in a slot. -/
def Signature.own (signature : Signature) (slot : Nat) (tag : Tag)
    (cells : List Cell) : List Cell :=
  (cells.drop (Signature.cellCount (.ofTags (signature.tags.take slot)))).take tag.cells

theorem Signature.own_inside {init : List Tag} {slot : Nat}
    (inside : slot < init.length) (last tag : Tag) (cells : List Cell) :
    Signature.own (.ofTags (init ++ [last])) slot tag cells =
      Signature.own (.ofTags init) slot tag cells := by
  simp only [own, tags_ofTags, List.take_append_of_le_length (Nat.le_of_lt inside)]

theorem Signature.own_last (init : List Tag) (last tag : Tag) (cells : List Cell) :
    Signature.own (.ofTags (init ++ [last])) init.length tag cells =
      (cells.drop (Signature.cellCount (.ofTags init))).take tag.cells := by
  simp [own]

private theorem getElem?_concat_last {init : List α} {last item : α} {slot : Nat}
    (outside : ¬slot < init.length) (found : (init ++ [last])[slot]? = some item) :
    slot = init.length ∧ item = last := by
  obtain ⟨within, _⟩ := List.getElem?_eq_some_iff.mp found
  simp only [List.length_append, List.length_singleton] at within
  obtain rfl : slot = init.length := by omega
  rw [List.getElem?_concat_length] at found
  exact ⟨rfl, (Option.some.inj found).symm⟩

private theorem eq_take_concat {items : List α} {item : α} {count : Nat}
    (found : items[count]? = some item) (length : items.length = count + 1) :
    items = items.take count ++ [item] := by
  have whole := List.take_add_one (l := items) (i := count)
  rw [← length, List.take_length, found] at whole
  exact whole

theorem Cursor.passed_eq {tags : List Tag} {cursor : Cursor}
    (enough : Signature.cellCount (.ofTags tags) ≤ cursor.remaining.length) :
    cursor.passed tags =
      (Cursor.start (cursor.remaining.drop (Signature.cellCount (.ofTags tags)))).shifted
        (cursor.slot + tags.length) (cursor.cell + Signature.cellCount (.ofTags tags)) := by
  induction tags generalizing cursor with
  | nil => simp [passed, shifted, start, Signature.cellCount]
  | cons tag rest ih =>
      rw [Signature.cellCount_cons] at enough ⊢
      have restEnough : Signature.cellCount (.ofTags rest) ≤
          (cursor.past tag).advanceSlot.remaining.length := by
        simp only [past, advanceSlot, List.length_drop]
        omega
      rw [passed, ih restEnough]
      have ownLength : (cursor.own tag).length = tag.cells := by
        rw [own, List.length_take]
        omega
      simp only [past, advanceSlot, shifted, start, ownLength, List.drop_drop,
        List.length_cons, Cursor.mk.injEq, true_and]
      omega

theorem mapError_bind (shift : MarshalError → MarshalError)
    (result : Except MarshalError α) (next : α → Except MarshalError β) :
    (result >>= next).mapError shift =
      result.mapError shift >>= fun value => (next value).mapError shift := by
  cases result <;> rfl

namespace Unmoved

theorem ok (value : α) : Unmoved (.ok value : Except MarshalError α) :=
  fun _ _ => rfl

theorem bind {result : Except MarshalError α} {next : α → Except MarshalError β}
    (unmoved : Unmoved result) (later : ∀ value, Unmoved (next value)) :
    Unmoved (result >>= next) := by
  intro slots cells
  rw [mapError_bind, unmoved slots cells]
  congr 1
  funext value
  exact later value slots cells

theorem collectText (address : Cell) (limit room : Nat) (collected : List UInt8)
    (units : List (Option UInt8)) :
    Unmoved (Memory.collectText address limit room collected units) := by
  fun_induction Memory.collectText address limit room collected units with
  | case1 => exact fun _ _ => rfl
  | case2 => exact fun _ _ => rfl
  | case3 => exact fun _ _ => rfl
  | case4 _ _ _ _ ih => exact ih

end Unmoved

namespace Decoder

variable {decoder : Decoder}

section Resolving

variable (resolving : ∀ address, Unmoved (decoder.memory.resolve 0 address))

include resolving

theorem unmoved_scalarOf (raw : Cell) : Unmoved (decoder.scalarOf raw) := by
  rw [scalarOf]
  cases decoder.passing with
  | byValue => exact .ok raw
  | byReference =>
      apply (resolving raw).bind
      intro cells
      cases cells with
      | nil => exact fun _ _ => rfl
      | cons cell _ => exact .ok cell

theorem unmoved_textOf (address : Cell) : Unmoved (decoder.textOf address) := by
  have reads : Unmoved
      (decoder.memory.readText 0 address decoder.limits.textLength) :=
    (resolving address).bind fun _ => .collectText _ _ _ _ _
  apply reads.bind
  intro bytes
  split
  · cases Text.decodeStrict bytes with
    | none => exact fun _ _ => rfl
    | some text => exact .ok text
  · exact .ok _

theorem unmoved_arrayOf (base raw : Cell) : Unmoved (decoder.arrayOf base raw) := by
  apply (unmoved_scalarOf resolving raw).bind
  intro count
  rw [elementsOf]
  split
  · exact fun _ _ => rfl
  · split
    · exact fun _ _ => rfl
    · apply (resolving base).bind
      intro cells
      split
      · exact .ok _
      · exact fun _ _ => rfl

theorem valueOf_shifted (slot cell slots cells : Nat) (tag : Tag) (own : List Cell) :
    decoder.valueOf (.missingArgument (slot + slots) (cell + cells)) tag own =
      (decoder.valueOf (.missingArgument slot cell) tag own).mapError
        (MarshalError.shifted slots cells) := by
  have unmoved : ∀ {γ : Type} {result : Except MarshalError γ} (value : γ → Value),
      Unmoved result → Unmoved (do return value (← result)) :=
    fun value unmoved => unmoved.bind fun found => .ok (value found)
  unfold valueOf
  split
  · exact (unmoved _ (unmoved_textOf resolving _) slots cells).symm
  · exact (unmoved _ (unmoved_scalarOf resolving _) slots cells).symm
  · exact (unmoved _ (unmoved_scalarOf resolving _) slots cells).symm
  · exact (unmoved _ (unmoved_scalarOf resolving _) slots cells).symm
  · exact (unmoved _ (unmoved_arrayOf resolving _ _) slots cells).symm
  · exact (unmoved _ (unmoved_arrayOf resolving _ _) slots cells).symm
  · rfl

theorem valuesFrom_shifted (slots cells : Nat) (tags : List Tag) (cursor : Cursor) :
    decoder.valuesFrom (cursor.shifted slots cells) tags =
      (decoder.valuesFrom cursor tags).mapError
        (MarshalError.shifted slots cells) := by
  induction tags generalizing cursor with
  | nil => rfl
  | cons tag rest ih =>
      have past : ((cursor.shifted slots cells).past tag).advanceSlot =
          (cursor.past tag).advanceSlot.shifted slots cells := by
        simp [Cursor.past, Cursor.advanceSlot, Cursor.shifted, Cursor.own,
          Nat.add_right_comm]
      have shortage : (cursor.shifted slots cells).shortage tag =
          .missingArgument (cursor.slot + slots)
            ((cursor.past tag).cell + cells) := by
        simp [Cursor.past, Cursor.shortage, Cursor.shifted, Cursor.own,
          Nat.add_right_comm]
      have sameOwn : (cursor.shifted slots cells).own tag = cursor.own tag := rfl
      have ownValue := valueOf_shifted resolving cursor.slot (cursor.past tag).cell
        slots cells tag (cursor.own tag)
      rw [valuesFrom, valuesFrom, past, shortage, sameOwn, ownValue, ih, mapError_bind]
      congr 1
      funext value
      rw [mapError_bind]
      rfl

end Resolving

theorem valueOf_own {shortage : MarshalError} {tag : Tag} {own : List Cell}
    {value : Value} (made : decoder.valueOf shortage tag own = .ok value) :
    own.length = tag.cells := by
  unfold valueOf at made
  split at made
  any_goals rfl
  cases made

/-- Arguments that decode have all their cells. -/
theorem valuesFrom_enough {tags : List Tag} {cursor : Cursor} {values : List Value}
    (made : decoder.valuesFrom cursor tags = .ok values) :
    Signature.cellCount (.ofTags tags) ≤ cursor.remaining.length := by
  induction tags generalizing cursor values with
  | nil => exact Nat.zero_le _
  | cons tag rest ih =>
      obtain ⟨value, later, ownMade, laterMade, _⟩ :=
        valuesFrom_cons_eq_ok_iff.mp made
      have ownLength := valueOf_own ownMade
      have restEnough := ih laterMade
      rw [Cursor.own, List.length_take] at ownLength
      rw [Signature.cellCount_cons]
      simp only [Cursor.past, Cursor.advanceSlot, List.length_drop] at restEnough
      omega

theorem valuesFrom_append (first second : List Tag) (cursor : Cursor) :
    decoder.valuesFrom cursor (first ++ second) = do
      let values ← decoder.valuesFrom cursor first
      let later ← decoder.valuesFrom (cursor.passed first) second
      return values ++ later := by
  induction first generalizing cursor with
  | nil => simp [valuesFrom, Cursor.passed]
  | cons tag rest ih =>
      simp [valuesFrom, Cursor.passed, ih, bind_assoc]

theorem decodeAll_singleton (steady : decoder.memory.SteadyFrom 0) (tag : Tag)
    (cells : List Cell) :
    decoder.decodeAll (.ofTags [tag]) cells =
      (decoder.valueOf (.missingArgument 0 (cells.take tag.cells).length) tag
        (cells.take tag.cells)).map ([·]) := by
  rw [decodeAll_eq_valuesFrom steady, Signature.tags_ofTags, valuesFrom]
  simp only [Cursor.start, Cursor.shortage, Cursor.past, Cursor.own, Nat.zero_add]
  cases decoder.valueOf _ tag (cells.take tag.cells) <;> rfl

/-- A single argument is decoded from its own cells, whatever stands behind them. -/
theorem decodeAll_take (steady : decoder.memory.SteadyFrom 0) (tag : Tag)
    (cells : List Cell) :
    decoder.decodeAll (.ofTags [tag]) (cells.take tag.cells) =
      decoder.decodeAll (.ofTags [tag]) cells := by
  rw [decodeAll_singleton steady, decodeAll_singleton steady, List.take_take,
    Nat.min_self]

section Composition

variable (steady : decoder.memory.SteadyFrom 0)
variable (resolving : ∀ address, Unmoved (decoder.memory.resolve 0 address))

include steady resolving

theorem decodeAll_append (first second : List Tag) (cells : List Cell) :
    decoder.decodeAll (.ofTags (first ++ second)) cells = do
      let values ← decoder.decodeAll (.ofTags first) cells
      let later ← (decoder.decodeAll (.ofTags second)
        (cells.drop (Signature.cellCount (.ofTags first)))).mapError
          (MarshalError.shifted first.length (Signature.cellCount (.ofTags first)))
      return values ++ later := by
  simp only [decodeAll_eq_valuesFrom steady, Signature.tags_ofTags, valuesFrom_append]
  cases made : decoder.valuesFrom (Cursor.start cells) first with
  | error error => rfl
  | ok values =>
      -- No cell of the first part is missing, so the second begins right behind it.
      have enough := valuesFrom_enough made
      rw [← valuesFrom_shifted resolving, Cursor.passed_eq enough]
      simp [Cursor.start]

theorem decodeAll_concat_eq_ok_iff {init : List Tag} {last : Tag} {cells : List Cell}
    {values : List Value} :
    decoder.decodeAll (.ofTags (init ++ [last])) cells = .ok values ↔
      ∃ earlier value, decoder.decodeAll (.ofTags init) cells = .ok earlier ∧
        decoder.decodeAll (.ofTags [last]) (cells.drop (Signature.cellCount (.ofTags init))) =
          .ok [value] ∧
        values = earlier ++ [value] := by
  rw [decodeAll_append steady resolving, decodeAll_singleton steady]
  cases decoder.decodeAll (.ofTags init) cells with
  | error error => simp [bind, Except.bind]
  | ok earlier =>
      cases decoder.valueOf _ last _ with
      | error error => simp [bind, Except.bind, Except.map, Except.mapError]
      | ok value =>
          simp [bind, Except.bind, Except.map, Except.mapError, pure, Except.pure,
            eq_comm]

theorem decodeAll_concat_eq_error_iff {init : List Tag} {last : Tag}
    {cells : List Cell} {error : MarshalError} :
    decoder.decodeAll (.ofTags (init ++ [last])) cells = .error error ↔
      decoder.decodeAll (.ofTags init) cells = .error error ∨
        ∃ earlier cause, decoder.decodeAll (.ofTags init) cells = .ok earlier ∧
          decoder.decodeAll (.ofTags [last]) (cells.drop (Signature.cellCount (.ofTags init))) =
            .error cause ∧
          error = cause.shifted init.length (Signature.cellCount (.ofTags init)) := by
  rw [decodeAll_append steady resolving]
  cases decoder.decodeAll (.ofTags init) cells with
  | error error => simp [bind, Except.bind]
  | ok earlier =>
      cases decoder.decodeAll (.ofTags [last])
          (cells.drop (Signature.cellCount (.ofTags init))) with
      | error cause => simp [bind, Except.bind, Except.mapError, eq_comm]
      | ok later => simp [bind, Except.bind, Except.mapError, pure, Except.pure]

theorem decodeAll_eq_ok_iff (tags : List Tag) {cells : List Cell}
    {values : List Value} :
    decoder.decodeAll (.ofTags tags) cells = .ok values ↔
      values.length = tags.length ∧
        ∀ slot tag, tags[slot]? = some tag →
          ∃ value, values[slot]? = some value ∧
            decoder.decodeAll (.ofTags [tag]) (Signature.own (.ofTags tags) slot tag cells) =
              .ok [value] := by
  -- From the right, as the cells of an argument depend on the tags before it.
  induction tags using List.reverseRecOn generalizing values with
  | nil =>
      have decoded : decoder.decodeAll (.ofTags []) cells = .ok [] := rfl
      rw [decoded]
      constructor
      · intro made
        cases made
        exact ⟨rfl, fun slot tag found => by cases found⟩
      · rintro ⟨sameLength, _⟩
        rw [List.length_eq_zero_iff.mp sameLength]
  | append_singleton init last ih =>
      rw [decodeAll_concat_eq_ok_iff steady resolving]
      constructor
      · rintro ⟨earlier, value, initMade, lastMade, rfl⟩
        obtain ⟨sameLength, initSlots⟩ := ih.mp initMade
        refine ⟨by simpa using sameLength, ?_⟩
        intro slot tag found
        by_cases inside : slot < init.length
        · rw [List.getElem?_append_left inside] at found
          obtain ⟨own, ownFound, ownMade⟩ := initSlots slot tag found
          refine ⟨own, ?_, ?_⟩
          · rw [List.getElem?_append_left (by rw [sameLength]; exact inside), ownFound]
          · rw [Signature.own_inside inside, ownMade]
        · obtain ⟨rfl, rfl⟩ := getElem?_concat_last inside found
          refine ⟨value, ?_, ?_⟩
          · have atEnd : init.length = earlier.length := sameLength.symm
            rw [atEnd, List.getElem?_concat_length]
          · rw [Signature.own_last, decodeAll_take steady, lastMade]
      · rintro ⟨sameLength, slots⟩
        obtain ⟨value, found, lastMade⟩ :=
          slots init.length last List.getElem?_concat_length
        rw [Signature.own_last, decodeAll_take steady] at lastMade
        have split : values = values.take init.length ++ [value] := by
          apply eq_take_concat found
          simpa using sameLength
        refine ⟨values.take init.length, value, ih.mpr ⟨?_, ?_⟩, lastMade, split⟩
        · simp [sameLength]
        · intro slot tag tagFound
          have inside : slot < init.length := (List.getElem?_eq_some_iff.mp tagFound).1
          obtain ⟨own, ownFound, ownMade⟩ := slots slot tag
            (by rw [List.getElem?_append_left inside, tagFound])
          rw [Signature.own_inside inside] at ownMade
          refine ⟨own, ?_, ownMade⟩
          rw [List.getElem?_take_of_lt inside, ownFound]

theorem decodeAll_eq_error_iff (tags : List Tag) {cells : List Cell}
    {error : MarshalError} :
    decoder.decodeAll (.ofTags tags) cells = .error error ↔
      ∃ slot tag earlier cause, tags[slot]? = some tag ∧
        decoder.decodeAll (.ofTags (tags.take slot)) cells = .ok earlier ∧
        decoder.decodeAll (.ofTags [tag]) (Signature.own (.ofTags tags) slot tag cells) =
          .error cause ∧
        error = cause.shifted slot (Signature.cellCount (.ofTags (tags.take slot))) := by
  induction tags using List.reverseRecOn with
  | nil =>
      constructor
      · intro failed
        cases failed
      · rintro ⟨slot, tag, earlier, cause, found, _⟩
        cases found
  | append_singleton init last ih =>
      rw [decodeAll_concat_eq_error_iff steady resolving, ih]
      constructor
      · rintro (⟨slot, tag, earlier, cause, found, made, failed, same⟩ |
          ⟨earlier, cause, made, failed, same⟩)
        · have inside : slot < init.length := (List.getElem?_eq_some_iff.mp found).1
          have sameTake : (init ++ [last]).take slot = init.take slot :=
            List.take_append_of_le_length (Nat.le_of_lt inside)
          refine ⟨slot, tag, earlier, cause, ?_, ?_, ?_, ?_⟩
          · rw [List.getElem?_append_left inside, found]
          · rw [sameTake, made]
          · rw [Signature.own_inside inside, failed]
          · rw [sameTake, same]
        · refine ⟨init.length, last, earlier, cause, List.getElem?_concat_length, ?_, ?_, ?_⟩
          · rw [List.take_left, made]
          · rw [Signature.own_last, decodeAll_take steady, failed]
          · rw [List.take_left, same]
      · rintro ⟨slot, tag, earlier, cause, found, made, failed, same⟩
        by_cases inside : slot < init.length
        · left
          have sameTake : (init ++ [last]).take slot = init.take slot :=
            List.take_append_of_le_length (Nat.le_of_lt inside)
          rw [List.getElem?_append_left inside] at found
          rw [Signature.own_inside inside] at failed
          rw [sameTake] at made same
          exact ⟨slot, tag, earlier, cause, found, made, failed, same⟩
        · right
          obtain ⟨rfl, rfl⟩ := getElem?_concat_last inside found
          rw [List.take_left] at made same
          rw [Signature.own_last, decodeAll_take steady] at failed
          exact ⟨earlier, cause, made, failed, same⟩

end Composition

end Decoder

/-- A signature is decoded part by part, if addresses are all that the memory
refuses.  What fails in the first part fails in the whole; behind arguments that
decode, the second part goes as it would alone on the cells left over, but for the
places that a shortage names.  So every argument is decoded from its own cells,
an array moves those behind it by one cell more, and of the arguments that cannot
be decoded the first decides the error. -/
theorem decodeAll_compositional {resolve : Cell → Except MarshalError (List Cell)}
    (refusing : ∀ address error, resolve address = .error error →
      ∃ refused, error = .invalidAddress refused)
    (passing : Passing) (limits : Limits) (cells : List Cell) :
    let decoder : Decoder := ⟨Memory.fixed resolve, passing, limits⟩
    (∀ first second : Signature,
      let whole : Signature := .ofTags (first.tags ++ second.tags)
      (∀ error, decoder.decodeAll first cells = .error error →
        decoder.decodeAll whole cells = .error error) ∧
      ∀ values, decoder.decodeAll first cells = .ok values →
        decoder.decodeAll whole cells =
          match decoder.decodeAll second (cells.drop first.cellCount) with
          | .ok later => .ok (values ++ later)
          | .error error => .error (error.shifted first.length first.cellCount)) ∧
    ∀ signature : Signature,
      (∀ values, decoder.decodeAll signature cells = .ok values ↔
        values.length = signature.length ∧
          ∀ slot tag, signature.tags[slot]? = some tag →
            ∃ value, values[slot]? = some value ∧
              decoder.decodeAll (.ofTags [tag]) (signature.own slot tag cells) =
                .ok [value]) ∧
      (∀ error, decoder.decodeAll signature cells = .error error ↔
        ∃ slot tag earlier cause, signature.tags[slot]? = some tag ∧
          decoder.decodeAll (.ofTags (signature.tags.take slot)) cells = .ok earlier ∧
          decoder.decodeAll (.ofTags [tag]) (signature.own slot tag cells) =
            .error cause ∧
          error = cause.shifted slot
            (Signature.cellCount (.ofTags (signature.tags.take slot)))) ∧
      signature.cellCount = signature.length + signature.tags.count .intArray +
        signature.tags.count .floatArray := by
  intro decoder
  have steady : decoder.memory.SteadyFrom 0 := Memory.steadyFrom_fixed resolve 0
  have resolving : ∀ address, Unmoved (decoder.memory.resolve 0 address) := by
    intro address slots taken
    change (resolve address).mapError _ = resolve address
    cases resolved : resolve address with
    | ok found => rfl
    | error error =>
        obtain ⟨refused, rfl⟩ := refusing address error resolved
        rfl
  constructor
  · intro first second whole
    have composed : decoder.decodeAll whole cells = (do
        let values ← decoder.decodeAll first cells
        let later ← (decoder.decodeAll second (cells.drop first.cellCount)).mapError
          (MarshalError.shifted first.length first.cellCount)
        return values ++ later) :=
      Decoder.decodeAll_append steady resolving first.tags second.tags cells
    constructor
    · intro error failed
      rw [composed, failed]
      rfl
    · intro values made
      rw [composed, made]
      cases decoder.decodeAll second (cells.drop first.cellCount) <;> rfl
  · intro signature
    exact ⟨fun values => Decoder.decodeAll_eq_ok_iff steady resolving signature.tags,
      fun error => Decoder.decodeAll_eq_error_iff steady resolving signature.tags,
      Signature.cellCount_eq signature.tags⟩

/-- Behind an array, which has two cells, a number decodes and another one lacks
its cell. -/
theorem decodeAll_compositional_behind_an_array :
    let segment : Segment := ⟨[5, 6]⟩
    let decoder : Decoder := ⟨segment.memory, .byValue, {}⟩
    (∀ address error, segment.resolve address = .error error →
      ∃ refused, error = .invalidAddress refused) ∧
      decoder.decodeAll (.ofTags [.intArray]) [0, 2, 7] = .ok [.list [.int 5, .int 6]] ∧
      decoder.decodeAll (.ofTags [.int, .int]) [7] = .error (.missingArgument 1 1) ∧
      decoder.decodeAll (.ofTags [.intArray, .int, .int]) [0, 2, 7] =
        .error (.missingArgument 2 3) := by
  intro segment decoder
  have refusing : ∀ address error, segment.resolve address = .error error →
      ∃ refused, error = .invalidAddress refused := by
    intro address error refused
    rw [Segment.resolve] at refused
    split at refused
    · cases refused
    · cases refused
      exact ⟨address, rfl⟩
  have array : decoder.decodeAll (.ofTags [.intArray]) [0, 2, 7] =
      .ok [.list [.int 5, .int 6]] := rfl
  have short : decoder.decodeAll (.ofTags [.int, .int]) [7] =
      .error (.missingArgument 1 1) := rfl
  have parts := (decodeAll_compositional refusing .byValue {} [0, 2, 7]).1
    (.ofTags [.intArray]) (.ofTags [.int, .int])
  exact ⟨refusing, array, short, parts.2 _ array⟩

end CellBus
