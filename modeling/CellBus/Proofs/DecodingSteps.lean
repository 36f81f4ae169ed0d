import CellBus.Decoder

/-!
# Evaluating decoding

Equations for the steps of decoding.  Over a memory whose answers do not change
any more no step depends on how many questions were asked before, so decoding
gives the same result whenever it is done.
-/

namespace CellBus

variable {α β : Type}

/-- After some questions were asked, the answers do not change any more. -/
def Memory.SteadyFrom (start : Nat) (memory : Memory) : Prop :=
  ∀ later, start ≤ later → memory.resolve later = memory.resolve start

theorem Memory.steadyFrom_fixed (resolve : Cell → Except MarshalError (List Cell))
    (start : Nat) : (Memory.fixed resolve).SteadyFrom start :=
  fun _ _ => rfl

namespace Decoding

/-- What a step gives, and where it leaves the reading. -/
def outcome (step : Decoding α) (reading : Reading) :
    Except MarshalError α × Reading :=
  step.run.run reading

theorem outcome_bind (first : Decoding α) (next : α → Decoding β)
    (reading : Reading) :
    outcome (first >>= next) reading =
      match outcome first reading with
      | (.ok value, middle) => outcome (next value) middle
      | (.error error, middle) => (.error error, middle) := by
  change (match first.run.run reading with
    | (result, middle) => StateT.run (ExceptT.bindCont next result) middle) = _
  unfold outcome
  rcases first.run.run reading with ⟨_ | _, _⟩ <;> rfl

theorem outcome_get (reading : Reading) :
    outcome (get : Decoding Reading) reading = (.ok reading, reading) := rfl

theorem outcome_set (next reading : Reading) :
    outcome (set next : Decoding PUnit) reading = (.ok ⟨⟩, next) := rfl

theorem outcome_take (reading : Reading) :
    outcome take reading =
      match reading.cursor.take with
      | .ok (cell, cursor) => (.ok cell, { reading with cursor })
      | .error error => (.error error, reading) := by
  rw [take, outcome_bind, outcome_get]
  dsimp only
  cases reading.cursor.take <;> rfl

theorem outcome_ask (question : Nat → Except MarshalError α) (reading : Reading) :
    outcome (ask question) reading =
      (question reading.asked, { reading with asked := reading.asked + 1 }) := by
  rw [ask, outcome_bind, outcome_get]
  dsimp only
  rw [outcome_bind, outcome_set]
  dsimp only
  cases question reading.asked <;> rfl

/-- Wherever the count of questions has reached `start`, it stays so, and what a
step gives and where it leaves the cursor do not depend on the count. -/
structure Steady (start : Nat) (step : Decoding α) : Prop where
  result : ∀ cursor asked other, start ≤ asked → start ≤ other →
    (outcome step ⟨cursor, asked⟩).1 = (outcome step ⟨cursor, other⟩).1
  cursor : ∀ cursor asked other, start ≤ asked → start ≤ other →
    (outcome step ⟨cursor, asked⟩).2.cursor =
      (outcome step ⟨cursor, other⟩).2.cursor
  asked : ∀ cursor asked, start ≤ asked →
    start ≤ (outcome step ⟨cursor, asked⟩).2.asked

variable {start : Nat}

theorem steady_pure (value : α) : Steady start (pure value) :=
  ⟨fun _ _ _ _ _ => rfl, fun _ _ _ _ _ => rfl, fun _ _ reached => reached⟩

theorem steady_throw (error : MarshalError) :
    Steady start (throw error : Decoding α) :=
  ⟨fun _ _ _ _ _ => rfl, fun _ _ _ _ _ => rfl, fun _ _ reached => reached⟩

theorem steady_advanceSlot : Steady start advanceSlot :=
  ⟨fun _ _ _ _ _ => rfl, fun _ _ _ _ _ => rfl, fun _ _ reached => reached⟩

theorem steady_take : Steady start take := by
  constructor
  · intro cursor asked other _ _
    rw [outcome_take, outcome_take]
    cases cursor.take <;> rfl
  · intro cursor asked other _ _
    rw [outcome_take, outcome_take]
    cases cursor.take <;> rfl
  · intro cursor asked reached
    rw [outcome_take]
    cases cursor.take <;> exact reached

theorem steady_ask {question : Nat → Except MarshalError α}
    (constant : ∀ later, start ≤ later → question later = question start) :
    Steady start (ask question) := by
  constructor
  · intro cursor asked other askedReached otherReached
    rw [outcome_ask, outcome_ask]
    exact (constant asked askedReached).trans (constant other otherReached).symm
  · intro cursor asked other _ _
    rw [outcome_ask, outcome_ask]
  · intro cursor asked reached
    rw [outcome_ask]
    exact Nat.le_succ_of_le reached

theorem Steady.bind {first : Decoding α} {next : α → Decoding β}
    (firstSteady : Steady start first)
    (nextSteady : ∀ value, Steady start (next value)) :
    Steady start (first >>= next) := by
  have both : ∀ cursor asked other, start ≤ asked → start ≤ other →
      (outcome (first >>= next) ⟨cursor, asked⟩).1 =
          (outcome (first >>= next) ⟨cursor, other⟩).1 ∧
        (outcome (first >>= next) ⟨cursor, asked⟩).2.cursor =
          (outcome (first >>= next) ⟨cursor, other⟩).2.cursor ∧
        start ≤ (outcome (first >>= next) ⟨cursor, asked⟩).2.asked := by
    intro cursor asked other askedReached otherReached
    have sameResult := firstSteady.result cursor asked other askedReached otherReached
    have sameCursor := firstSteady.cursor cursor asked other askedReached otherReached
    have leftReached := firstSteady.asked cursor asked askedReached
    have rightReached := firstSteady.asked cursor other otherReached
    rw [outcome_bind, outcome_bind]
    generalize outcome first ⟨cursor, asked⟩ = left at *
    generalize outcome first ⟨cursor, other⟩ = right at *
    obtain ⟨leftResult, leftCursor, leftAsked⟩ := left
    obtain ⟨rightResult, rightCursor, rightAsked⟩ := right
    cases sameResult
    cases sameCursor
    cases leftResult with
    | error error => exact ⟨rfl, rfl, leftReached⟩
    | ok value =>
        have steady := nextSteady value
        exact ⟨steady.result _ _ _ leftReached rightReached,
          steady.cursor _ _ _ leftReached rightReached, steady.asked _ _ leftReached⟩
  constructor
  · intro cursor asked other askedReached otherReached
    exact (both cursor asked other askedReached otherReached).1
  · intro cursor asked other askedReached otherReached
    exact (both cursor asked other askedReached otherReached).2.1
  · intro cursor asked reached
    exact (both cursor asked asked reached reached).2.2

end Decoding

namespace Decoder

open Decoding

variable {decoder : Decoder} {start : Nat}

theorem steady_scalar (steady : decoder.memory.SteadyFrom start) :
    Steady start decoder.scalar := by
  apply steady_take.bind
  intro raw
  split
  · exact steady_pure raw
  · apply steady_ask
    intro later reached
    rw [Memory.deref, Memory.deref, steady later reached]

theorem steady_text (steady : decoder.memory.SteadyFrom start) :
    Steady start decoder.text := by
  apply steady_take.bind
  intro address
  have asks : Steady start (ask fun asked =>
      decoder.memory.readText asked address decoder.limits.textLength) := by
    apply steady_ask
    intro later reached
    rw [Memory.readText, Memory.readText, steady later reached]
  apply asks.bind
  intro bytes
  split
  · split
    · exact steady_pure _
    · exact steady_throw _
  · exact steady_pure _

theorem steady_array (steady : decoder.memory.SteadyFrom start) :
    Steady start decoder.array := by
  apply steady_take.bind
  intro base
  apply (steady_scalar steady).bind
  intro count
  have reads : Steady start (ask fun asked =>
      decoder.memory.readArray asked base count.toInt.toNat) := by
    apply steady_ask
    intro later reached
    rw [Memory.readArray, Memory.readArray, steady later reached]
  have bounded : Steady start (do
      if decoder.limits.arrayLength < count.toInt.toNat then
        throw (.arrayTooLong count.toInt.toNat decoder.limits.arrayLength)
      ask fun asked => decoder.memory.readArray asked base count.toInt.toNat) := by
    dsimp only
    split
    · exact (steady_throw _).bind fun _ => reads
    · exact reads
  split
  · exact (steady_throw _).bind fun _ => bounded
  · exact bounded

theorem steady_argument (steady : decoder.memory.SteadyFrom start) (tag : Tag) :
    Steady start (decoder.argument tag) := by
  cases tag with
  | text => exact (steady_text steady).bind fun _ => steady_pure _
  | int => exact (steady_scalar steady).bind fun _ => steady_pure _
  | uint => exact (steady_scalar steady).bind fun _ => steady_pure _
  | float => exact (steady_scalar steady).bind fun _ => steady_pure _
  | intArray => exact (steady_array steady).bind fun _ => steady_pure _
  | floatArray => exact (steady_array steady).bind fun _ => steady_pure _

theorem steady_arguments (steady : decoder.memory.SteadyFrom start)
    (tags : List Tag) : Steady start (decoder.arguments tags) := by
  induction tags with
  | nil => exact steady_pure []
  | cons tag rest ih =>
      apply (steady_argument steady tag).bind
      intro value
      apply steady_advanceSlot.bind
      intro _
      apply ih.bind
      intro values
      exact steady_pure _

/-- Decoding again gives the same. -/
theorem decodeFrom_steady (steady : decoder.memory.SteadyFrom start) {asked : Nat}
    (reached : start ≤ asked) (signature : Signature) (cells : List Cell) :
    (decoder.decodeFrom asked signature cells).1 =
        (decoder.decodeFrom start signature cells).1 ∧
      start ≤ (decoder.decodeFrom asked signature cells).2 := by
  have decoding := steady_arguments steady signature.tags
  exact ⟨decoding.result _ asked start reached (Nat.le_refl start),
    decoding.asked _ asked reached⟩

end Decoder

end CellBus
