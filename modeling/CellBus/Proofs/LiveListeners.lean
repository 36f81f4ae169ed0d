import CellBus.Proofs.AppendOrder
import CellBus.Proofs.TurnReports

/-!
# Which listeners a dispatch calls

A dispatch goes through the listeners that the event has at its start.  Each is
called exactly when its turn comes, it is still in the event's list and its
arguments can be built, whatever the listeners before it did.
-/

namespace CellBus

variable {σ : Type}

namespace Course

variable {caller : Caller σ} {supply : Supply} {name : String}
variable {before listeners rest : List Listener} {listener : Listener}
variable {asked after : Nat} {world state left : World σ}
variable {turns earlier : List Turn}

theorem not_refused
    (course : Course caller supply name listeners asked world turns after state) :
    ∀ turn ∈ turns, turn.refusal? = none := by
  induction course with
  | nil => simp
  | skipped _ _ ih => simpa [Turn.refusal?] using ih
  | called _ _ _ _ ih => simpa [Turn.refusal?] using ih

/-- What becomes of a listener is decided by the world in which its turn comes. -/
theorem turn_taken
    (course : Course caller supply name before asked world earlier after state)
    (taken : (Running.takeTurns caller supply name (before ++ listener :: rest)
      asked).run world = some (turns, left)) :
    turns.take before.length = earlier ∧
      ((state.bus.holds name listener = false ∧
          turns[before.length]? = some (.skipped listener)) ∨
        (state.bus.holds name listener = true ∧
          ∃ arguments next outcome, supply after = (.ok arguments, next) ∧
            turns[before.length]? = some (.called listener arguments outcome)) ∨
        (state.bus.holds name listener = true ∧
          ∃ error next, supply after = (.error error, next) ∧
            turns[before.length]? = some (.refused listener error))) := by
  rw [course.takeTurns_append, Option.map_eq_some_iff] at taken
  obtain ⟨⟨later, final⟩, laterTaken, equality⟩ := taken
  cases equality
  rw [← course.turns_length]
  refine ⟨List.take_left, ?_⟩
  rw [List.getElem?_append_right (Nat.le_refl _), Nat.sub_self]
  cases live : state.bus.holds name listener with
  | false =>
      rw [Running.takeTurns_skipped caller live, Option.map_eq_some_iff]
        at laterTaken
      obtain ⟨_, _, equality⟩ := laterTaken
      cases equality
      exact .inl ⟨rfl, rfl⟩
  | true =>
      rcases built : supply after with ⟨error | arguments, next⟩
      · rw [Running.takeTurns_refused caller live built] at laterTaken
        cases laterTaken
        exact .inr (.inr ⟨rfl, error, next, rfl, rfl⟩)
      · rw [Running.takeTurns_called caller live built, Option.bind_eq_some_iff]
          at laterTaken
        obtain ⟨⟨outcome, _⟩, _, laterTaken⟩ := laterTaken
        rw [Option.map_eq_some_iff] at laterTaken
        obtain ⟨_, _, equality⟩ := laterTaken
        cases equality
        exact .inr (.inl ⟨rfl, arguments, next, outcome, rfl, rfl⟩)

end Course

namespace Running

variable {caller : Caller σ} {supply : Supply} {name : String}
variable {before listeners rest : List Listener} {listener : Listener}
variable {asked : Nat} {world left : World σ} {turns : List Turn}

/-- Either all listeners before a place have had their turns, or one of them was
refused its arguments and there is no turn at that place. -/
theorem course_or_refused
    (taken : (takeTurns caller supply name (before ++ rest) asked).run world =
      some (turns, left)) :
    (∃ earlier after state,
        Course caller supply name before asked world earlier after state) ∨
      (turns.length ≤ before.length ∧
        ∃ turn ∈ turns.take before.length, turn.refusal? ≠ none) := by
  rcases takeTurns_eq_some_iff.mp taken with ⟨after, course⟩ | refusal
  · obtain ⟨earlier, _, middle, state, first, _, _⟩ := course.split
    exact .inl ⟨earlier, middle, state, first⟩
  · obtain ⟨split, course, live, refused⟩ := refusal
    rename_i early later refusedListener earlier after next state error
    -- Whether the place is reached depends on where the refused listener stands.
    rcases Nat.lt_or_ge early.length before.length with beyond | within
    · have count : (earlier ++ [Turn.refused refusedListener error]).length ≤
          before.length := by
        rw [List.length_append, course.turns_length, List.length_singleton]
        exact beyond
      refine .inr ⟨count, .refused refusedListener error, ?_, ?_⟩
      · rw [List.take_of_length_le count]
        exact List.mem_append_right _ (List.mem_singleton_self _)
      · simp [Turn.refusal?]
    · have isInitial : before <+: early := by
        apply List.prefix_of_prefix_length_le (List.prefix_append before rest)
        · rw [split]
          exact List.prefix_append early _
        · exact within
      obtain ⟨between, rfl⟩ := isInitial
      obtain ⟨first, _, middle, found, firstCourse, _, _⟩ := course.split
      exact .inl ⟨first, middle, found, firstCourse⟩

/-- The turns that are taken are those of the first listeners, and of all of
them unless one is refused its arguments. -/
theorem turns_listener
    (taken : (takeTurns caller supply name listeners asked).run world =
      some (turns, left)) :
    turns.map Turn.listener <+: listeners ∧
      (turns.filterMap Turn.refusal? = [] →
        turns.map Turn.listener = listeners) := by
  rcases takeTurns_eq_some_iff.mp taken with ⟨after, course⟩ | refusal
  · rw [course.turns_listener]
    exact ⟨List.prefix_refl _, fun _ => rfl⟩
  · obtain ⟨split, course, _, _⟩ := refusal
    constructor
    · rw [List.map_append, course.turns_listener, split]
      refine (List.prefix_append_right_inj _).mpr ?_
      exact (List.prefix_cons_inj _).mpr List.nil_prefix
    · intro complete
      simp [Turn.refusal?] at complete

theorem called_sublist (turns : List Turn) :
    ((turns.filterMap Turn.call?).map Prod.fst).Sublist
      (turns.map Turn.listener) := by
  induction turns with
  | nil => exact List.Sublist.refl []
  | cons turn turns ih =>
      cases turn with
      | skipped listener => exact ih.cons listener
      | called listener arguments outcome => exact ih.cons_cons listener
      | refused listener error => exact ih.cons listener

/-- A listener is called exactly when its turn comes, it is still in the event's
list then, and its arguments can be built. -/
theorem called_iff
    (taken : (takeTurns caller supply name (before ++ listener :: rest) asked).run
      world = some (turns, left)) :
    (∃ arguments outcome,
        turns[before.length]? = some (.called listener arguments outcome)) ↔
      ∃ earlier after state arguments next,
        Course caller supply name before asked world earlier after state ∧
          state.bus.holds name listener = true ∧
          supply after = (.ok arguments, next) := by
  constructor
  · rintro ⟨arguments, outcome, called⟩
    rcases course_or_refused taken with ⟨earlier, after, state, course⟩ | ⟨short, _⟩
    · rcases (course.turn_taken taken).2 with
        ⟨_, skipped⟩ | ⟨live, found, next, _, built, _⟩ | ⟨_, _, _, _, refused⟩
      · rw [called] at skipped
        cases skipped
      · exact ⟨earlier, after, state, found, next, course, live, built⟩
      · rw [called] at refused
        cases refused
    · rw [List.getElem?_eq_none short] at called
      cases called
  · rintro ⟨earlier, after, state, arguments, next, course, live, built⟩
    rcases (course.turn_taken taken).2 with
      ⟨gone, _⟩ | ⟨_, found, _, outcome, _, called⟩ | ⟨_, _, _, refused, _⟩
    · rw [live] at gone
      cases gone
    · exact ⟨found, outcome, called⟩
    · rw [built] at refused
      cases refused

/-- A listener is skipped exactly when its turn comes and it is no longer in the
event's list then. -/
theorem skipped_iff
    (taken : (takeTurns caller supply name (before ++ listener :: rest) asked).run
      world = some (turns, left)) :
    turns[before.length]? = some (.skipped listener) ↔
      ∃ earlier after state,
        Course caller supply name before asked world earlier after state ∧
          state.bus.holds name listener = false := by
  constructor
  · intro skipped
    rcases course_or_refused taken with ⟨earlier, after, state, course⟩ | ⟨short, _⟩
    · rcases (course.turn_taken taken).2 with
        ⟨gone, _⟩ | ⟨_, _, _, _, _, called⟩ | ⟨_, _, _, _, refused⟩
      · exact ⟨earlier, after, state, course, gone⟩
      · rw [skipped] at called
        cases called
      · rw [skipped] at refused
        cases refused
    · rw [List.getElem?_eq_none short] at skipped
      cases skipped
  · rintro ⟨earlier, after, state, course, gone⟩
    rcases (course.turn_taken taken).2 with
      ⟨_, skipped⟩ | ⟨live, _⟩ | ⟨live, _⟩
    · exact skipped
    · rw [gone] at live
      cases live
    · rw [gone] at live
      cases live

/-- The turn of a listener comes exactly when no listener before it was refused
its arguments. -/
theorem comes_iff
    (taken : (takeTurns caller supply name (before ++ listener :: rest) asked).run
      world = some (turns, left)) :
    (∃ earlier after state,
        Course caller supply name before asked world earlier after state) ↔
      ∀ turn ∈ turns.take before.length, turn.refusal? = none := by
  constructor
  · rintro ⟨earlier, after, state, course⟩
    rw [(course.turn_taken taken).1]
    exact course.not_refused
  · intro unrefused
    rcases course_or_refused taken with course | ⟨_, turn, member, refused⟩
    · exact course
    · exact (refused (unrefused turn member)).elim

end Running

open Running

end CellBus
