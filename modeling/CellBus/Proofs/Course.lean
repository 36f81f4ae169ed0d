import CellBus.Proofs.Running

/-!
# The course of a dispatch

`Course` relates the listeners that have had their turns, none of them refused
its arguments, to the turns they took and to the world that the next turn finds.
`Refusal` is a course that ends in a turn for which no arguments could be built.
The turns of a dispatch are one or the other, and a dispatch gives no answer
exactly when a listener that it calls gives none.
-/

namespace CellBus

variable {σ : Type}

/-- The listener whose turn it was. -/
def Turn.listener : Turn → Listener
  | .skipped listener | .called listener .. | .refused listener _ => listener

/-- The listeners of a list have had their turns one after the other.  After the
turns come the number of questions that the memory was asked by then and the
world in which the next turn comes. -/
inductive Course (caller : Caller σ) (supply : Supply) (name : String) :
    List Listener → Nat → World σ → List Turn → Nat → World σ → Prop where
  | nil (asked : Nat) (world : World σ) :
      Course caller supply name [] asked world [] asked world
  | skipped {listener : Listener} {rest : List Listener} {asked after : Nat}
      {world state : World σ} {turns : List Turn} :
      world.bus.holds name listener = false →
      Course caller supply name rest asked
        (world.noted (.listenerSkipped name listener)) turns after state →
      Course caller supply name (listener :: rest) asked world
        (.skipped listener :: turns) after state
  | called {listener : Listener} {rest : List Listener} {asked next after : Nat}
      {world middle state : World σ} {turns : List Turn}
      {arguments : List Argument} {outcome : Except Fault Value} :
      world.bus.holds name listener = true →
      supply asked = (.ok arguments, next) →
      (Running.call caller name listener arguments).run world =
        some (outcome, middle) →
      Course caller supply name rest next middle turns after state →
      Course caller supply name (listener :: rest) asked world
        (.called listener arguments outcome :: turns) after state

/-- A listener that is still in the event's list is refused its arguments, so it
is not called and no later listener has a turn. -/
inductive Refusal (caller : Caller σ) (supply : Supply) (name : String)
    (listeners : List Listener) (asked : Nat) (world : World σ) :
    List Turn → World σ → Prop where
  | intro {before rest : List Listener} {listener : Listener}
      {earlier : List Turn} {after next : Nat} {state : World σ}
      {error : MarshalError} :
      listeners = before ++ listener :: rest →
      Course caller supply name before asked world earlier after state →
      state.bus.holds name listener = true →
      supply after = (.error error, next) →
      Refusal caller supply name listeners asked world
        (earlier ++ [.refused listener error])
        (state.noted (.argumentsRefused name error))

namespace Course

variable {caller : Caller σ} {supply : Supply} {name : String}
variable {before rest listeners : List Listener} {listener : Listener}
variable {asked after : Nat} {world state final : World σ}
variable {turns earlier : List Turn}

theorem turns_listener
    (course : Course caller supply name listeners asked world turns after state) :
    turns.map Turn.listener = listeners := by
  induction course with
  | nil => rfl
  | skipped _ _ ih => simp [Turn.listener, ih]
  | called _ _ _ _ ih => simp [Turn.listener, ih]

theorem turns_length
    (course : Course caller supply name listeners asked world turns after state) :
    turns.length = listeners.length := by
  rw [← course.turns_listener, List.length_map]

/-- After a course the remaining listeners take their turns from where it
stands. -/
theorem takeTurns_append
    (course : Course caller supply name before asked world earlier after state)
    (rest : List Listener) :
    (Running.takeTurns caller supply name (before ++ rest) asked).run world =
      ((Running.takeTurns caller supply name rest after).run state).map
        fun result => (earlier ++ result.1, result.2) := by
  induction course with
  | nil => simp
  | skipped gone _ ih =>
      rw [List.cons_append, Running.takeTurns_skipped caller gone, ih,
        Option.map_map]
      rfl
  | called live built answered _ ih =>
      rw [List.cons_append, Running.takeTurns_called caller live built, answered,
        Option.bind_some, ih, Option.map_map]
      rfl

theorem takeTurns
    (course : Course caller supply name listeners asked world turns after state) :
    (Running.takeTurns caller supply name listeners asked).run world =
      some (turns, state) := by
  have whole := course.takeTurns_append []
  simpa [Running.takeTurns_nil] using whole

/-- A course over two lists is a course over the first and one over the second
from where the first stands. -/
theorem split
    (course : Course caller supply name (before ++ rest) asked world turns after
      state) :
    ∃ earlier later middle found,
      Course caller supply name before asked world earlier middle found ∧
        Course caller supply name rest middle found later after state ∧
        turns = earlier ++ later := by
  induction before generalizing asked world turns with
  | nil => exact ⟨[], turns, asked, world, .nil asked world, course, rfl⟩
  | cons listener before ih =>
      cases course with
      | skipped gone tail =>
          obtain ⟨earlier, later, middle, found, first, second, equality⟩ := ih tail
          exact ⟨.skipped listener :: earlier, later, middle, found,
            .skipped gone first, second, by simp [equality]⟩
      | called live built answered tail =>
          obtain ⟨earlier, later, middle, found, first, second, equality⟩ := ih tail
          exact ⟨.called listener _ _ :: earlier, later, middle, found,
            .called live built answered first, second, by simp [equality]⟩

/-- The world and the listeners decide how a course goes. -/
theorem unique {otherTurns : List Turn} {otherAfter : Nat} {otherState : World σ}
    (course : Course caller supply name listeners asked world turns after state)
    (other : Course caller supply name listeners asked world otherTurns otherAfter
      otherState) :
    otherTurns = turns ∧ otherAfter = after ∧ otherState = state := by
  induction course generalizing otherTurns with
  | nil =>
      cases other
      exact ⟨rfl, rfl, rfl⟩
  | skipped gone _ ih =>
      cases other with
      | skipped _ tail =>
          obtain ⟨rfl, rfl, rfl⟩ := ih tail
          exact ⟨rfl, rfl, rfl⟩
      | called live => simp [gone] at live
  | called live built answered _ ih =>
      cases other with
      | skipped gone => simp [live] at gone
      | called _ builtToo answeredToo tail =>
          rw [built] at builtToo
          cases builtToo
          rw [answered] at answeredToo
          cases answeredToo
          obtain ⟨rfl, rfl, rfl⟩ := ih tail
          exact ⟨rfl, rfl, rfl⟩

end Course

namespace Refusal

variable {caller : Caller σ} {supply : Supply} {name : String}
variable {listeners rest : List Listener} {listener : Listener}
variable {asked : Nat} {world middle final : World σ} {turns : List Turn}

theorem takeTurns
    (refusal : Refusal caller supply name listeners asked world turns final) :
    (Running.takeTurns caller supply name listeners asked).run world =
      some (turns, final) := by
  obtain ⟨split, course, live, refused⟩ := refusal
  rw [split, course.takeTurns_append,
    Running.takeTurns_refused caller live refused]
  rfl

theorem skipped (gone : world.bus.holds name listener = false)
    (refusal : Refusal caller supply name rest asked
      (world.noted (.listenerSkipped name listener)) turns final) :
    Refusal caller supply name (listener :: rest) asked world
      (.skipped listener :: turns) final := by
  obtain ⟨split, course, live, refused⟩ := refusal
  subst split
  exact .intro (List.cons_append.symm) (.skipped gone course) live refused

theorem called {arguments : List Argument} {next : Nat}
    {outcome : Except Fault Value}
    (live : world.bus.holds name listener = true)
    (built : supply asked = (.ok arguments, next))
    (answered : (Running.call caller name listener arguments).run world =
      some (outcome, middle))
    (refusal : Refusal caller supply name rest next middle turns final) :
    Refusal caller supply name (listener :: rest) asked world
      (.called listener arguments outcome :: turns) final := by
  obtain ⟨split, course, liveToo, refused⟩ := refusal
  subst split
  exact .intro (List.cons_append.symm) (.called live built answered course)
    liveToo refused

end Refusal

namespace Running

variable {caller : Caller σ} {supply : Supply} {name : String}

/-- The turns that are taken are a course over all listeners, or one that ends
in a refusal. -/
theorem takeTurns_eq_some_iff
    {listeners : List Listener} {asked : Nat} {world final : World σ}
    {turns : List Turn} :
    (takeTurns caller supply name listeners asked).run world =
        some (turns, final) ↔
      (∃ after, Course caller supply name listeners asked world turns after final) ∨
        Refusal caller supply name listeners asked world turns final := by
  constructor
  · intro taken
    induction listeners generalizing asked world turns with
    | nil =>
        rw [takeTurns_nil] at taken
        cases taken
        exact .inl ⟨asked, .nil asked _⟩
    | cons listener rest ih =>
        cases live : world.bus.holds name listener with
        | false =>
            rw [takeTurns_skipped caller live, Option.map_eq_some_iff] at taken
            obtain ⟨⟨later, state⟩, laterTaken, equality⟩ := taken
            cases equality
            rcases ih laterTaken with ⟨after, course⟩ | refusal
            · exact .inl ⟨after, .skipped live course⟩
            · exact .inr (refusal.skipped live)
        | true =>
            rcases built : supply asked with ⟨error | arguments, next⟩
            · rw [takeTurns_refused caller live built] at taken
              cases taken
              exact .inr (.intro (List.nil_append (listener :: rest)).symm
                (.nil asked world) live built)
            · rw [takeTurns_called caller live built,
                Option.bind_eq_some_iff] at taken
              obtain ⟨⟨outcome, middle⟩, answered, taken⟩ := taken
              rw [Option.map_eq_some_iff] at taken
              obtain ⟨⟨later, state⟩, laterTaken, equality⟩ := taken
              cases equality
              rcases ih laterTaken with ⟨after, course⟩ | refusal
              · exact .inl ⟨after, .called live built answered course⟩
              · exact .inr (refusal.called live built answered)
  · rintro (⟨after, course⟩ | refusal)
    · exact course.takeTurns
    · exact refusal.takeTurns

/-- Turns are left without an answer exactly where a listener that is called
gives none. -/
theorem takeTurns_eq_none_iff
    {listeners : List Listener} {asked : Nat} {world : World σ} :
    (takeTurns caller supply name listeners asked).run world = none ↔
      ∃ before listener rest earlier after state arguments next,
        listeners = before ++ listener :: rest ∧
          Course caller supply name before asked world earlier after state ∧
          state.bus.holds name listener = true ∧
          supply after = (.ok arguments, next) ∧
          (caller listener arguments).run
            (state.noted (.listenerCalled name listener)) = none := by
  constructor
  · intro unanswered
    induction listeners generalizing asked world with
    | nil => simp [takeTurns_nil] at unanswered
    | cons listener rest ih =>
        cases live : world.bus.holds name listener with
        | false =>
            rw [takeTurns_skipped caller live, Option.map_eq_none_iff] at unanswered
            obtain ⟨before, last, later, earlier, after, state, arguments, next,
              split, course, found⟩ := ih unanswered
            exact ⟨listener :: before, last, later, _, after, state, arguments,
              next, by simp [split], .skipped live course, found⟩
        | true =>
            rcases built : supply asked with ⟨error | arguments, next⟩
            · rw [takeTurns_refused caller live built] at unanswered
              cases unanswered
            · rw [takeTurns_called caller live built] at unanswered
              cases answered : (call caller name listener arguments).run world with
              | none =>
                  rw [call_run, Option.map_eq_none_iff] at answered
                  exact ⟨[], listener, rest, [], asked, world, arguments, next, rfl,
                    .nil asked world, live, built, answered⟩
              | some result =>
                  obtain ⟨outcome, middle⟩ := result
                  rw [answered, Option.bind_some, Option.map_eq_none_iff] at unanswered
                  obtain ⟨before, last, later, earlier, after, state, lastArguments,
                    lastNext, split, course, found⟩ := ih unanswered
                  exact ⟨listener :: before, last, later, _, after, state,
                    lastArguments, lastNext, by simp [split],
                    .called live built answered course, found⟩
  · rintro ⟨before, listener, rest, earlier, after, state, arguments, next, rfl,
      course, live, built, unanswered⟩
    rw [course.takeTurns_append, takeTurns_called caller live built, call_run,
      unanswered]
    rfl

end Running

end CellBus
