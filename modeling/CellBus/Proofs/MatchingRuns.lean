import CellBus.Proofs.Running
import Mathlib.Data.List.Forall2

/-!
# Two runs side by side

Steps match when they lead from like worlds to like worlds and give related
answers.  Which worlds are alike is left open, as long as a dispatch cannot tell
them apart and entries in the journal do not matter.  Chains of matching steps
match, and so do the turns of two dispatches whose listeners match one by one.
-/

namespace CellBus

variable {σ α β γ δ : Type}

/-- A dispatch cannot tell like worlds apart, and they stay alike whatever is
entered in the journal of either. -/
structure World.Likeness (alike : World σ → World σ → Prop) : Prop where
  bus : ∀ {world other}, alike world other → other.bus = world.bus
  noted : ∀ {world other} (happening : Happening), alike world other →
    alike (world.noted happening) other
  otherNoted : ∀ {world other} (happening : Happening), alike world other →
    alike world (other.noted happening)

/-- From like worlds either both steps give no answer, or they give related
answers and leave like worlds. -/
def Running.Matches (alike : World σ → World σ → Prop) (related : α → β → Prop)
    (first : Running σ α) (second : Running σ β) : Prop :=
  ∀ world other, alike world other →
    Option.Rel (fun left right => related left.1 right.1 ∧ alike left.2 right.2)
      (first.run world) (second.run other)

/-- Two turns of the same listener, called with the same arguments if it is
called, whose outcomes are related. -/
inductive Turn.Matches
    (related : Listener → Except Fault Value → Except Fault Value → Prop) :
    Turn → Turn → Prop where
  | skipped (listener : Listener) :
      Matches related (.skipped listener) (.skipped listener)
  | called {listener : Listener} (arguments : List Argument)
      {outcome other : Except Fault Value} :
      related listener outcome other →
      Matches related (.called listener arguments outcome)
        (.called listener arguments other)
  | refused (listener : Listener) (error : MarshalError) :
      Matches related (.refused listener error) (.refused listener error)

theorem Turn.Matches.eq {turn other : Turn}
    (same : Turn.Matches (fun _ => Eq) turn other) : turn = other := by
  cases same with
  | skipped listener => rfl
  | called arguments equality => rw [equality]
  | refused listener error => rfl

namespace Running

variable {alike : World σ → World σ → Prop}

theorem rel_cases {answers : α → β → Prop} {first : Option α} {second : Option β}
    (same : Option.Rel answers first second) :
    (first = none ∧ second = none) ∨
      ∃ value other, first = some value ∧ second = some other ∧
        answers value other := by
  cases same with
  | none => exact .inl ⟨rfl, rfl⟩
  | some answered => exact .inr ⟨_, _, rfl, rfl, answered⟩

theorem rel_bind {answers : α → β → Prop} {results : γ → δ → Prop}
    {first : Option α} {second : Option β} {next : α → Option γ}
    {nextOther : β → Option δ} (same : Option.Rel answers first second)
    (later : ∀ value other, answers value other →
      Option.Rel results (next value) (nextOther other)) :
    Option.Rel results (first.bind next) (second.bind nextOther) := by
  cases same with
  | none => exact .none
  | some answered => exact later _ _ answered

theorem rel_map {answers : α → β → Prop} {results : γ → δ → Prop}
    {first : Option α} {second : Option β} {step : α → γ} {stepOther : β → δ}
    (same : Option.Rel answers first second)
    (later : ∀ value other, answers value other →
      results (step value) (stepOther other)) :
    Option.Rel results (first.map step) (second.map stepOther) := by
  cases same with
  | none => exact .none
  | some answered => exact .some (later _ _ answered)

theorem matches_pure {related : α → β → Prop} {answer : α} {other : β}
    (answers : related answer other) :
    Matches alike related (pure answer) (pure other) :=
  fun _ _ likely => .some ⟨answers, likely⟩

theorem Matches.mono {related concluded : α → β → Prop} {first : Running σ α}
    {second : Running σ β} (same : Matches alike related first second)
    (weaker : ∀ answer other, related answer other → concluded answer other) :
    Matches alike concluded first second := by
  intro world other likely
  have answered := same world other likely
  generalize first.run world = left at answered ⊢
  generalize second.run other = right at answered ⊢
  cases answered with
  | none => exact .none
  | some results => exact .some ⟨weaker _ _ results.1, results.2⟩

theorem Matches.bind {related : α → β → Prop} {concluded : γ → δ → Prop}
    {first : Running σ α} {second : Running σ β} {next : α → Running σ γ}
    {nextOther : β → Running σ δ} (same : Matches alike related first second)
    (later : ∀ value other, related value other →
      Matches alike concluded (next value) (nextOther other)) :
    Matches alike concluded (first >>= next) (second >>= nextOther) := by
  intro world other likely
  rw [StateT.run_bind, StateT.run_bind]
  apply rel_bind (same world other likely)
  intro left right answered
  exact later _ _ answered.1 _ _ answered.2

theorem matches_get : Matches alike alike (get : Running σ (World σ)) get :=
  fun _ _ likely => .some ⟨likely, likely⟩

/-- Steps that give the same answers may be followed by any matching steps. -/
theorem Matches.bind_same {concluded : γ → δ → Prop} {first second : Running σ α}
    {next : α → Running σ γ} {nextOther : α → Running σ δ}
    (same : Matches alike Eq first second)
    (later : ∀ value, Matches alike concluded (next value) (nextOther value)) :
    Matches alike concluded (first >>= next) (second >>= nextOther) := by
  apply same.bind
  rintro value _ rfl
  exact later value

/-- A step that only one side takes. -/
theorem Matches.bind_alone {concluded : γ → δ → Prop} {first : Running σ α}
    {next : α → Running σ γ} {second : Running σ δ}
    (spared : Matches alike (fun _ _ => True) first (pure ()))
    (later : ∀ value, Matches alike concluded (next value) second) :
    Matches alike concluded (first >>= next) second := by
  rw [← pure_bind () fun _ => second]
  apply spared.bind
  intro value _ _
  exact later value

theorem Matches.mapM {step stepOther : β → Running σ α}
    (same : ∀ item, Matches alike Eq (step item) (stepOther item)) (items : List β) :
    Matches alike Eq (items.mapM step) (items.mapM stepOther) := by
  induction items with
  | nil => exact matches_pure rfl
  | cons item items ih =>
      rw [List.mapM_cons, List.mapM_cons]
      apply (same item).bind_same
      intro first
      apply ih.bind_same
      intro later
      exact matches_pure rfl

variable {first second : Caller σ}
variable {related : Listener → Except Fault Value → Except Fault Value → Prop}

theorem call_matches (likeness : World.Likeness alike) (name : String)
    {listener : Listener} {arguments : List Argument}
    (same : Matches alike (related listener) (first listener arguments)
      (second listener arguments)) :
    Matches alike (related listener) (call first name listener arguments)
      (call second name listener arguments) := by
  intro world other likely
  have likelyCalled := likeness.noted (.listenerCalled name listener)
    (likeness.otherNoted (.listenerCalled name listener) likely)
  rw [call_run, call_run]
  apply rel_map (same _ _ likelyCalled)
  rintro ⟨outcome, final⟩ ⟨otherOutcome, otherFinal⟩ ⟨outcomes, likelyFinal⟩
  refine ⟨outcomes, ?_⟩
  cases outcome with
  | ok value =>
      cases otherOutcome with
      | ok _ => exact likelyFinal
      | error _ => exact likeness.otherNoted _ likelyFinal
  | error fault =>
      have likelyNoted := likeness.noted
        (.exceptionThrown name listener fault) likelyFinal
      cases otherOutcome with
      | ok _ => exact likelyNoted
      | error _ => exact likeness.otherNoted _ likelyNoted

/-- If the listeners match one by one, so do the turns they take. -/
theorem takeTurns_matches (likeness : World.Likeness alike)
    (same : ∀ listener arguments, Matches alike (related listener)
      (first listener arguments) (second listener arguments))
    (supply : Supply) (name : String) (listeners : List Listener) (asked : Nat) :
    Matches alike (List.Forall₂ (Turn.Matches related))
      (takeTurns first supply name listeners asked)
      (takeTurns second supply name listeners asked) := by
  induction listeners generalizing asked with
  | nil => exact matches_pure .nil
  | cons listener rest ih =>
      intro world other likely
      have holdsToo := congrArg (·.holds name listener) (likeness.bus likely)
      cases live : world.bus.holds name listener with
      | false =>
          have likelyNoted := likeness.noted (.listenerSkipped name listener)
            (likeness.otherNoted (.listenerSkipped name listener) likely)
          rw [takeTurns_skipped first live,
            takeTurns_skipped second (holdsToo.trans live)]
          apply rel_map (ih asked _ _ likelyNoted)
          intro later otherLater matching
          exact ⟨.cons (.skipped listener) matching.1, matching.2⟩
      | true =>
          rcases built : supply asked with ⟨error | arguments, next⟩
          · rw [takeTurns_refused first live built,
              takeTurns_refused second (holdsToo.trans live) built]
            exact .some ⟨.cons (.refused listener error) .nil,
              likeness.noted _ (likeness.otherNoted _ likely)⟩
          · rw [takeTurns_called first live built,
              takeTurns_called second (holdsToo.trans live) built]
            apply rel_bind
              (call_matches likeness name (same listener arguments) _ _ likely)
            intro called otherCalled answered
            apply rel_map (ih next _ _ answered.2)
            intro later otherLater matching
            exact ⟨.cons (.called arguments answered.1) matching.1, matching.2⟩

end Running

end CellBus
