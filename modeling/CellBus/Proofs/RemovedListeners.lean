import CellBus.Proofs.AppendOrder

/-!
# Unsubscribing as one filter

Unsubscribing is a single removal, a loop over callables, or a loop over the
listeners that are there at its start.  As no event has two equal listeners, each
of the three removes exactly the listeners that its target names and counts every
one of them once, whatever else the callables are and how often they are given.
-/

namespace CellBus

variable {σ : Type}

/-- Of distinct listeners at most one is bound to a context with a callable. -/
theorem Listener.Distinct.countP_isBound {listeners : List Listener}
    (distinct : Distinct listeners) (context : ContextId) (callable : Callable) :
    (listeners.any (·.isBound context callable)).toNat =
      listeners.countP (·.isBound context callable) := by
  induction listeners with
  | nil => rfl
  | cons listener rest ih =>
      obtain ⟨headDistinct, restDistinct⟩ := List.pairwise_cons.mp distinct
      cases bound : listener.isBound context callable with
      | false => simp [bound, ih restDistinct]
      | true =>
          have others : rest.countP (·.isBound context callable) = 0 := by
            rw [List.countP_eq_zero]
            intro other member otherBound
            have same : listener.isSame other = true := by
              simp only [isBound, Bool.and_eq_true, decide_eq_true_iff]
                at bound otherBound
              rw [isSame_iff, bound.1, bound.2, otherBound.1, otherBound.2]
              exact ⟨rfl, rfl⟩
            rw [headDistinct other member] at same
            cases same
          simp [bound, others]

namespace Event

variable {event : Event} {context : ContextId}

/-- Removing the listeners of several callables one by one counts each listener
that any of them names once. -/
theorem removeEach_count (distinct : Listener.Distinct event.listeners)
    (callables : List Callable) :
    (event.removeEach context callables).1 =
      event.listeners.countP fun listener =>
        callables.any (listener.isBound context) := by
  induction callables generalizing event with
  | nil => simp [removeEach]
  | cons callable rest ih =>
      have fewer : Listener.Distinct (event.remove context callable).2.listeners :=
        distinct.sublist List.filter_sublist
      -- The first removal takes its listener out of what the others look at.
      have taken : (event.listeners.filter (·.isBound context callable)).countP
          (fun listener => (callable :: rest).any (listener.isBound context)) =
            event.listeners.countP (·.isBound context callable) := by
        rw [List.countP_filter]
        apply List.countP_congr
        intro listener _
        cases bound : listener.isBound context callable <;> simp [bound]
      have left : (event.listeners.filter (!·.isBound context callable)).countP
          (fun listener => (callable :: rest).any (listener.isBound context)) =
            (event.remove context callable).2.listeners.countP
              fun listener => rest.any (listener.isBound context) := by
        rw [remove, List.countP_filter, List.countP_filter]
        apply List.countP_congr
        intro listener _
        cases bound : listener.isBound context callable <;> simp [bound]
      rw [removeEach]
      simp only
      rw [ih fewer, remove_answer, distinct.countP_isBound, ← left, ← taken,
        Nat.add_comm]
      exact (List.countP_eq_countP_filter_add _ _ _).symm

/-- Every form of unsubscribing removes and counts what its target names. -/
theorem unsubscribe_eq (distinct : Listener.Distinct event.listeners)
    (target : Target) :
    event.unsubscribe context target =
      (event.listeners.countP fun listener => target.covers context listener,
        { event with listeners := event.listeners.filter fun listener =>
            !target.covers context listener }) := by
  refine Prod.ext ?_ (unsubscribe_remaining context target event)
  cases target with
  | all =>
      rw [unsubscribe, removeContext, removeEach_count distinct]
      apply List.countP_congr
      intro listener member
      rw [any_isBound_callables member, Target.covers]
  | one callable =>
      simp only [unsubscribe]
      rw [remove_answer, distinct.countP_isBound]
      rfl
  | each callables => exact removeEach_count distinct callables

end Event

theorem Target.covers_each_congr {callables others : List Callable}
    (same : ∀ callable, callable ∈ callables ↔ callable ∈ others)
    (context : ContextId) (listener : Listener) :
    (Target.each callables).covers context listener =
      (Target.each others).covers context listener := by
  rw [covers, covers, Bool.eq_iff_iff, List.any_eq_true, List.any_eq_true]
  simp only [same]

/-- Targets that name the same listeners cannot be told apart. -/
theorem Bus.unsubscribe_congr {bus : Bus} {context : ContextId} {target other : Target}
    (same : ∀ listener, target.covers context listener = other.covers context listener)
    (name : String)
    (distinct : ∀ event ∈ bus.registry.events, Listener.Distinct event.listeners) :
    bus.unsubscribe name context target = bus.unsubscribe name context other := by
  cases found : bus.event? name with
  | none => rw [unsubscribe, unsubscribe, change_absent 0 found, change_absent 0 found]
  | some event =>
      have eventDistinct := distinct event (Registry.event?_eq_some found).1
      rw [unsubscribe, unsubscribe, change_found 0 found, change_found 0 found,
        Event.unsubscribe_eq eventDistinct, Event.unsubscribe_eq eventDistinct]
      simp only [same]

namespace Running

variable {world : World σ} {name : String} {context : ContextId}

theorem unsubscribe_unknown (unknown : world.bus.event? name = none)
    (target : Target) :
    (unsubscribe name context target).run world = some (0, world) := by
  have refused : world.bus.unsubscribe name context target = (0, world.bus) :=
    Bus.change_absent 0 unknown
  rw [unsubscribe_run, refused]
  simp [World.withBus, World.withHub, World.bus]

/-- What unsubscribing from an event answers and leaves. -/
theorem unsubscribe_found {event : Event}
    (found : world.bus.event? name = some event)
    (distinct : Listener.Distinct event.listeners) (target : Target) :
    ∃ final,
      (unsubscribe name context target).run world =
        some (event.listeners.countP (fun listener => target.covers context listener),
          final) ∧
      final.hub =
        { world.hub with bus := (world.bus.unsubscribe name context target).2 } ∧
      final.bus.event? name =
        some { event with
          listeners := event.listeners.filter fun listener =>
            !target.covers context listener } := by
  have keepsName := Event.unsubscribe_name context target
  have answered : (world.bus.unsubscribe name context target).1 =
      event.listeners.countP fun listener => target.covers context listener := by
    rw [Bus.unsubscribe, Bus.change_found 0 found, Event.unsubscribe_eq distinct]
  have remaining : (world.bus.unsubscribe name context target).2.event? name =
      some { event with
        listeners := event.listeners.filter fun listener =>
          !target.covers context listener } := by
    rw [Bus.unsubscribe, Bus.event?_change keepsName, if_pos rfl, found,
      Option.map_some, Event.unsubscribe_eq distinct]
  rw [unsubscribe_run, answered]
  refine ⟨_, rfl, ?_, ?_⟩
  · dsimp only
    split <;> rfl
  · dsimp only
    split <;> exact remaining

end Running

/-- In every state of every run unsubscribing keeps exactly the listeners that the
target does not name, in their order, and answers how many it removed.  Other
events stay as they are, and so does everything if no event has the name.  The
loops over listeners and over callables do what one filter does, so neither the
order nor the repetitions of the callables matter. -/
theorem unsubscribe_filters_exactly {world : World σ} (reachable : world.Reachable)
    (name : String) (context : ContextId) (target : Target) :
    (world.bus.event? name = none →
      (Running.unsubscribe name context target).run world = some (0, world)) ∧
    (∀ event, world.bus.event? name = some event →
      let kept := event.listeners.filter fun listener =>
        !target.covers context listener
      ∃ count final,
        (Running.unsubscribe name context target).run world = some (count, final) ∧
          count + kept.length = event.listeners.length ∧
          final.bus.event? name = some { event with listeners := kept } ∧
          (∀ other, other ≠ name →
            final.bus.event? other = world.bus.event? other) ∧
          final.bus.registry.events.map Event.name =
            world.bus.registry.events.map Event.name ∧
          final.hub =
            { world.hub with bus := { world.bus with registry := final.bus.registry } }) ∧
    (∀ event ∈ world.bus.registry.events,
      event.unsubscribe context target =
        (event.listeners.countP fun listener => target.covers context listener,
          { event with listeners := event.listeners.filter fun listener =>
              !target.covers context listener })) ∧
    ∀ callables others : List Callable,
      (∀ callable, callable ∈ callables ↔ callable ∈ others) →
      (Running.unsubscribe name context (.each callables)).run world =
        (Running.unsubscribe name context (.each others)).run world := by
  have ordered := reachable.ordered
  have keepsName := Event.unsubscribe_name context target
  refine ⟨fun unknown => Running.unsubscribe_unknown unknown target, ?_, ?_, ?_⟩
  · intro event found kept
    have distinct := ordered.distinct (Registry.event?_eq_some found).1
    obtain ⟨final, ran, hub, remaining⟩ :=
      Running.unsubscribe_found found distinct target
    have bus : final.bus = (world.bus.unsubscribe name context target).2 :=
      congrArg Hub.bus hub
    refine ⟨_, final, ran, ?_, remaining, ?_, ?_, ?_⟩
    · rw [List.length_eq_countP_add_countP
        (fun listener => target.covers context listener) (l := event.listeners),
        List.countP_eq_length_filter (p := fun listener =>
          decide ¬target.covers context listener = true)]
      simp [kept]
    · intro other different
      rw [bus, Bus.unsubscribe, Bus.event?_change keepsName, if_neg different]
    · rw [bus, Bus.unsubscribe, Bus.change_names keepsName]
    · rw [hub, bus, Bus.unsubscribe, Bus.change_found 0 found]
  · intro event member
    exact Event.unsubscribe_eq (ordered.distinct member) target
  · intro callables others same
    have sameBus := Bus.unsubscribe_congr (Target.covers_each_congr same context) name
      fun event member => ordered.distinct member
    rw [Running.unsubscribe_run, Running.unsubscribe_run, sameBus]
    simp

/-- Of three listeners the one is removed that is bound to the context and has one
of the callables, though that callable is given twice and another is unknown. -/
theorem unsubscribe_counts_repeated_callable_once :
    let kept : Listener := ⟨⟨1⟩, ⟨1⟩, ⟨0⟩⟩
    let removed : Listener := ⟨⟨1⟩, ⟨1⟩, ⟨1⟩⟩
    let foreign : Listener := ⟨⟨1⟩, ⟨2⟩, ⟨1⟩⟩
    let event := Event.assemble "e" (.ofTags []) [kept, removed, foreign]
    let world : World Unit := World.holding {} () event
    world.Reachable ∧ world.bus.event? "e" = some event ∧
      ∃ final,
        (Running.unsubscribe "e" ⟨1⟩ (.each [⟨1⟩, ⟨7⟩, ⟨1⟩])).run world =
            some (1, final) ∧
          final.bus.event? "e" = some { event with listeners := [kept, foreign] } ∧
          (Running.unsubscribe "e" ⟨1⟩ (.each [⟨7⟩, ⟨1⟩])).run world =
            some (1, final) ∧
          (Running.unsubscribe "f" ⟨1⟩ .all).run world = some (0, world) := by
  intro kept removed foreign event world
  have reachable : world.Reachable :=
    World.reachable_holding {} () "e" (.ofTags []) [kept, removed, foreign]
  have found : world.bus.event? "e" = some event := rfl
  obtain ⟨_, removes, _, sameEach⟩ :=
    unsubscribe_filters_exactly reachable "e" ⟨1⟩ (.each [⟨1⟩, ⟨7⟩, ⟨1⟩])
  obtain ⟨count, final, ran, counted, remaining, _⟩ := removes event found
  have one : count = 1 := Nat.add_right_cancel (m := 2) counted
  subst one
  have unknown := (unsubscribe_filters_exactly reachable "f" ⟨1⟩ .all).1 rfl
  refine ⟨reachable, found, final, ran, remaining, ?_, unknown⟩
  rw [← ran]
  apply sameEach
  intro callable
  simp [or_comm]

end CellBus
