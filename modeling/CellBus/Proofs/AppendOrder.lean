import CellBus.Proofs.RunStates

/-!
# Listeners in the order of their latest append

The journal tells which listeners were appended to an event.  In every state of
every run the listeners of an event are among the latest of them and stand in
their order, so no two of them are equal.  One invariant carries both: the list
is a sublist of the latest appends, which an append extends and a removal thins
out.
-/

namespace CellBus

variable {σ : Type}

/-- The listeners that a happening says were appended to the event with a name. -/
def Happening.appended (name : String) : Happening → List Listener
  | .listenerAdded event listener => if event = name then [listener] else []
  | .eventInserted event => if event.name = name then event.listeners else []
  | _ => []

/-- Every listener that was ever appended to the event with a name, in order. -/
def Journal.appended (name : String) (journal : Journal) : List Listener :=
  journal.happenings.flatMap (Happening.appended name)

theorem Journal.appended_add (name : String) (happening : Happening)
    (journal : Journal) :
    (journal.add happening).appended name =
      journal.appended name ++ happening.appended name := by
  simp [Journal.appended]

theorem Happening.IsRemark.appended {happening : Happening}
    (remark : happening.IsRemark) (name : String) :
    happening.appended name = [] := by
  cases happening <;> first | rfl | exact remark.elim

namespace World

/-- No two events share a name, and the listeners of each stand in the order of
their latest appends. -/
structure Ordered (world : World σ) : Prop where
  unique : world.bus.registry.Unique
  inOrder : ∀ event ∈ world.bus.registry.events,
    event.listeners.Sublist
      (Listener.latest (world.journal.appended event.name))

namespace Ordered

variable {world : World σ}

theorem new (limits : Limits) (host : σ) : (World.new limits host).Ordered where
  unique := List.nodup_nil
  inOrder := by
    intro event member
    cases member

/-- What neither changes the bus nor appends a listener keeps the order. -/
theorem of_same_bus {after : World σ} (ordered : world.Ordered)
    (sameBus : after.bus = world.bus)
    (sameAppends : ∀ name,
      after.journal.appended name = world.journal.appended name) :
    after.Ordered where
  unique := by
    rw [sameBus]
    exact ordered.unique
  inOrder := by
    rw [sameBus]
    intro event member
    rw [sameAppends]
    exact ordered.inOrder event member

theorem noted {happening : Happening} (ordered : world.Ordered)
    (silent : ∀ name, happening.appended name = []) :
    (world.noted happening).Ordered := by
  refine ordered.of_same_bus rfl ?_
  intro name
  rw [noted_journal, Journal.appended_add, silent, List.append_nil]

/-- A change that only thins out the listeners of one event keeps the order. -/
theorem thinned {α : Type} {name : String} {absent : α} {step : Event → α × Event}
    (ordered : world.Ordered)
    (keepsName : ∀ event, (step event).2.name = event.name)
    (thins : ∀ event, (step event).2.listeners.Sublist event.listeners) :
    (world.withBus (world.bus.change name absent step).2).Ordered where
  unique := Bus.change_unique keepsName absent ordered.unique
  inOrder := by
    intro changed member
    rcases Bus.mem_change member with old | ⟨event, eventMember, _, equality⟩
    · exact ordered.inOrder changed old
    · subst equality
      rw [keepsName]
      exact (thins event).trans (ordered.inOrder event eventMember)

theorem eventInserted {event : Event} {bus : Bus} (ordered : world.Ordered)
    (distinct : Listener.Distinct event.listeners)
    (inserted : world.bus.insert event = .ok bus) :
    ((world.withBus bus).noted (.eventInserted event)).Ordered := by
  obtain ⟨registry, accepted, rfl⟩ := Bus.insert_eq_ok inserted
  obtain ⟨absent, equality⟩ := Registry.insert_eq_ok accepted
  refine ⟨ordered.unique.insert accepted, ?_⟩
  intro found member
  subst equality
  rw [noted_journal, Journal.appended_add, withBus_journal]
  rcases List.mem_append.mp member with old | last
  · have different : event.name ≠ found.name :=
      (Registry.contains_eq_false_iff.mp absent found old).symm
    simpa [Happening.appended, different] using ordered.inOrder found old
  · rw [List.mem_singleton.mp last]
    have own : (Happening.eventInserted event).appended event.name =
        event.listeners := by
      simp [Happening.appended]
    have kept := Listener.latest_append_sublist
      (world.journal.appended event.name) event.listeners
    rw [Listener.latest_of_distinct distinct] at kept
    rw [own]
    exact kept

theorem eventRegistered {name signature : String} {event : Event} {bus : Bus}
    (ordered : world.Ordered)
    (registered : world.bus.register name signature = .ok (event, bus)) :
    ((world.withBus bus).noted (.eventRegistered name signature)).Ordered := by
  obtain ⟨_, empty, inserted⟩ := Bus.register_eq_ok registered
  obtain ⟨registry, accepted, rfl⟩ := Bus.insert_eq_ok inserted
  obtain ⟨_, equality⟩ := Registry.insert_eq_ok accepted
  have inOrder : (world.withBus { world.bus with registry }).Ordered := by
    refine ⟨ordered.unique.insert accepted, ?_⟩
    intro found member
    subst equality
    rcases List.mem_append.mp member with old | last
    · exact ordered.inOrder found old
    · rw [List.mem_singleton.mp last, empty]
      exact List.nil_sublist _
  exact inOrder.noted fun _ => rfl

/-- The subscribed listener becomes the latest append, and no equal one was in
the list before. -/
theorem listenerAdded {name : String} {listener : Listener}
    (ordered : world.Ordered)
    (added : (world.bus.subscribe name listener).1 = true) :
    ((world.withBus (world.bus.subscribe name listener).2).noted
      (.listenerAdded name listener)).Ordered := by
  obtain ⟨event, found, unheld⟩ := Bus.subscribe_eq_true_iff.mp added
  obtain ⟨eventMember, eventNamed⟩ := Registry.event?_eq_some found
  refine ⟨Bus.change_unique (fun event => Event.append_name event listener)
    false ordered.unique, ?_⟩
  intro changed member
  rw [noted_journal, Journal.appended_add, withBus_journal]
  rw [noted_bus, withBus_bus, Bus.subscribe, Bus.change_found false found,
    Event.append_of_not_holds unheld] at member
  obtain ⟨other, otherMember, equality⟩ := List.mem_map.mp member
  subst equality
  split
  · have own : (Happening.listenerAdded name listener).appended event.name =
        [listener] := by
      simp [Happening.appended, eventNamed]
    rw [own, Listener.latest_concat]
    apply List.Sublist.append _ (List.Sublist.refl [listener])
    have unequal : event.listeners.filter (!·.isSame listener) =
        event.listeners := by
      apply List.filter_eq_self.mpr
      intro present presentMember
      simp [Event.holds_eq_false_iff.mp unheld present presentMember]
    rw [← unequal]
    exact (ordered.inOrder event eventMember).filter _
  · rename_i different
    have others : (Happening.listenerAdded name listener).appended other.name =
        [] := by
      simp [Happening.appended, Ne.symm different]
    rw [others, List.append_nil]
    exact ordered.inOrder other otherMember

/-- Every elementary change keeps the order. -/
theorem change {after : World σ} (ordered : world.Ordered)
    (change : World.Change world after) : after.Ordered := by
  cases change with
  | engineCreated name => exact ordered.of_same_bus rfl fun _ => rfl
  | contextCreated engine =>
      have sameBus : (world.withHub (world.hub.createContext engine).2).Ordered :=
        ordered.of_same_bus rfl fun _ => rfl
      exact sameBus.noted fun _ => rfl
  | contextReserved =>
      have sameBus : (world.withHub world.hub.reserveContext.2).Ordered :=
        ordered.of_same_bus rfl fun _ => rfl
      exact sameBus.noted fun _ => rfl
  | @contextDestroyed engine context existing =>
      have kept : (world.withHub (world.hub.destroyContext engine context).2).bus =
          world.bus := Hub.destroyContext_bus engine context world.hub
      have sameBus :
          (world.withHub (world.hub.destroyContext engine context).2).Ordered :=
        ordered.of_same_bus kept fun _ => rfl
      exact sameBus.noted fun _ => rfl
  | globalSet context key value => exact ordered.of_same_bus rfl fun _ => rfl
  | functionAdded function => exact ordered.of_same_bus rfl fun _ => rfl
  | hostStored host => exact ordered.of_same_bus rfl fun _ => rfl
  | eventRegistered registered => exact ordered.eventRegistered registered
  | eventInserted distinct inserted => exact ordered.eventInserted distinct inserted
  | listenerAdded added => exact ordered.listenerAdded added
  | listenerIgnored ignored =>
      rw [Bus.subscribe_refused ordered.unique ignored]
      exact ordered.of_same_bus rfl fun _ => rfl
  | unsubscribed name context target =>
      apply ordered.thinned
      · intro event
        rw [Event.unsubscribe_remaining]
      · intro event
        rw [Event.unsubscribe_remaining]
        exact List.filter_sublist
  | cleared name =>
      apply ordered.thinned
      · intro event
        rfl
      · intro event
        exact List.nil_sublist _
  | contextUnsubscribed free => exact ordered.noted fun _ => rfl
  | listenerCalled live => exact ordered.noted fun _ => rfl
  | bodyEntered admitted => exact ordered.noted fun _ => rfl
  | remarked remark => exact ordered.noted remark.appended

theorem distinct (ordered : world.Ordered) {event : Event}
    (member : event ∈ world.bus.registry.events) :
    Listener.Distinct event.listeners :=
  (Listener.latest_distinct _).sublist (ordered.inOrder event member)

end Ordered

theorem Reachable.ordered {world : World σ} (reachable : world.Reachable) :
    world.Ordered :=
  reachable.induct Ordered.new fun _ _ change ordered => ordered.change change

end World

/-- Appending to an event that is found by its name. -/
theorem Running.subscribe_found {world : World σ} {name : String} {event : Event}
    (unique : world.bus.registry.Unique)
    (found : world.bus.event? name = some event) (listener : Listener) :
    ∃ answer final,
      (Running.subscribe name listener).run world = some (answer, final) ∧
        (answer = true ↔
          ∀ other ∈ event.listeners, other.isSame listener = false) ∧
        (answer = true →
          final.bus.event? name =
              some { event with listeners := event.listeners ++ [listener] } ∧
            ∀ other, other ≠ name →
              final.bus.event? other = world.bus.event? other) ∧
        (answer = false → final.hub = world.hub) := by
  refine ⟨_, _, Running.subscribe_run name listener world, ?_, ?_, ?_⟩
  · rw [Bus.subscribe_eq_true_iff]
    simp [found, Event.holds_eq_false_iff]
  · intro added
    obtain ⟨event', found', unheld⟩ := Bus.subscribe_eq_true_iff.mp added
    rw [found] at found'
    cases found'
    have keepsName : ∀ event : Event, (event.append listener).2.name = event.name :=
      fun event => Event.append_name event listener
    rw [World.noted_bus, World.withBus_bus, Bus.subscribe]
    constructor
    · rw [Bus.event?_change keepsName, if_pos rfl, found, Option.map_some,
        Event.append_of_not_holds unheld]
    · intro other different
      rw [Bus.event?_change keepsName, if_neg different]
  · intro refused
    rw [World.noted_hub, Bus.subscribe_refused unique refused]
    rfl

/-- In every state of every run no event has two equal listeners, and the
listeners of each event stand in the order of their latest successful append.
An append succeeds exactly when no equal listener is in the list, then only adds
the listener at the end, and otherwise changes nothing. -/
theorem listeners_distinct_in_order_of_latest_append
    {world : World σ} (reachable : world.Reachable) :
    (∀ event ∈ world.bus.registry.events,
      Listener.Distinct event.listeners ∧
        event.listeners.Sublist
          (Listener.latest (world.journal.appended event.name))) ∧
    (∀ name event listener, world.bus.event? name = some event →
      ∃ answer final,
        (Running.subscribe name listener).run world = some (answer, final) ∧
          (answer = true ↔
            ∀ other ∈ event.listeners, other.isSame listener = false) ∧
          (answer = true →
            final.bus.event? name =
                some { event with listeners := event.listeners ++ [listener] } ∧
              ∀ other, other ≠ name →
                final.bus.event? other = world.bus.event? other) ∧
          (answer = false → final.hub = world.hub)) ∧
    ∀ (event : Event) (listener : Listener),
      ((event.append listener).1 = true ↔
        ∀ other ∈ event.listeners, other.isSame listener = false) ∧
      ((event.append listener).1 = true →
        (event.append listener).2 =
          { event with listeners := event.listeners ++ [listener] }) ∧
      ((event.append listener).1 = false → (event.append listener).2 = event) := by
  have ordered := reachable.ordered
  refine ⟨?_, ?_, ?_⟩
  · intro event member
    exact ⟨ordered.distinct member, ordered.inOrder event member⟩
  · intro name event listener found
    exact Running.subscribe_found ordered.unique found listener
  · intro event listener
    refine ⟨Event.append_answers_iff, ?_, ?_⟩
    · intro added
      rw [Event.append_answers_iff, ← Event.holds_eq_false_iff] at added
      rw [Event.append_of_not_holds added]
    · intro refused
      cases held : event.holds listener with
      | true => rw [Event.append_of_holds held]
      | false =>
          rw [Event.append_of_not_holds held] at refused
          cases refused

/-- Removed and appended again, the listener that was first stands last.  Then an
equal one is refused, although it names another engine. -/
theorem listener_appended_again_stands_last :
    let first : Listener := ⟨⟨1⟩, ⟨1⟩, ⟨0⟩⟩
    let second : Listener := ⟨⟨1⟩, ⟨2⟩, ⟨0⟩⟩
    let event : Event := ⟨"e", .ofTags [], [second, first]⟩
    let behaviour : Behaviour Unit :=
      .perform (.insert "e" (.ofTags []) [first, second]) fun _ =>
      .perform (.unsubscribe "e" ⟨1⟩ .all) fun _ =>
      .perform (.subscribe "e" first) fun _ => .finish (.returns .null)
    let world : World Unit :=
      ⟨{ Hub.new {} with bus := ⟨⟨[event]⟩, {}⟩ }, [], (),
        ⟨[.listenerAdded "e" first, .contextListenersRemoved "e" ⟨1⟩ 1,
          .eventInserted { event with listeners := [first, second] }]⟩⟩
    (behaviour.run 1).run (World.new {} ()) = some (.returns .null, world) ∧
      world.Reachable ∧ Listener.Distinct event.listeners ∧
      event.listeners.Sublist (Listener.latest (world.journal.appended "e")) ∧
      ∃ final,
        (Running.subscribe "e" ⟨⟨2⟩, ⟨1⟩, ⟨0⟩⟩).run world = some (false, final) ∧
          final.hub = world.hub := by
  intro first second event behaviour world
  have ran : (behaviour.run 1).run (World.new {} ()) =
      some (.returns .null, world) := rfl
  have reachable : world.Reachable := World.reachable_of_run ran
  obtain ⟨inOrder, appends, _⟩ :=
    listeners_distinct_in_order_of_latest_append reachable
  obtain ⟨distinct, latest⟩ := inOrder event (List.mem_singleton_self event)
  refine ⟨ran, reachable, distinct, latest, ?_⟩
  obtain ⟨answer, final, subscribed, _, _, refused⟩ :=
    appends "e" event ⟨⟨2⟩, ⟨1⟩, ⟨0⟩⟩ rfl
  have answered : answer = false := by
    rw [Running.subscribe_run] at subscribed
    cases subscribed
    rfl
  subst answered
  exact ⟨final, subscribed, refused rfl⟩

end CellBus
