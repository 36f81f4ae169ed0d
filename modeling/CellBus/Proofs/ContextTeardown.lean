import CellBus.Proofs.Registrations
import CellBus.Proofs.RemovedListeners

/-!
# Tearing contexts down

Unsubscribing a context takes its listeners out of every event and counts them.
The journal tells when that happened, so what holds from then on is an invariant of
all states of all runs: as long as no listener bound to the context is appended
again, no event has one.  A dispatch that was under way still has such listeners in
the list it started with, but it skips them.
-/

namespace CellBus

open Relation

variable {σ : Type}

/-- The happening appends a listener bound to the context, alone or with an event
that it was part of beforehand. -/
def Happening.Binds (context : ContextId) : Happening → Prop
  | .listenerAdded _ listener => listener.context = context
  | .eventInserted event => ∃ listener ∈ event.listeners, listener.context = context
  | _ => False

/-- The context was unsubscribed from every event, and no listener bound to it was
appended since. -/
def Journal.Detached (context : ContextId) (journal : Journal) : Prop :=
  ∃ earlier later,
    journal.happenings = earlier ++ .contextUnsubscribed context :: later ∧
      ∀ happening ∈ later, ¬happening.Binds context

namespace Journal

variable {journal : Journal} {happening : Happening} {context : ContextId}

/-- A place in a journal with one more happening is the last one or was there
before. -/
theorem split_add {earlier later : List Happening} {middle : Happening}
    (split : (journal.add happening).happenings = earlier ++ middle :: later) :
    (later = [] ∧ happening = middle ∧ journal.happenings = earlier) ∨
      ∃ before, later = before ++ [happening] ∧
        journal.happenings = earlier ++ middle :: before := by
  rw [happenings_add] at split
  rcases List.eq_nil_or_concat later with rfl | ⟨before, last, rfl⟩
  · obtain ⟨whole, same⟩ := List.append_inj' split rfl
    cases same
    exact .inl ⟨rfl, rfl, whole⟩
  · rw [List.concat_eq_append, ← List.cons_append, ← List.append_assoc] at split
    obtain ⟨whole, same⟩ := List.append_inj' split rfl
    cases same
    exact .inr ⟨before, List.concat_eq_append, whole⟩

theorem Detached.of_add (detached : (journal.add happening).Detached context) :
    happening = .contextUnsubscribed context ∨
      ¬happening.Binds context ∧ journal.Detached context := by
  obtain ⟨earlier, later, split, unbound⟩ := detached
  rcases split_add split with ⟨-, same, -⟩ | ⟨before, rfl, whole⟩
  · exact .inl same
  · refine .inr ⟨unbound happening (List.mem_append_right _ (List.mem_singleton_self _)),
      earlier, before, whole, ?_⟩
    intro other member
    exact unbound other (List.mem_append_left _ member)

end Journal

namespace Bus

variable {bus : Bus} {context : ContextId} {name : String}

/-- A change stays free of a context that its event's new listeners are not bound
to. -/
theorem IsFreeOf.change {α : Type} {absent : α} {step : Event → α × Event}
    (free : bus.IsFreeOf context)
    (keepsName : ∀ event, (step event).2.name = event.name)
    (adds : ∀ event, ∀ listener ∈ (step event).2.listeners,
      listener ∈ event.listeners ∨ listener.context ≠ context) :
    (bus.change name absent step).2.IsFreeOf context := by
  intro wanted listener member
  rw [listeners, event?_change keepsName] at member
  cases found : bus.event? wanted with
  | none => simp [found] at member
  | some event =>
      have old : ∀ other ∈ event.listeners, other.context ≠ context := by
        intro other otherMember
        apply free wanted
        simp [listeners, found, otherMember]
      rw [found] at member
      split at member
      · rcases adds event listener member with present | foreign
        · exact old listener present
        · exact foreign
      · exact old listener member

theorem IsFreeOf.subscribe {listener : Listener} (free : bus.IsFreeOf context)
    (foreign : listener.context ≠ context) :
    (bus.subscribe name listener).2.IsFreeOf context := by
  apply free.change fun event => Event.append_name event listener
  intro event other member
  unfold Event.append at member
  split at member
  · exact .inl member
  · rcases List.mem_append.mp member with present | last
    · exact .inl present
    · rw [List.mem_singleton.mp last]
      exact .inr foreign

theorem IsFreeOf.extended {event : Event} (free : bus.IsFreeOf context)
    (absent : bus.registry.contains event.name = false)
    (foreign : ∀ listener ∈ event.listeners, listener.context ≠ context) :
    (bus.extended event).IsFreeOf context := by
  intro wanted listener member
  rw [listeners, event?_extended absent] at member
  split at member
  · exact foreign listener member
  · exact free wanted listener member

end Bus

namespace World

/-- A step enters a happening in the journal.  It binds no listener to a context
unless the happening says so, it tells of no unsubscribed context that is still
bound, and it tells of the call of a listener only if an event has that listener. -/
structure Tells (happening : Happening) (world after : World σ) : Prop where
  journal : after.journal = world.journal.add happening
  keeps : ∀ context, ¬happening.Binds context → world.bus.IsFreeOf context →
    after.bus.IsFreeOf context
  frees : ∀ context, happening = .contextUnsubscribed context →
    after.bus.IsFreeOf context
  live : ∀ name listener, happening = .listenerCalled name listener →
    world.bus.holds name listener = true

variable {world after : World σ} {happening : Happening}

/-- A step that leaves the bus as it is, and of which the journal tells something
else than calls and unsubscribed contexts. -/
theorem tells_of_same_bus (journal : after.journal = world.journal.add happening)
    (sameBus : after.bus = world.bus)
    (unfreed : ∀ context, happening ≠ .contextUnsubscribed context)
    (uncalled : ∀ name listener, happening ≠ .listenerCalled name listener) :
    Tells happening world after where
  journal := journal
  keeps := by
    intro context _ free
    rw [sameBus]
    exact free
  frees := fun context told => (unfreed context told).elim
  live := fun name listener told => (uncalled name listener told).elim

theorem tells_remark (remark : happening.IsRemark) :
    Tells happening world (world.noted happening) := by
  have sameBus : (world.noted happening).bus = world.bus := rfl
  refine tells_of_same_bus rfl sameBus ?_ ?_
  · rintro context rfl
    exact remark
  · rintro name listener rfl
    exact remark

/-- One more event binds the contexts of the listeners that it came with. -/
theorem tells_extended {event : Event}
    (absent : world.bus.registry.contains event.name = false)
    (binds : ∀ context, ¬happening.Binds context →
      ∀ listener ∈ event.listeners, listener.context ≠ context)
    (unfreed : ∀ context, happening ≠ .contextUnsubscribed context)
    (uncalled : ∀ name listener, happening ≠ .listenerCalled name listener) :
    Tells happening world
      ((world.withBus (world.bus.extended event)).noted happening) where
  journal := rfl
  keeps := fun context unbound free => free.extended absent (binds context unbound)
  frees := fun context told => (unfreed context told).elim
  live := fun name listener told => (uncalled name listener told).elim

/-- An elementary change either leaves the journal as it is and binds no context, or
the journal tells of it. -/
theorem Change.tells (change : World.Change world after)
    (unique : world.bus.registry.Unique) :
    (after.journal = world.journal ∧
        ∀ context, world.bus.IsFreeOf context → after.bus.IsFreeOf context) ∨
      ∃ happening, Tells happening world after := by
  cases change with
  | engineCreated name => exact .inl ⟨rfl, fun _ => id⟩
  | contextCreated engine =>
      exact .inr ⟨_, tells_of_same_bus rfl rfl nofun nofun⟩
  | contextReserved => exact .inr ⟨_, tells_of_same_bus rfl rfl nofun nofun⟩
  | @contextDestroyed engine context existing =>
      have kept : (world.hub.destroyContext engine context).2.bus = world.bus :=
        Hub.destroyContext_bus engine context world.hub
      exact .inr ⟨_, tells_of_same_bus rfl kept nofun nofun⟩
  | globalSet context key value => exact .inl ⟨rfl, fun _ => id⟩
  | functionAdded function => exact .inl ⟨rfl, fun _ => id⟩
  | hostStored host => exact .inl ⟨rfl, fun _ => id⟩
  | @eventRegistered name signature event bus registered =>
      obtain ⟨_, empty, inserted⟩ := Bus.register_eq_ok registered
      obtain ⟨registry, accepted, _⟩ := Bus.insert_eq_ok inserted
      obtain rfl := Bus.insert_eq_extended inserted
      refine .inr ⟨.eventRegistered name signature, tells_extended
        (Registry.insert_eq_ok accepted).1 ?_ nofun nofun⟩
      simp [empty]
  | @eventInserted event bus distinct inserted =>
      obtain ⟨registry, accepted, _⟩ := Bus.insert_eq_ok inserted
      obtain rfl := Bus.insert_eq_extended inserted
      refine .inr ⟨.eventInserted event, tells_extended
        (Registry.insert_eq_ok accepted).1 ?_ nofun nofun⟩
      intro context unbound listener member bound
      exact unbound ⟨listener, member, bound⟩
  | @listenerAdded name listener added =>
      refine .inr ⟨.listenerAdded name listener, rfl, ?_, nofun, nofun⟩
      intro context unbound free
      exact free.subscribe unbound
  | listenerIgnored ignored =>
      rw [Bus.subscribe_refused unique ignored]
      exact .inl ⟨rfl, fun _ => id⟩
  | unsubscribed name context target =>
      refine .inl ⟨rfl, fun other free => ?_⟩
      apply free.change (Event.unsubscribe_name context target)
      intro event listener member
      rw [Event.unsubscribe_remaining] at member
      exact .inl (List.mem_of_mem_filter member)
  | cleared name =>
      refine .inl ⟨rfl, fun other free => ?_⟩
      apply free.change
      · intro event
        rfl
      · intro event listener member
        exact absurd member List.not_mem_nil
  | @contextUnsubscribed context free =>
      refine .inr ⟨.contextUnsubscribed context, rfl, fun _ _ => id, ?_, nofun⟩
      rintro other ⟨⟩
      exact free
  | @listenerCalled name listener live =>
      refine .inr ⟨.listenerCalled name listener, rfl, fun _ _ => id, nofun, ?_⟩
      rintro otherName other ⟨⟩
      exact live
  | bodyEntered admitted =>
      exact .inr ⟨_, tells_of_same_bus rfl rfl nofun nofun⟩
  | remarked remark => exact .inr ⟨_, tells_remark remark⟩

/-- What the journal tells of unsubscribed contexts is so. -/
structure Detaching (world : World σ) : Prop where
  free : ∀ context, world.journal.Detached context → world.bus.IsFreeOf context
  uncalled : ∀ context earlier between later name listener,
    world.journal.happenings = earlier ++ .contextUnsubscribed context ::
      (between ++ .listenerCalled name listener :: later) →
    listener.context = context →
      ∃ happening ∈ between, happening.Binds context

namespace Detaching

theorem new (limits : Limits) (host : σ) : (World.new limits host).Detaching where
  free := by
    rintro context ⟨earlier, later, split, _⟩
    simp [World.new, Journal.happenings_empty] at split
  uncalled := by
    intro context earlier between later name listener split
    simp [World.new, Journal.happenings_empty] at split

theorem told (detaching : world.Detaching) (tells : Tells happening world after) :
    after.Detaching where
  free := by
    intro context detached
    rw [tells.journal] at detached
    rcases detached.of_add with unsubscribed | ⟨unbound, before⟩
    · exact tells.frees context unsubscribed
    · exact tells.keeps context unbound (detaching.free context before)
  uncalled := by
    rintro context earlier between later name listener split rfl
    -- Only a call that has just been told of is new.
    rw [tells.journal, ← List.cons_append, ← List.append_assoc] at split
    rcases Journal.split_add split with ⟨-, called, whole⟩ | ⟨before, -, whole⟩
    · by_contra unbound
      push Not at unbound
      have free := detaching.free listener.context ⟨earlier, between, whole, unbound⟩
      have live := tells.live name listener called
      rw [free.not_holds] at live
      cases live
    · rw [List.append_assoc, List.cons_append] at whole
      exact detaching.uncalled _ earlier between before name listener whole rfl

theorem change (detaching : world.Detaching) (ordered : world.Ordered)
    (change : World.Change world after) : after.Detaching := by
  rcases change.tells ordered.unique with ⟨journal, keeps⟩ | ⟨happening, tells⟩
  · constructor
    · intro context detached
      rw [journal] at detached
      exact keeps context (detaching.free context detached)
    · rw [journal]
      exact detaching.uncalled
  · exact detaching.told tells

end Detaching

theorem Reachable.detaching (reachable : world.Reachable) : world.Detaching := by
  have both : world.Ordered ∧ world.Detaching := by
    apply reachable.induct
    · exact fun limits host => ⟨.new limits host, .new limits host⟩
    · rintro before after change ⟨ordered, detaching⟩
      exact ⟨ordered.change change, detaching.change ordered change⟩
  exact both.2

/-- Once all events have lost the listeners of a context, every event is what it was
without them. -/
theorem Loses.events {context : ContextId}
    (loses : world.Loses context world.bus.registry.names after)
    (unique : world.bus.registry.Unique) :
    after.bus.registry.events =
      world.bus.registry.events.map (Event.without context) := by
  have stillUnique : after.bus.registry.Unique := by
    rw [Registry.Unique, loses.namesKept]
    exact unique
  have found : after.bus.registry.event? = fun name =>
      (world.bus.registry.event? name).map (Event.without context) :=
    funext loses.event?
  rw [stillUnique.events_eq, loses.namesKept, found, ← List.map_filterMap,
    ← unique.events_eq]

end World

namespace Bus

/-- How many listeners of all events are bound to a context. -/
def boundTo (context : ContextId) (bus : Bus) : Nat :=
  (bus.registry.events.flatMap Event.listeners).countP (·.context = context)

variable {bus : Bus} {context : ContextId}

theorem IsFreeOf.context_ne (free : bus.IsFreeOf context)
    (unique : bus.registry.Unique) {event : Event} (member : event ∈ bus.registry.events)
    {listener : Listener} (listed : listener ∈ event.listeners) :
    listener.context ≠ context := by
  have found : bus.event? event.name = some event := unique.event?_of_mem member
  apply free event.name
  simpa [listeners, found] using listed

theorem IsFreeOf.boundTo (free : bus.IsFreeOf context)
    (unique : bus.registry.Unique) : bus.boundTo context = 0 := by
  rw [Bus.boundTo, List.countP_eq_zero]
  intro listener member
  obtain ⟨event, eventMember, listed⟩ := List.mem_flatMap.mp member
  simpa using free.context_ne unique eventMember listed

/-- The listeners that unsubscribing counts and those that are left are all there
were. -/
theorem unsubscribe_boundTo (unique : bus.registry.Unique)
    (distinct : ∀ event ∈ bus.registry.events, Listener.Distinct event.listeners)
    (name : String) :
    (bus.unsubscribe name context .all).1 +
        (bus.unsubscribe name context .all).2.boundTo context =
      bus.boundTo context := by
  cases found : bus.event? name with
  | none => simp [unsubscribe, change_absent 0 found]
  | some event =>
      obtain ⟨before, after, whole, changed⟩ := @change_events _ bus name
        (Event.unsubscribe context .all) event 0 unique found
      have counted : (event.unsubscribe context .all).1 =
          event.listeners.countP (·.context = context) := by
        rw [Event.unsubscribe_eq (distinct event (Registry.event?_eq_some found).1)]
        rfl
      have left : (event.without context).listeners.countP
          (·.context = context) = 0 := by
        simp [Event.without, List.countP_eq_zero]
      rw [unsubscribe, boundTo, boundTo, whole, changed, change_found 0 found,
        counted, Event.unsubscribe_all]
      simp only [List.flatMap_append, List.flatMap_cons, List.countP_append, left]
      omega

end Bus

namespace Running

variable {world final : World σ} {context : ContextId}

/-- Going from event to event keeps the sum of what was counted and what is left. -/
theorem unsubscribeEach_boundTo {names : List String} {counts : List Nat}
    (ordered : world.Ordered)
    (removed : (names.mapM fun name => unsubscribe name context .all).run world =
      some (counts, final)) (start : Nat) :
    counts.foldl (· + ·) start + final.bus.boundTo context =
      start + world.bus.boundTo context := by
  induction names generalizing world counts start with
  | nil =>
      cases removed
      rfl
  | cons name names ih =>
      obtain ⟨middle, ran, left, _⟩ := unsubscribe_loses context name world
      rw [List.mapM_cons, StateT.run_bind, ran, Option.bind_eq_bind, Option.bind_some]
        at removed
      obtain ⟨later, last, others, answered⟩ := bind_run_eq_some_iff.mp removed
      cases answered
      have middleOrdered : middle.Ordered :=
        (ordered.extends (advances_unsubscribe name context .all _ _ _ ran)).1
      have first := @Bus.unsubscribe_boundTo world.bus context ordered.unique
        (fun event => ordered.distinct) name
      rw [List.foldl_cons, ih middleOrdered others, left]
      omega

/-- Unsubscribing a context counts all its listeners, takes them out, and tells. -/
theorem unsubscribeContext_complete (ordered : world.Ordered) (context : ContextId) :
    ∃ final noted,
      (unsubscribeContext context).run world =
          some (world.bus.boundTo context, final) ∧
        final.hub = { world.hub with bus := { world.bus with
          registry := ⟨world.bus.registry.events.map (Event.without context)⟩ } } ∧
        final.journal.happenings =
          world.journal.happenings ++ noted ++ [.contextUnsubscribed context] := by
  obtain ⟨counts, final, removed, ran, loses⟩ := unsubscribeContext_run context world
  have finalOrdered : final.Ordered := by
    have changes := Advances.mapM
      (fun name => advances_unsubscribe name context .all) _ world counts final removed
    exact (ordered.extends changes).1
  have nothing : final.bus.boundTo context = 0 :=
    (Bus.isFreeOf_of_without loses.event?).boundTo finalOrdered.unique
  have total := unsubscribeEach_boundTo ordered removed 0
  rw [nothing, Nat.add_zero, Nat.zero_add] at total
  obtain ⟨noted, told⟩ := loses.told
  refine ⟨final.noted (.contextUnsubscribed context), noted, ?_, ?_, ?_⟩
  · rw [ran, total]
  · rw [World.noted_hub, loses.hub, ← loses.events ordered.unique]
  · rw [World.noted_journal, Journal.happenings_add, told]

end Running

open Running

/-- In every state of every run unsubscribing a context answers how many listeners
of all events are bound to it, and leaves the same events with exactly the other
listeners, in their order.  From then on, until a listener bound to the context is
appended again, no dispatch calls one, whenever and at whatever depth it began: such
a listener is in no event, and where it is in the list that a dispatch started with
its turn is skipped. -/
theorem context_teardown_is_complete {world : World σ} (reachable : world.Reachable)
    (context : ContextId) :
    (∃ final noted,
      (unsubscribeContext context).run world =
          some ((world.bus.registry.events.flatMap Event.listeners).countP
            (·.context = context), final) ∧
        final.hub = { world.hub with bus := { world.bus with
          registry := ⟨world.bus.registry.events.map fun event =>
            { event with
              listeners := event.listeners.filter (·.context ≠ context) }⟩ } } ∧
        final.journal.happenings =
          world.journal.happenings ++ noted ++ [.contextUnsubscribed context]) ∧
    (∀ earlier between later name listener,
      world.journal.happenings = earlier ++ .contextUnsubscribed context ::
        (between ++ .listenerCalled name listener :: later) →
      listener.context = context →
        ∃ happening ∈ between, happening.Binds context) ∧
    (world.journal.Detached context →
      (∀ event ∈ world.bus.registry.events, ∀ listener ∈ event.listeners,
        listener.context ≠ context) ∧
      ∀ (caller : Caller σ) (supply : Supply) (name : String) (listener : Listener)
        (rest : List Listener) (asked : Nat), listener.context = context →
        (takeTurns caller supply name (listener :: rest) asked).run world =
          ((takeTurns caller supply name rest asked).run
              (world.noted (.listenerSkipped name listener))).map fun result =>
            (.skipped listener :: result.1, result.2)) := by
  have ordered := reachable.ordered
  have detaching := reachable.detaching
  refine ⟨unsubscribeContext_complete ordered context, detaching.uncalled context, ?_⟩
  intro detached
  have free := detaching.free context detached
  constructor
  · intro event member listener listed
    exact free.context_ne ordered.unique member listed
  · rintro caller supply name listener rest asked rfl
    exact takeTurns_skipped caller (free.not_holds name) rest

/-- A listener of context 1, which was appended after that context was unsubscribed,
unsubscribes context 2 while it is called.  The next listener in the list that the
dispatch started with is not called any more. -/
theorem context_torn_down_while_listeners_are_called :
    let first : Listener := ⟨⟨1⟩, ⟨1⟩, ⟨0⟩⟩
    let second : Listener := ⟨⟨1⟩, ⟨2⟩, ⟨1⟩⟩
    let teardown : Frame → Behaviour Unit := fun _ =>
      .perform (.unsubscribeContext ⟨2⟩) fun _ => .finish (.returns .null)
    let idle : Frame → Behaviour Unit := fun _ => .finish (.returns .null)
    let firing : Behaviour Unit :=
      .perform (.insert "e" (.ofTags []) [first, second]) fun _ =>
      .perform (.fire "e" []) fun _ => .finish (.returns .null)
    let behaviour : Behaviour Unit :=
      .perform (.createEngine "a") fun _ =>
      .perform (.createContext ⟨1⟩) fun _ =>
      .perform (.createContext ⟨1⟩) fun _ =>
      .define "f" teardown fun _ =>
      .define "g" idle fun _ =>
      .perform (.unsubscribeContext ⟨1⟩) fun _ => firing
    let whole : Event := ⟨"e", .ofTags [], [first, second]⟩
    let earlier : List Happening :=
      [.contextCreated "a" ⟨1⟩ ⟨1⟩, .contextCreated "a" ⟨1⟩ ⟨2⟩]
    let later : List Happening :=
      [.bodyEntered ⟨0⟩ first.scope, .contextListenersRemoved "e" ⟨2⟩ 1,
        .contextUnsubscribed ⟨2⟩, .listenerSkipped "e" second,
        .dispatchFinished "e" { invoked := 1 }]
    ∃ world : World Unit,
      (behaviour.run 2).run (World.new {} ()) = some (.returns .null, world) ∧
        world.Reachable ∧
        world.journal.happenings = earlier ++ .contextUnsubscribed ⟨1⟩ ::
          ([.eventInserted whole] ++ .listenerCalled "e" first :: later) ∧
        (∃ happening ∈ [Happening.eventInserted whole], happening.Binds ⟨1⟩) ∧
        (∃ final, (unsubscribeContext ⟨1⟩).run world = some (1, final)) ∧
        world.journal.Detached ⟨2⟩ ∧
        ∀ caller : Caller Unit,
          (takeTurns caller (Supply.given []) "e" [second] 0).run world =
            some ([.skipped second], world.noted (.listenerSkipped "e" second)) := by
  intro first second teardown idle firing behaviour whole earlier later
  let hub : Hub :=
    { Hub.new {} with
      engines := [⟨⟨1⟩, "a"⟩]
      contexts := [⟨⟨1⟩, ⟨1⟩, true, []⟩, ⟨⟨2⟩, ⟨1⟩, true, []⟩]
      numbered := 2 }
  let opened : World Unit :=
    ⟨hub, [.native "f" teardown, .native "g" idle], (), ⟨earlier.reverse⟩⟩
  let ready : World Unit :=
    ((opened.noted (.contextUnsubscribed ⟨1⟩)).withBus ⟨⟨[whole]⟩, {}⟩).noted
      (.eventInserted whole)
  let entered : World Unit :=
    (ready.noted (.listenerCalled "e" first)).noted (.bodyEntered ⟨0⟩ first.scope)
  let torn : World Unit :=
    ((entered.withBus ⟨⟨[{ whole with listeners := [first] }]⟩, {}⟩).noted
      (.contextListenersRemoved "e" ⟨2⟩ 1)).noted (.contextUnsubscribed ⟨2⟩)
  let world : World Unit :=
    (torn.noted (.listenerSkipped "e" second)).noted
      (.dispatchFinished "e" { invoked := 1 })
  have unnamed : opened.bus.registry.names = [] := List.mergeSort_nil
  have named : entered.bus.registry.names = ["e"] := List.mergeSort_singleton "e"
  have opens : (behaviour.run 2).run (World.new {} ()) =
      ((unsubscribeContext ⟨1⟩).run opened).bind fun result =>
        (firing.run 2).run result.2 := rfl
  have fires : (firing.run 2).run (opened.noted (.contextUnsubscribed ⟨1⟩)) =
      ((fire (invokeListener (Behaviour.run 1)) "e" []).run ready).bind
        fun result => some (.returns .null, result.2) := rfl
  have tears : (Behaviour.run 1 (teardown ⟨⟨1⟩, [], ⟨0⟩⟩)).run entered =
      some (.returns .null, torn) := by
    have performed : (Behaviour.run 1 (teardown ⟨⟨1⟩, [], ⟨0⟩⟩)).run entered =
        ((unsubscribeContext ⟨2⟩).run entered).bind
          fun result => some (.returns .null, result.2) := rfl
    rw [performed, unsubscribeContext_run_eq, named]
    rfl
  have called : (invokeListener (Behaviour.run 1) first []).run
      (ready.noted (.listenerCalled "e" first)) = some (.ok .null, torn) := by
    have admitted : World.admission (ready.noted (.listenerCalled "e" first)) first.scope
        first.engine first.callable = .ok ("f", teardown) := rfl
    rw [invokeListener, invoke_admitted admitted]
    change Option.map _ ((Behaviour.run 1 (teardown ⟨⟨1⟩, [], ⟨0⟩⟩)).run entered) = _
    rw [tears]
    rfl
  have ran : (behaviour.run 2).run (World.new {} ()) =
      some (.returns .null, world) := by
    have found : ready.bus.event? "e" = some ⟨"e", .ofTags [], [first, second]⟩ := rfl
    have live : ready.bus.holds "e" first = true := rfl
    have built : Supply.given [] 0 = (.ok [], 0) := rfl
    rw [opens, unsubscribeContext_run_eq, unnamed]
    change (firing.run 2).run (opened.noted (.contextUnsubscribed ⟨1⟩)) = _
    rw [fires, fire, dispatchNamed_found _ _ found, takeTurns_called _ live built,
      call_run, called]
    rfl
  have reachable : world.Reachable := World.reachable_of_run ran
  have detached : world.journal.Detached ⟨2⟩ := by
    refine ⟨earlier ++ [.contextUnsubscribed ⟨1⟩, .eventInserted whole,
        .listenerCalled "e" first, .bodyEntered ⟨0⟩ first.scope,
        .contextListenersRemoved "e" ⟨2⟩ 1],
      [.listenerSkipped "e" second, .dispatchFinished "e" { invoked := 1 }], rfl, ?_⟩
    intro happening member
    rcases List.mem_pair.mp member with rfl | rfl <;> exact id
  obtain ⟨⟨final, _, unsubscribed, _⟩, binds, _⟩ :=
    context_teardown_is_complete reachable ⟨1⟩
  obtain ⟨_, _, skips⟩ := context_teardown_is_complete reachable ⟨2⟩
  exact ⟨world, ran, reachable, rfl, binds earlier _ later "e" first rfl rfl,
    ⟨final, unsubscribed⟩, detached,
    fun caller => (skips detached).2 caller _ "e" second [] 0 rfl⟩

end CellBus
