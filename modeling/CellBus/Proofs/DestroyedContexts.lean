import CellBus.Proofs.ContextRecords

/-!
# Destroyed contexts

A context that was destroyed is gone for good.  No engine has it, it has no global
variables to show, it cannot be destroyed again, and whatever is to run under it is a
fault without a stack, also in dispatches and bodies that were under way.  Its listeners
stay where they are until they are unsubscribed, for the hub does not look at them.
-/

namespace CellBus

open Relation

variable {σ : Type}

namespace Bus

variable {bus : Bus} {name : String}

theorem listeners_change {α : Type} {step : Event → α × Event}
    (keepsName : ∀ event, (step event).2.name = event.name) (absent : α)
    (wanted : String) :
    (bus.change name absent step).2.listeners wanted =
      if wanted = name then
        ((bus.event? wanted).map fun event => (step event).2.listeners).getD []
      else bus.listeners wanted := by
  rw [listeners, event?_change keepsName]
  split
  · rw [Option.map_map]
    rfl
  · rfl

/-- A listener that is listed is listed in an event. -/
theorem mem_listeners_iff {listener : Listener} :
    listener ∈ bus.listeners name ↔
      ∃ event, bus.event? name = some event ∧ listener ∈ event.listeners := by
  rw [listeners]
  cases bus.event? name <;> simp

/-- One more event has a name that no other had. -/
theorem mem_listeners_extended {event : Event} {listener : Listener}
    (absent : bus.registry.contains event.name = false)
    (listed : listener ∈ bus.listeners name) :
    listener ∈ (bus.extended event).listeners name := by
  obtain ⟨found, known, member⟩ := mem_listeners_iff.mp listed
  have different : name ≠ event.name := by
    rintro rfl
    have missing : bus.event? event.name = none := by
      simpa [Registry.contains, event?] using absent
    rw [missing] at known
    cases known
  rw [mem_listeners_iff, event?_extended absent, if_neg different]
  exact ⟨found, known, member⟩

theorem mem_listeners_subscribe {listener added : Listener} {wanted : String}
    (listed : listener ∈ bus.listeners wanted) :
    listener ∈ (bus.subscribe name added).2.listeners wanted := by
  rw [subscribe, listeners_change fun event => Event.append_name event added]
  split
  · obtain ⟨event, known, member⟩ := mem_listeners_iff.mp listed
    rw [known, Option.map_some, Option.getD_some]
    unfold Event.append
    split
    · exact member
    · exact List.mem_append_left _ member
  · exact listed

/-- Who is taken out of a list by unsubscribing was named by the target. -/
theorem covered_of_unsubscribe {listener : Listener} {wanted : String}
    {context : ContextId} {target : Target} (listed : listener ∈ bus.listeners wanted)
    (gone : listener ∉ (bus.unsubscribe name context target).2.listeners wanted) :
    wanted = name ∧ target.covers context listener = true := by
  rw [unsubscribe, listeners_change (Event.unsubscribe_name context target)] at gone
  split at gone
  · rename_i same
    refine ⟨same, ?_⟩
    obtain ⟨event, known, member⟩ := mem_listeners_iff.mp listed
    rw [known, Option.map_some, Option.getD_some, Event.unsubscribe_remaining] at gone
    by_contra uncovered
    apply gone
    rw [Bool.not_eq_true] at uncovered
    simp [member, uncovered]
  · exact absurd listed gone

theorem cleared_of_clear {listener : Listener} {wanted : String}
    (listed : listener ∈ bus.listeners wanted)
    (gone : listener ∉ (bus.clear name).listeners wanted) : wanted = name := by
  by_contra different
  rw [clear, listeners_change (fun _ => rfl), if_neg different] at gone
  exact gone listed

end Bus

namespace World

variable {world middle after later : World σ} {name : String} {listener : Listener}

/-- A step takes a listener out of the list of an event: the listener is unsubscribed,
or the event is cleared. -/
def Drops (name : String) (listener : Listener) (world after : World σ) : Prop :=
  (∃ target : Target, target.covers listener.context listener = true ∧
    after = world.withBus (world.bus.unsubscribe name listener.context target).2) ∨
  after = world.withBus (world.bus.clear name)

/-- No other elementary change takes a listener out of a list. -/
theorem Change.drops (change : World.Change world after)
    (listed : listener ∈ world.bus.listeners name)
    (gone : listener ∉ after.bus.listeners name) : world.Drops name listener after := by
  cases change with
  | engineCreated | contextCreated | contextReserved | globalSet | functionAdded
  | hostStored | contextUnsubscribed | listenerCalled | bodyEntered | remarked =>
      exact absurd listed gone
  | @contextDestroyed engine context existing =>
      have kept : (world.hub.destroyContext engine context).2.bus = world.bus :=
        Hub.destroyContext_bus engine context world.hub
      change listener ∉ (world.hub.destroyContext engine context).2.bus.listeners name at gone
      rw [kept] at gone
      exact absurd listed gone
  | eventRegistered registered =>
      obtain ⟨_, _, inserted⟩ := Bus.register_eq_ok registered
      obtain ⟨registry, accepted, _⟩ := Bus.insert_eq_ok inserted
      obtain rfl := Bus.insert_eq_extended inserted
      have absent := (Registry.insert_eq_ok accepted).1
      exact absurd (Bus.mem_listeners_extended absent listed) gone
  | eventInserted distinct inserted =>
      obtain ⟨registry, accepted, _⟩ := Bus.insert_eq_ok inserted
      obtain rfl := Bus.insert_eq_extended inserted
      have absent := (Registry.insert_eq_ok accepted).1
      exact absurd (Bus.mem_listeners_extended absent listed) gone
  | listenerAdded added => exact absurd (Bus.mem_listeners_subscribe listed) gone
  | listenerIgnored ignored => exact absurd (Bus.mem_listeners_subscribe listed) gone
  | unsubscribed other context target =>
      obtain ⟨rfl, covered⟩ := Bus.covered_of_unsubscribe listed gone
      obtain rfl := Target.covers_context covered
      exact .inl ⟨target, covered, rfl⟩
  | cleared other =>
      obtain rfl := Bus.cleared_of_clear listed gone
      exact .inr rfl

/-- A listener stays in the list of an event until a step takes it out. -/
theorem Changes.drops (changes : world.Changes later)
    (listed : listener ∈ world.bus.listeners name)
    (gone : listener ∉ later.bus.listeners name) :
    ∃ middle after, world.Changes middle ∧ listener ∈ middle.bus.listeners name ∧
      middle.Drops name listener after ∧ after.Changes later := by
  induction changes with
  | refl => exact absurd listed gone
  | @tail before last earlier change ih =>
      by_cases still : listener ∈ before.bus.listeners name
      · exact ⟨before, last, earlier, still, change.drops still gone, .refl⟩
      · obtain ⟨middle, after, reached, present, drops, rest⟩ := ih still
        exact ⟨middle, after, reached, present, drops, rest.tail change⟩

/-- No engine has the context, and whatever is asked of one for the context is answered
so: nothing is destroyed, nothing runs, and a listener that a dispatch calls is at
fault. -/
structure Dead (context : ContextId) (world : World σ) : Prop where
  absent : ∀ engine, world.hub.hasContext engine context = false
  noGlobals : ∀ engine, world.hub.globals? engine context = none
  stays : ∀ engine,
    (Running.destroyContext engine context).run world = some (false, world)
  faults : ∀ (runner : Runner σ) scope engine callable arguments,
    scope.context = context → ∃ fault,
      (Running.invoke runner scope engine callable arguments).run world =
        some (.error fault, world) ∧ fault.stack = none
  calls : ∀ (runner : Runner σ) name listener arguments,
    listener.context = context → ∃ fault,
      (Running.call (Running.invokeListener runner) name listener arguments).run world =
        some (.error fault, (world.noted (.listenerCalled name listener)).noted
          (.exceptionThrown name listener fault))

theorem exists_refusal {scope : Scope}
    (absent : ∀ engine, world.hub.hasContext engine scope.context = false)
    (engine : EngineId) (callable : Callable) :
    ∃ fault, world.admission scope engine callable = .error fault ∧ fault.stack = none := by
  unfold World.admission
  split
  · exact ⟨_, rfl, rfl⟩
  · split
    · exact ⟨_, rfl, rfl⟩
    · rw [absent engine]
      exact ⟨_, rfl, rfl⟩

theorem Accords.dead (accords : world.Accords) {engine : EngineId} {context : ContextId}
    (destroyed : .contextDestroyed engine context ∈ world.journal.happenings) :
    world.Dead context := by
  have absent : ∀ other, world.hub.hasContext other context = false := by
    intro other
    rw [← Bool.not_eq_true, Hub.hasContext_eq_true_iff,
      accords.ended engine context destroyed]
    simp
  refine ⟨absent, ?_, ?_, ?_, ?_⟩
  · intro other
    rw [Hub.globals?, absent other]
    rfl
  · intro other
    rw [Running.destroyContext_run, absent other]
    rfl
  · rintro runner scope other callable arguments rfl
    obtain ⟨fault, refused, unstacked⟩ := exists_refusal absent other callable
    exact ⟨fault, Running.invoke_refused refused arguments, unstacked⟩
  · rintro runner name listener arguments rfl
    obtain ⟨fault, refused, _⟩ := @exists_refusal σ
      (world.noted (.listenerCalled name listener)) listener.scope absent listener.engine
      listener.callable
    refine ⟨fault, ?_⟩
    rw [Running.call_run, Running.invokeListener, Running.invoke_refused refused]
    rfl

/-- The journal only grows, and stays in accord with the contexts. -/
theorem Accords.changes (accords : world.Accords) (changes : world.Changes later) :
    later.Accords ∧ world.journal.happenings <+: later.journal.happenings := by
  refine ⟨?_, changes.journal_grows⟩
  induction changes with
  | refl => exact accords
  | tail _ change ih => exact ih.change change

end World

open Running

/-- In every state of every run:  No number was given to two contexts, and the next one
is new.  A context that exists was created, and by no other engine than the one it
exists on.  A new context has no global variables.  Destroying a context tells whether
it existed, and where it did the bus stays as it is; from then on, in every state that
any steps lead to, the context is dead, and so it is in every state whose journal tells
that it was destroyed.  No body starts to run under it after that place of the journal.
A listener, bound to it or to any other context, leaves the list of an event only by
being unsubscribed or when the event is cleared. -/
theorem destroyed_contexts_stay_dead {world : World σ} (reachable : world.Reachable) :
    world.journal.numbered.Nodup ∧
    (∀ engine context, world.hub.hasContext engine context = true →
      (∃ name, .contextCreated name engine context ∈ world.journal.happenings) ∧
        ∀ name other, .contextCreated name other context ∈ world.journal.happenings →
          other = engine) ∧
    (∀ engine, ∃ context after,
      (createContext engine).run world = some (context, after) ∧
        context ∉ world.journal.numbered ∧
        after.journal.numbered = world.journal.numbered ++ [context] ∧
        after.hub.globals? engine context = some []) ∧
    (∃ context after,
      (reserveContext : Running σ ContextId).run world = some (context, after) ∧
        context ∉ world.journal.numbered ∧
        after.journal.numbered = world.journal.numbered ++ [context]) ∧
    (∀ engine context, ∃ answer after,
      (destroyContext engine context).run world = some (answer, after) ∧
        (answer = true ↔ world.hub.hasContext engine context = true) ∧
        (answer = true → after.bus = world.bus ∧
          after.journal.happenings =
            world.journal.happenings ++ [.contextDestroyed engine context] ∧
          ∀ later, after.Changes later → later.Dead context) ∧
        (answer = false → after = world)) ∧
    (∀ engine context,
      .contextDestroyed engine context ∈ world.journal.happenings →
        world.Dead context) ∧
    (∀ engine context earlier later callable scope,
      world.journal.happenings = earlier ++ .contextDestroyed engine context :: later →
      .bodyEntered callable scope ∈ later → scope.context ≠ context) ∧
    ∀ later name listener, world.Changes later →
      listener ∈ world.bus.listeners name → listener ∉ later.bus.listeners name →
        ∃ middle after, world.Changes middle ∧ listener ∈ middle.bus.listeners name ∧
          middle.Drops name listener after ∧ after.Changes later := by
  have accords := reachable.accords
  have unnumbered := accords.nextContext_unnumbered
  refine ⟨?_, ?_, ?_, ?_, ?_, fun _ _ => accords.dead, accords.quiet,
    fun _ _ _ changes => changes.drops⟩
  · rw [accords.numbers]
    exact List.nodup_range.map fun _ _ same => Nat.succ.inj (congrArg ContextId.number same)
  · intro engine context existing
    have recorded := Hub.hasContext_eq_true_iff.mp existing
    refine ⟨accords.created context engine true recorded, ?_⟩
    intro name other told
    obtain ⟨live, alsoRecorded⟩ := accords.recorded name other context told
    rw [recorded] at alsoRecorded
    cases alsoRecorded
    rfl
  · intro engine
    refine ⟨_, _, createContext_run engine world, unnumbered, ?_, ?_⟩
    · rw [World.noted_journal, Journal.numbered_add]
      rfl
    · exact Hub.globals?_createContext accords.nextContext_unused engine
  · exact ⟨_, _, reserveContext_run world, unnumbered, Journal.numbered_add _ _⟩
  · intro engine context
    rw [destroyContext_run]
    by_cases existing : world.hub.hasContext engine context = true
    · rw [if_pos existing]
      have change := World.Change.contextDestroyed existing
      refine ⟨true, _, rfl, by simp [existing], ?_, nofun⟩
      intro _
      refine ⟨Hub.destroyContext_bus engine context world.hub,
        Journal.happenings_add _ _, ?_⟩
      intro later changes
      obtain ⟨laterAccords, grown⟩ := (accords.change change).changes changes
      apply laterAccords.dead
      apply grown.mem
      rw [World.noted_journal, Journal.happenings_add]
      exact List.mem_append_right _ (List.mem_singleton_self _)
    · rw [if_neg existing]
      exact ⟨false, world, rfl, by simp [existing], nofun, fun _ => rfl⟩

/-- A listener destroys its own context while it is called, and then asks for itself to
be run again.  It is not; it stays subscribed, and the next context starts without the
variable that the destroyed one had. -/
theorem context_destroyed_by_its_own_listener :
    let scope : Scope := ⟨⟨1⟩, ⟨1⟩⟩
    let listener : Listener := ⟨⟨1⟩, ⟨1⟩, ⟨0⟩⟩
    let body : Frame → Behaviour Unit := fun _ =>
      .perform (.destroyContext ⟨1⟩ ⟨1⟩) fun _ =>
      .perform (.invoke scope ⟨1⟩ ⟨0⟩ []) fun _ => .finish (.returns .null)
    let firing : Behaviour Unit :=
      .perform (.fire "e" []) fun _ => .finish (.returns .null)
    let behaviour : Behaviour Unit :=
      .perform (.createEngine "a") fun engine =>
      .perform (.createContext engine) fun context =>
      .perform (.setGlobal context "x" (.int 1)) fun _ =>
      .define "f" body fun _ =>
      .perform (.insert "e" (.ofTags []) [listener]) fun _ => firing
    let event : Event := ⟨"e", .ofTags [], [listener]⟩
    let earlier : List Happening :=
      [.contextCreated "a" ⟨1⟩ ⟨1⟩, .eventInserted event, .listenerCalled "e" listener,
        .bodyEntered ⟨0⟩ scope]
    let later : List Happening := [.dispatchFinished "e" { invoked := 1 }]
    let hub : Hub :=
      ⟨⟨⟨[event]⟩, {}⟩, [⟨⟨1⟩, "a"⟩], [⟨⟨1⟩, ⟨1⟩, false, [("x", .int 1)]⟩], 1⟩
    let world : World Unit := ⟨hub, [.native "f" body], (),
      ⟨(earlier ++ .contextDestroyed ⟨1⟩ ⟨1⟩ :: later).reverse⟩⟩
    (behaviour.run 2).run (World.new {} ()) = some (.returns .null, world) ∧
      world.Reachable ∧ world.Dead ⟨1⟩ ∧
      (∀ callable scope, .bodyEntered callable scope ∈ later → scope.context ≠ ⟨1⟩) ∧
      world.bus.listeners "e" = [listener] ∧
      ∃ after, (createContext ⟨1⟩).run world = some (⟨2⟩, after) ∧
        after.hub.globals? ⟨1⟩ ⟨2⟩ = some [] := by
  intro scope listener body firing behaviour event earlier later hub world
  let living : Hub :=
    ⟨⟨⟨[event]⟩, {}⟩, [⟨⟨1⟩, "a"⟩], [⟨⟨1⟩, ⟨1⟩, true, [("x", .int 1)]⟩], 1⟩
  let ready : World Unit := ⟨living, [.native "f" body], (),
    ⟨[.eventInserted event, .contextCreated "a" ⟨1⟩ ⟨1⟩]⟩⟩
  have opens : (behaviour.run 2).run (World.new {} ()) = (firing.run 2).run ready := by
    rfl
  have fires : (firing.run 2).run ready = some (.returns .null, world) := by
    rfl
  have ran := opens.trans fires
  have reachable : world.Reachable := World.reachable_of_run ran
  obtain ⟨_, _, creates, _, _, dead, quiet, _⟩ := destroyed_contexts_stay_dead reachable
  obtain ⟨context, after, created, _, _, empty⟩ := creates ⟨1⟩
  have whole : world.journal.happenings =
      earlier ++ .contextDestroyed ⟨1⟩ ⟨1⟩ :: later := rfl
  have destroyed : .contextDestroyed ⟨1⟩ ⟨1⟩ ∈ world.journal.happenings := by
    rw [whole]
    exact List.mem_append_right _ (List.mem_cons_self ..)
  rw [createContext_run] at created
  cases created
  exact ⟨ran, reachable, dead _ _ destroyed,
    fun callable scope => quiet _ _ earlier later callable scope whole, rfl, _, rfl, empty⟩

end CellBus
