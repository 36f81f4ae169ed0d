import CellBus.Proofs.AppendOrder
import CellBus.Proofs.ByteOrder
import CellBus.Proofs.SignatureTexts

/-!
# Registrations

The journal tells which events were registered, in whichever way.  In every state
of every run the registry has exactly those, in their order and with the
signatures they were registered with, so it only ever grows at its end.  A
registration fails where the name is taken or the signature has a character that
is no tag, and then leaves everything as it was.
-/

namespace CellBus

open Relation

variable {σ : Type}

/-- The name and the signature with which a happening says an event was
registered.  Where it tells a text, the signature is what the text is parsed as. -/
def Happening.registered : Happening → List (String × Except SignatureError Signature)
  | .eventRegistered name signature => [(name, Signature.parse signature)]
  | .eventInserted event => [(event.name, .ok event.signature)]
  | _ => []

/-- Every registration that succeeded, in order. -/
def Journal.registered (journal : Journal) :
    List (String × Except SignatureError Signature) :=
  journal.happenings.flatMap Happening.registered

theorem Happening.registered_parsed {name signature : String} {parsed : Signature}
    (read : Signature.parse signature = .ok parsed) :
    (eventRegistered name signature).registered =
      [((Event.new name parsed).name, .ok (Event.new name parsed).signature)] := by
  rw [registered, read]
  rfl

theorem Journal.registered_add (happening : Happening) (journal : Journal) :
    (journal.add happening).registered =
      journal.registered ++ happening.registered := by
  simp [Journal.registered]

theorem Happening.IsRemark.registered {happening : Happening}
    (remark : happening.IsRemark) : happening.registered = [] := by
  cases happening <;> first | rfl | exact remark.elim

namespace Registry

variable {registry : Registry} {name signature : String}

/-- The names of the events with their signatures, in the order of registration. -/
def entries (registry : Registry) : List (String × Signature) :=
  registry.events.map fun event => (event.name, event.signature)

theorem find?_entries (registry : Registry) (name : String) :
    registry.entries.find? (·.1 = name) =
      (registry.event? name).map fun event => (event.name, event.signature) := by
  rw [entries, List.find?_map, event?]
  rfl

theorem contains_eq_true_iff :
    registry.contains name = true ↔ name ∈ registry.events.map Event.name := by
  simp [contains, event?]

theorem exists_event?_iff :
    (∃ event, registry.event? name = some event) ↔ registry.contains name = true := by
  rw [contains, Option.isSome_iff_exists]

theorem register_taken (taken : registry.contains name = true) :
    registry.register name signature = .error (.alreadyRegistered name) := by
  rw [register, if_pos taken]
  rfl

theorem register_unparsed {error : SignatureError}
    (absent : registry.contains name = false)
    (unparsed : Signature.parse signature = .error error) :
    registry.register name signature = .error (.signature error) := by
  rw [register, absent, unparsed]
  rfl

theorem insert_absent {event : Event} (absent : registry.contains event.name = false) :
    registry.insert event = .ok ⟨registry.events ++ [event]⟩ := by
  simp [insert, absent]

theorem register_parsed {parsed : Signature}
    (absent : registry.contains name = false)
    (read : Signature.parse signature = .ok parsed) :
    registry.register name signature =
      .ok (Event.new name parsed, ⟨registry.events ++ [Event.new name parsed]⟩) := by
  have inserted : registry.insert (Event.new name parsed) = _ := insert_absent absent
  simp [register, absent, read, inserted, Except.mapError, bind, Except.bind, pure,
    Except.pure]

theorem names_perm (registry : Registry) :
    registry.names.Perm (registry.events.map Event.name) :=
  List.mergeSort_perm _ _

/-- Sorted names that are all different increase strictly. -/
theorem Unique.names_increase (unique : registry.Unique) :
    registry.names.Pairwise (· < ·) := by
  have transitive : ∀ left middle right : String, decide (left ≤ middle) = true →
      decide (middle ≤ right) = true → decide (left ≤ right) = true := by
    intro left middle right first second
    rw [decide_eq_true_iff] at first second ⊢
    exact String.le_trans first second
  have total : ∀ left right : String,
      (decide (left ≤ right) || decide (right ≤ left)) = true := by
    intro left right
    simpa using String.le_total left right
  have sorted : registry.names.Pairwise (· ≤ ·) :=
    (List.pairwise_mergeSort transitive total _).imp of_decide_eq_true
  have different : registry.names.Nodup := (names_perm registry).nodup_iff.mpr unique
  exact sorted.imp₂ (fun _ _ before other => Std.lt_of_le_of_ne before other) different

end Registry

namespace Bus

variable {α : Type} {bus : Bus} {name signature : String}

/-- The bus with one more event behind the others. -/
def extended (event : Event) (bus : Bus) : Bus :=
  { bus with registry := ⟨bus.registry.events ++ [event]⟩ }

theorem event?_extended {event : Event}
    (absent : bus.registry.contains event.name = false) (wanted : String) :
    (bus.extended event).event? wanted =
      if wanted = event.name then some event else bus.event? wanted := by
  rw [event?, extended, Registry.event?, List.find?_append]
  split
  · rename_i same
    have missing : bus.registry.events.find? (·.name = wanted) = none := by
      rw [same]
      simpa [Registry.contains, Registry.event?] using absent
    rw [missing]
    simp [same]
  · rename_i different
    simp [Ne.symm different, event?, Registry.event?]

theorem register_taken (taken : bus.registry.contains name = true) :
    bus.register name signature = .error (.alreadyRegistered name) := by
  rw [register, Registry.register_taken taken]
  rfl

theorem register_unparsed {error : SignatureError}
    (absent : bus.registry.contains name = false)
    (unparsed : Signature.parse signature = .error error) :
    bus.register name signature = .error (.signature error) := by
  rw [register, Registry.register_unparsed absent unparsed]
  rfl

theorem register_parsed {parsed : Signature}
    (absent : bus.registry.contains name = false)
    (read : Signature.parse signature = .ok parsed) :
    bus.register name signature =
      .ok (Event.new name parsed, bus.extended (Event.new name parsed)) := by
  rw [register, Registry.register_parsed absent read]
  rfl

theorem insert_taken {event : Event}
    (taken : bus.registry.contains event.name = true) :
    bus.insert event = .error (.alreadyRegistered event.name) := by
  simp [insert, Registry.insert, taken, bind, Except.bind]

theorem insert_absent {event : Event}
    (absent : bus.registry.contains event.name = false) :
    bus.insert event = .ok (bus.extended event) := by
  rw [insert, Registry.insert_absent absent]
  rfl

theorem insert_eq_extended {event : Event} {inserted : Bus}
    (accepted : bus.insert event = .ok inserted) : inserted = bus.extended event := by
  cases known : bus.registry.contains event.name with
  | true =>
      rw [insert_taken known] at accepted
      cases accepted
  | false =>
      rw [insert_absent known] at accepted
      cases accepted
      rfl

theorem register_eq_extended {event : Event} {registered : Bus}
    (accepted : bus.register name signature = .ok (event, registered)) :
    event.name = name ∧ Signature.parse signature = .ok event.signature ∧
      registered = bus.extended event := by
  cases known : bus.registry.contains name with
  | true =>
      rw [register_taken known] at accepted
      cases accepted
  | false =>
      cases read : Signature.parse signature with
      | error error =>
          rw [register_unparsed known read] at accepted
          cases accepted
      | ok parsed =>
          rw [register_parsed known read] at accepted
          cases accepted
          exact ⟨rfl, rfl, rfl⟩

theorem change_entries {step : Event → α × Event} (unique : bus.registry.Unique)
    (keepsName : ∀ event, (step event).2.name = event.name)
    (keepsSignature : ∀ event, (step event).2.signature = event.signature)
    (absent : α) :
    (bus.change name absent step).2.registry.entries = bus.registry.entries := by
  cases found : bus.event? name with
  | none => rw [change_absent absent found]
  | some event =>
      obtain ⟨eventMember, eventNamed⟩ := Registry.event?_eq_some found
      rw [change_found absent found, Registry.entries, Registry.entries, List.map_map]
      apply List.map_congr_left
      intro other otherMember
      simp only [Function.comp_apply]
      split
      · rename_i sameName
        have same : other = event :=
          unique.eq_of_name otherMember eventMember (sameName.trans eventNamed.symm)
        rw [keepsName, keepsSignature, same]
      · rfl

end Bus

namespace World

/-- How an entry of the registry reads in the journal. -/
def written (entry : String × Signature) : String × Except SignatureError Signature :=
  (entry.1, .ok entry.2)

/-- The later registry has more entries at its end at most, and the journal tells
of exactly those. -/
def Extends (world later : World σ) : Prop :=
  ∃ added,
    later.bus.registry.entries = world.bus.registry.entries ++ added ∧
      later.journal.registered = world.journal.registered ++ added.map written

variable {world middle later : World σ}

theorem extends_of_same (sameEntries : later.bus.registry.entries = world.bus.registry.entries)
    (sameJournal : later.journal.registered = world.journal.registered) :
    world.Extends later :=
  ⟨[], by simp [sameEntries], by simp [sameJournal]⟩

theorem extends_withBus {bus : Bus}
    (sameEntries : bus.registry.entries = world.bus.registry.entries) :
    world.Extends (world.withBus bus) :=
  extends_of_same sameEntries rfl

theorem Extends.trans (first : world.Extends middle) (second : middle.Extends later) :
    world.Extends later := by
  obtain ⟨earlier, entries, journal⟩ := first
  obtain ⟨added, laterEntries, laterJournal⟩ := second
  refine ⟨earlier ++ added, ?_, ?_⟩
  · rw [laterEntries, entries, List.append_assoc]
  · rw [laterJournal, journal, List.map_append, List.append_assoc]

theorem extends_noted {happening : Happening} (silent : happening.registered = [])
    (extension : world.Extends later) : world.Extends (later.noted happening) := by
  apply extension.trans
  apply extends_of_same
  · rfl
  · rw [noted_journal, Journal.registered_add, silent, List.append_nil]

theorem extends_extended {event : Event} {happening : Happening}
    (tells : happening.registered = [(event.name, .ok event.signature)]) :
    world.Extends ((world.withBus (world.bus.extended event)).noted happening) := by
  refine ⟨[(event.name, event.signature)], ?_, ?_⟩
  · simp [Bus.extended, Registry.entries]
  · rw [noted_journal, Journal.registered_add, tells]
    rfl

/-- An elementary change registers an event, which the journal then tells, or
leaves names and signatures as they are. -/
theorem Change.extends (change : World.Change world later)
    (unique : world.bus.registry.Unique) : world.Extends later := by
  have same : world.Extends world := extends_of_same rfl rfl
  cases change with
  | engineCreated name => exact extends_of_same rfl rfl
  | contextCreated engine => exact extends_noted rfl (extends_of_same rfl rfl)
  | contextReserved => exact extends_noted rfl (extends_of_same rfl rfl)
  | @contextDestroyed engine context existing =>
      have kept : (world.withHub (world.hub.destroyContext engine context).2).bus =
          world.bus := Hub.destroyContext_bus engine context world.hub
      have sameBus :
          world.Extends (world.withHub (world.hub.destroyContext engine context).2) :=
        extends_of_same (by rw [kept]) rfl
      exact extends_noted rfl sameBus
  | globalSet context key value => exact extends_of_same rfl rfl
  | functionAdded function => exact extends_of_same rfl rfl
  | hostStored host => exact extends_of_same rfl rfl
  | eventRegistered registered =>
      obtain ⟨named, read, rfl⟩ := Bus.register_eq_extended registered
      apply extends_extended
      rw [Happening.registered, named, read]
  | eventInserted distinct inserted =>
      obtain rfl := Bus.insert_eq_extended inserted
      exact extends_extended rfl
  | listenerAdded added =>
      apply extends_noted rfl
      apply extends_withBus
      exact Bus.change_entries unique (fun event => Event.append_name event _)
        (fun event => Event.append_signature event _) false
  | listenerIgnored ignored =>
      rw [Bus.subscribe_refused unique ignored]
      exact extends_of_same rfl rfl
  | unsubscribed name context target =>
      apply extends_withBus
      apply Bus.change_entries unique (Event.unsubscribe_name context target)
      intro event
      rw [Event.unsubscribe_remaining]
  | cleared name =>
      apply extends_withBus
      exact Bus.change_entries unique (fun _ => rfl) (fun _ => rfl) ()
  | contextUnsubscribed free => exact extends_noted rfl same
  | listenerCalled live => exact extends_noted rfl same
  | bodyEntered admitted => exact extends_noted rfl same
  | remarked remark => exact extends_noted remark.registered same

theorem Ordered.extends (ordered : world.Ordered) (changes : world.Changes later) :
    later.Ordered ∧ world.Extends later := by
  induction changes with
  | refl => exact ⟨ordered, extends_of_same rfl rfl⟩
  | tail _ change ih =>
      obtain ⟨middleOrdered, extension⟩ := ih
      exact ⟨middleOrdered.change change,
        extension.trans (change.extends middleOrdered.unique)⟩

/-- The registry has what the journal tells was registered, in the same order. -/
theorem Reachable.registered (reachable : world.Reachable) :
    world.journal.registered = world.bus.registry.entries.map written := by
  obtain ⟨limits, host, changes⟩ := reachable.changes
  obtain ⟨_, added, entries, journal⟩ := (Ordered.new limits host).extends changes
  have none : (World.new limits host).bus.registry.entries = [] := rfl
  have untold : (World.new limits host).journal.registered = [] := rfl
  rw [none, List.nil_append] at entries
  rw [journal, untold, List.nil_append, entries]

end World

/-- An event is still found, and with its signature, when others were added. -/
theorem Registry.event?_of_prefix {registry later : Registry} {name : String}
    {event : Event} (grown : registry.entries <+: later.entries)
    (found : registry.event? name = some event) :
    ∃ kept, later.event? name = some kept ∧ kept.name = name ∧
      kept.signature = event.signature := by
  obtain ⟨added, whole⟩ := grown
  have inEntries := find?_entries registry name
  rw [found, Option.map_some] at inEntries
  have inLater := find?_entries later name
  rw [← whole, List.find?_append, inEntries, Option.some_or, eq_comm,
    Option.map_eq_some_iff] at inLater
  obtain ⟨kept, keptFound, same⟩ := inLater
  obtain ⟨sameName, sameSignature⟩ := Prod.mk.inj same
  exact ⟨kept, keptFound, sameName.trans (event?_eq_some found).2, sameSignature⟩

/-- One more event is there, as the journal tells, and nothing else has changed. -/
structure World.Gains (event : Event) (world final : World σ) : Prop where
  hub : final.hub = { world.hub with bus := world.bus.extended event }
  found : final.bus.event? event.name = some event
  others : ∀ name, name ≠ event.name → final.bus.event? name = world.bus.event? name
  told : final.journal.registered =
    world.journal.registered ++ [(event.name, .ok event.signature)]

theorem World.gains_extended {world : World σ} {event : Event} {happening : Happening}
    (absent : world.bus.registry.contains event.name = false)
    (tells : happening.registered = [(event.name, .ok event.signature)]) :
    world.Gains event
      ((world.withBus (world.bus.extended event)).noted happening) where
  hub := rfl
  found := by
    rw [noted_bus, withBus_bus, Bus.event?_extended absent, if_pos rfl]
  others := by
    intro name different
    rw [noted_bus, withBus_bus, Bus.event?_extended absent, if_neg different]
  told := by
    rw [noted_journal, Journal.registered_add, tells, withBus_journal]

namespace Running

variable {world : World σ} {name signature : String}

theorem tryRegister_taken (taken : world.bus.registry.contains name = true) :
    (tryRegister name signature).run world =
      some (.error (.alreadyRegistered name), world) := by
  rw [tryRegister_run, Bus.register_taken taken]

theorem tryRegister_unparsed {error : SignatureError}
    (absent : world.bus.registry.contains name = false)
    (unparsed : Signature.parse signature = .error error) :
    (tryRegister name signature).run world =
      some (.error (.signature error), world) := by
  rw [tryRegister_run, Bus.register_unparsed absent unparsed]

theorem tryRegister_parsed {parsed : Signature}
    (absent : world.bus.registry.contains name = false)
    (read : Signature.parse signature = .ok parsed) :
    ∃ final,
      (tryRegister name signature).run world =
        some (.ok (Event.new name parsed), final) ∧
      world.Gains (Event.new name parsed) final := by
  rw [tryRegister_run, Bus.register_parsed absent read]
  exact ⟨_, rfl, World.gains_extended absent (Happening.registered_parsed read)⟩

/-- Registering tells whether it registered an event, and otherwise leaves
everything but the log as it is. -/
theorem register_answers (world : World σ) (name signature : String) :
    ∃ answer final,
      (register name signature).run world = some (answer, final) ∧
        (answer = true ↔ world.bus.registry.contains name = false ∧
          ∃ parsed, Signature.parse signature = .ok parsed) ∧
        (∀ parsed, answer = true → Signature.parse signature = .ok parsed →
          world.Gains (Event.new name parsed) final) ∧
        (answer = false → final.hub = world.hub ∧
          final.journal.registered = world.journal.registered) := by
  have unchanged : ∀ error,
      (world.noted (.registrationRejected name error)).hub = world.hub ∧
        (world.noted (.registrationRejected name error)).journal.registered =
          world.journal.registered := by
    intro error
    refine ⟨rfl, ?_⟩
    rw [World.noted_journal, Journal.registered_add]
    exact List.append_nil _
  rw [register_run]
  cases known : world.bus.registry.contains name with
  | true =>
      rw [Bus.register_taken known]
      refine ⟨false, _, rfl, by simp, by simp, fun _ => unchanged _⟩
  | false =>
      cases read : Signature.parse signature with
      | error error =>
          rw [Bus.register_unparsed known read]
          refine ⟨false, _, rfl, by simp, by simp, fun _ => unchanged _⟩
      | ok parsed =>
          rw [Bus.register_parsed known read]
          refine ⟨true, _, rfl, by simp, ?_, by simp⟩
          intro found _ same
          cases same
          exact World.gains_extended known (Happening.registered_parsed read)

theorem insert_taken {event : Event}
    (taken : world.bus.registry.contains event.name = true) :
    (insert event).run world =
      some (.error (.alreadyRegistered event.name), world) := by
  rw [insert_run, Bus.insert_taken taken]

theorem insert_absent {event : Event}
    (absent : world.bus.registry.contains event.name = false) :
    ∃ final, (insert event).run world = some (.ok event, final) ∧
      world.Gains event final := by
  rw [insert_run, Bus.insert_absent absent]
  exact ⟨_, rfl, World.gains_extended absent rfl⟩

end Running

open Running

/-- In every state of every run no two events have one name, the registry has just
the events that were registered so far, and none of them is ever removed, replaced
or given another signature.  A registration succeeds exactly when the name is free
and the signature is made of tags, where the name is looked at first; inserting an
event asks for a free name only.  It adds the one event or leaves everything as it
was.  The names come in the order of their bytes, and there are as many as
registrations succeeded. -/
theorem registry_is_permanent_and_unique {world : World σ}
    (reachable : world.Reachable) :
    world.bus.registry.Unique ∧
    (∀ name event, world.bus.event? name = some event →
      event ∈ world.bus.registry.events ∧ event.name = name) ∧
    world.journal.registered = world.bus.registry.entries.map World.written ∧
    (∀ behaviour later, Behaviour.Visits behaviour world later →
      world.bus.registry.entries <+: later.bus.registry.entries ∧
        world.journal.registered <+: later.journal.registered ∧
        ∀ name event, world.bus.event? name = some event →
          ∃ kept, later.bus.event? name = some kept ∧ kept.name = name ∧
            kept.signature = event.signature) ∧
    (∀ name signature,
      (world.bus.registry.contains name = true →
        (tryRegister name signature).run world =
          some (.error (.alreadyRegistered name), world)) ∧
      (world.bus.registry.contains name = false → ¬Signature.IsText signature →
        ∃ error, (tryRegister name signature).run world =
          some (.error (.signature error), world)) ∧
      (world.bus.registry.contains name = false → Signature.IsText signature →
        ∃ parsed final, Signature.parse signature = .ok parsed ∧
          (tryRegister name signature).run world =
            some (.ok (Event.new name parsed), final) ∧
          world.Gains (Event.new name parsed) final) ∧
      ∃ answer final,
        (register name signature).run world = some (answer, final) ∧
          (answer = true ↔ world.bus.registry.contains name = false ∧
            Signature.IsText signature) ∧
          (answer = true → ∃ parsed, Signature.parse signature = .ok parsed ∧
            world.Gains (Event.new name parsed) final) ∧
          (answer = false → final.hub = world.hub ∧
            final.journal.registered = world.journal.registered)) ∧
    (∀ event : Event,
      (world.bus.registry.contains event.name = true →
        (insert event).run world =
          some (.error (.alreadyRegistered event.name), world)) ∧
      (world.bus.registry.contains event.name = false →
        ∃ final, (insert event).run world = some (.ok event, final) ∧
          world.Gains event final)) ∧
    world.bus.registry.names.Pairwise
      (fun left right => Text.encode left < Text.encode right) ∧
    (∀ name, (name ∈ world.bus.registry.names ↔
        world.bus.registry.contains name = true) ∧
      (name ∈ world.bus.registry.names ↔
        ∃ event, world.bus.event? name = some event)) ∧
    world.bus.registry.names.length = world.bus.registry.size ∧
    world.bus.registry.size = world.journal.registered.length := by
  have unique := reachable.ordered.unique
  have registered := reachable.registered
  have listed : ∀ name, name ∈ world.bus.registry.names ↔
      world.bus.registry.contains name = true := by
    intro name
    rw [(Registry.names_perm _).mem_iff, Registry.contains_eq_true_iff]
  refine ⟨unique, fun name event => Registry.event?_eq_some, registered, ?_, ?_, ?_,
    ?_, ?_, ?_, ?_⟩
  · intro behaviour later visits
    obtain ⟨_, added, entries, journal⟩ := reachable.ordered.extends visits.changes
    have grown : world.bus.registry.entries <+: later.bus.registry.entries :=
      ⟨added, entries.symm⟩
    exact ⟨grown, ⟨added.map World.written, journal.symm⟩,
      fun name event => Registry.event?_of_prefix grown⟩
  · intro name signature
    refine ⟨tryRegister_taken, ?_, ?_, ?_⟩
    · intro absent foreign
      cases read : Signature.parse signature with
      | error error => exact ⟨error, tryRegister_unparsed absent read⟩
      | ok parsed => exact (foreign (Signature.exists_parse_iff.mp ⟨parsed, read⟩)).elim
    · intro absent known
      obtain ⟨parsed, read⟩ := Signature.exists_parse_iff.mpr known
      obtain ⟨final, ran, gains⟩ := tryRegister_parsed absent read
      exact ⟨parsed, final, read, ran, gains⟩
    · obtain ⟨answer, final, ran, succeeds, accepted, refused⟩ :=
        register_answers world name signature
      rw [Signature.exists_parse_iff] at succeeds
      refine ⟨answer, final, ran, succeeds, ?_, refused⟩
      intro success
      obtain ⟨parsed, read⟩ := Signature.exists_parse_iff.mpr (succeeds.mp success).2
      exact ⟨parsed, read, accepted parsed success read⟩
  · intro event
    exact ⟨insert_taken, insert_absent⟩
  · exact unique.names_increase.imp Text.encode_lt_encode
  · intro name
    exact ⟨listed name, (listed name).trans Registry.exists_event?_iff.symm⟩
  · rw [(Registry.names_perm _).length_eq, List.length_map]
    rfl
  · rw [registered, List.length_map, Registry.entries, List.length_map]
    rfl

/-- Two events are registered in two ways and a third registration fails.  Then a
name that is taken is refused before a bad signature is, and a free one after it. -/
theorem registry_keeps_two_events :
    let first := Event.new "b" (.ofTags [.uint])
    let second := Event.new "a" (.ofTags [.text])
    let behaviour : Behaviour Unit :=
      .perform (.register "b" "i") fun _ =>
      .perform (.insert "a" (.ofTags [.text]) []) fun _ =>
      .perform (.register "b" "q") fun _ => .finish (.returns .null)
    let world : World Unit :=
      ⟨{ Hub.new {} with bus := ⟨⟨[first, second]⟩, {}⟩ }, [], (),
        ⟨[.registrationRejected "b" (.alreadyRegistered "b"), .eventInserted second,
          .eventRegistered "b" "i"]⟩⟩
    (behaviour.run 1).run (World.new {} ()) = some (.returns .null, world) ∧
      world.Reachable ∧
      (tryRegister "b" "q").run world =
        some (.error (.alreadyRegistered "b"), world) ∧
      (∃ error, (tryRegister "c" "q").run world =
        some (.error (.signature error), world)) ∧
      (∃ final, (insert (Event.new "c" (.ofTags []))).run world =
          some (.ok (Event.new "c" (.ofTags [])), final) ∧
        world.Gains (Event.new "c" (.ofTags [])) final) ∧
      "a" ∈ world.bus.registry.names ∧ world.bus.registry.names.length = 2 := by
  intro first second behaviour world
  have ran : (behaviour.run 1).run (World.new {} ()) =
      some (.returns .null, world) := rfl
  have reachable : world.Reachable := World.reachable_of_run ran
  obtain ⟨_, _, _, _, registers, inserts, _, listed, length, _⟩ :=
    registry_is_permanent_and_unique reachable
  have foreign : ¬Signature.IsText "q" := by
    intro known
    exact absurd (known 'q' (List.mem_singleton_self 'q')) (by decide)
  exact ⟨ran, reachable, (registers "b" "q").1 rfl,
    (registers "c" "q").2.1 rfl foreign, (inserts (Event.new "c" (.ofTags []))).2 rfl,
    (listed "a").1.mpr rfl, length⟩

end CellBus
