import CellBus.Proofs.ListenerLists
import Mathlib.Data.List.Nodup

/-!
# Events found by name

A change of one event leaves the others and all names as they are.  As long as
the names are unique, a change that leaves its event as it is leaves the whole
bus as it is.
-/

namespace CellBus

namespace Registry

/-- No two events have the same name. -/
def Unique (registry : Registry) : Prop := (registry.events.map Event.name).Nodup

theorem event?_eq_some {registry : Registry} {name : String} {event : Event}
    (found : registry.event? name = some event) :
    event ∈ registry.events ∧ event.name = name := by
  refine ⟨List.mem_of_find?_eq_some found, ?_⟩
  simpa using List.find?_some found

theorem event?_eq_none_of_not_mem_names {registry : Registry} {name : String}
    (absent : name ∉ registry.names) : registry.event? name = none := by
  rw [event?, List.find?_eq_none]
  intro event member named
  apply absent
  rw [names, List.mem_mergeSort, List.mem_map]
  exact ⟨event, member, of_decide_eq_true named⟩

theorem contains_eq_false_iff {registry : Registry} {name : String} :
    registry.contains name = false ↔
      ∀ event ∈ registry.events, event.name ≠ name := by
  simp [contains, event?]

theorem insert_eq_ok {registry inserted : Registry} {event : Event}
    (accepted : registry.insert event = .ok inserted) :
    registry.contains event.name = false ∧
      inserted = ⟨registry.events ++ [event]⟩ := by
  unfold insert at accepted
  split at accepted
  · cases accepted
  · rename_i absent
    cases accepted
    exact ⟨by simpa using absent, rfl⟩

theorem register_eq_ok {registry registered : Registry} {name signature : String}
    {event : Event}
    (accepted : registry.register name signature = .ok (event, registered)) :
    event.name = name ∧ event.listeners = [] ∧
      registry.insert event = .ok registered := by
  unfold register at accepted
  split at accepted
  · cases accepted
  · cases parsed : Signature.parse signature with
    | error error =>
        rw [parsed] at accepted
        cases accepted
    | ok tags =>
        cases inserted : registry.insert (Event.new name tags) with
        | error error =>
            simp [parsed, Except.mapError, inserted, bind, Except.bind] at accepted
        | ok whole =>
            simp only [parsed, Except.mapError, inserted, bind, Except.bind, pure,
              Except.pure, Except.ok.injEq, Prod.mk.injEq] at accepted
            obtain ⟨rfl, rfl⟩ := accepted
            exact ⟨rfl, rfl, inserted⟩

theorem Unique.insert {registry inserted : Registry} {event : Event}
    (unique : registry.Unique) (accepted : registry.insert event = .ok inserted) :
    inserted.Unique := by
  obtain ⟨absent, rfl⟩ := insert_eq_ok accepted
  rw [contains_eq_false_iff] at absent
  rw [Unique, List.map_append]
  apply List.Nodup.append unique (List.nodup_singleton _)
  intro name member last
  obtain ⟨other, otherMember, rfl⟩ := List.mem_map.mp member
  exact absent other otherMember (List.mem_singleton.mp last)

/-- With unique names the event found by a name is the only one that has it. -/
theorem Unique.eq_of_name {registry : Registry} (unique : registry.Unique)
    {left right : Event} (leftMember : left ∈ registry.events)
    (rightMember : right ∈ registry.events) (sameName : left.name = right.name) :
    left = right :=
  List.inj_on_of_nodup_map unique leftMember rightMember sameName

theorem Unique.event?_of_mem {registry : Registry} (unique : registry.Unique)
    {event : Event} (member : event ∈ registry.events) :
    registry.event? event.name = some event := by
  cases found : registry.event? event.name with
  | none =>
      rw [event?, List.find?_eq_none] at found
      exact absurd (decide_eq_true rfl) (found event member)
  | some other =>
      obtain ⟨otherMember, sameName⟩ := event?_eq_some found
      rw [unique.eq_of_name otherMember member sameName]

/-- With unique names the events are those that are found by the names. -/
theorem Unique.events_eq {registry : Registry} (unique : registry.Unique) :
    registry.events =
      (registry.events.map Event.name).filterMap registry.event? := by
  rw [List.filterMap_map]
  symm
  have found : ∀ event ∈ registry.events,
      (registry.event? ∘ Event.name) event = some event :=
    fun event member => unique.event?_of_mem member
  rw [List.filterMap_congr found, List.filterMap_some]

end Registry

namespace Bus

variable {α : Type} {bus : Bus} {name : String} {step : Event → α × Event}

theorem insert_eq_ok {inserted : Bus} {event : Event}
    (accepted : bus.insert event = .ok inserted) :
    ∃ registry, bus.registry.insert event = .ok registry ∧
      inserted = { bus with registry } := by
  cases result : bus.registry.insert event with
  | error error => simp [insert, result, bind, Except.bind] at accepted
  | ok registry =>
      simp only [insert, result, bind, Except.bind, pure, Except.pure,
        Except.ok.injEq] at accepted
      exact ⟨registry, rfl, accepted.symm⟩

theorem register_eq_ok {registered : Bus} {signature : String} {event : Event}
    (accepted : bus.register name signature = .ok (event, registered)) :
    event.name = name ∧ event.listeners = [] ∧
      bus.insert event = .ok registered := by
  cases result : bus.registry.register name signature with
  | error error => simp [register, result, bind, Except.bind] at accepted
  | ok found =>
      obtain ⟨newEvent, registry⟩ := found
      simp only [register, result, bind, Except.bind, pure, Except.pure,
        Except.ok.injEq, Prod.mk.injEq] at accepted
      obtain ⟨rfl, rfl⟩ := accepted
      obtain ⟨named, empty, inserted⟩ := Registry.register_eq_ok result
      exact ⟨named, empty, by simp [insert, inserted, bind, Except.bind, pure,
        Except.pure]⟩

theorem change_absent (absent : α) (unknown : bus.event? name = none) :
    bus.change name absent step = (absent, bus) := by
  rw [event?] at unknown
  simp [change, Registry.change, unknown]

theorem change_found {event : Event} (absent : α)
    (found : bus.event? name = some event) :
    bus.change name absent step =
      ((step event).1,
        { bus with registry := ⟨bus.registry.events.map fun other =>
            if other.name = name then (step event).2 else other⟩ }) := by
  rw [event?] at found
  simp [change, Registry.change, found]

@[simp] theorem change_limits (absent : α) :
    (bus.change name absent step).2.limits = bus.limits := by
  cases found : bus.event? name with
  | none => rw [change_absent absent found]
  | some event => rw [change_found absent found]

theorem mem_change {absent : α} {changed : Event}
    (member : changed ∈ (bus.change name absent step).2.registry.events) :
    changed ∈ bus.registry.events ∨
      ∃ event ∈ bus.registry.events, event.name = name ∧
        changed = (step event).2 := by
  cases found : bus.event? name with
  | none =>
      rw [change_absent absent found] at member
      exact .inl member
  | some event =>
      rw [change_found absent found] at member
      obtain ⟨other, otherMember, equality⟩ := List.mem_map.mp member
      obtain ⟨eventMember, eventNamed⟩ := Registry.event?_eq_some found
      split at equality
      · exact .inr ⟨event, eventMember, eventNamed, equality.symm⟩
      · exact .inl (equality ▸ otherMember)

section NamesKept

variable (keepsName : ∀ event, (step event).2.name = event.name)

include keepsName

theorem change_names (absent : α) :
    (bus.change name absent step).2.registry.events.map Event.name =
      bus.registry.events.map Event.name := by
  cases found : bus.event? name with
  | none => rw [change_absent absent found]
  | some event =>
      rw [change_found absent found, List.map_map]
      apply List.map_congr_left
      intro other _
      simp only [Function.comp_apply]
      split
      · rename_i sameName
        rw [keepsName, (Registry.event?_eq_some found).2, sameName]
      · rfl

theorem change_unique (absent : α) (unique : bus.registry.Unique) :
    (bus.change name absent step).2.registry.Unique := by
  rw [Registry.Unique, change_names keepsName]
  exact unique

theorem event?_change (absent : α) (wanted : String) :
    (bus.change name absent step).2.event? wanted =
      if wanted = name then (bus.event? wanted).map fun event => (step event).2
      else bus.event? wanted := by
  cases found : bus.event? name with
  | none =>
      rw [change_absent absent found]
      split
      · rename_i same
        rw [same, found]
        rfl
      · rfl
  | some event =>
      have eventNamed := (Registry.event?_eq_some found).2
      rw [change_found absent found, event?, Registry.event?, List.find?_map]
      have sameTest : ((fun event : Event => decide (event.name = wanted)) ∘
          fun other => if other.name = name then (step event).2 else other) =
            fun other => decide (other.name = wanted) := by
        funext other
        simp only [Function.comp_apply]
        split
        · rename_i sameName
          rw [keepsName, eventNamed, sameName]
        · rfl
      rw [sameTest]
      change (bus.event? wanted).map _ = _
      split
      · rename_i same
        rw [same, found]
        simp [eventNamed]
      · rename_i different
        cases other : bus.event? wanted with
        | none => rfl
        | some otherEvent =>
            have otherNamed := (Registry.event?_eq_some other).2
            simp [otherNamed, different]

end NamesKept

/-- A change that leaves its event as it is leaves the bus as it is. -/
theorem change_unchanged (absent : α) (unique : bus.registry.Unique)
    (unchanged : ∀ event, bus.event? name = some event → (step event).2 = event) :
    (bus.change name absent step).2 = bus := by
  cases found : bus.event? name with
  | none => rw [change_absent absent found]
  | some event =>
      obtain ⟨eventMember, eventNamed⟩ := Registry.event?_eq_some found
      rw [change_found absent found, unchanged event found]
      have same : ∀ other ∈ bus.registry.events,
          (if other.name = name then event else other) = id other := by
        intro other otherMember
        split
        · rename_i sameName
          exact unique.eq_of_name eventMember otherMember
            (eventNamed.trans sameName.symm)
        · rfl
      rw [List.map_congr_left same, List.map_id]

/-- A change puts one event into the place of another. -/
theorem change_events {event : Event} (absent : α) (unique : bus.registry.Unique)
    (found : bus.event? name = some event) :
    ∃ before after, bus.registry.events = before ++ event :: after ∧
      (bus.change name absent step).2.registry.events =
        before ++ (step event).2 :: after := by
  obtain ⟨member, named⟩ := Registry.event?_eq_some found
  obtain ⟨before, after, whole⟩ := List.append_of_mem member
  refine ⟨before, after, whole, ?_⟩
  rw [Registry.Unique, whole, List.map_append, List.map_cons, List.nodup_middle,
    ← List.map_append, List.nodup_cons, named] at unique
  have others : ∀ other ∈ before ++ after,
      (if other.name = name then (step event).2 else other) = other := by
    intro other otherMember
    apply if_neg
    intro sameName
    exact unique.1 (List.mem_map.mpr ⟨other, otherMember, sameName⟩)
  rw [List.forall_mem_append] at others
  rw [change_found absent found, whole, List.map_append, List.map_cons,
    if_pos named, List.map_congr_left others.1, List.map_congr_left others.2,
    List.map_id', List.map_id']

theorem subscribe_unknown {listener : Listener}
    (unknown : bus.registry.contains name = false) :
    bus.subscribe name listener = (false, bus) := by
  rw [Registry.contains, Option.isSome_eq_false_iff, Option.isNone_iff_eq_none]
    at unknown
  exact change_absent false unknown

/-- Appending succeeds exactly when the event is there without an equal
listener. -/
theorem subscribe_eq_true_iff {listener : Listener} :
    (bus.subscribe name listener).1 = true ↔
      ∃ event, bus.event? name = some event ∧ event.holds listener = false := by
  cases found : bus.event? name with
  | none => simp [subscribe, change_absent false found]
  | some event =>
      rw [subscribe, change_found false found]
      cases held : event.holds listener with
      | true => simp [Event.append_of_holds held, held]
      | false => simp [Event.append_of_not_holds held, held]

theorem subscribe_refused {listener : Listener} (unique : bus.registry.Unique)
    (refused : (bus.subscribe name listener).1 = false) :
    (bus.subscribe name listener).2 = bus := by
  apply change_unchanged false unique
  intro event found
  cases held : event.holds listener with
  | true => rw [Event.append_of_holds held]
  | false =>
      have added := subscribe_eq_true_iff.mpr ⟨event, found, held⟩
      rw [refused] at added
      cases added

/-- No event has a listener that is bound to the context. -/
def IsFreeOf (context : ContextId) (bus : Bus) : Prop :=
  ∀ name, ∀ listener ∈ bus.listeners name, listener.context ≠ context

theorem isFreeOf_of_without {context : ContextId} {before : Bus}
    (left : ∀ name, bus.event? name = (before.event? name).map (Event.without context)) :
    bus.IsFreeOf context := by
  intro name listener member
  rw [listeners, left] at member
  cases found : before.event? name with
  | none => simp [found] at member
  | some event =>
      simp only [found, Option.map_some, Option.getD_some, Event.without,
        List.mem_filter, decide_eq_true_iff] at member
      exact member.2

theorem IsFreeOf.not_holds {listener : Listener} (free : bus.IsFreeOf listener.context)
    (name : String) : bus.holds name listener = false := by
  cases found : bus.event? name with
  | none => simp [holds, found]
  | some event =>
      rw [holds, found, Option.any_some, Event.holds_eq_false_iff]
      intro other member
      have different : other.context ≠ listener.context := by
        apply free name
        simp [listeners, found, member]
      rw [← Bool.not_eq_true, Listener.isSame_iff]
      exact fun same => different same.1

end Bus

end CellBus
