import CellBus.Bus
import Mathlib.Data.List.Basic

/-!
# Lists of listeners

Equality of listeners is an equivalence that leaves the engine out of account.
`Listener.latest` keeps the last of all equal listeners in a list, so it puts
listeners in the order of their latest occurrence.  Appending adds at most one
listener at the end of an event's list, and unsubscribing is one filter.
-/

namespace CellBus

namespace Listener

theorem isSame_iff {left right : Listener} :
    left.isSame right = true ↔
      left.context = right.context ∧ left.callable = right.callable := by
  simp [isSame, isBound]

@[simp] theorem isSame_self (listener : Listener) :
    listener.isSame listener = true := by
  simp [isSame_iff]

theorem isSame_comm (left right : Listener) :
    left.isSame right = right.isSame left := by
  rw [Bool.eq_iff_iff, isSame_iff, isSame_iff]
  constructor
  · rintro ⟨context, callable⟩
    exact ⟨context.symm, callable.symm⟩
  · rintro ⟨context, callable⟩
    exact ⟨context.symm, callable.symm⟩

/-- No two listeners of the list are equal. -/
def Distinct (listeners : List Listener) : Prop :=
  listeners.Pairwise fun left right => left.isSame right = false

theorem Distinct.sublist {fewer listeners : List Listener}
    (distinct : Distinct listeners) (sublist : fewer.Sublist listeners) :
    Distinct fewer :=
  List.Pairwise.sublist sublist distinct

/-- Of equal listeners only the last one. -/
def latest : List Listener → List Listener
  | [] => []
  | listener :: rest =>
    if rest.any (·.isSame listener) then latest rest else listener :: latest rest

theorem latest_sublist (listeners : List Listener) :
    (latest listeners).Sublist listeners := by
  induction listeners with
  | nil => exact List.Sublist.refl []
  | cons listener rest ih =>
      rw [latest]
      split
      · exact ih.cons listener
      · exact ih.cons_cons listener

theorem latest_distinct (listeners : List Listener) :
    Distinct (latest listeners) := by
  induction listeners with
  | nil => exact List.Pairwise.nil
  | cons listener rest ih =>
      rw [latest]
      split
      · exact ih
      · rename_i unequal
        apply List.Pairwise.cons _ ih
        intro other member
        have inRest : other ∈ rest := (latest_sublist rest).mem member
        rw [isSame_comm]
        by_contra same
        apply unequal
        rw [List.any_eq_true]
        exact ⟨other, inRest, by simpa using same⟩

theorem latest_of_distinct {listeners : List Listener}
    (distinct : Distinct listeners) : latest listeners = listeners := by
  induction listeners with
  | nil => rfl
  | cons listener rest ih =>
      obtain ⟨headDistinct, restDistinct⟩ := List.pairwise_cons.mp distinct
      have unequal : rest.any (·.isSame listener) = false := by
        rw [List.any_eq_false]
        intro other member
        rw [isSame_comm, headDistinct other member]
        exact Bool.false_ne_true
      rw [latest, unequal, ih restDistinct]
      rfl

/-- A listener that comes last is kept, and displaces those equal to it. -/
theorem latest_concat (listeners : List Listener) (listener : Listener) :
    latest (listeners ++ [listener]) =
      (latest listeners).filter (!·.isSame listener) ++ [listener] := by
  induction listeners with
  | nil => rfl
  | cons head rest ih =>
      rw [List.cons_append, latest, latest]
      by_cases again : rest.any (·.isSame head) = true
      · simp [again, ih]
      · by_cases same : listener.isSame head = true
        · have reverse : head.isSame listener = true := by
            rw [isSame_comm]
            exact same
          simp [same, reverse, again, ih]
        · have reverse : ¬ head.isSame listener = true := by
            rw [isSame_comm]
            exact same
          simp [same, reverse, again, ih]

/-- Whatever comes before them, the latest of the last listeners are kept. -/
theorem latest_append_sublist (earlier listeners : List Listener) :
    (latest listeners).Sublist (latest (earlier ++ listeners)) := by
  induction earlier with
  | nil => exact List.Sublist.refl _
  | cons head rest ih =>
      rw [List.cons_append, latest]
      split
      · exact ih
      · exact ih.cons head

end Listener

namespace Event

theorem holds_eq_false_iff {event : Event} {listener : Listener} :
    event.holds listener = false ↔
      ∀ other ∈ event.listeners, other.isSame listener = false := by
  simp [holds, List.any_eq_false]

theorem append_of_holds {event : Event} {listener : Listener}
    (held : event.holds listener = true) :
    event.append listener = (false, event) := by
  simp [append, held]

theorem append_of_not_holds {event : Event} {listener : Listener}
    (unheld : event.holds listener = false) :
    event.append listener =
      (true, { event with listeners := event.listeners ++ [listener] }) := by
  simp [append, unheld]

theorem append_answers_iff {event : Event} {listener : Listener} :
    (event.append listener).1 = true ↔
      ∀ other ∈ event.listeners, other.isSame listener = false := by
  rw [← holds_eq_false_iff]
  cases held : event.holds listener with
  | true => simp [append_of_holds held]
  | false => simp [append_of_not_holds held]

@[simp] theorem append_name (event : Event) (listener : Listener) :
    (event.append listener).2.name = event.name := by
  unfold append
  split <;> rfl

@[simp] theorem append_signature (event : Event) (listener : Listener) :
    (event.append listener).2.signature = event.signature := by
  unfold append
  split <;> rfl

theorem append_distinct {event : Event} (listener : Listener)
    (distinct : Listener.Distinct event.listeners) :
    Listener.Distinct (event.append listener).2.listeners := by
  cases held : event.holds listener with
  | true =>
      rw [append_of_holds held]
      exact distinct
  | false =>
      rw [append_of_not_holds held]
      apply List.pairwise_append.mpr
      refine ⟨distinct, List.pairwise_singleton _ _, ?_⟩
      intro other member last lastMember
      rw [List.mem_singleton.mp lastMember]
      exact holds_eq_false_iff.mp held other member

private theorem distinct_foldl (listeners : List Listener) (event : Event)
    (distinct : Listener.Distinct event.listeners) :
    Listener.Distinct
      (listeners.foldl (fun event listener => (event.append listener).2) event).listeners := by
  induction listeners generalizing event with
  | nil => exact distinct
  | cons listener rest ih => exact ih _ (append_distinct listener distinct)

theorem assemble_distinct (name : String) (signature : Signature)
    (listeners : List Listener) :
    Listener.Distinct (assemble name signature listeners).listeners :=
  distinct_foldl listeners (new name signature) List.Pairwise.nil

end Event

/-- Whether a target of a context names a listener. -/
def Target.covers (context : ContextId) (listener : Listener) : Target → Bool
  | .all => listener.context = context
  | .one callable => listener.isBound context callable
  | .each callables => callables.any (listener.isBound context)

/-- A target of a context names only listeners that are bound to it. -/
theorem Target.covers_context {target : Target} {context : ContextId}
    {listener : Listener} (covered : target.covers context listener = true) :
    listener.context = context := by
  cases target with
  | all => simpa [covers] using covered
  | one callable =>
      simp only [covers, Listener.isBound, Bool.and_eq_true, decide_eq_true_iff]
        at covered
      exact covered.1
  | each callables =>
      obtain ⟨callable, _, bound⟩ := List.any_eq_true.mp covered
      simp only [Listener.isBound, Bool.and_eq_true, decide_eq_true_iff] at bound
      exact bound.1

namespace Event

theorem remove_answer (context : ContextId) (callable : Callable) (event : Event) :
    (event.remove context callable).1 =
      event.listeners.any (·.isBound context callable) := by
  have fewer : (event.listeners.filter (!·.isBound context callable)).length ≠
      event.listeners.length ↔
        ∃ listener ∈ event.listeners, listener.isBound context callable = true := by
    simp [List.length_filter_eq_length_iff]
  rw [Bool.eq_iff_iff, List.any_eq_true, ← fewer]
  simp [remove]

theorem removeEach_remaining (context : ContextId) (callables : List Callable)
    (event : Event) :
    (event.removeEach context callables).2 =
      { event with listeners := event.listeners.filter fun listener =>
          !callables.any (listener.isBound context) } := by
  induction callables generalizing event with
  | nil => simp [removeEach]
  | cons callable rest ih =>
      rw [removeEach, ih]
      simp only [remove, List.filter_filter]
      congr 1
      apply List.filter_congr
      intro listener _
      simp [Bool.and_comm]

/-- The callables bound to a context name exactly the listeners bound to it. -/
theorem any_isBound_callables {listeners : List Listener} {listener : Listener}
    (member : listener ∈ listeners) (context : ContextId) :
    ((listeners.filter (·.context = context)).map Listener.callable).any
        (listener.isBound context) =
      decide (listener.context = context) := by
  rw [Bool.eq_iff_iff, List.any_eq_true, decide_eq_true_iff]
  constructor
  · rintro ⟨callable, _, bound⟩
    simp only [Listener.isBound, Bool.and_eq_true, decide_eq_true_iff] at bound
    exact bound.1
  · intro bound
    refine ⟨listener.callable, ?_, by simp [Listener.isBound, bound]⟩
    apply List.mem_map_of_mem
    simp [member, bound]

/-- Unsubscribing keeps exactly the listeners that the target does not name. -/
theorem unsubscribe_remaining (context : ContextId) (target : Target)
    (event : Event) :
    (event.unsubscribe context target).2 =
      { event with listeners := event.listeners.filter fun listener =>
          !target.covers context listener } := by
  cases target with
  | all =>
      rw [unsubscribe, removeContext, removeEach_remaining]
      congr 1
      apply List.filter_congr
      intro listener member
      rw [any_isBound_callables member, Target.covers]
  | one callable => rfl
  | each callables => exact removeEach_remaining context callables event

theorem unsubscribe_name (context : ContextId) (target : Target) (event : Event) :
    (event.unsubscribe context target).2.name = event.name := by
  rw [unsubscribe_remaining]

/-- The event with the listeners of one context taken out. -/
def without (context : ContextId) (event : Event) : Event :=
  { event with listeners := event.listeners.filter (·.context ≠ context) }

theorem unsubscribe_all (context : ContextId) (event : Event) :
    (event.unsubscribe context .all).2 = event.without context := by
  rw [unsubscribe_remaining, without]
  simp [Target.covers]

theorem without_without (context : ContextId) (event : Event) :
    (event.without context).without context = event.without context := by
  simp [without]

end Event

end CellBus
