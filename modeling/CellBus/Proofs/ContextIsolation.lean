import CellBus.Proofs.MatchingRuns
import CellBus.Proofs.Operations
import CellBus.Proofs.RunStates

/-!
# Contexts do not interfere

Subscribing and unsubscribing on behalf of one context neither shows nor touches
the listeners of another.  A step that acts for a context goes the same way when
all other listeners are left out, and a step that acts for another context leaves
its listeners alone.  By induction a sequence of such operations, however the
contexts are interleaved, does for each context what its own operations do alone.
-/

namespace CellBus

variable {σ α β : Type}

namespace Event

/-- The event with the listeners of one context only. -/
def confined (context : ContextId) (event : Event) : Event :=
  { event with listeners := event.listeners.filter (·.context = context) }

variable {context other : ContextId} {event : Event} {listener : Listener}

theorem confined_holds (bound : listener.context = context) :
    (event.confined context).holds listener = event.holds listener := by
  rw [holds, holds, confined, List.any_filter]
  congr 1
  funext present
  cases same : present.isSame listener with
  | false => exact Bool.and_false _
  | true =>
      have sameContext := (Listener.isSame_iff.mp same).1
      simp [sameContext, bound]

theorem append_confined (bound : listener.context = context) :
    (event.confined context).append listener =
      ((event.append listener).1, (event.append listener).2.confined context) := by
  have heldAlike : (event.confined context).holds listener = event.holds listener :=
    confined_holds bound
  cases held : event.holds listener with
  | true =>
      rw [held] at heldAlike
      rw [append_of_holds held, append_of_holds heldAlike]
  | false =>
      rw [held] at heldAlike
      rw [append_of_not_holds held, append_of_not_holds heldAlike]
      simp [confined, bound]

theorem confined_append (foreign : listener.context ≠ context) :
    (event.append listener).2.confined context = event.confined context := by
  cases held : event.holds listener with
  | true => rw [append_of_holds held]
  | false =>
      rw [append_of_not_holds held]
      simp [confined, foreign]

theorem remove_confined (callable : Callable) (event : Event) :
    (event.confined context).remove context callable =
      ((event.remove context callable).1,
        (event.remove context callable).2.confined context) := by
  apply Prod.ext
  · rw [remove_answer, remove_answer, confined, List.any_filter]
    congr 1
    funext listener
    simp [Listener.isBound]
  · simp [remove, confined, List.filter_filter, Bool.and_comm]

theorem removeEach_confined (callables : List Callable) (event : Event) :
    (event.confined context).removeEach context callables =
      ((event.removeEach context callables).1,
        (event.removeEach context callables).2.confined context) := by
  induction callables generalizing event with
  | nil => rfl
  | cons callable rest ih => simp [removeEach, remove_confined, ih]

theorem unsubscribe_confined (target : Target) (event : Event) :
    (event.confined context).unsubscribe context target =
      ((event.unsubscribe context target).1,
        (event.unsubscribe context target).2.confined context) := by
  cases target with
  | all =>
      -- The callables to remove are read off the bound listeners, which are kept.
      have sameBound : (event.confined context).listeners.filter
          (·.context = context) = event.listeners.filter (·.context = context) := by
        simp [confined, List.filter_filter]
      rw [unsubscribe, unsubscribe, removeContext, removeContext, sameBound]
      exact removeEach_confined _ event
  | one callable => simp [unsubscribe, remove_confined]
  | each callables => exact removeEach_confined callables event

theorem confined_unsubscribe (foreign : other ≠ context) (target : Target)
    (event : Event) :
    (event.unsubscribe other target).2.confined context =
      event.confined context := by
  rw [unsubscribe_remaining]
  simp only [confined, List.filter_filter]
  congr 1
  apply List.filter_congr
  intro listener _
  cases covered : target.covers other listener with
  | false => simp
  | true =>
      have bound := Target.covers_context covered
      simp [bound, foreign]

end Event

namespace Bus

/-- The bus with the listeners of one context only. -/
def confined (context : ContextId) (bus : Bus) : Bus :=
  { bus with registry := ⟨bus.registry.events.map (Event.confined context)⟩ }

/-- The other bus has the same events, with the listeners of one context only. -/
structure Confines (context : ContextId) (bus own : Bus) : Prop where
  names : own.registry.events.map Event.name = bus.registry.events.map Event.name
  event? : ∀ name, own.event? name = (bus.event? name).map (Event.confined context)

theorem confines_confined (context : ContextId) (bus : Bus) :
    bus.Confines context (bus.confined context) where
  names := by simp [confined, Function.comp_def, Event.confined]
  event? := by
    intro name
    rw [Bus.event?, confined, Registry.event?, List.find?_map]
    rfl

variable {context : ContextId} {bus own : Bus} {step : Event → α × Event}

theorem Confines.change (confines : bus.Confines context own) (name : String)
    (absent : α)
    (keepsName : ∀ event, (step event).2.name = event.name)
    (alike : ∀ event, step (event.confined context) =
      ((step event).1, (step event).2.confined context)) :
    (own.change name absent step).1 = (bus.change name absent step).1 ∧
      (bus.change name absent step).2.Confines context
        (own.change name absent step).2 := by
  refine ⟨?_, ?_, ?_⟩
  · have ownFound := confines.event? name
    cases found : bus.event? name with
    | none =>
        rw [found] at ownFound
        rw [change_absent absent found, change_absent absent ownFound]
    | some event =>
        rw [found] at ownFound
        rw [change_found absent found, change_found absent ownFound, alike]
  · rw [change_names keepsName, change_names keepsName, confines.names]
  · intro wanted
    rw [event?_change keepsName, event?_change keepsName, confines.event?]
    split
    · cases bus.event? wanted with
      | none => rfl
      | some event => simp [alike]
    · rfl

theorem Confines.change_foreign (confines : bus.Confines context own)
    (name : String) (absent : α)
    (keepsName : ∀ event, (step event).2.name = event.name)
    (spares : ∀ event, (step event).2.confined context = event.confined context) :
    (bus.change name absent step).2.Confines context own where
  names := by rw [change_names keepsName, confines.names]
  event? := by
    intro wanted
    rw [event?_change keepsName, confines.event?]
    split
    · cases bus.event? wanted with
      | none => rfl
      | some event => simp [spares]
    · rfl

end Bus

namespace World

/-- The world with the listeners of one context only. -/
def confined (context : ContextId) (world : World σ) : World σ :=
  world.withBus (world.bus.confined context)

/-- The buses differ in the listeners of other contexts at most, and the second
has none of them. -/
def Confines (context : ContextId) (world own : World σ) : Prop :=
  world.bus.Confines context own.bus

end World

namespace Running

/-- The step goes the same way without the listeners of other contexts. -/
abbrev Keeps (context : ContextId) (step : Running σ α) : Prop :=
  Matches (World.Confines context) Eq step step

/-- The step gives an answer and leaves the listeners of a context alone. -/
abbrev Spares (context : ContextId) (step : Running σ α) : Prop :=
  Matches (World.Confines context) (fun _ _ => True) step (pure ())

variable {context other : ContextId}

theorem Spares.bind {first : Running σ α} {next : α → Running σ β}
    (firstSpares : Spares context first)
    (nextSpares : ∀ value, Spares context (next value)) :
    Spares context (first >>= next) :=
  Matches.bind_alone firstSpares nextSpares

theorem spares_pure (answer : α) : Spares context (pure answer : Running σ α) :=
  matches_pure trivial

theorem Spares.mapM {step : β → Running σ α}
    (spares : ∀ item, Spares context (step item)) (items : List β) :
    Spares context (items.mapM step) := by
  induction items with
  | nil => exact spares_pure []
  | cons item items ih =>
      rw [List.mapM_cons]
      apply (spares item).bind
      intro first
      apply ih.bind
      intro later
      exact spares_pure _

theorem keeps_note (happening : Happening) :
    Keeps context (note happening : Running σ Unit) :=
  fun _ _ confines => .some ⟨rfl, confines⟩

theorem spares_get : Spares context (get : Running σ (World σ)) :=
  fun _ _ confines => .some ⟨trivial, confines⟩

theorem spares_note (happening : Happening) :
    Spares context (note happening : Running σ Unit) :=
  fun _ _ confines => .some ⟨trivial, confines⟩

theorem keeps_subscribe (name : String) {listener : Listener}
    (bound : listener.context = context) :
    Keeps context (subscribe name listener : Running σ Bool) := by
  intro world own confines
  obtain ⟨answers, remaining⟩ := Bus.Confines.change confines name false
    (fun event => Event.append_name event listener)
    fun event => Event.append_confined bound
  rw [subscribe_run, subscribe_run]
  exact .some ⟨answers.symm, remaining⟩

theorem spares_subscribe (name : String) {listener : Listener}
    (foreign : listener.context ≠ context) :
    Spares context (subscribe name listener : Running σ Bool) := by
  intro world own confines
  rw [subscribe_run]
  exact .some ⟨trivial, confines.change_foreign name false
    (fun event => Event.append_name event listener)
    fun event => Event.confined_append foreign⟩

private theorem unsubscribe_run_bus (name : String) (context : ContextId)
    (target : Target) (world : World σ) :
    ∃ final, (unsubscribe name context target).run world =
        some ((world.bus.unsubscribe name context target).1, final) ∧
      final.bus = (world.bus.unsubscribe name context target).2 := by
  refine ⟨_, unsubscribe_run name context target world, ?_⟩
  dsimp only
  split <;> rfl

theorem keeps_unsubscribe (name : String) (target : Target) :
    Keeps context (unsubscribe name context target : Running σ Nat) := by
  intro world own confines
  obtain ⟨answers, remaining⟩ := Bus.Confines.change confines name 0
    (Event.unsubscribe_name context target) (Event.unsubscribe_confined target)
  obtain ⟨final, ran, finalBus⟩ := unsubscribe_run_bus name context target world
  obtain ⟨ownFinal, ownRan, ownFinalBus⟩ :=
    unsubscribe_run_bus name context target own
  rw [ran, ownRan]
  refine .some ⟨answers.symm, ?_⟩
  rw [World.Confines, finalBus, ownFinalBus]
  exact remaining

theorem spares_unsubscribe (foreign : other ≠ context) (name : String)
    (target : Target) :
    Spares context (unsubscribe name other target : Running σ Nat) := by
  intro world own confines
  obtain ⟨final, ran, finalBus⟩ := unsubscribe_run_bus name other target world
  rw [ran]
  refine .some ⟨trivial, ?_⟩
  rw [World.Confines, finalBus]
  exact confines.change_foreign name 0 (Event.unsubscribe_name other target)
    (Event.confined_unsubscribe foreign target)

theorem keeps_unsubscribeContext :
    Keeps context (unsubscribeContext context : Running σ Nat) := by
  apply Matches.bind matches_get
  intro world own confines
  -- Every registered event is visited, also those without listeners of the context.
  have sameNames : own.bus.registry.names = world.bus.registry.names := by
    rw [Registry.names, Registry.names, confines.names]
  rw [sameNames]
  apply Matches.bind_same (Matches.mapM (fun name => keeps_unsubscribe name .all) _)
  intro counts
  exact (keeps_note _).bind_same fun _ => matches_pure rfl

theorem spares_unsubscribeContext (foreign : other ≠ context) :
    Spares context (unsubscribeContext other : Running σ Nat) := by
  apply spares_get.bind
  intro world
  apply Spares.bind (Spares.mapM (fun name => spares_unsubscribe foreign name .all) _)
  intro counts
  exact (spares_note _).bind fun _ => spares_pure _

theorem keeps_scriptOn {scope : Scope} (bound : scope.context = context)
    (arguments : List Argument) :
    Keeps context (scriptOn scope arguments : Running σ Unit) := by
  unfold scriptOn
  split
  · exact matches_pure rfl
  · split
    · exact keeps_note _
    · exact (keeps_subscribe _ bound).bind_same fun _ => matches_pure rfl

theorem spares_scriptOn {scope : Scope} (foreign : scope.context ≠ context)
    (arguments : List Argument) :
    Spares context (scriptOn scope arguments : Running σ Unit) := by
  unfold scriptOn
  split
  · exact spares_pure _
  · split
    · exact spares_note _
    · exact (spares_subscribe _ foreign).bind fun _ => spares_pure _

theorem keeps_scriptRemoveListener {scope : Scope} (bound : scope.context = context)
    (arguments : List Argument) :
    Keeps context (scriptRemoveListener scope arguments : Running σ Unit) := by
  subst bound
  unfold scriptRemoveListener
  split
  · exact matches_pure rfl
  · split
    · exact keeps_note _
    · exact (keeps_unsubscribe _ _).bind_same fun _ => matches_pure rfl

theorem spares_scriptRemoveListener {scope : Scope}
    (foreign : scope.context ≠ context) (arguments : List Argument) :
    Spares context (scriptRemoveListener scope arguments : Running σ Unit) := by
  unfold scriptRemoveListener
  split
  · exact spares_pure _
  · split
    · exact spares_note _
    · exact (spares_unsubscribe foreign _ _).bind fun _ => spares_pure _

end Running

namespace Operation

/-- The context on whose behalf an operation subscribes or unsubscribes. -/
def client? : Operation → Option ContextId
  | subscribe _ listener => some listener.context
  | unsubscribe _ context _ | unsubscribeContext context => some context
  | scriptOn scope _ | scriptRemoveListener scope _ => some scope.context
  | _ => none

/-- Carries out operations one after the other, and gives each with its answer. -/
def carryOutAll (runner : Runner σ) :
    List Operation → Running σ (List ((operation : Operation) × operation.Result))
  | [] => return []
  | operation :: rest => do
    let answer ← operation.carryOut runner
    return ⟨operation, answer⟩ :: (← carryOutAll runner rest)

open Running

variable {context other : ContextId} {operation : Operation} (runner : Runner σ)

theorem keeps_carryOut (own : operation.client? = some context) :
    Keeps context (operation.carryOut runner) := by
  cases operation with
  | subscribe name listener => exact keeps_subscribe name (Option.some.inj own)
  | unsubscribe name client target =>
      cases own
      exact keeps_unsubscribe name target
  | unsubscribeContext client =>
      cases own
      exact keeps_unsubscribeContext
  | scriptOn scope arguments => exact keeps_scriptOn (Option.some.inj own) arguments
  | scriptRemoveListener scope arguments =>
      exact keeps_scriptRemoveListener (Option.some.inj own) arguments
  | _ => cases own

theorem spares_carryOut (client : operation.client? = some other)
    (foreign : other ≠ context) :
    Spares context (operation.carryOut runner) := by
  cases operation with
  | subscribe name listener =>
      cases client
      exact spares_subscribe name foreign
  | unsubscribe name client target =>
      cases client
      exact spares_unsubscribe foreign name target
  | unsubscribeContext client =>
      cases client
      exact spares_unsubscribeContext foreign
  | scriptOn scope arguments =>
      cases client
      exact spares_scriptOn foreign arguments
  | scriptRemoveListener scope arguments =>
      cases client
      exact spares_scriptRemoveListener foreign arguments
  | _ => cases client

theorem carryOut_answers (client : operation.client? = some context)
    (world : World σ) :
    ∃ answer final, (operation.carryOut runner).run world = some (answer, final) := by
  -- What spares some other context gives an answer.
  have foreign : context ≠ ⟨context.number + 1⟩ := by
    intro same
    have numbers := congrArg ContextId.number same
    simp at numbers
  have spared := spares_carryOut runner client foreign world
    (world.confined ⟨context.number + 1⟩) (world.bus.confines_confined _)
  rcases rel_cases spared with ⟨_, none⟩ | ⟨result, _, ran, _⟩
  · cases none
  · exact ⟨result.1, result.2, ran⟩

theorem carryOutAll_answers {operations : List Operation}
    (clients : ∀ operation ∈ operations, operation.client?.isSome)
    (world : World σ) :
    ∃ exchanges final,
      (carryOutAll runner operations).run world = some (exchanges, final) := by
  induction operations generalizing world with
  | nil => exact ⟨[], world, rfl⟩
  | cons operation rest ih =>
      obtain ⟨client, acting⟩ :=
        Option.isSome_iff_exists.mp (clients operation List.mem_cons_self)
      obtain ⟨answer, middle, ran⟩ :=
        carryOut_answers runner acting world
      obtain ⟨exchanges, final, restRan⟩ :=
        ih (fun other member => clients other (List.mem_cons_of_mem _ member)) middle
      exact ⟨⟨operation, answer⟩ :: exchanges, final, by
        simp [carryOutAll, ran, restRan]⟩

/-- Leaving out the operations of other contexts leaves out their answers. -/
theorem carryOutAll_matches {operations : List Operation}
    (clients : ∀ operation ∈ operations, operation.client?.isSome)
    (context : ContextId) :
    Matches (World.Confines context)
      (fun exchanges own => own =
        exchanges.filter fun exchange => exchange.1.client? = some context)
      (carryOutAll runner operations)
      (carryOutAll runner
        (operations.filter fun operation => operation.client? = some context)) := by
  induction operations with
  | nil => exact matches_pure rfl
  | cons operation rest ih =>
      obtain ⟨client, acting⟩ :=
        Option.isSome_iff_exists.mp (clients operation List.mem_cons_self)
      have later :=
        ih fun other member => clients other (List.mem_cons_of_mem _ member)
      by_cases own : client = context
      · subst own
        rw [List.filter_cons_of_pos (by simp [acting])]
        apply (keeps_carryOut runner acting).bind_same
        intro answer
        apply later.bind
        rintro exchanges _ rfl
        apply matches_pure
        simp [acting]
      · -- Another context's operation has no counterpart among the context's own.
        rw [List.filter_cons_of_neg (by simp [acting, own])]
        apply Matches.bind_alone (spares_carryOut runner acting own)
        intro answer
        rw [← bind_pure (carryOutAll runner (rest.filter _))]
        apply later.bind
        rintro exchanges _ rfl
        apply matches_pure
        simp [acting, own]

end Operation

/-- Contexts do not interfere.  However the subscriptions and unsubscriptions of
several contexts are interleaved, the listeners of a context at the end, and the
answers to its own operations, are those that its own operations alone give when
they start from its own listeners. -/
theorem contexts_do_not_interfere (runner : Runner σ) {operations : List Operation}
    (clients : ∀ operation ∈ operations, operation.client?.isSome)
    (context : ContextId) (world : World σ) :
    ∃ exchanges final ownFinal,
      (Operation.carryOutAll runner operations).run world =
          some (exchanges, final) ∧
        (Operation.carryOutAll runner
            (operations.filter fun operation =>
              operation.client? = some context)).run (world.confined context) =
          some (exchanges.filter fun exchange =>
            exchange.1.client? = some context, ownFinal) ∧
        ∀ name,
          (ownFinal.bus.event? name).isSome = (final.bus.event? name).isSome ∧
          ownFinal.bus.listeners name =
            (final.bus.listeners name).filter (·.context = context) := by
  obtain ⟨exchanges, final, ran⟩ :=
    Operation.carryOutAll_answers runner clients world
  have alike := Operation.carryOutAll_matches runner clients context
    world (world.confined context) (world.bus.confines_confined context)
  rw [ran] at alike
  rcases Running.rel_cases alike with ⟨none, _⟩ | ⟨_, own, same, ownRan, answers, confines⟩
  · cases none
  · cases same
    refine ⟨exchanges, final, own.2, ran, ?_, ?_⟩
    · rw [ownRan, ← answers]
    · intro name
      have found := confines.event? name
      rw [Bus.listeners, Bus.listeners, found]
      cases final.bus.event? name with
      | none => exact ⟨rfl, rfl⟩
      | some event => exact ⟨rfl, rfl⟩

/-- One context takes its listener away and the other, subscribing it anew, is
refused and then adds a second one. -/
theorem two_contexts_do_not_interfere :
    let first : Listener := ⟨⟨1⟩, ⟨1⟩, ⟨0⟩⟩
    let second : Listener := ⟨⟨1⟩, ⟨2⟩, ⟨0⟩⟩
    let added : Listener := ⟨⟨1⟩, ⟨1⟩, ⟨5⟩⟩
    let world : World Unit :=
      World.holding {} () (Event.assemble "e" (.ofTags []) [second, first])
    let operations : List Operation :=
      [.unsubscribe "e" ⟨2⟩ (.one ⟨0⟩), .subscribe "e" first,
        .scriptOn ⟨⟨1⟩, ⟨1⟩⟩ [.plain (.text "e"), .function ⟨5⟩],
        .unsubscribe "e" ⟨2⟩ .all]
    (∀ operation ∈ operations, operation.client?.isSome) ∧
      ∃ exchanges final ownFinal,
        (Operation.carryOutAll (Behaviour.run 0) operations).run world =
            some (exchanges, final) ∧
          exchanges = [⟨.unsubscribe "e" ⟨2⟩ (.one ⟨0⟩), (1 : Nat)⟩,
            ⟨.subscribe "e" first, false⟩,
            ⟨.scriptOn ⟨⟨1⟩, ⟨1⟩⟩ [.plain (.text "e"), .function ⟨5⟩], ()⟩,
            ⟨.unsubscribe "e" ⟨2⟩ .all, (0 : Nat)⟩] ∧
          final.bus.listeners "e" = [first, added] ∧
          (Operation.carryOutAll (Behaviour.run 0)
              [.subscribe "e" first,
                .scriptOn ⟨⟨1⟩, ⟨1⟩⟩ [.plain (.text "e"), .function ⟨5⟩]]).run
              (world.confined ⟨1⟩) =
            some ([⟨.subscribe "e" first, false⟩,
              ⟨.scriptOn ⟨⟨1⟩, ⟨1⟩⟩ [.plain (.text "e"), .function ⟨5⟩], ()⟩],
              ownFinal) ∧
          ownFinal.bus.listeners "e" = [first, added] := by
  intro first second added world operations
  have clients : ∀ operation ∈ operations, operation.client?.isSome := by
    simp [operations, Operation.client?]
  refine ⟨clients, ?_⟩
  obtain ⟨exchanges, final, ownFinal, ran, ownRan, kept⟩ :=
    contexts_do_not_interfere (Behaviour.run 0) clients ⟨1⟩ world
  cases ran
  exact ⟨_, _, ownFinal, rfl, rfl, rfl, ownRan, (kept "e").2⟩

end CellBus
