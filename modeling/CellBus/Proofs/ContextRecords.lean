import CellBus.Proofs.ContextTeardown

/-!
# Records of contexts

The journal tells which contexts were given a number, which were created and which were
destroyed, and when bodies started to run.  In every state of every run the contexts of
the hub are in accord with it: numbers are given once, a context is recorded for the
engine that created it, and one that was destroyed is recorded as ended and never
again runs a body.
-/

namespace CellBus

open Relation

variable {σ : Type}

/-- The context that a happening says was given a number. -/
def Happening.numbered : Happening → List ContextId
  | .contextCreated _ _ context | .contextReserved context => [context]
  | _ => []

/-- Every context that was ever given a number, in order. -/
def Journal.numbered (journal : Journal) : List ContextId :=
  journal.happenings.flatMap Happening.numbered

theorem Journal.numbered_add (happening : Happening) (journal : Journal) :
    (journal.add happening).numbered = journal.numbered ++ happening.numbered := by
  simp [Journal.numbered]

theorem Journal.mem_numbered_of_created {journal : Journal} {name : String}
    {engine : EngineId} {context : ContextId}
    (told : .contextCreated name engine context ∈ journal.happenings) :
    context ∈ journal.numbered := by
  rw [Journal.numbered, List.mem_flatMap]
  exact ⟨_, told, List.mem_singleton_self context⟩

namespace Hub

variable {hub : Hub} {engine : EngineId} {context : ContextId}

/-- The engine that created a context, and whether the context still exists. -/
def record? (hub : Hub) (context : ContextId) : Option (EngineId × Bool) :=
  (hub.context? context).map fun found => (found.engine, found.live)

theorem hasContext_eq_true_iff :
    hub.hasContext engine context = true ↔ hub.record? context = some (engine, true) := by
  rw [hasContext, record?]
  cases hub.context? context with
  | none => simp
  | some found => simp [and_comm]

/-- The number that the next context is given. -/
def nextContext (hub : Hub) : ContextId := ⟨hub.numbered + 1⟩

theorem context?_createContext (engine : EngineId) (context : ContextId) :
    (hub.createContext engine).2.context? context =
      (hub.context? context).or
        (if context = hub.nextContext then some ⟨context, engine, true, []⟩
          else none) := by
  let created : Context := ⟨hub.nextContext, engine, true, []⟩
  change (hub.contexts ++ [created]).find? _ = _
  rw [List.find?_append, List.find?_singleton]
  congr 1
  by_cases same : context = hub.nextContext
  · rw [if_pos same, same, if_pos (decide_eq_true rfl)]
  · rw [if_neg same, if_neg (by simpa using Ne.symm same)]

theorem record?_createContext (unused : hub.record? hub.nextContext = none)
    (engine : EngineId) (context : ContextId) :
    (hub.createContext engine).2.record? context =
      if context = hub.nextContext then some (engine, true) else hub.record? context := by
  rw [record?, context?_createContext]
  split
  · rename_i same
    rw [record?, Option.map_eq_none_iff] at unused
    rw [same, unused]
    rfl
  · rw [Option.or_none]
    rfl

theorem globals?_createContext (unused : hub.record? hub.nextContext = none)
    (engine : EngineId) :
    (hub.createContext engine).2.globals? engine hub.nextContext = some [] := by
  have found : (hub.createContext engine).2.context? hub.nextContext =
      some ⟨hub.nextContext, engine, true, []⟩ := by
    rw [record?, Option.map_eq_none_iff] at unused
    rw [context?_createContext, unused, if_pos rfl]
    rfl
  rw [globals?, hasContext, globals, found]
  simp

/-- Changing a context keeps its number, so all are found as before. -/
theorem context?_changeContext {step : Context → Context}
    (keepsId : ∀ found, (step found).id = found.id) (wanted : ContextId) :
    (hub.changeContext context step).context? wanted =
      if wanted = context then (hub.context? wanted).map step
      else hub.context? wanted := by
  rw [context?, changeContext, List.find?_map]
  have sameTest : ((fun found : Context => decide (found.id = wanted)) ∘
      fun found => if found.id = context then step found else found) =
        fun found => decide (found.id = wanted) := by
    funext found
    simp only [Function.comp_apply]
    split
    · rw [keepsId]
    · rfl
  rw [sameTest]
  change (hub.context? wanted).map _ = _
  cases found : hub.context? wanted with
  | none => simp
  | some record =>
      have named : record.id = wanted := by simpa using List.find?_some found
      rw [Option.map_some, named, Option.map_some]
      split <;> rfl

theorem record?_setGlobal (key : String) (value : Value) (wanted : ContextId) :
    (hub.setGlobal context key value).record? wanted = hub.record? wanted := by
  rw [record?, setGlobal, context?_changeContext]
  · split
    · rw [Option.map_map]
      rfl
    · rfl
  · intro found
    rfl

theorem record?_destroyContext (existing : hub.record? context = some (engine, true))
    (wanted : ContextId) :
    (hub.destroyContext engine context).2.record? wanted =
      if wanted = context then some (engine, false) else hub.record? wanted := by
  rw [destroyContext, if_pos (hasContext_eq_true_iff.mpr existing)]
  dsimp only
  rw [record?, context?_changeContext]
  · split
    · rename_i same
      subst same
      obtain ⟨found, known, recorded⟩ := Option.map_eq_some_iff.mp existing
      rw [known, ← (Prod.mk.inj recorded).1]
      rfl
    · rfl
  · intro found
    rfl

end Hub

namespace Happening

/-- What tells neither of numbers given out, nor of contexts, nor of a body that runs in
one. -/
def SparesContexts : Happening → Prop
  | .contextCreated .. | .contextReserved .. | .contextDestroyed .. | .bodyEntered .. =>
      False
  | _ => True

theorem numbered_cases (happening : Happening) :
    happening.numbered = [] ∨ ∃ context, happening.numbered = [context] := by
  cases happening <;> simp [numbered]

/-- What a happening makes of the record of a context. -/
def recorded (context : ContextId) (record : Option (EngineId × Bool)) :
    Happening → Option (EngineId × Bool)
  | .contextCreated _ engine created => if context = created then some (engine, true) else record
  | .contextDestroyed engine ended => if context = ended then some (engine, false) else record
  | _ => record

theorem recorded_cases (context : ContextId) (record : Option (EngineId × Bool))
    (happening : Happening) :
    happening.recorded context record = record ∨
      (∃ name engine, happening = .contextCreated name engine context ∧
        happening.recorded context record = some (engine, true)) ∨
      ∃ engine, happening = .contextDestroyed engine context ∧
        happening.recorded context record = some (engine, false) := by
  cases happening with
  | contextCreated name engine created =>
      by_cases same : context = created
      · subst same
        exact .inr (.inl ⟨name, engine, rfl, if_pos rfl⟩)
      · exact .inl (if_neg same)
  | contextDestroyed engine ended =>
      by_cases same : context = ended
      · subst same
        exact .inr (.inr ⟨engine, rfl, if_pos rfl⟩)
      · exact .inl (if_neg same)
  | _ => exact .inl rfl

end Happening

namespace World

/-- A step enters a happening in the journal and changes the records of contexts as the
happening says.  Only the next number is given, only a context that exists is destroyed,
and only in one that exists a body starts to run. -/
structure Records (happening : Happening) (world after : World σ) : Prop where
  journal : after.journal = world.journal.add happening
  records : ∀ context,
    after.hub.record? context = happening.recorded context (world.hub.record? context)
  numbers : after.hub.numbered = world.hub.numbered + happening.numbered.length
  next : ∀ context ∈ happening.numbered, context = world.hub.nextContext
  ends : ∀ engine context, happening = .contextDestroyed engine context →
    world.hub.record? context = some (engine, true)
  runs : ∀ callable scope, happening = .bodyEntered callable scope →
    world.hub.record? scope.context = some (scope.engine, true)

variable {world after : World σ} {happening : Happening}

/-- A body runs in a scope of the engine that is asked, and its context exists. -/
theorem admission_eq_ok {scope : Scope} {engine : EngineId} {callable : Callable}
    {function : String × (Frame → Behaviour σ)}
    (admitted : world.admission scope engine callable = .ok function) :
    world.hub.record? scope.context = some (scope.engine, true) := by
  unfold World.admission at admitted
  split at admitted
  · cases admitted
  · rename_i own
    have sameEngine : scope.engine = engine := by simpa using own
    split at admitted
    · cases admitted
    · split at admitted
      · rename_i existing
        rw [sameEngine]
        exact Hub.hasContext_eq_true_iff.mp existing
      · cases admitted

/-- A step that changes nothing about contexts, and of which the journal tells something
else. -/
theorem records_of_same (journal : after.journal = world.journal.add happening)
    (sameRecords : ∀ context, after.hub.record? context = world.hub.record? context)
    (sameNumbers : after.hub.numbered = world.hub.numbered)
    (spares : happening.SparesContexts) : Records happening world after where
  journal := journal
  records := by
    intro context
    rw [sameRecords]
    cases happening with
    | contextCreated | contextDestroyed => exact spares.elim
    | _ => rfl
  numbers := by
    rw [sameNumbers]
    cases happening with
    | contextCreated | contextReserved => exact spares.elim
    | _ => rfl
  next := by
    intro context member
    cases happening with
    | contextCreated | contextReserved => exact spares.elim
    | _ => exact absurd member List.not_mem_nil
  ends := by
    rintro engine context rfl
    exact spares.elim
  runs := by
    rintro callable scope rfl
    exact spares.elim

theorem records_remark (remark : happening.IsRemark) :
    Records happening world (world.noted happening) := by
  refine records_of_same rfl (fun _ => rfl) rfl ?_
  cases happening <;> trivial

/-- An elementary change leaves the journal and the records of contexts as they are, or
the journal tells what it did to them. -/
theorem Change.records (change : World.Change world after)
    (unused : world.hub.record? world.hub.nextContext = none) :
    (after.journal = world.journal ∧ after.hub.record? = world.hub.record? ∧
        after.hub.numbered = world.hub.numbered) ∨
      ∃ happening, Records happening world after := by
  cases change with
  | engineCreated name => exact .inl ⟨rfl, rfl, rfl⟩
  | contextCreated engine =>
      refine .inr ⟨_, rfl, ?_, rfl, ?_, by rintro _ _ ⟨⟩, by rintro _ _ ⟨⟩⟩
      · intro context
        exact Hub.record?_createContext unused engine context
      · intro context member
        exact List.mem_singleton.mp member
  | contextReserved =>
      refine .inr ⟨_, rfl, fun _ => rfl, rfl, ?_, by rintro _ _ ⟨⟩, by rintro _ _ ⟨⟩⟩
      intro context member
      exact List.mem_singleton.mp member
  | @contextDestroyed engine context existing =>
      have recorded := Hub.hasContext_eq_true_iff.mp existing
      refine .inr
        ⟨.contextDestroyed engine context, rfl, ?_, ?_, ?_, ?_, by rintro _ _ ⟨⟩⟩
      · intro wanted
        exact Hub.record?_destroyContext recorded wanted
      · change (world.hub.destroyContext engine context).2.numbered = _
        rw [Hub.destroyContext, if_pos existing]
        rfl
      · exact fun _ member => absurd member List.not_mem_nil
      · rintro other ended ⟨⟩
        exact recorded
  | globalSet context key value =>
      exact .inl ⟨rfl, funext (Hub.record?_setGlobal key value), rfl⟩
  | functionAdded function => exact .inl ⟨rfl, rfl, rfl⟩
  | hostStored host => exact .inl ⟨rfl, rfl, rfl⟩
  | eventRegistered registered =>
      exact .inr ⟨_, records_of_same rfl (fun _ => rfl) rfl trivial⟩
  | eventInserted distinct inserted =>
      exact .inr ⟨_, records_of_same rfl (fun _ => rfl) rfl trivial⟩
  | listenerAdded added =>
      exact .inr ⟨_, records_of_same rfl (fun _ => rfl) rfl trivial⟩
  | listenerIgnored ignored => exact .inl ⟨rfl, rfl, rfl⟩
  | unsubscribed name context target => exact .inl ⟨rfl, rfl, rfl⟩
  | cleared name => exact .inl ⟨rfl, rfl, rfl⟩
  | contextUnsubscribed free =>
      exact .inr ⟨_, records_of_same rfl (fun _ => rfl) rfl trivial⟩
  | listenerCalled live =>
      exact .inr ⟨_, records_of_same rfl (fun _ => rfl) rfl trivial⟩
  | @bodyEntered scope engine callable function admitted =>
      refine .inr ⟨.bodyEntered callable scope, rfl, fun _ => rfl, rfl, ?_,
        by rintro _ _ ⟨⟩, ?_⟩
      · exact fun _ member => absurd member List.not_mem_nil
      · rintro other entered ⟨⟩
        exact admission_eq_ok admitted
  | remarked remark => exact .inr ⟨_, records_remark remark⟩

/-- The journal and the contexts of the hub are in accord. -/
structure Accords (world : World σ) : Prop where
  numbers : world.journal.numbered =
    (List.range world.hub.numbered).map fun number => ⟨number + 1⟩
  created : ∀ context engine live, world.hub.record? context = some (engine, live) →
    ∃ name, .contextCreated name engine context ∈ world.journal.happenings
  recorded : ∀ name engine context,
    .contextCreated name engine context ∈ world.journal.happenings →
      ∃ live, world.hub.record? context = some (engine, live)
  ended : ∀ engine context, .contextDestroyed engine context ∈ world.journal.happenings →
    world.hub.record? context = some (engine, false)
  quiet : ∀ engine context earlier later callable scope,
    world.journal.happenings = earlier ++ .contextDestroyed engine context :: later →
    .bodyEntered callable scope ∈ later → scope.context ≠ context

namespace Accords

theorem new (limits : Limits) (host : σ) : (World.new limits host).Accords where
  numbers := rfl
  created := by
    intro context engine live recorded
    cases recorded
  recorded := by
    intro name engine context told
    cases told
  ended := by
    intro engine context told
    cases told
  quiet := by
    intro engine context earlier later callable scope split
    simp [World.new, Journal.happenings_empty] at split

/-- The next number was never given. -/
theorem nextContext_unnumbered (accords : world.Accords) :
    world.hub.nextContext ∉ world.journal.numbered := by
  rw [accords.numbers]
  intro member
  obtain ⟨number, low, same⟩ := List.mem_map.mp member
  have equal : number + 1 = world.hub.numbered + 1 := congrArg ContextId.number same
  rw [List.mem_range] at low
  omega

theorem nextContext_unused (accords : world.Accords) :
    world.hub.record? world.hub.nextContext = none := by
  cases recorded : world.hub.record? world.hub.nextContext with
  | none => rfl
  | some record =>
      obtain ⟨name, told⟩ := accords.created _ record.1 record.2 recorded
      exact absurd (Journal.mem_numbered_of_created told) accords.nextContext_unnumbered

/-- A number that a step gives was recorded for no context before. -/
theorem unrecorded (accords : world.Accords) (records : Records happening world after)
    {context : ContextId} (given : context ∈ happening.numbered) :
    world.hub.record? context = none := by
  rw [records.next context given]
  exact accords.nextContext_unused

theorem told (accords : world.Accords) (records : Records happening world after) :
    after.Accords where
  numbers := by
    rw [records.journal, Journal.numbered_add, accords.numbers, records.numbers]
    rcases happening.numbered_cases with silent | ⟨context, given⟩
    · rw [silent, List.append_nil]
      rfl
    · rw [given, List.length_singleton, List.range_succ, List.map_append]
      rw [records.next context (by simp [given])]
      rfl
  created := by
    intro context engine live recorded
    rw [records.journal, Journal.happenings_add]
    rw [records.records] at recorded
    rcases happening.recorded_cases context (world.hub.record? context) with
      same | ⟨name, creator, rfl, made⟩ | ⟨creator, rfl, made⟩
    · rw [same] at recorded
      obtain ⟨name, told⟩ := accords.created context engine live recorded
      exact ⟨name, List.mem_append_left _ told⟩
    · rw [made] at recorded
      cases recorded
      exact ⟨name, List.mem_append_right _ (List.mem_singleton_self _)⟩
    · rw [made] at recorded
      cases recorded
      obtain ⟨name, told⟩ := accords.created context engine true
        (records.ends engine context rfl)
      exact ⟨name, List.mem_append_left _ told⟩
  recorded := by
    intro name engine context told
    rw [records.journal, Journal.happenings_add, List.mem_append, List.mem_singleton]
      at told
    rw [records.records]
    rcases told with before | rfl
    · obtain ⟨live, known⟩ := accords.recorded name engine context before
      rcases happening.recorded_cases context (world.hub.record? context) with
        same | ⟨_, _, rfl, _⟩ | ⟨creator, rfl, made⟩
      · exact ⟨live, same.trans known⟩
      · rw [accords.unrecorded records (List.mem_singleton_self context)] at known
        cases known
      · rw [records.ends creator context rfl] at known
        cases known
        exact ⟨false, made⟩
    · exact ⟨true, if_pos rfl⟩
  ended := by
    intro engine context told
    rw [records.journal, Journal.happenings_add, List.mem_append, List.mem_singleton]
      at told
    rw [records.records]
    rcases told with before | rfl
    · have known := accords.ended engine context before
      rcases happening.recorded_cases context (world.hub.record? context) with
        same | ⟨_, _, rfl, _⟩ | ⟨creator, rfl, made⟩
      · exact same.trans known
      · rw [accords.unrecorded records (List.mem_singleton_self context)] at known
        cases known
      · rw [records.ends creator context rfl] at known
        cases known
    · exact if_pos rfl
  quiet := by
    intro engine context earlier later callable scope split entered
    rw [records.journal] at split
    rcases Journal.split_add split with ⟨rfl, -, -⟩ | ⟨before, rfl, whole⟩
    · cases entered
    · rw [List.mem_append, List.mem_singleton] at entered
      rcases entered with past | now
      · exact accords.quiet engine context earlier before callable scope whole past
      · rintro rfl
        have destroyed : .contextDestroyed engine scope.context ∈
            world.journal.happenings := by
          rw [whole]
          exact List.mem_append_right _ (List.mem_cons_self ..)
        have existing := records.runs callable scope now.symm
        rw [accords.ended engine scope.context destroyed] at existing
        cases existing

theorem change (accords : world.Accords) (change : World.Change world after) :
    after.Accords := by
  rcases change.records accords.nextContext_unused with
    ⟨journal, sameRecords, sameNumbers⟩ | ⟨happening, records⟩
  · constructor
    · rw [journal, sameNumbers]
      exact accords.numbers
    · rw [journal, sameRecords]
      exact accords.created
    · rw [journal, sameRecords]
      exact accords.recorded
    · rw [journal, sameRecords]
      exact accords.ended
    · rw [journal]
      exact accords.quiet
  · exact accords.told records

end Accords

theorem Reachable.accords (reachable : world.Reachable) : world.Accords :=
  reachable.induct Accords.new fun _ _ change accords => accords.change change

end World

end CellBus
