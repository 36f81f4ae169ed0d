import CellBus.Proofs.RunStates
import CellBus.Proofs.TurnReports

/-!
# Bodies that start to run

An engine lets a callable pass if the scope is its own, the callable is a native
function and the context of the scope exists.  Then the body runs, and a fault that it
leaves has a stack; otherwise nothing runs and the fault has none.  So the faults of a
report tell how many of the listeners that a dispatch called had their bodies run.
-/

namespace CellBus

variable {σ : Type} {scope : Scope} {engine : EngineId} {callable : Callable}
variable {arguments : List Argument} {world state : World σ} {body : Behaviour σ}

namespace World

/-- The three guards of an engine. -/
def Admits (world : World σ) (scope : Scope) (engine : EngineId) (callable : Callable) :
    Prop :=
  scope.engine = engine ∧ (world.native? callable).isSome ∧
    world.hub.hasContext engine scope.context = true

/-- The fault of a call in the scope of another engine. -/
def scopeFault (own engine : EngineId) : Fault :=
  ⟨"scope for " ++ own.text ++ " used on " ++ engine.text, none⟩

/-- The fault of a callable that no native engine can run. -/
def foreignFault : Fault := ⟨"callable does not belong to a native engine", none⟩

/-- The fault of a call under a context that the engine does not have. -/
def contextFault (context : ContextId) : Fault :=
  ⟨"context " ++ context.text ++ " was destroyed", none⟩

theorem admission_eq_ok_iff {function : String × (Frame → Behaviour σ)} :
    world.admission scope engine callable = .ok function ↔
      scope.engine = engine ∧ world.native? callable = some function ∧
        world.hub.hasContext engine scope.context = true := by
  unfold World.admission
  split
  case isTrue other => simp [other]
  case isFalse own =>
    have same : scope.engine = engine := not_not.mp own
    cases native : world.native? callable with
    | none => simp
    | some found =>
        by_cases live : world.hub.hasContext engine scope.context = true <;>
          simp [same, live]

theorem admits_iff :
    world.Admits scope engine callable ↔
      ∃ function, world.admission scope engine callable = .ok function := by
  simp only [Admits, admission_eq_ok_iff, Option.isSome_iff_exists]
  constructor
  · rintro ⟨own, ⟨function, native⟩, live⟩
    exact ⟨function, own, native, live⟩
  · rintro ⟨function, own, native, live⟩
    exact ⟨own, ⟨function, native⟩, live⟩

/-- Which guard refuses shows in the fault, which has no stack. -/
theorem admission_eq_error {fault : Fault}
    (refused : world.admission scope engine callable = .error fault) :
    (scope.engine ≠ engine ∧ fault = scopeFault scope.engine engine) ∨
      (world.native? callable = none ∧ fault = foreignFault) ∨
      (world.hub.hasContext engine scope.context = false ∧
        fault = contextFault scope.context) := by
  unfold World.admission at refused
  split at refused
  case isTrue other =>
    cases refused
    exact .inl ⟨other, rfl⟩
  case isFalse own =>
    cases native : world.native? callable with
    | none =>
        rw [native] at refused
        cases refused
        exact .inr (.inl ⟨rfl, rfl⟩)
    | some function =>
        simp only [native] at refused
        split at refused
        case isTrue => cases refused
        case isFalse absent =>
          cases refused
          exact .inr (.inr ⟨Bool.not_eq_true _ ▸ absent, rfl⟩)

theorem stack_of_refused {fault : Fault}
    (refused : world.admission scope engine callable = .error fault) : fault.stack = none := by
  rcases admission_eq_error refused with ⟨_, rfl⟩ | ⟨_, rfl⟩ | ⟨_, rfl⟩ <;> rfl

theorem scopeFault_ne (own engine : EngineId) (context : ContextId) :
    scopeFault own engine ≠ foreignFault ∧ scopeFault own engine ≠ contextFault context := by
  -- The messages begin with different letters.
  constructor <;>
  · intro same
    have first := congrArg (fun fault => fault.message.toList.head?) same
    simp [scopeFault, foreignFault, contextFault] at first

end World

/-- A value stays as it is; everything else becomes a fault with the stack. -/
theorem Outcome.settle_cases (stack : String) (outcome : Outcome) :
    (∃ value, outcome = .returns value ∧ outcome.settle stack = .ok value) ∨
      (∀ value, outcome ≠ .returns value) ∧
        ∃ message, outcome.settle stack = .error ⟨message, some stack⟩ := by
  cases outcome with
  | returns value => exact .inl ⟨value, rfl, rfl⟩
  | throws message => exact .inr ⟨by rintro _ ⟨⟩, message, rfl⟩
  | panics message => exact .inr ⟨by rintro _ ⟨⟩, _, rfl⟩

namespace InvocationEnters

theorem exists_iff :
    (∃ body state, InvocationEnters scope engine callable arguments world body state) ↔
      world.Admits scope engine callable := by
  rw [World.admits_iff]
  constructor
  · rintro ⟨_, _, ⟨admitted⟩⟩
    exact ⟨_, admitted⟩
  · rintro ⟨⟨name, body⟩, admitted⟩
    exact ⟨_, _, .intro admitted⟩

/-- What runs is the body of the callable, from where the start is noted. -/
theorem native (enters : InvocationEnters scope engine callable arguments world body state) :
    ∃ name function, world.native? callable = some (name, function) ∧
      body = function ⟨scope.context, arguments, callable⟩ ∧
      state = world.noted (.bodyEntered callable scope) := by
  obtain ⟨admitted⟩ := enters
  obtain ⟨-, known, -⟩ := World.admission_eq_ok_iff.mp admitted
  exact ⟨_, _, known, rfl, rfl⟩

end InvocationEnters

namespace Running

variable {runner : Runner σ}

/-- An invocation that starts a body is the run of this body, with its outcome settled. -/
theorem invoke_run_of_enters
    (enters : InvocationEnters scope engine callable arguments world body state)
    (runner : Runner σ) :
    ∃ stack, (invoke runner scope engine callable arguments).run world =
      ((runner body).run state).map fun left => (left.1.settle stack, left.2) := by
  obtain ⟨admitted⟩ := enters
  exact ⟨_, invoke_admitted admitted arguments⟩

/-- An invocation that a guard refuses is a fault without a stack and changes nothing. -/
theorem invoke_run_of_refused (refused : ¬world.Admits scope engine callable)
    (runner : Runner σ) (arguments : List Argument) :
    ∃ fault, world.admission scope engine callable = .error fault ∧ fault.stack = none ∧
      (invoke runner scope engine callable arguments).run world =
        some (.error fault, world) := by
  cases admission : world.admission scope engine callable with
  | ok function => exact absurd (World.admits_iff.mpr ⟨function, admission⟩) refused
  | error fault =>
      exact ⟨fault, rfl, World.stack_of_refused admission,
        invoke_refused admission arguments⟩

end Running

/-- A call of a listener, with the arguments it is handed and the world it starts in. -/
structure Call (σ : Type) where
  listener : Listener
  arguments : List Argument
  state : World σ

namespace Call

/-- The body that the engine of the listener starts to run, and the world it starts in. -/
def start? (call : Call σ) : Option (Behaviour σ × World σ) :=
  match call.state.admission call.listener.scope call.listener.engine call.listener.callable with
  | .ok (_, body) =>
    some (body ⟨call.listener.context, call.arguments, call.listener.callable⟩,
      call.state.noted (.bodyEntered call.listener.callable call.listener.scope))
  | .error _ => none

/-- The engine of the listener starts to run a body. -/
abbrev Enters (call : Call σ) (body : Behaviour σ) (state : World σ) : Prop :=
  InvocationEnters call.listener.scope call.listener.engine call.listener.callable
    call.arguments call.state body state

variable {call : Call σ}

theorem start?_eq_some_iff : call.start? = some (body, state) ↔ call.Enters body state := by
  unfold start?
  constructor
  · intro started
    split at started
    · rename_i admitted
      cases started
      exact .intro admitted
    · cases started
  · rintro ⟨admitted⟩
    rw [admitted]
    rfl

theorem start?_eq_none_iff :
    call.start? = none ↔ ¬∃ body state, call.Enters body state := by
  rw [Option.eq_none_iff_forall_ne_some]
  simp only [ne_eq, Prod.forall, start?_eq_some_iff, not_exists]

end Call

/-- A call that is made when listeners take their turns. -/
inductive TurnCalls (caller : Caller σ) (supply : Supply) (name : String)
    (listeners : List Listener) (asked : Nat) (world : World σ) : Call σ → Prop where
  | intro {before rest : List Listener} {listener : Listener} {turns : List Turn}
      {after next : Nat} {state : World σ} {arguments : List Argument} :
      listeners = before ++ listener :: rest →
      Course caller supply name before asked world turns after state →
      state.bus.holds name listener = true →
      supply after = (.ok arguments, next) →
      TurnCalls caller supply name listeners asked world
        ⟨listener, arguments, state.noted (.listenerCalled name listener)⟩

namespace TurnCalls

variable {caller : Caller σ} {supply : Supply} {name : String} {asked next : Nat}
variable {listeners rest : List Listener} {listener : Listener} {call : Call σ}
variable {middle : World σ} {outcome : Except Fault Value}

theorem nil : ¬TurnCalls caller supply name [] asked world call := by
  rintro ⟨split, -, -, -⟩
  simp at split

theorem skipped_iff (gone : world.bus.holds name listener = false) :
    TurnCalls caller supply name (listener :: rest) asked world call ↔
      TurnCalls caller supply name rest asked
        (world.noted (.listenerSkipped name listener)) call := by
  constructor
  · rintro ⟨split, course, live, built⟩
    rcases List.cons_eq_append_iff.mp split with ⟨rfl, same⟩ | ⟨before, rfl, rfl⟩
    · cases same
      cases course
      simp [gone] at live
    · cases course with
      | skipped _ tail => exact .intro rfl tail live built
      | called liveToo => simp [gone] at liveToo
  · rintro ⟨rfl, course, live, built⟩
    exact .intro List.cons_append.symm (.skipped gone course) live built

theorem refused {error : MarshalError} (live : world.bus.holds name listener = true)
    (failed : supply asked = (.error error, next)) :
    ¬TurnCalls caller supply name (listener :: rest) asked world call := by
  rintro ⟨split, course, -, built⟩
  rcases List.cons_eq_append_iff.mp split with ⟨rfl, same⟩ | ⟨before, rfl, rfl⟩
  · cases same
    cases course
    simp [failed] at built
  · cases course with
    | skipped gone => simp [gone] at live
    | called _ builtToo => simp [failed] at builtToo

theorem called_iff (live : world.bus.holds name listener = true)
    (built : supply asked = (.ok arguments, next))
    (answered : (Running.call caller name listener arguments).run world =
      some (outcome, middle)) :
    TurnCalls caller supply name (listener :: rest) asked world call ↔
      call = ⟨listener, arguments, world.noted (.listenerCalled name listener)⟩ ∨
        TurnCalls caller supply name rest next middle call := by
  constructor
  · rintro ⟨split, course, liveToo, builtToo⟩
    rcases List.cons_eq_append_iff.mp split with ⟨rfl, same⟩ | ⟨before, rfl, rfl⟩
    · cases same
      cases course
      rw [built] at builtToo
      cases builtToo
      exact .inl rfl
    · cases course with
      | skipped gone => simp [live] at gone
      | called _ builtFirst answeredFirst tail =>
          rw [built] at builtFirst
          cases builtFirst
          rw [answered] at answeredFirst
          cases answeredFirst
          exact .inr (.intro rfl tail liveToo builtToo)
  · rintro (rfl | ⟨rfl, course, liveToo, builtToo⟩)
    · exact .intro (List.nil_append _).symm (.nil asked world) live built
    · exact .intro List.cons_append.symm (.called live built answered course) liveToo
        builtToo

end TurnCalls

/-- The calls that were made in some turns, each with the outcome that its turn tells. -/
inductive MadeIn (caller : Caller σ) : List (Call σ) → List Turn → Prop where
  | nil : MadeIn caller [] []
  | skipped {calls : List (Call σ)} {turns : List Turn} (listener : Listener) :
      MadeIn caller calls turns → MadeIn caller calls (.skipped listener :: turns)
  | refused (listener : Listener) (error : MarshalError) :
      MadeIn caller [] [.refused listener error]
  | called {call : Call σ} {outcome : Except Fault Value} {left : World σ}
      {calls : List (Call σ)} {turns : List Turn} :
      (caller call.listener call.arguments).run call.state = some (outcome, left) →
      MadeIn caller calls turns →
      MadeIn caller (call :: calls) (.called call.listener call.arguments outcome :: turns)

/-- How much the journal of a world tells. -/
def World.age (world : World σ) : Nat := world.journal.happenings.length

@[simp] theorem World.age_noted (happening : Happening) (world : World σ) :
    (world.noted happening).age = world.age + 1 := by
  simp [age]

theorem World.Changes.age_le {later : World σ} (changes : world.Changes later) :
    world.age ≤ later.age :=
  changes.journal_grows.length_le

theorem InvocationEnters.age
    (enters : InvocationEnters scope engine callable arguments world body state) :
    state.age = world.age + 1 := by
  obtain ⟨admitted⟩ := enters
  exact World.age_noted _ _

namespace Running

variable {caller : Caller σ} {supply : Supply} {name : String} {asked : Nat}
variable {listeners : List Listener} {final : World σ} {turns : List Turn}

/-- A call that gives an answer is a run of the listener from the world in which the call
was noted. -/
theorem exists_run_of_call {listener : Listener} {outcome : Except Fault Value}
    (answered : (call caller name listener arguments).run world =
      some (outcome, final)) :
    ∃ left, (caller listener arguments).run (world.noted (.listenerCalled name listener)) =
      some (outcome, left) ∧ left.age ≤ final.age := by
  rw [call_run, Option.map_eq_some_iff] at answered
  obtain ⟨⟨found, left⟩, ran, equality⟩ := answered
  cases equality
  refine ⟨left, ran, ?_⟩
  cases found with
  | ok value => exact Nat.le_refl _
  | error fault => simp

/-- Where listeners have taken their turns, the calls are made one after the other. -/
theorem exists_calls
    (advances : ∀ listener arguments, Advances (caller listener arguments))
    (taken : (takeTurns caller supply name listeners asked).run world =
      some (turns, final)) :
    ∃ calls, MadeIn caller calls turns ∧
      (∀ call, call ∈ calls ↔ TurnCalls caller supply name listeners asked world call) ∧
      (∀ call ∈ calls, world.age < call.state.age) ∧
      calls.Pairwise fun earlier later => earlier.state.age < later.state.age := by
  induction listeners generalizing asked world turns with
  | nil =>
      cases taken
      exact ⟨[], .nil, by simp [TurnCalls.nil], by simp, .nil⟩
  | cons listener rest ih =>
      cases live : world.bus.holds name listener with
      | false =>
          rw [takeTurns_skipped caller live, Option.map_eq_some_iff] at taken
          obtain ⟨⟨later, _⟩, laterTaken, equality⟩ := taken
          cases equality
          obtain ⟨calls, made, those, after, inOrder⟩ := ih laterTaken
          refine ⟨calls, .skipped listener made, ?_, ?_, inOrder⟩
          · intro call
            rw [those, TurnCalls.skipped_iff live]
          · intro call member
            have older := after call member
            rw [World.age_noted] at older
            omega
      | true =>
          rcases built : supply asked with ⟨error | arguments, next⟩
          · rw [takeTurns_refused caller live built] at taken
            cases taken
            exact ⟨[], .refused listener error, by simp [TurnCalls.refused live built],
              by simp, .nil⟩
          · rw [takeTurns_called caller live built, Option.bind_eq_some_iff] at taken
            obtain ⟨⟨outcome, middle⟩, answered, taken⟩ := taken
            rw [Option.map_eq_some_iff] at taken
            obtain ⟨⟨later, _⟩, laterTaken, equality⟩ := taken
            cases equality
            obtain ⟨calls, made, those, after, inOrder⟩ := ih laterTaken
            obtain ⟨left, ran, older⟩ := exists_run_of_call answered
            let first := world.noted (.listenerCalled name listener)
            have younger : world.age < first.age :=
              Nat.lt_of_lt_of_eq (Nat.lt_succ_self _) (World.age_noted _ _).symm
            -- The later calls come after all that this one did, and it only added to the
            -- journal.
            have beyond : ∀ call ∈ calls, first.age < call.state.age := by
              intro call member
              exact Nat.lt_of_le_of_lt (Nat.le_trans (advances _ _ _ _ _ ran).age_le older)
                (after call member)
            refine ⟨⟨listener, arguments, first⟩ :: calls, .called ran made, ?_, ?_,
              List.pairwise_cons.mpr ⟨beyond, inOrder⟩⟩
            · intro call
              rw [List.mem_cons, those, TurnCalls.called_iff live built answered]
            · rw [List.forall_mem_cons]
              exact ⟨younger, fun call member => Nat.lt_trans younger (beyond call member)⟩

end Running

namespace MadeIn

variable {calls : List (Call σ)} {turns : List Turn}

/-- A fault in a report is what one of the calls gave. -/
theorem exists_call_of_fault {caller : Caller σ} (made : MadeIn caller calls turns)
    {fault : Fault} (reported : fault ∈ turns.filterMap Turn.fault?) :
    ∃ call ∈ calls, ∃ left,
      (caller call.listener call.arguments).run call.state = some (.error fault, left) := by
  induction made with
  | nil => simp at reported
  | skipped listener _ ih => exact ih (by simpa [Turn.fault?] using reported)
  | refused listener error => simp [Turn.fault?] at reported
  | @called call outcome left _ _ ran _ ih =>
      cases outcome with
      | ok value =>
          obtain ⟨found, member, gave⟩ := ih (by simpa [Turn.fault?] using reported)
          exact ⟨found, List.mem_cons_of_mem _ member, gave⟩
      | error first =>
          simp only [List.filterMap_cons, Turn.fault?, List.mem_cons] at reported
          rcases reported with rfl | later
          · exact ⟨call, List.mem_cons_self, left, ran⟩
          · obtain ⟨found, member, gave⟩ := ih later
            exact ⟨found, List.mem_cons_of_mem _ member, gave⟩

end MadeIn

namespace Call

variable {runner : Runner σ} {call : Call σ} {outcome : Except Fault Value} {left : World σ}

/-- A call starts a body, and then every fault has a stack, or it gives a fault without a
stack. -/
theorem started_or_unstacked
    (ran : (Running.invokeListener runner call.listener call.arguments).run call.state =
      some (outcome, left)) :
    (∃ start, call.start? = some start ∧
        ∀ fault, outcome = .error fault → fault.stack ≠ none) ∨
      call.start? = none ∧ ∃ fault, outcome = .error fault ∧ fault.stack = none := by
  cases started : call.start? with
  | none =>
      rw [start?_eq_none_iff, InvocationEnters.exists_iff] at started
      obtain ⟨fault, -, unstacked, stopped⟩ :=
        Running.invoke_run_of_refused started runner call.arguments
      rw [Running.invokeListener, stopped] at ran
      cases ran
      exact .inr ⟨rfl, fault, rfl, unstacked⟩
  | some start =>
      refine .inl ⟨start, rfl, ?_⟩
      rintro fault rfl unstacked
      obtain ⟨stack, whole⟩ :=
        Running.invoke_run_of_enters (start?_eq_some_iff.mp started) runner
      rw [Running.invokeListener, whole, Option.map_eq_some_iff] at ran
      obtain ⟨⟨ended, _⟩, -, settled⟩ := ran
      have gave := congrArg Prod.fst settled
      rcases ended.settle_cases stack with ⟨value, -, returned⟩ | ⟨-, message, faulted⟩
      · rw [returned] at gave
        cases gave
      · rw [faulted] at gave
        cases gave
        cases unstacked

end Call

/-- Each call that is made starts a body or adds a fault without a stack. -/
theorem MadeIn.length_starts {runner : Runner σ} {calls : List (Call σ)}
    {turns : List Turn} (made : MadeIn (Running.invokeListener runner) calls turns) :
    (calls.filterMap Call.start?).length +
        (turns.filterMap Turn.fault?).countP (·.stack.isNone) =
      (turns.filterMap Turn.call?).length := by
  induction made with
  | nil => rfl
  | skipped listener _ ih => exact ih
  | refused listener error => rfl
  | @called call outcome left _ _ ran _ ih =>
      rcases call.started_or_unstacked ran with
        ⟨start, started, stacked⟩ | ⟨never, fault, rfl, unstacked⟩
      · cases outcome with
        | ok value =>
            simp only [List.filterMap_cons, started, Turn.fault?, Turn.call?,
              List.length_cons, ← ih]
            omega
        | error fault =>
            have uncounted : ¬fault.stack.isNone = true := by
              rw [Option.isNone_iff_eq_none]
              exact stacked fault rfl
            simp only [List.filterMap_cons, started, Turn.fault?, Turn.call?,
              List.length_cons, List.countP_cons, if_neg uncounted, ← ih]
            omega
      · simp only [List.filterMap_cons, never, Turn.fault?, Turn.call?, List.length_cons,
          List.countP_cons, unstacked, ← ih]
        rfl

/-- Calls that are made one after the other start bodies one after the other. -/
theorem Call.nodup_starts {calls : List (Call σ)}
    (inOrder : calls.Pairwise fun earlier later => earlier.state.age < later.state.age) :
    (calls.filterMap Call.start?).Nodup := by
  rw [List.Nodup, List.pairwise_filterMap]
  refine inOrder.imp ?_
  rintro earlier later before ⟨body, state⟩ started _ startedToo rfl
  -- One start would have two ages.
  have early := (start?_eq_some_iff.mp started).age
  have late := (start?_eq_some_iff.mp startedToo).age
  omega

/-- A call that a dispatch makes. -/
inductive DispatchCalls (runner : Runner σ) (supply : Event → Bus → Supply) (asked : Nat)
    (name : String) (world : World σ) : Call σ → Prop where
  | intro {event : Event} {call : Call σ} :
      world.bus.event? name = some event →
      TurnCalls (Running.invokeListener runner) (supply event world.bus) event.name
        event.listeners asked world call →
      DispatchCalls runner supply asked name world call

variable {runner : Runner σ} {supply : Event → Bus → Supply} {asked : Nat} {name : String}

theorem dispatchEnters_iff :
    DispatchEnters runner supply asked name world body state ↔
      ∃ call, DispatchCalls runner supply asked name world call ∧
        call.Enters body state := by
  constructor
  · rintro ⟨found, split, course, live, built, enters⟩
    exact ⟨_, .intro found (.intro split course live built), enters⟩
  · rintro ⟨_, ⟨found, ⟨split, course, live, built⟩⟩, enters⟩
    exact .intro found split course live built enters

/-- A call runs in a scope of the listener's own engine, so if a guard refuses, it is for
the callable or for the context. -/
theorem Call.guard_of_unstacked {call : Call σ} {fault : Fault}
    (ran : ∃ left, (Running.invokeListener runner call.listener call.arguments).run
      call.state = some (.error fault, left)) (unstacked : fault.stack = none) :
    (call.state.native? call.listener.callable = none ∧ fault = World.foreignFault) ∨
      (call.state.hub.hasContext call.listener.engine call.listener.context = false ∧
        fault = World.contextFault call.listener.context) := by
  obtain ⟨left, ran⟩ := ran
  rcases call.started_or_unstacked ran with ⟨_, _, stacked⟩ | ⟨never, -⟩
  · exact absurd unstacked (stacked fault rfl)
  · rw [start?_eq_none_iff, InvocationEnters.exists_iff] at never
    obtain ⟨other, refused, -, stopped⟩ :=
      Running.invoke_run_of_refused never runner call.arguments
    rw [Running.invokeListener, stopped] at ran
    cases ran
    rcases World.admission_eq_error refused with ⟨foreign, -⟩ | refusal
    · exact absurd rfl foreign
    · exact refusal

/-- A dispatch that reports has made its calls one after the other, and the report tells
about them. -/
theorem Running.exists_dispatch_calls {depth : Nat} {final : World σ} {report : Report}
    (dispatched : (dispatchNamed (invokeListener (Behaviour.run depth)) supply asked
      name).run world = some (some report, final)) :
    ∃ calls turns, report = Report.ofTurns turns ∧
      MadeIn (invokeListener (Behaviour.run depth)) calls turns ∧
      (∀ call, call ∈ calls ↔
        DispatchCalls (Behaviour.run depth) supply asked name world call) ∧
      calls.Pairwise fun earlier later => earlier.state.age < later.state.age := by
  cases found : world.bus.event? name with
  | none =>
      rw [dispatchNamed_absent _ _ found] at dispatched
      cases dispatched
  | some event =>
      rw [dispatchNamed_found _ _ found, Option.map_eq_some_iff] at dispatched
      obtain ⟨⟨turns, left⟩, taken, equality⟩ := dispatched
      cases equality
      have advances : ∀ listener arguments,
          Advances (invokeListener (Behaviour.run (σ := σ) depth) listener arguments) :=
        fun listener arguments => advances_invoke (Behaviour.run_advances depth) _ _ _ _
      obtain ⟨calls, made, those, -, inOrder⟩ := exists_calls advances taken
      obtain ⟨-, rfl⟩ := Registry.event?_eq_some found
      refine ⟨calls, turns, rfl, made, ?_, inOrder⟩
      intro call
      rw [those]
      constructor
      · exact .intro found
      · rintro ⟨foundToo, turn⟩
        rw [found] at foundToo
        cases foundToo
        exact turn

open Running

end CellBus
