import CellBus.Proofs.LiveListeners
import CellBus.Proofs.StartedBodies
import CellBus.Proofs.WellFormedRequests

/-!
# What dispatches log

A listener may do anything while it runs, so the journal of a dispatch comes in
stretches: entries that the dispatch makes itself, and what is entered during each of
its calls.  The lines of its own entries tell all that the report tells, fault by fault,
and so nothing is lost where nobody is handed the report.
-/

namespace CellBus

variable {σ : Type}

/-- A stretch of the journal of a dispatch: one entry that it makes itself, or all that
is entered during one of its calls. -/
inductive Stretch (σ : Type) where
  | own (happening : Happening)
  | during (call : Call σ) (entered : List Happening)

namespace Stretch

def happenings : Stretch σ → List Happening
  | own happening => [happening]
  | during _ entered => entered

def own? : Stretch σ → Option Happening
  | own happening => some happening
  | during .. => none

def call? : Stretch σ → Option (Call σ)
  | own _ => none
  | during call _ => some call

end Stretch

/-- Whatever a call does, it takes nothing out of the journal. -/
def Caller.OnlyAdds (caller : Caller σ) : Prop :=
  ∀ listener arguments world outcome left,
    (caller listener arguments).run world = some (outcome, left) →
      world.journal.happenings <+: left.journal.happenings

theorem Caller.onlyAdds_invokeListener (depth : Nat) :
    OnlyAdds (Running.invokeListener (Behaviour.run (σ := σ) depth)) := by
  intro listener arguments world outcome left ran
  exact (Running.advances_invoke (Behaviour.run_advances depth) _ _ _ _ _ _ _
    ran).journal_grows

/-- One world becomes another by nothing but entries in the journal and calls of
listeners, each from the world that it finds. -/
inductive Stretches (caller : Caller σ) :
    World σ → List (Stretch σ) → World σ → Prop where
  | nil (world : World σ) : Stretches caller world [] world
  | own {happening : Happening} {world final : World σ} {rest : List (Stretch σ)} :
      Stretches caller (world.noted happening) rest final →
      Stretches caller world (.own happening :: rest) final
  | during {listener : Listener} {arguments : List Argument}
      {outcome : Except Fault Value} {world left final : World σ}
      {entered : List Happening} {rest : List (Stretch σ)} :
      (caller listener arguments).run world = some (outcome, left) →
      left.journal.happenings = world.journal.happenings ++ entered →
      Stretches caller left rest final →
      Stretches caller world (.during ⟨listener, arguments, world⟩ entered :: rest) final

namespace Stretches

variable {caller : Caller σ} {world final : World σ} {stretches : List (Stretch σ)}

/-- The stretches are all that the journal has gained. -/
theorem journal (passed : Stretches caller world stretches final) :
    final.journal.happenings =
      world.journal.happenings ++ stretches.flatMap Stretch.happenings := by
  induction passed with
  | nil => simp
  | own _ ih => simp [ih, Stretch.happenings]
  | during _ entered _ ih => simp [ih, entered, Stretch.happenings]

theorem append {middle : World σ} {later : List (Stretch σ)}
    (first : Stretches caller world stretches middle)
    (second : Stretches caller middle later final) :
    Stretches caller world (stretches ++ later) final := by
  induction first with
  | nil => exact second
  | own _ ih => exact .own (ih second)
  | during ran entered _ ih => exact .during ran entered (ih second)

end Stretches

namespace Turn

/-- What a dispatch itself enters for a turn. -/
def happenings (name : String) : Turn → List Happening
  | .skipped listener => [.listenerSkipped name listener]
  | .called listener _ (.ok _) => [.listenerCalled name listener]
  | .called listener _ (.error fault) =>
    [.listenerCalled name listener, .exceptionThrown name listener fault]
  | .refused _ error => [.argumentsRefused name error]

/-- The listener that gave a fault, with the fault. -/
def faulted? : Turn → Option (Listener × Fault)
  | .called listener _ (.error fault) => some (listener, fault)
  | .called _ _ (.ok _) | .skipped _ | .refused .. => none

def skipped? : Turn → Option Listener
  | .skipped listener => some listener
  | .called .. | .refused .. => none

end Turn

namespace LogLine

/-- The line on a fault of a listener. -/
def fault (name : String) (listener : Listener) (fault : Fault) : LogLine :=
  ⟨.error, "Exception thrown: " ++ fault.message,
    [("event", .text name), ("context", .text listener.context.text),
      ("stack", .text (fault.stack.getD "<no stack>"))]⟩

/-- The line on arguments that could not be built. -/
def refusal (name : String) (error : MarshalError) : LogLine :=
  ⟨.error, "Can't marshal event argument",
    [("event", .text name), ("error", .text error.message)]⟩

/-- The line on a listener that was skipped. -/
def skip (name : String) (listener : Listener) : LogLine :=
  ⟨.trace, "listener removed mid-fire, skipped",
    [("event", .text name), ("context", .text listener.context.text)]⟩

/-- The line that sums a dispatch up. -/
def summary (name : String) (report : Report) : LogLine :=
  ⟨.trace, "dispatch finished",
    [("event", .text name), ("invoked", .int report.invoked),
      ("faults", .int report.faults.length), ("result", .int report.result.toInt)]⟩

end LogLine

/-- The line for a turn, if there is one. -/
def Turn.line? (name : String) : Turn → Option LogLine
  | .skipped listener => some (.skip name listener)
  | .called _ _ (.ok _) => none
  | .called listener _ (.error fault) => some (.fault name listener fault)
  | .refused _ error => some (.refusal name error)

theorem Turn.lines_happenings (name : String) (turns : List Turn) :
    (turns.flatMap (Turn.happenings name)).filterMap Happening.line? =
      turns.filterMap (Turn.line? name) := by
  induction turns with
  | nil => rfl
  | cons turn rest ih =>
      rw [List.flatMap_cons, List.filterMap_append, ih]
      rcases turn with _ | ⟨_, _, _ | _⟩ | _ <;> rfl

/-- Lines that tell what a report on some turns tells: an error line for each fault and
for arguments that could not be built, and no other; a line for each listener that was
skipped; and at the end the sum. -/
structure Report.ToldBy (report : Report) (name : String) (turns : List Turn)
    (lines : List LogLine) : Prop where
  faults : (turns.filterMap Turn.faulted?).map Prod.snd = report.faults
  errors : lines.filter (·.level = .error) =
    (turns.filterMap Turn.faulted?).map (fun found => .fault name found.1 found.2) ++
      report.marshalError.toList.map (.refusal name)
  others : lines.filter (·.level ≠ .error) =
    (turns.filterMap Turn.skipped?).map (.skip name) ++ [.summary name report]
  last : lines.getLast? = some (.summary name report)

namespace Turn

variable {name : String} {turns : List Turn}

theorem faults_faulted (turns : List Turn) :
    (turns.filterMap faulted?).map Prod.snd = turns.filterMap fault? := by
  rw [List.map_filterMap]
  apply List.filterMap_congr
  rintro (_ | ⟨_, _, _ | _⟩ | _) - <;> rfl

/-- Where no turn was refused its arguments, the error lines are those on faults. -/
theorem errors_of_unrefused (unrefused : ∀ turn ∈ turns, turn.refusal? = none) :
    (turns.filterMap (line? name)).filter (·.level = .error) =
      (turns.filterMap faulted?).map fun found => .fault name found.1 found.2 := by
  rw [List.filter_filterMap, List.map_filterMap]
  apply List.filterMap_congr
  rintro (_ | ⟨_, _, _ | _⟩ | _) member
  case refused => cases unrefused _ member
  all_goals rfl

theorem others_lines (turns : List Turn) :
    (turns.filterMap (line? name)).filter (·.level ≠ .error) =
      (turns.filterMap skipped?).map (.skip name) := by
  rw [List.filter_filterMap, List.map_filterMap]
  apply List.filterMap_congr
  rintro (_ | ⟨_, _, _ | _⟩ | _) - <;> rfl

end Turn

namespace Running

variable {caller : Caller σ} {supply : Supply} {name : String}
variable {listeners : List Listener} {asked : Nat} {world left : World σ}
variable {turns : List Turn}

/-- The turns of a dispatch and its sum are told by one line each, but for calls that
gave a value. -/
theorem toldBy_lines
    (taken : (takeTurns caller supply name listeners asked).run world =
      some (turns, left)) :
    (Report.ofTurns turns).ToldBy name turns
      (turns.filterMap (Turn.line? name) ++ [.summary name (Report.ofTurns turns)]) where
  faults := (Turn.faults_faulted turns).trans (Report.ofTurns_faults turns).symm
  errors := by
    rw [List.filter_append, Report.ofTurns_marshalError]
    -- Only the last turn can be a refusal.
    rcases takeTurns_eq_some_iff.mp taken with ⟨after, course⟩ | refusal
    · have unrefused := course.not_refused
      rw [Turn.errors_of_unrefused unrefused, List.filterMap_eq_nil_iff.mpr unrefused]
      rfl
    · obtain ⟨-, course, -, -⟩ := refusal
      simp only [List.filterMap_append, List.filter_append,
        Turn.errors_of_unrefused course.not_refused, List.getLast?_append]
      simp [Turn.line?, Turn.faulted?, Turn.refusal?, LogLine.refusal, LogLine.summary]
  others := by
    rw [List.filter_append, Turn.others_lines]
    rfl
  last := List.getLast?_concat

section Advancing

variable (adds : Caller.OnlyAdds caller)

include adds

/-- A call is noted, lasts for one stretch, and its fault is noted. -/
theorem exists_stretches_of_call {listener : Listener} {arguments : List Argument}
    {outcome : Except Fault Value} {middle : World σ}
    (answered : (call caller name listener arguments).run world =
      some (outcome, middle)) :
    let state := world.noted (.listenerCalled name listener)
    ∃ stretches, Stretches caller world stretches middle ∧
      stretches.filterMap Stretch.own? =
        (Turn.called listener arguments outcome).happenings name ∧
      stretches.filterMap Stretch.call? = [⟨listener, arguments, state⟩] ∧
      ∃ left, (caller listener arguments).run state = some (outcome, left) := by
  intro state
  rw [call_run, Option.map_eq_some_iff] at answered
  obtain ⟨⟨found, left⟩, ran, equality⟩ := answered
  obtain ⟨rfl, ended⟩ := Prod.mk.inj equality
  obtain ⟨entered, grown⟩ := adds _ _ _ _ _ ran
  cases found with
  | ok value =>
      subst ended
      exact ⟨[.own (.listenerCalled name listener),
          .during ⟨listener, arguments, state⟩ entered],
        .own (.during ran grown.symm (.nil _)), rfl, rfl, left, ran⟩
  | error fault =>
      subst ended
      exact ⟨[.own (.listenerCalled name listener),
          .during ⟨listener, arguments, state⟩ entered,
          .own (.exceptionThrown name listener fault)],
        .own (.during ran grown.symm (.own (.nil _))), rfl, rfl, left, ran⟩

/-- The turns come in stretches.  The dispatch makes the entries for each turn, and each
call that it makes lasts for one stretch. -/
theorem exists_stretches
    (taken : (takeTurns caller supply name listeners asked).run world =
      some (turns, left)) :
    ∃ stretches, Stretches caller world stretches left ∧
      stretches.filterMap Stretch.own? = turns.flatMap (Turn.happenings name) ∧
      MadeIn caller (stretches.filterMap Stretch.call?) turns ∧
      ∀ call, call ∈ stretches.filterMap Stretch.call? ↔
        TurnCalls caller supply name listeners asked world call := by
  induction listeners generalizing asked world turns with
  | nil =>
      cases taken
      exact ⟨[], .nil _, rfl, .nil, by simp [TurnCalls.nil]⟩
  | cons listener rest ih =>
      cases live : world.bus.holds name listener with
      | false =>
          rw [takeTurns_skipped caller live, Option.map_eq_some_iff] at taken
          obtain ⟨⟨later, _⟩, laterTaken, equality⟩ := taken
          cases equality
          obtain ⟨stretches, passed, own, made, those⟩ := ih laterTaken
          refine ⟨.own (.listenerSkipped name listener) :: stretches, .own passed,
            congrArg (Happening.listenerSkipped name listener :: ·) own,
            .skipped listener made, ?_⟩
          intro call
          rw [TurnCalls.skipped_iff live, ← those]
          rfl
      | true =>
          rcases built : supply asked with ⟨error | arguments, next⟩
          · rw [takeTurns_refused caller live built] at taken
            cases taken
            exact ⟨[.own (.argumentsRefused name error)], .own (.nil _), rfl,
              .refused listener error,
              by simp [Stretch.call?, TurnCalls.refused live built]⟩
          · rw [takeTurns_called caller live built, Option.bind_eq_some_iff] at taken
            obtain ⟨⟨outcome, middle⟩, answered, taken⟩ := taken
            rw [Option.map_eq_some_iff] at taken
            obtain ⟨⟨later, _⟩, laterTaken, equality⟩ := taken
            cases equality
            obtain ⟨first, firstPassed, firstOwn, firstCall, _, ran⟩ :=
              exists_stretches_of_call adds answered
            obtain ⟨stretches, passed, own, made, those⟩ := ih laterTaken
            refine ⟨first ++ stretches, firstPassed.append passed, ?_, ?_, ?_⟩
            · rw [List.filterMap_append, firstOwn, own]
              rfl
            · rw [List.filterMap_append, firstCall]
              exact .called ran made
            · intro call
              rw [List.filterMap_append, firstCall, List.singleton_append, List.mem_cons,
                those, TurnCalls.called_iff live built answered]

end Advancing

end Running

/-- A dispatch gave a report on the turns of an event's listeners.  Its journal comes in
stretches, one for each call that it made, and the lines of its own entries tell the
report. -/
structure DispatchLog (caller : Caller σ) (supplies : Event → Bus → Supply) (asked : Nat)
    (name : String) (world : World σ) (report : Report) (final : World σ)
    (event : Event) (turns : List Turn) (stretches : List (Stretch σ)) : Prop where
  dispatched : (Running.dispatchNamed caller supplies asked name).run world =
    some (some report, final)
  found : world.bus.event? name = some event
  taken : ∃ left, (Running.takeTurns caller (supplies event world.bus) name
    event.listeners asked).run world = some (turns, left)
  skipped : ∀ before listener rest, event.listeners = before ++ listener :: rest →
    (turns[before.length]? = some (.skipped listener) ↔
      ∃ earlier after state,
        Course caller (supplies event world.bus) name before asked world earlier after
          state ∧ state.bus.holds name listener = false)
  summed : report = Report.ofTurns turns
  calls : ∀ call, call ∈ stretches.filterMap Stretch.call? ↔
    TurnCalls caller (supplies event world.bus) name event.listeners asked world call
  made : MadeIn caller (stretches.filterMap Stretch.call?) turns
  passed : Stretches caller world stretches final
  journal : final.journal.happenings =
    world.journal.happenings ++ stretches.flatMap Stretch.happenings
  told : report.ToldBy name turns
    ((stretches.filterMap Stretch.own?).filterMap Happening.line?)

/-- A dispatch gave a report that its own lines in the log tell. -/
def Logged (caller : Caller σ) (supplies : Event → Bus → Supply) (asked : Nat)
    (name : String) (world : World σ) (report : Report) (final : World σ) : Prop :=
  ∃ event turns stretches,
    DispatchLog caller supplies asked name world report final event turns stretches

namespace Running

variable {caller : Caller σ} {world final : World σ}
variable (adds : Caller.OnlyAdds caller)

include adds

/-- Without an event nothing happens, and with one there is a report that is logged. -/
theorem dispatchNamed_logged {supplies : Event → Bus → Supply} {asked : Nat}
    {name : String} {answer : Option Report}
    (answered : (dispatchNamed caller supplies asked name).run world =
      some (answer, final)) :
    (world.bus.event? name = none ∧ answer = none ∧ final = world) ∨
      ∃ report, answer = some report ∧
        Logged caller supplies asked name world report final := by
  cases found : world.bus.event? name with
  | none =>
      rw [dispatchNamed_absent _ _ found] at answered
      cases answered
      exact .inl ⟨rfl, rfl, rfl⟩
  | some event =>
      have dispatched := answered
      rw [dispatchNamed_found _ _ found, Option.map_eq_some_iff] at answered
      obtain ⟨⟨turns, left⟩, taken, equality⟩ := answered
      cases equality
      obtain ⟨stretches, passed, own, made, those⟩ := exists_stretches adds taken
      let finished : Happening := .dispatchFinished name (Report.ofTurns turns)
      have whole : Stretches caller world (stretches ++ [.own finished])
          (left.noted finished) := passed.append (.own (.nil _))
      have calls : (stretches ++ [Stretch.own finished]).filterMap Stretch.call? =
          stretches.filterMap Stretch.call? := by
        rw [List.filterMap_append, List.filterMap_cons_none rfl, List.filterMap_nil,
          List.append_nil]
      refine .inr ⟨_, rfl, event, turns, stretches ++ [.own finished], ?_⟩
      exact {
        dispatched := dispatched
        found := found
        taken := ⟨left, taken⟩
        skipped := fun _ _ _ split => skipped_iff (split ▸ taken)
        summed := rfl
        calls := calls ▸ those
        made := calls ▸ made
        passed := whole
        journal := whole.journal
        told := by
          rw [List.filterMap_append, List.filterMap_append, own, Turn.lines_happenings]
          exact toldBy_lines taken }

/-- A dispatch of which only the result is handed on. -/
theorem result_logged {supplies : Event → Bus → Supply} {asked : Nat} {name : String}
    {result : Cell}
    (answered : ((dispatchNamed caller supplies asked name).run world).map
      (fun given => ((given.1.map Report.result).getD 0, given.2)) =
        some (result, final)) :
    (world.bus.event? name = none ∧ result = 0 ∧ final = world) ∨
      ∃ report, result = report.result ∧
        Logged caller supplies asked name world report final := by
  obtain ⟨⟨answer, left⟩, dispatched, equality⟩ := Option.map_eq_some_iff.mp answered
  cases equality
  rcases dispatchNamed_logged adds dispatched with
    ⟨absent, rfl, same⟩ | ⟨report, rfl, logged⟩
  · exact .inl ⟨absent, rfl, same⟩
  · exact .inr ⟨report, rfl, logged⟩

theorem scriptFire_logged {arguments : List Argument}
    (answered : (scriptFire caller arguments).run world = some ((), final)) :
    ((∀ name, TextAt arguments 0 name → world.bus.event? name = none) ∧
        final = world) ∨
      ∃ name report, TextAt arguments 0 name ∧
        Logged caller (fun _ _ => .given arguments.tail) 0 name world report final := by
  by_cases named : ∃ name, TextAt arguments 0 name
  · obtain ⟨name, first⟩ := named
    rw [scriptFire_named first, Option.map_eq_some_iff] at answered
    obtain ⟨⟨answer, left⟩, fired, equality⟩ := answered
    cases equality
    rcases dispatchNamed_logged adds fired with
      ⟨absent, -, same⟩ | ⟨report, -, logged⟩
    · refine .inl ⟨?_, same⟩
      intro other firstToo
      cases first.symm.trans firstToo
      exact absent
    · exact .inr ⟨name, report, first, logged⟩
  · have unnamed := not_exists.mp named
    rw [scriptFire, requestName?_eq_none unnamed] at answered
    cases answered
    exact .inl ⟨fun name first => absurd first (unnamed name), rfl⟩

theorem machineCall_logged {memory : Memory} {parameters : List Cell} {result : Cell}
    (answered : (machineCall caller memory parameters).run world =
      some (result, final)) :
    ((∀ bytes, ReadsAt memory world parameters 0 bytes →
        world.bus.event? (Text.decodeLossy bytes) = none) ∧ result = 0 ∧
      (final = world ∨ ∃ error, final = world.noted (.nameUnreadable error))) ∨
      ∃ bytes report, ReadsAt memory world parameters 0 bytes ∧
        result = report.result ∧
        Logged caller (.ofCells memory .byReference parameters.tail) 1
          (Text.decodeLossy bytes) world report final := by
  rcases parameters with _ | ⟨address, cells⟩
  case nil =>
    cases answered
    refine .inl ⟨?_, rfl, .inl rfl⟩
    rintro bytes ⟨address, missing, -⟩
    cases missing
  case cons =>
    have atFirst : ∀ bytes, ReadsAt memory world (address :: cells) 0 bytes ↔
        memory.readText 0 address world.bus.limits.textLength = .ok bytes := by
      intro bytes
      simp [ReadsAt]
    simp only [atFirst]
    cases read : memory.readText 0 address world.bus.limits.textLength with
    | error error =>
        simp only [machineCall, StateT.run_bind, readName_error read] at answered
        cases answered
        exact .inl ⟨by rintro _ ⟨⟩, rfl, .inr ⟨error, rfl⟩⟩
    | ok bytes =>
        rw [machineCall_run caller read] at answered
        rcases result_logged adds answered with
          ⟨absent, none, same⟩ | ⟨report, given, logged⟩
        · refine .inl ⟨?_, none, .inl same⟩
          rintro _ ⟨⟩
          exact absent
        · exact .inr ⟨bytes, report, rfl, given, logged⟩

end Running

open Running

/-- Whatever its listeners do, as long as they take nothing out of the journal, and none
does: a dispatch gives a report that its own lines in the log tell, apart from those that
are entered during its calls.  There is one error line for each fault, in order and told of
the listener that faulted, then one for arguments that could not be built, and no other;
there is one line for each listener that was skipped, and the last sums up.  It is so where
an event is fired or dispatched on the bus, and also where the script fires it and where
the script machine calls or dispatches it, which are not handed the report.  Where there is
no event, nothing happens but that an unreadable name is logged. -/
theorem dispatches_log_what_they_report :
    (∀ depth, Caller.OnlyAdds (invokeListener (Behaviour.run (σ := σ) depth))) ∧
    ∀ (caller : Caller σ) (world : World σ), Caller.OnlyAdds caller →
      (∀ supplies asked name answer final,
        (dispatchNamed caller supplies asked name).run world = some (answer, final) →
        (world.bus.event? name = none ∧ answer = none ∧ final = world) ∨
          ∃ report, answer = some report ∧
            Logged caller supplies asked name world report final) ∧
      (∀ arguments final, (scriptFire caller arguments).run world = some ((), final) →
        ((∀ name, TextAt arguments 0 name → world.bus.event? name = none) ∧
            final = world) ∨
          ∃ name report, TextAt arguments 0 name ∧
            Logged caller (fun _ _ => .given arguments.tail) 0 name world report final) ∧
      (∀ name memory cells result final,
        (machineDispatch caller name memory cells).run world = some (result, final) →
        (world.bus.event? name = none ∧ result = 0 ∧ final = world) ∨
          ∃ report, result = report.result ∧
            Logged caller (.ofCells memory .byValue cells) 0 name world report final) ∧
      ∀ memory parameters result final,
        (machineCall caller memory parameters).run world = some (result, final) →
        ((∀ bytes, ReadsAt memory world parameters 0 bytes →
            world.bus.event? (Text.decodeLossy bytes) = none) ∧ result = 0 ∧
          (final = world ∨ ∃ error, final = world.noted (.nameUnreadable error))) ∨
          ∃ bytes report, ReadsAt memory world parameters 0 bytes ∧
            result = report.result ∧
            Logged caller (.ofCells memory .byReference parameters.tail) 1
              (Text.decodeLossy bytes) world report final := by
  refine ⟨Caller.onlyAdds_invokeListener, ?_⟩
  intro caller world adds
  refine ⟨fun _ _ _ _ _ => dispatchNamed_logged adds, fun _ _ => scriptFire_logged adds,
    ?_, fun _ _ _ _ => machineCall_logged adds⟩
  intro name memory cells result final answered
  rw [machineDispatch_run] at answered
  exact result_logged adds answered

/-- The first listener removes the second and throws, and then the memory fails.  The
machine is told zero; the log tells of the fault, of the third listener's arguments and of
the second listener.  The event is also fired by the script, and dispatched with a memory
that does not fail. -/
theorem fault_and_refusal_are_logged :
    let throws : Frame → Behaviour Unit := fun _ =>
      .perform (.unsubscribe "e" ⟨2⟩ .all) fun _ => .finish (.throws "broken")
    let first : Listener := ⟨⟨1⟩, ⟨1⟩, ⟨0⟩⟩
    let second : Listener := ⟨⟨1⟩, ⟨2⟩, ⟨0⟩⟩
    let third : Listener := ⟨⟨1⟩, ⟨3⟩, ⟨0⟩⟩
    let event : Event := ⟨"e", .ofTags [.text], [first, second, third]⟩
    let hub : Hub := ⟨⟨⟨[event]⟩, {}⟩, [⟨⟨1⟩, "a"⟩], [⟨⟨1⟩, ⟨1⟩, true, []⟩], 3⟩
    let world : World Unit := ⟨hub, [.native "throws" throws], (), Journal.empty⟩
    let memory := Memory.failingAfter 2 (Segment.mk [101, 0]).memory
    let caller : Caller Unit := invokeListener (Behaviour.run 1)
    (∃ final report, (scriptFire caller [.plain (.text "e")]).run world =
        some ((), final) ∧
      Logged caller (fun _ _ => .given []) 0 "e" world report final) ∧
    (∃ final report, (machineDispatch caller "e" (Segment.mk [101, 0]).memory [0]).run
        world = some (report.result, final) ∧
      Logged caller (.ofCells (Segment.mk [101, 0]).memory .byValue [0]) 0 "e" world
        report final) ∧
    ∃ final report stack turns stretches,
      (machineCall caller memory [0, 0]).run world = some (0, final) ∧
        DispatchLog caller (.ofCells memory .byReference [0]) 1 "e" world report final
          event turns stretches ∧
        ((stretches.filterMap Stretch.own?).filterMap Happening.line?).filter
            (·.level = .error) =
          [.fault "e" first ⟨"broken", some stack⟩, .refusal "e" (.invalidAddress 0)] ∧
        ((stretches.filterMap Stretch.own?).filterMap Happening.line?).filter
            (·.level ≠ .error) = [.skip "e" second, .summary "e" report] := by
  intro throws first second third event hub world memory caller
  have found : world.bus.event? "e" = some event := rfl
  have present : ¬world.bus.event? "e" = none := by simp [found]
  obtain ⟨real, logs⟩ := dispatches_log_what_they_report (σ := Unit)
  obtain ⟨-, fires, dispatches, calls⟩ := logs caller world (real 1)
  refine ⟨?_, ?_, ?_⟩
  · obtain ⟨final, ran⟩ : ∃ final,
        (scriptFire caller [.plain (.text "e")]).run world = some ((), final) := ⟨_, rfl⟩
    rcases fires _ final ran with ⟨absent, -⟩ | ⟨name, report, named, logged⟩
    · exact absurd (absent "e" rfl) present
    · cases named
      exact ⟨final, report, ran, logged⟩
  · obtain ⟨result, final, ran⟩ : ∃ result final,
        (machineDispatch caller "e" (Segment.mk [101, 0]).memory [0]).run world =
          some (result, final) := ⟨_, _, rfl⟩
    rcases dispatches _ _ _ result final ran with ⟨absent, -, -⟩ | ⟨report, rfl, logged⟩
    · exact absurd absent present
    · exact ⟨final, report, ran, logged⟩
  · obtain ⟨final, ran⟩ : ∃ final,
        (machineCall caller memory [0, 0]).run world = some (0, final) := ⟨_, rfl⟩
    have read : memory.readText 0 0 world.bus.limits.textLength = .ok [101] := rfl
    have spelled : Text.decodeLossy [101] = "e" := rfl
    obtain ⟨stack, left, taken⟩ : ∃ stack left,
        (takeTurns caller (Supply.ofCells memory .byReference [0] event world.bus) "e"
          event.listeners 1).run world =
          some ([.called first [.plain (.text "e")] (.error ⟨"broken", some stack⟩),
            .skipped second, .refused third (.invalidAddress 0)], left) := ⟨_, _, rfl⟩
    rcases calls memory [0, 0] 0 final ran with
      ⟨absent, -, -⟩ | ⟨bytes, report, ⟨_, ⟨⟩, readToo⟩, -, _, turns, stretches, log⟩
    · exact absurd (spelled ▸ absent [101] ⟨0, rfl, read⟩) present
    · cases read.symm.trans readToo
      rw [spelled] at log
      cases found.symm.trans log.found
      obtain ⟨_, takenToo⟩ := log.taken
      cases taken.symm.trans takenToo
      obtain rfl := log.summed
      exact ⟨final, _, stack, _, stretches, ran, log, log.told.errors, log.told.others⟩

end CellBus
