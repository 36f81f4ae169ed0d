import CellBus.Proofs.DecodedOnce
import CellBus.Proofs.MendedNames
import CellBus.Proofs.QuestionsAsked
import CellBus.Proofs.TurnReports

/-!
# Dispatching over a memory that fails

A memory that stops answering in the middle of a dispatch ends it at one certain
listener.  Every listener before costs the same number of questions, so the count of
questions that the memory answers tells how many listeners are called, and which
address the next one is refused for.
-/

namespace CellBus

variable {σ : Type}

/-- The fault that a call gave. -/
def Fault.ofOutcome? : Except Fault Value → Option Fault
  | .ok _ => none
  | .error fault => some fault

/-- The report on the outcomes of all calls and on what ended the dispatch early. -/
def Report.ofOutcomes (outcomes : List (Except Fault Value))
    (failure : Option MarshalError) : Report where
  result := ((outcomes.filterMap Except.toOption).getLast?.map Value.toCell).getD 0
  invoked := outcomes.length
  faults := outcomes.filterMap Fault.ofOutcome?
  marshalError := failure

theorem Report.ofTurns_called (arguments : List Argument)
    (calls : List (Listener × Except Fault Value)) :
    ofTurns (calls.map fun called => .called called.1 arguments called.2) =
      ofOutcomes (calls.map Prod.snd) none := by
  induction calls using List.reverseRecOn with
  | nil => rfl
  | append_singleton calls called ih =>
      rw [List.map_append, List.map_append, List.map_singleton, List.map_singleton,
        ofTurns_concat, ih]
      obtain ⟨listener, _ | _⟩ := called <;>
        simp [add, ofOutcomes, Fault.ofOutcome?, Except.toOption]

/-- The end of a dispatch: it notes what refused a listener its arguments, if
something did, and the report. -/
def World.closed (name : String) (report : Report) (world : World σ) : World σ :=
  (match report.marshalError with
    | none => world
    | some error => world.noted (.argumentsRefused name error)).noted
      (.dispatchFinished name report)

/-- A supply that asks the same questions for every call, of a memory that answers no
more than `limit`. -/
structure Supply.Rationed (limit : Nat) (questions : List Cell)
    (arguments : List Argument) (supply : Supply) : Prop where
  answered : ∀ asked, asked + questions.length ≤ limit →
    supply asked = (.ok arguments, asked + questions.length)
  unanswered : ∀ asked address, asked ≤ limit →
    questions[limit - asked]? = some address →
    ∃ after, supply asked = (.error (.invalidAddress address), after)

theorem Supply.rationed_decoded {decoder : Decoder} {signature : Signature}
    {cells : List Cell} {values : List Value}
    (steady : decoder.memory.SteadyFrom 0)
    (decoded : decoder.decodeAll signature cells = .ok values) (limit : Nat) :
    (Supply.decoded (decoder.rationed limit) signature cells).Rationed limit
      (signature.questions decoder.passing cells) (values.map .plain) := by
  obtain ⟨answered, unanswered⟩ := Decoder.decodeFrom_rationed steady decoded limit
  constructor
  · intro asked enough
    rw [Supply.decoded_eq, answered asked enough]
    rfl
  · intro asked address within found
    rw [Supply.decoded_eq, unanswered asked address within found]
    exact ⟨_, rfl⟩

namespace Running

/-- Calls each of the listeners with the same arguments. -/
def callEach (caller : Caller σ) (name : String) (arguments : List Argument)
    (listeners : List Listener) : Running σ (List (Except Fault Value)) :=
  listeners.mapM fun listener => call caller name listener arguments

/-- As the listeners are called one after the other, the next one is still in the
event's list, at least for the first `count` calls. -/
def Undisturbed (caller : Caller σ) (name : String) (arguments : List Argument)
    (listeners : List Listener) (count : Nat) (world : World σ) : Prop :=
  ∀ before listener rest, listeners = before ++ listener :: rest →
    before.length ≤ count → ∀ outcomes state,
      (callEach caller name arguments before).run world = some (outcomes, state) →
      state.bus.holds name listener = true

variable {caller : Caller σ} {supply : Supply} {name : String}
variable {arguments : List Argument} {listeners before rest : List Listener}
variable {listener : Listener} {world state : World σ}

theorem callEach_nil_run :
    (callEach caller name arguments []).run world = some ([], world) := rfl

theorem callEach_cons_run :
    (callEach caller name arguments (listener :: rest)).run world =
      ((call caller name listener arguments).run world).bind fun called =>
        ((callEach caller name arguments rest).run called.2).map fun later =>
          (called.1 :: later.1, later.2) := by
  rw [callEach, List.mapM_cons, StateT.run_bind]
  apply congrArg (((call caller name listener arguments).run world).bind ·)
  funext called
  rw [StateT.run_bind]
  cases later : (rest.mapM fun listener => call caller name listener arguments).run
    called.2 <;> simp [callEach, later]

theorem length_of_callEach {outcomes : List (Except Fault Value)}
    (ran : (callEach caller name arguments listeners).run world =
      some (outcomes, state)) :
    outcomes.length = listeners.length := by
  induction listeners generalizing world outcomes with
  | nil =>
      rw [callEach_nil_run] at ran
      cases ran
      rfl
  | cons listener rest ih =>
      rw [callEach_cons_run, Option.bind_eq_some_iff] at ran
      obtain ⟨called, _, ran⟩ := ran
      rw [Option.map_eq_some_iff] at ran
      obtain ⟨later, laterRan, same⟩ := ran
      cases same
      rw [List.length_cons, List.length_cons, ih laterRan]

theorem report_of_callEach {outcomes : List (Except Fault Value)}
    (ran : (callEach caller name arguments listeners).run world =
      some (outcomes, state)) :
    Report.ofTurns ((listeners.zip outcomes).map fun called =>
        .called called.1 arguments called.2) = Report.ofOutcomes outcomes none := by
  rw [Report.ofTurns_called, List.map_snd_zip (Nat.le_of_eq (length_of_callEach ran))]

theorem Undisturbed.first {count : Nat}
    (undisturbed :
      Undisturbed caller name arguments (listener :: rest) count world) :
    world.bus.holds name listener = true :=
  undisturbed [] listener rest rfl (Nat.zero_le count) [] world callEach_nil_run

theorem Undisturbed.later {count : Nat} {outcome : Except Fault Value}
    (undisturbed :
      Undisturbed caller name arguments (listener :: rest) (count + 1) world)
    (ran : (call caller name listener arguments).run world = some (outcome, state)) :
    Undisturbed caller name arguments rest count state := by
  intro before next behind split within outcomes final callsRan
  apply undisturbed (listener :: before) next behind (by rw [split, List.cons_append])
    (Nat.succ_le_succ within) (outcome :: outcomes) final
  rw [callEach_cons_run, ran, Option.bind_some, callsRan, Option.map_some]

/-- Where calling a listener leaves all others in the event's list, none of them is
missing when its turn comes. -/
theorem undisturbed_of_holds
    (keeps : ∀ listener before outcome after,
      (caller listener arguments).run before = some (outcome, after) →
        ∀ other, before.bus.holds name other = true → after.bus.holds name other = true)
    (held : ∀ listener ∈ listeners, world.bus.holds name listener = true)
    (count : Nat) : Undisturbed caller name arguments listeners count world := by
  induction listeners generalizing count world with
  | nil =>
      intro before listener rest split
      simp at split
  | cons first listeners ih =>
      intro before listener rest split within outcomes state ran
      cases before with
      | nil =>
          cases split
          cases ran
          exact held first List.mem_cons_self
      | cons _ before =>
          cases split
          rw [callEach_cons_run, Option.bind_eq_some_iff] at ran
          obtain ⟨⟨outcome, after⟩, firstRan, ran⟩ := ran
          rw [Option.map_eq_some_iff] at ran
          obtain ⟨⟨_, _⟩, laterRan, same⟩ := ran
          cases same
          have stillHeld : ∀ other, world.bus.holds name other = true →
              after.bus.holds name other = true := by
            intro other there
            rw [call_run, Option.map_eq_some_iff] at firstRan
            obtain ⟨⟨answer, called⟩, callerRan, same⟩ := firstRan
            cases same
            have kept := keeps _ _ _ _ callerRan other there
            cases answer <;> exact kept
          have later : Undisturbed caller name arguments (before ++ listener :: rest)
              before.length after :=
            ih (fun other member => stillHeld other
              (held other (List.mem_cons_of_mem first member))) _
          exact later before listener rest rfl (Nat.le_refl _) _ _ laterRan

/-- How many listeners are called where each call takes as many questions and so many
are answered. -/
def reached (count each listeners : Nat) : Nat :=
  if each = 0 then listeners else min listeners (count / each)

/-- What the question behind the first `count` ones meets with, when so many listeners
in a row are to be called. -/
def missing (count : Nat) (questions : List Cell) (listeners : Nat) :
    Option MarshalError :=
  ((List.replicate listeners questions).flatten[count]?).map .invalidAddress

section Counts

variable (count each total : Nat)

theorem reached_le : reached count each total ≤ total := by
  unfold reached
  split
  · exact Nat.le_refl total
  · exact Nat.min_le_left _ _

theorem reached_mul_le : reached count each total * each ≤ count := by
  unfold reached
  split
  · rename_i free
    rw [free, Nat.mul_zero]
    exact Nat.zero_le count
  · calc min total (count / each) * each
        ≤ count / each * each := Nat.mul_le_mul_right each (Nat.min_le_right _ _)
      _ ≤ count := Nat.div_mul_le_self count each

variable {count each total}

theorem reached_lt (short : reached count each total < total) :
    count - reached count each total * each < each := by
  unfold reached at short ⊢
  split at short
  · exact absurd short (Nat.lt_irrefl total)
  · rename_i costly
    have quotient : min total (count / each) = count / each := by omega
    rw [if_neg costly, quotient, ← Nat.mod_eq_sub_div_mul]
    exact Nat.mod_lt count (Nat.pos_of_ne_zero costly)

variable {questions : List Cell}

private theorem length_flatten_replicate (copies : Nat) (questions : List Cell) :
    (List.replicate copies questions).flatten.length = copies * questions.length := by
  simp

theorem missing_eq_none (all : total ≤ reached count questions.length total) :
    missing count questions total = none := by
  have affordable := reached_mul_le count questions.length total
  have same : reached count questions.length total = total :=
    Nat.le_antisymm (reached_le _ _ _) all
  rw [same] at affordable
  rw [missing, List.getElem?_eq_none, Option.map_none]
  rw [length_flatten_replicate]
  exact affordable

theorem exists_missing (short : reached count questions.length total < total) :
    ∃ address,
      questions[count - reached count questions.length total * questions.length]? =
          some address ∧
        missing count questions total = some (.invalidAddress address) := by
  have inside := reached_lt short
  have affordable := reached_mul_le count questions.length total
  generalize reached count questions.length total = calls at short inside affordable
  refine ⟨_, List.getElem?_eq_getElem inside, ?_⟩
  -- The questions for the listeners before, for this one and for those behind it.
  obtain ⟨behind, rfl⟩ := Nat.exists_eq_add_of_lt short
  rw [missing, Nat.add_assoc, List.replicate_add, List.flatten_append,
    List.getElem?_append_right, length_flatten_replicate, List.replicate_succ,
    List.flatten_cons, List.getElem?_append_left inside,
    List.getElem?_eq_getElem inside, Option.map_some]
  rw [length_flatten_replicate]
  exact affordable

theorem missing_isSome_iff :
    (missing count questions total).isSome ↔
      0 < questions.length ∧ count / questions.length < total := by
  rw [missing, Option.isSome_map, isSome_getElem?, length_flatten_replicate]
  rcases Nat.eq_zero_or_pos questions.length with free | costly
  · simp [free]
  · rw [Nat.div_lt_iff_lt_mul costly]
    exact (and_iff_right costly).symm

end Counts

section Rationed

variable {limit : Nat} {questions : List Cell}
variable (rationed : supply.Rationed limit questions arguments)

include rationed

/-- As long as the questions last, the listeners are called one after the other. -/
theorem takeTurns_affordable (before rest : List Listener) {asked : Nat}
    (enough : asked + before.length * questions.length ≤ limit) {world : World σ}
    (undisturbed :
      Undisturbed caller name arguments (before ++ rest) before.length world) :
    (takeTurns caller supply name (before ++ rest) asked).run world =
      ((callEach caller name arguments before).run world).bind fun called =>
        ((takeTurns caller supply name rest
            (asked + before.length * questions.length)).run called.2).map fun later =>
          ((before.zip called.1).map (fun called =>
            Turn.called called.1 arguments called.2) ++ later.1, later.2) := by
  -- Behind each call the questions that it asked are spent.
  induction before generalizing asked world with
  | nil => simp [callEach_nil_run]
  | cons listener before ih =>
      have one : (listener :: before).length * questions.length =
          questions.length + before.length * questions.length := by
        rw [List.length_cons, Nat.succ_mul, Nat.add_comm]
      rw [one] at enough ⊢
      have built := rationed.answered asked (by omega)
      rw [List.cons_append, takeTurns_called caller undisturbed.first built,
        callEach_cons_run]
      cases ran : (call caller name listener arguments).run world with
      | none => rfl
      | some called =>
          obtain ⟨outcome, middle⟩ := called
          rw [Option.bind_some, Option.bind_some,
            ih (by omega) (undisturbed.later ran), Option.map_bind, Option.bind_map]
          congr 1
          funext later
          simp only [Function.comp_apply, Option.map_map, Nat.add_assoc]
          rfl

/-- Where the questions do not last for one more call, it is refused its arguments for
the first address that is not found. -/
theorem takeTurns_unaffordable {asked : Nat} {address : Cell} (within : asked ≤ limit)
    (next : questions[limit - asked]? = some address) {world : World σ}
    (live : world.bus.holds name listener = true) :
    (takeTurns caller supply name (listener :: rest) asked).run world =
      some ([.refused listener (.invalidAddress address)],
        world.noted (.argumentsRefused name (.invalidAddress address))) := by
  obtain ⟨after, refused⟩ := rationed.unanswered asked address within next
  exact takeTurns_refused caller live refused rest

/-- The listeners that the questions last for are called, and the next one is refused
its arguments. -/
theorem takeTurns_rationed {asked count : Nat} (sum : asked + count = limit)
    {listeners : List Listener} {world : World σ}
    (undisturbed : Undisturbed caller name arguments listeners
      (reached count questions.length listeners.length) world) :
    let called := listeners.take (reached count questions.length listeners.length)
    let failure := missing count questions listeners.length
    ((takeTurns caller supply name listeners asked).run world).map (fun result =>
        (Report.ofTurns result.1,
          result.2.noted (.dispatchFinished name (Report.ofTurns result.1)))) =
      ((callEach caller name arguments called).run world).map fun result =>
        (Report.ofOutcomes result.1 failure,
          result.2.closed name (Report.ofOutcomes result.1 failure)) := by
  intro called failure
  have calledLength : called.length =
      reached count questions.length listeners.length :=
    List.length_take_of_le (reached_le _ _ _)
  have whole : called ++ listeners.drop called.length = listeners := by
    rw [calledLength]
    exact List.take_append_drop _ _
  have enough : asked + called.length * questions.length ≤ limit := by
    have affordable := reached_mul_le count questions.length listeners.length
    rw [calledLength]
    omega
  have undisturbedCalled : Undisturbed caller name arguments
      (called ++ listeners.drop called.length) called.length world := by
    rw [whole, calledLength]
    exact undisturbed
  have turns := takeTurns_affordable rationed called (listeners.drop called.length)
    enough undisturbedCalled
  rw [whole] at turns
  rw [turns]
  cases ran : (callEach caller name arguments called).run world with
  | none => rfl
  | some result =>
      obtain ⟨outcomes, middle⟩ := result
      -- Either no listener is left, or the next one is refused its arguments.
      cases remaining : listeners.drop called.length with
      | nil =>
          have all : listeners.length ≤
              reached count questions.length listeners.length := by
            rw [← calledLength]
            exact List.drop_eq_nil_iff.mp remaining
          have lasted : failure = none := missing_eq_none all
          rw [Option.bind_some, takeTurns_nil, Option.map_some, Option.map_some,
            Option.map_some, List.append_nil,
            report_of_callEach ran, lasted]
          rfl
      | cons listener rest =>
          have short : reached count questions.length listeners.length <
              listeners.length := by
            rw [← calledLength, ← List.drop_eq_nil_iff.not.trans Nat.not_le, remaining]
            exact List.cons_ne_nil _ _
          obtain ⟨address, next, failed⟩ := exists_missing short
          have refusedFor : failure = some (.invalidAddress address) := failed
          have live : middle.bus.holds name listener = true := by
            apply undisturbed called listener rest _ (Nat.le_of_eq calledLength) _ _ ran
            rw [← remaining, whole]
          have position : limit - (asked + called.length * questions.length) =
              count - called.length * questions.length := by
            omega
          rw [← calledLength, ← position] at next
          rw [Option.bind_some, takeTurns_unaffordable rationed enough next live,
            Option.map_some, Option.map_some, Option.map_some, Report.ofTurns_concat,
            report_of_callEach ran, refusedFor]
          rfl

end Rationed

/-- The memory may have been asked before the dispatch, which counts from there on. -/
theorem dispatchCells_rationed {event : Event}
    (found : world.bus.event? name = some event) (caller : Caller σ)
    {memory : Memory} (steady : memory.SteadyFrom 0) {passing : Passing}
    {cells : List Cell} {values : List Value}
    (decoded : Decoder.decodeAll ⟨memory, passing, world.bus.limits⟩ event.signature
      cells = .ok values)
    (asked count : Nat)
    (undisturbed : Undisturbed caller name (values.map .plain) event.listeners
      (reached count (event.signature.questionCount passing) event.listeners.length)
      world) :
    let called := event.listeners.take
      (reached count (event.signature.questionCount passing) event.listeners.length)
    let failure :=
      missing count (event.signature.questions passing cells) event.listeners.length
    (dispatchCells caller name (memory.failingAfter (asked + count)) passing cells
        asked).run world =
      ((callEach caller name (values.map .plain) called).run world).map fun result =>
        (some (Report.ofOutcomes result.1 failure),
          result.2.closed name (Report.ofOutcomes result.1 failure)) := by
  have rationed := Supply.rationed_decoded steady decoded (asked + count)
  have each := Decoder.length_questions_of_decoded steady decoded passing
  rw [← each] at undisturbed ⊢
  have turns := takeTurns_rationed rationed rfl undisturbed
  have wrapped := congrArg (Option.map fun result => (some result.1, result.2)) turns
  rw [Option.map_map, Option.map_map] at wrapped
  rw [dispatchCells, dispatchNamed_found caller _ found]
  exact wrapped

end Running

open Running

end CellBus
