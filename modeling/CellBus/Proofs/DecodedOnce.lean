import CellBus.Memory.Segment
import CellBus.Proofs.DecodingSteps
import CellBus.Proofs.RunStates

/-!
# Decoding for each listener and decoding once

A dispatch with cells decodes them again for every listener that it calls.  Over
a memory whose answers do not change meanwhile it does the same as firing the
event with arguments that were decoded once, and the first listener already
shows whether they can be decoded.
-/

namespace CellBus

variable {σ : Type}

theorem Bus.holds_of_mem {bus : Bus} {name : String} {event : Event}
    {listener : Listener} (found : bus.event? name = some event)
    (member : listener ∈ event.listeners) : bus.holds name listener = true := by
  rw [Bus.holds, found, Option.any_some, Event.holds, List.any_eq_true]
  exact ⟨listener, member, listener.isSame_self⟩

/-- From some count of questions on, a supply gives the same result for every call,
be it arguments or an error. -/
def Supply.GivesFrom (start : Nat) (result : Except MarshalError (List Argument))
    (supply : Supply) : Prop :=
  ∀ asked, start ≤ asked → ∃ after, supply asked = (result, after) ∧ start ≤ after

/-- From some count of questions on, a supply builds the same arguments for
every call. -/
def Supply.BuildsFrom (start : Nat) (arguments : List Argument)
    (supply : Supply) : Prop :=
  ∀ asked, start ≤ asked →
    ∃ after, supply asked = (.ok arguments, after) ∧ start ≤ after

theorem Supply.buildsFrom_given (arguments : List Argument) :
    (Supply.given arguments).BuildsFrom 0 arguments :=
  fun asked _ => ⟨asked, rfl, Nat.zero_le asked⟩

theorem Supply.decoded_eq (decoder : Decoder) (signature : Signature)
    (cells : List Cell) (asked : Nat) :
    Supply.decoded decoder signature cells asked =
      ((decoder.decodeFrom asked signature cells).1.map (·.map Argument.plain),
        (decoder.decodeFrom asked signature cells).2) := rfl

theorem Supply.givesFrom_decoded {decoder : Decoder} {start : Nat}
    (steady : decoder.memory.SteadyFrom start) (signature : Signature)
    (cells : List Cell) :
    (Supply.decoded decoder signature cells).GivesFrom start
      ((decoder.decodeFrom start signature cells).1.map (·.map .plain)) := by
  intro asked reached
  obtain ⟨same, stillReached⟩ :=
    Decoder.decodeFrom_steady steady reached signature cells
  refine ⟨_, ?_, stillReached⟩
  rw [Supply.decoded_eq, same]

theorem Supply.buildsFrom_decoded {decoder : Decoder} {signature : Signature}
    {cells : List Cell} {start : Nat} {values : List Value}
    (steady : decoder.memory.SteadyFrom start)
    (decoded : (decoder.decodeFrom start signature cells).1 = .ok values) :
    (Supply.decoded decoder signature cells).BuildsFrom start
      (values.map .plain) := by
  have gives := Supply.givesFrom_decoded steady signature cells
  rw [decoded] at gives
  exact gives

namespace Running

variable {caller : Caller σ} {name : String}

/-- Two supplies that give the same result for every call cannot be told apart,
whatever the listeners do. -/
theorem takeTurns_same_results {first second : Supply}
    {result : Except MarshalError (List Argument)} {firstStart secondStart : Nat}
    (firstGives : first.GivesFrom firstStart result)
    (secondGives : second.GivesFrom secondStart result)
    (listeners : List Listener) {firstAsked secondAsked : Nat}
    (firstReached : firstStart ≤ firstAsked)
    (secondReached : secondStart ≤ secondAsked) (world : World σ) :
    (takeTurns caller first name listeners firstAsked).run world =
      (takeTurns caller second name listeners secondAsked).run world := by
  -- The memory may be asked differently often, but never falls behind its start.
  induction listeners generalizing firstAsked secondAsked world with
  | nil => rfl
  | cons listener rest ih =>
      obtain ⟨firstAfter, firstGiven, firstLater⟩ := firstGives firstAsked firstReached
      obtain ⟨secondAfter, secondGiven, secondLater⟩ :=
        secondGives secondAsked secondReached
      cases live : world.bus.holds name listener with
      | false =>
          rw [takeTurns_skipped caller live, takeTurns_skipped caller live,
            ih firstReached secondReached]
      | true =>
          cases result with
          | error error =>
              rw [takeTurns_refused caller live firstGiven,
                takeTurns_refused caller live secondGiven]
          | ok arguments =>
              rw [takeTurns_called caller live firstGiven,
                takeTurns_called caller live secondGiven]
              congr 1
              funext called
              rw [ih firstLater secondLater]

theorem takeTurns_same_arguments {first second : Supply}
    {arguments : List Argument} {firstStart secondStart : Nat}
    (firstBuilds : first.BuildsFrom firstStart arguments)
    (secondBuilds : second.BuildsFrom secondStart arguments)
    (listeners : List Listener) {firstAsked secondAsked : Nat}
    (firstReached : firstStart ≤ firstAsked)
    (secondReached : secondStart ≤ secondAsked) (world : World σ) :
    (takeTurns caller first name listeners firstAsked).run world =
      (takeTurns caller second name listeners secondAsked).run world :=
  takeTurns_same_results firstBuilds secondBuilds listeners firstReached
    secondReached world

end Running

open Running

/-- Over a memory whose answers do not change while the dispatch is under way,
the cells may as well be decoded once, which is `decodeAll` for a memory that was
asked nothing before.  Without listeners they are not looked at.
Cells that cannot be decoded end the dispatch before anything is called, and
nothing but the journal changes.  Else the dispatch does exactly what firing the
event with the decoded values does. -/
theorem dispatchCells_decodes_once
    {memory : Memory} {asked : Nat} (steady : memory.SteadyFrom asked)
    {world : World σ} {name : String} {event : Event}
    (found : world.bus.event? name = some event)
    (caller : Caller σ) (passing : Passing) (cells : List Cell) :
    let decoder : Decoder := ⟨memory, passing, world.bus.limits⟩
    let decoded := (decoder.decodeFrom asked event.signature cells).1
    let dispatched :=
      (dispatchCells caller name memory passing cells asked).run world
    (event.listeners = [] →
      dispatched = some (some {}, world.noted (.dispatchFinished name {}))) ∧
    (∀ error, event.listeners ≠ [] → decoded = .error error →
      let report : Report := { marshalError := some error }
      dispatched = some (some report,
        (world.noted (.argumentsRefused name error)).noted
          (.dispatchFinished name report))) ∧
    ∀ values, decoded = .ok values →
      dispatched = (fire caller name (values.map .plain)).run world := by
  intro decoder decoded dispatched
  have unfolded : dispatched =
      ((takeTurns caller (Supply.decoded decoder event.signature cells) name
          event.listeners asked).run world).map fun result =>
        (some (Report.ofTurns result.1), result.2.noted
          (.dispatchFinished name (Report.ofTurns result.1))) :=
    dispatchNamed_found caller (.ofCells memory passing cells) found
  refine ⟨?_, ?_, ?_⟩
  · intro deserted
    rw [unfolded, deserted, takeTurns_nil]
    rfl
  · intro error inhabited undecodable report
    obtain ⟨first, rest, split⟩ := List.exists_cons_of_ne_nil inhabited
    have live : world.bus.holds name first = true := by
      apply Bus.holds_of_mem found
      rw [split]
      exact List.mem_cons_self
    have refused : Supply.decoded decoder event.signature cells asked =
        (.error error, (decoder.decodeFrom asked event.signature cells).2) := by
      have failed : (decoder.decodeFrom asked event.signature cells).1 =
          .error error := undecodable
      rw [Supply.decoded_eq, failed]
      rfl
    rw [unfolded, split, takeTurns_refused caller live refused]
    rfl
  · intro values decodable
    have builds : (Supply.decoded decoder event.signature cells).BuildsFrom asked
        (values.map .plain) :=
      Supply.buildsFrom_decoded steady decodable
    rw [unfolded, fire, dispatchNamed_found caller _ found,
      takeTurns_same_arguments builds (Supply.buildsFrom_given (values.map .plain))
        event.listeners (Nat.le_refl asked) (Nat.le_refl 0) world]

/-- A memory that refuses its first question is steady from the second on.  Two listeners
are handed a text and an array read from it by reference; each removes itself and
dispatches the same cells again to those that are left.  Without an array at its address
none of them is called. -/
theorem dispatchCells_decodes_once_for_two_listeners :
    let segment : Segment := ⟨[104, 105, 0, 5, 6, 2]⟩
    let memory : Memory := ⟨fun asked address =>
      if asked = 0 then .error (.invalidAddress address) else segment.resolve address⟩
    let first : Listener := ⟨⟨1⟩, ⟨1⟩, ⟨0⟩⟩
    let second : Listener := ⟨⟨1⟩, ⟨1⟩, ⟨1⟩⟩
    let event := Event.assemble "e" (.ofTags [.text, .intArray]) [first, second]
    let world : World Unit := World.holding {} () event
    let cells : List Cell := [0, 12, 20]
    let arguments := [Argument.plain (.text "hi"), .plain (.list [.int 5, .int 6])]
    let caller : Caller Unit := fun listener _ => do
      let _ ← unsubscribe "e" listener.context (.one listener.callable)
      let _ ← dispatchCells (fun _ _ => pure (.ok .null)) "e" memory .byReference cells 1
      return .ok (.int 1)
    let refused : Report := { marshalError := some (.invalidAddress 24) }
    memory.SteadyFrom 1 ∧ world.bus.event? "e" = some event ∧
      (dispatchCells caller "e" memory .byReference cells 1).run world =
        (fire caller "e" arguments).run world ∧
      (∃ report final, (fire caller "e" arguments).run world = some (some report, final) ∧
        report.invoked = 2 ∧ final.bus.holds "e" first = false ∧
        final.bus.holds "e" second = false) ∧
      (dispatchCells caller "e" memory .byReference [0, 24, 20] 1).run world =
        some (some refused, (world.noted (.argumentsRefused "e"
          (.invalidAddress 24))).noted (.dispatchFinished "e" refused)) := by
  intro segment memory first second event world cells arguments caller refused
  have steady : memory.SteadyFrom 1 := by
    intro later reached
    funext address
    exact if_neg (Nat.ne_of_gt reached)
  have found : world.bus.event? "e" = some event := rfl
  refine ⟨steady, found, ?_, ⟨_, _, rfl, rfl, rfl, rfl⟩, ?_⟩
  · exact (dispatchCells_decodes_once steady found caller .byReference cells).2.2
      [.text "hi", .list [.int 5, .int 6]] rfl
  · exact (dispatchCells_decodes_once steady found caller .byReference [0, 24, 20]).2.1
      (.invalidAddress 24) (List.cons_ne_nil _ _) rfl

end CellBus
