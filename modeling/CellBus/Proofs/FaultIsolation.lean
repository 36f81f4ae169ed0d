import CellBus.Proofs.LiveListeners
import CellBus.Proofs.UnseenJournal

/-!
# Reports and the isolation of faults

The report of a dispatch counts what became of the listeners that were called,
and tells which live listener could not be handed its arguments.  A fault ends
nothing: put a value in its place, and the dispatch calls the same listeners with
the same arguments.
-/

namespace CellBus

variable {σ : Type}

/-- In two runs only `listener` gives different outcomes, a fault in the first
and a value in the second. -/
inductive OnlyFaulting (listener : Listener) :
    Listener → Except Fault Value → Except Fault Value → Prop where
  | same {called : Listener} (outcome : Except Fault Value) :
      called ≠ listener → OnlyFaulting listener called outcome outcome
  | parted (fault : Fault) (value : Value) :
      OnlyFaulting listener listener (.error fault) (.ok value)

/-- Two runs took the same turns but for one call at most, which gave a fault in
the first and a value in the second.  The reports differ in this fault, and in
the result if the value is the last. -/
structure FaultIsolated (listener : Listener) (turns others : List Turn) : Prop where
  calls : others.filterMap Turn.call? = turns.filterMap Turn.call?
  parted : others = turns ∨
    ∃ earlier later arguments fault value,
      turns = earlier ++ .called listener arguments (.error fault) :: later ∧
        others = earlier ++ .called listener arguments (.ok value) :: later ∧
      (Report.ofTurns turns).faults = earlier.filterMap Turn.fault? ++
          fault :: later.filterMap Turn.fault? ∧
        (Report.ofTurns others).faults =
          earlier.filterMap Turn.fault? ++ later.filterMap Turn.fault? ∧
      (Report.ofTurns others).invoked = (Report.ofTurns turns).invoked ∧
        (Report.ofTurns others).marshalError = (Report.ofTurns turns).marshalError

/-- What a report tells of the turns that were taken.  An error is told exactly
when the arguments for a live listener could not be built; then this listener had
the last turn, and the rest of the report is about the earlier ones. -/
structure Report.Accounts (caller : Caller σ) (supply : Supply) (name : String)
    (listeners : List Listener) (asked : Nat) (world : World σ)
    (turns : List Turn) (report : Report) : Prop where
  faults : report.faults = turns.filterMap Turn.fault?
  invoked : report.invoked =
    report.faults.length + (turns.filterMap Turn.value?).length
  result : report.result =
    ((turns.filterMap Turn.value?).getLast?.map Value.toCell).getD 0
  error : ∀ error, report.marshalError = some error ↔
    ∃ before listener rest earlier after state next,
      listeners = before ++ listener :: rest ∧
        Course caller supply name before asked world earlier after state ∧
        state.bus.holds name listener = true ∧
        supply after = (.error error, next)
  ended : ∀ before listener rest earlier after state error next,
    listeners = before ++ listener :: rest →
    Course caller supply name before asked world earlier after state →
    state.bus.holds name listener = true →
    supply after = (.error error, next) →
    turns = earlier ++ [.refused listener error] ∧
      report = { Report.ofTurns earlier with marshalError := some error }

theorem Listener.Distinct.nodup {listeners : List Listener}
    (distinct : Listener.Distinct listeners) : listeners.Nodup := by
  apply List.Pairwise.imp _ distinct
  rintro left _ unequal rfl
  rw [isSame_self] at unequal
  cases unequal

namespace Turn

variable {listener : Listener} {turns others : List Turn}

theorem Matches.call_eq {turn other : Turn}
    {related : Listener → Except Fault Value → Except Fault Value → Prop}
    (pair : Matches related turn other) : other.call? = turn.call? := by
  cases pair <;> rfl

theorem Matches.eq_of_ne {turn other : Turn}
    (pair : Matches (OnlyFaulting listener) turn other)
    (different : turn.listener ≠ listener) : turn = other := by
  cases pair with
  | skipped _ => rfl
  | refused _ _ => rfl
  | called arguments outcomes =>
      cases outcomes with
      | same outcome _ => rfl
      | parted fault value => exact (different rfl).elim

theorem calls_eq
    {related : Listener → Except Fault Value → Except Fault Value → Prop}
    (pairs : List.Forall₂ (Matches related) turns others) :
    others.filterMap call? = turns.filterMap call? := by
  induction pairs with
  | nil => rfl
  | cons pair _ ih => rw [List.filterMap_cons, List.filterMap_cons, pair.call_eq, ih]

theorem eq_of_absent
    (pairs : List.Forall₂ (Matches (OnlyFaulting listener)) turns others)
    (absent : listener ∉ turns.map Turn.listener) : turns = others := by
  induction pairs with
  | nil => rfl
  | cons pair _ ih =>
      rw [List.map_cons, List.mem_cons, not_or] at absent
      rw [pair.eq_of_ne (Ne.symm absent.1), ih absent.2]

/-- Where each listener has one turn at most, the two runs took the same turns
but for one call at most. -/
theorem eq_or_parted
    (pairs : List.Forall₂ (Matches (OnlyFaulting listener)) turns others)
    (distinct : (turns.map Turn.listener).Nodup) :
    turns = others ∨
      ∃ earlier later arguments fault value,
        turns = earlier ++ .called listener arguments (.error fault) :: later ∧
          others = earlier ++ .called listener arguments (.ok value) :: later := by
  induction pairs with
  | nil => exact .inl rfl
  | @cons turn other _ _ pair rest ih =>
      rw [List.map_cons, List.nodup_cons] at distinct
      by_cases own : turn.listener = listener
      -- The one turn that may differ: the listener has none among the rest.
      · have sameRest := eq_of_absent rest (own ▸ distinct.1)
        subst sameRest
        cases pair with
        | skipped _ => exact .inl rfl
        | refused _ _ => exact .inl rfl
        | called arguments outcomes =>
            cases outcomes with
            | same outcome _ => exact .inl rfl
            | parted fault value =>
                exact .inr ⟨[], _, arguments, fault, value, rfl, rfl⟩
      · have same := pair.eq_of_ne own
        subst same
        rcases ih distinct.2 with same | ⟨earlier, later, arguments, fault, value,
          left, right⟩
        · exact .inl (by rw [same])
        · exact .inr ⟨turn :: earlier, later, arguments, fault, value,
            by rw [left, List.cons_append], by rw [right, List.cons_append]⟩

/-- Whether the call gave a fault or a value is seen in the faults and in the
result only. -/
theorem reports_of_parted {earlier later : List Turn}
    {arguments : List Argument} {fault : Fault} {value : Value}
    (left : turns = earlier ++ .called listener arguments (.error fault) :: later)
    (right : others = earlier ++ .called listener arguments (.ok value) :: later) :
    (Report.ofTurns turns).faults =
        earlier.filterMap fault? ++ fault :: later.filterMap fault? ∧
      (Report.ofTurns others).faults =
        earlier.filterMap fault? ++ later.filterMap fault? ∧
      (Report.ofTurns others).invoked = (Report.ofTurns turns).invoked ∧
      (Report.ofTurns others).marshalError =
        (Report.ofTurns turns).marshalError := by
  subst left right
  refine ⟨?_, ?_, ?_, ?_⟩
  · rw [Report.ofTurns_faults, List.filterMap_append]
    rfl
  · rw [Report.ofTurns_faults, List.filterMap_append]
    rfl
  · rw [Report.ofTurns_invoked, Report.ofTurns_invoked, List.filterMap_append,
      List.filterMap_append]
    rfl
  · rw [Report.ofTurns_marshalError, Report.ofTurns_marshalError,
      List.filterMap_append, List.filterMap_append]
    rfl

theorem isolated
    (pairs : List.Forall₂ (Matches (OnlyFaulting listener)) turns others)
    (distinct : (turns.map Turn.listener).Nodup) :
    FaultIsolated listener turns others := by
  refine ⟨calls_eq pairs, ?_⟩
  rcases eq_or_parted pairs distinct with same | ⟨earlier, later, arguments, fault,
    value, left, right⟩
  · exact .inl same.symm
  · exact .inr ⟨earlier, later, arguments, fault, value, left, right,
      reports_of_parted left right⟩

end Turn

/-- Calls a listener as another caller does, but gives a certain outcome for one
listener. -/
def Caller.answering (caller : Caller σ) (listener : Listener)
    (outcome : Except Fault Value) : Caller σ :=
  fun called arguments => do
    let given ← caller called arguments
    return if called = listener then outcome else given

namespace Running

/-- Where callers do not look at the journal, a fault and a value in its place
make runs that differ in this listener only. -/
theorem answering_matches {caller : Caller σ}
    (blind : ∀ called arguments, Blind (caller called arguments))
    (listener : Listener) (fault : Fault) (value : Value)
    (called : Listener) (arguments : List Argument) :
    Matches World.Alike (OnlyFaulting listener called)
      (Caller.answering caller listener (.error fault) called arguments)
      (Caller.answering caller listener (.ok value) called arguments) := by
  apply Matches.bind (blind called arguments)
  rintro given _ rfl
  apply matches_pure
  by_cases own : called = listener
  · rw [if_pos own, if_pos own, own]
    exact .parted fault value
  · rw [if_neg own, if_neg own]
    exact .same given own

variable {caller : Caller σ} {supply : Supply} {name : String}
variable {listeners : List Listener} {asked : Nat} {world left : World σ}
variable {turns : List Turn}

/-- A live listener that cannot be handed its arguments has the last turn. -/
theorem refused_turn
    (taken : (takeTurns caller supply name listeners asked).run world =
      some (turns, left))
    {before rest : List Listener} {listener : Listener} {earlier : List Turn}
    {after next : Nat} {state : World σ} {error : MarshalError}
    (split : listeners = before ++ listener :: rest)
    (course : Course caller supply name before asked world earlier after state)
    (live : state.bus.holds name listener = true)
    (refused : supply after = (.error error, next)) :
    turns = earlier ++ [.refused listener error] := by
  have refusal : Refusal caller supply name listeners asked world
      (earlier ++ [.refused listener error])
      (state.noted (.argumentsRefused name error)) :=
    .intro split course live refused
  have same := refusal.takeTurns.symm.trans taken
  cases same
  rfl

/-- The report tells an error exactly when the arguments for a live listener
could not be built. -/
theorem marshalError_iff
    (taken : (takeTurns caller supply name listeners asked).run world =
      some (turns, left)) (error : MarshalError) :
    (Report.ofTurns turns).marshalError = some error ↔
      ∃ before listener rest earlier after state next,
        listeners = before ++ listener :: rest ∧
          Course caller supply name before asked world earlier after state ∧
          state.bus.holds name listener = true ∧
          supply after = (.error error, next) := by
  constructor
  · intro told
    rw [Report.ofTurns_marshalError] at told
    rcases takeTurns_eq_some_iff.mp taken with ⟨after, course⟩ | refusal
    · have none : turns.filterMap Turn.refusal? = [] :=
        List.filterMap_eq_nil_iff.mpr course.not_refused
      rw [none] at told
      cases told
    · obtain ⟨split, course, live, refused⟩ := refusal
      rw [List.filterMap_append, List.getLast?_append] at told
      cases told
      exact ⟨_, _, _, _, _, _, _, split, course, live, refused⟩
  · rintro ⟨before, listener, rest, earlier, after, state, next, split, course, live,
      refused⟩
    rw [refused_turn taken split course live refused, Report.ofTurns_concat]
    rfl

theorem accounts
    (taken : (takeTurns caller supply name listeners asked).run world =
      some (turns, left)) :
    Report.Accounts caller supply name listeners asked world turns
      (Report.ofTurns turns) := by
  refine ⟨Report.ofTurns_faults turns, ?_, Report.ofTurns_result turns,
    marshalError_iff taken, ?_⟩
  · rw [Report.ofTurns_invoked, Report.ofTurns_faults, Turn.length_calls]
  · intro before listener rest earlier after state error next split course live
      refused
    have last := refused_turn taken split course live refused
    refine ⟨last, ?_⟩
    rw [last, Report.ofTurns_concat]
    rfl

end Running

open Running

end CellBus
