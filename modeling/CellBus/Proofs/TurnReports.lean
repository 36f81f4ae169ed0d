import CellBus.Report
import Mathlib.Data.List.Induction

/-!
# What a report says about the turns

The fields of a report are read off the turns: the faults and the values that
the calls gave, in order, and the refusal that ended the dispatch.
-/

namespace CellBus

namespace Turn

/-- Whom a turn called, and with which arguments. -/
def call? : Turn → Option (Listener × List Argument)
  | .called listener arguments _ => some (listener, arguments)
  | .skipped _ | .refused .. => none

/-- The fault that a call gave. -/
def fault? : Turn → Option Fault
  | .called _ _ (.error fault) => some fault
  | .called _ _ (.ok _) | .skipped _ | .refused .. => none

/-- The value that a call gave. -/
def value? : Turn → Option Value
  | .called _ _ (.ok value) => some value
  | .called _ _ (.error _) | .skipped _ | .refused .. => none

/-- Why the arguments of a turn could not be built. -/
def refusal? : Turn → Option MarshalError
  | .refused _ error => some error
  | .skipped _ | .called .. => none

def isSkipped : Turn → Bool
  | .skipped _ => true
  | .called .. | .refused .. => false

end Turn

namespace Report

theorem ofTurns_concat (turns : List Turn) (turn : Turn) :
    ofTurns (turns ++ [turn]) = (ofTurns turns).add turn := by
  simp [ofTurns]

theorem ofTurns_faults (turns : List Turn) :
    (ofTurns turns).faults = turns.filterMap Turn.fault? := by
  induction turns using List.reverseRecOn with
  | nil => rfl
  | append_singleton turns turn ih =>
      rw [ofTurns_concat, List.filterMap_append, ← ih]
      rcases turn with _ | ⟨_, _, _ | _⟩ | _ <;> simp [add, Turn.fault?]

theorem ofTurns_invoked (turns : List Turn) :
    (ofTurns turns).invoked = (turns.filterMap Turn.call?).length := by
  induction turns using List.reverseRecOn with
  | nil => rfl
  | append_singleton turns turn ih =>
      rw [ofTurns_concat, List.filterMap_append, List.length_append, ← ih]
      rcases turn with _ | ⟨_, _, _ | _⟩ | _ <;> simp [add, Turn.call?]

theorem ofTurns_result (turns : List Turn) :
    (ofTurns turns).result =
      ((turns.filterMap Turn.value?).getLast?.map Value.toCell).getD 0 := by
  induction turns using List.reverseRecOn with
  | nil => rfl
  | append_singleton turns turn ih =>
      rw [ofTurns_concat, List.filterMap_append]
      rcases turn with _ | ⟨_, _, _ | _⟩ | _ <;> simp [add, Turn.value?, ih]

theorem ofTurns_marshalError (turns : List Turn) :
    (ofTurns turns).marshalError = (turns.filterMap Turn.refusal?).getLast? := by
  induction turns using List.reverseRecOn with
  | nil => rfl
  | append_singleton turns turn ih =>
      rw [ofTurns_concat, List.filterMap_append]
      rcases turn with _ | ⟨_, _, _ | _⟩ | _ <;> simp [add, Turn.refusal?, ih]

end Report

namespace Turn

/-- Each call gives a fault or a value. -/
theorem length_calls (turns : List Turn) :
    (turns.filterMap call?).length =
      (turns.filterMap fault?).length + (turns.filterMap value?).length := by
  induction turns with
  | nil => rfl
  | cons turn turns ih =>
      rcases turn with _ | ⟨_, _, _ | _⟩ | _ <;>
        simp only [List.filterMap_cons, call?, fault?, value?,
          List.length_cons, ih]
      · omega
      · omega

/-- Where no turn is refused its arguments, each is a call or is skipped. -/
theorem length_calls_add_skipped {turns : List Turn}
    (complete : turns.filterMap refusal? = []) :
    (turns.filterMap call?).length + turns.countP isSkipped = turns.length := by
  induction turns with
  | nil => rfl
  | cons turn turns ih =>
      cases turn with
      | skipped listener =>
          rw [List.filterMap_cons_none rfl] at complete
          rw [List.filterMap_cons_none rfl, List.countP_cons_of_pos rfl,
            List.length_cons, ← ih complete, Nat.add_assoc]
      | called listener arguments outcome =>
          rw [List.filterMap_cons_none rfl] at complete
          have call : (called listener arguments outcome).call? =
              some (listener, arguments) := rfl
          rw [List.filterMap_cons_some call,
            List.countP_cons_of_neg Bool.false_ne_true, List.length_cons,
            List.length_cons, ← ih complete]
          omega
      | refused listener error => simp [refusal?] at complete

end Turn

end CellBus
