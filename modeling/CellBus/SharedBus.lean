import CellBus.Bus

/-!
# The shared bus

A place for the one bus that everybody uses.  The bus comes into being with the
first limits that are set, or with the default ones at its first use, and stays.
-/

namespace CellBus

structure SharedBus where
  bus? : Option Bus
  deriving DecidableEq, Repr

namespace SharedBus

/-- Nobody has used the bus yet. -/
def untouched : SharedBus := ⟨none⟩

/-- Creates the bus with some limits, unless it exists; tells whether it did. -/
def initialise (limits : Limits) (shared : SharedBus) : Bool × SharedBus :=
  match shared.bus? with
  | some _ => (false, shared)
  | none => (true, ⟨some (Bus.new limits)⟩)

/-- The bus, created with the default limits if need be. -/
def theBus (shared : SharedBus) : Bus × SharedBus :=
  let bus := shared.bus?.getD (Bus.new {})
  (bus, ⟨some bus⟩)

end SharedBus

end CellBus
