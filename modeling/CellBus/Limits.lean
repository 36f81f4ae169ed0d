/-!
# Marshaling limits

Bounds on what is decoded from the memory of the script machine.
-/

namespace CellBus

structure Limits where
  /-- Longest text, in bytes. -/
  textLength : Nat := 65536
  /-- Longest array, in elements. -/
  arrayLength : Nat := 65536
  /-- Whether a text that is not UTF-8 is refused rather than mended. -/
  strictUtf8 : Bool := false
  deriving DecidableEq, Repr

end CellBus
