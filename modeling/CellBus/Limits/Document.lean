import CellBus.Limits
import CellBus.Text.Utf8
import CellBus.Toml.Document

/-!
# Limits as documents

A configuration document gives any of the three limits under its own key; a
limit that it leaves out keeps its default, and other keys mean nothing.
-/

namespace CellBus.Limits

/-- A count: an integer that is not negative and fits a 64-bit word. -/
def count? : Toml.Item → Option Nat
  | .integer number =>
    if 0 ≤ number && number < 0x10000000000000000 then some number.toNat else none
  | _ => none

/-- A truth value. -/
def switch? : Toml.Item → Option Bool
  | .bool truth => some truth
  | _ => none

/-- The limit under a key.  It has its default without the key, and an item of
the wrong kind is refused. -/
def setting {α : Type} (read : Toml.Item → Option α) (key : String) (default : α)
    (table : Toml.Table) : Option α :=
  match table.lookup key with
  | none => some default
  | some item => read item

/-- The limits that a table gives. -/
def ofTable? (table : Toml.Table) : Option Limits := do
  return {
    textLength := ← setting count? "max_string_len" ({} : Limits).textLength table
    arrayLength := ← setting count? "max_array_len" ({} : Limits).arrayLength table
    strictUtf8 := ← setting switch? "strict_utf8" ({} : Limits).strictUtf8 table }

/-- The limits that a document gives. -/
def ofDocument? (text : String) : Option Limits := do ofTable? (← Toml.parse text)

/-- The document that gives all three limits. -/
def toDocument (limits : Limits) : String :=
  "max_string_len = " ++ toString limits.textLength
    ++ "\nmax_array_len = " ++ toString limits.arrayLength
    ++ "\nstrict_utf8 = " ++ (if limits.strictUtf8 then "true" else "false") ++ "\n"

/-- Why no limits could be had. -/
inductive LoadError where
  /-- A text that describes no limits. -/
  | malformed
  /-- A file that is missing or holds no UTF-8 text. -/
  | unreadable (path : String)
  /-- A file whose text describes no limits. -/
  | invalid (path : String)
  deriving DecidableEq, Repr

/-- The wording of each cause. -/
def LoadError.message : LoadError → String
  | malformed => "Failed to parse bridge config"
  | unreadable path => "Failed to read bridge config " ++ path
  | invalid path => "Invalid bridge config " ++ path

/-- The limits that a text describes. -/
def ofText (text : String) : Except LoadError Limits :=
  match ofDocument? text with
  | some limits => .ok limits
  | none => .error .malformed

/-- The limits that a file describes, given its contents if it exists. -/
def ofFile (path : String) (contents : Option (List UInt8)) : Except LoadError Limits :=
  match contents.bind Text.decodeStrict with
  | none => .error (.unreadable path)
  | some text =>
    match ofDocument? text with
    | some limits => .ok limits
    | none => .error (.invalid path)

end CellBus.Limits
