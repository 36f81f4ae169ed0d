/-!
# Reading text from the left

A reader takes characters off the front of a text and gives what they stand for,
or fails.
-/

namespace CellBus.Toml

abbrev Reader (α : Type) := StateT (List Char) Option α

namespace Reader

/-- The next character, which stays in the text. -/
def peek : Reader (Option Char) := do return (← get).head?

/-- Takes the next character. -/
def any : Reader Char := do
  match ← get with
  | character :: rest =>
    set rest
    return character
  | [] => failure

/-- Takes the given characters if they come next. -/
def accept (expected : List Char) : Reader Bool := do
  let text ← get
  if expected.isPrefixOf text then
    set (text.drop expected.length)
    return true
  return false

/-- Takes the given characters, which must come next. -/
def expect (expected : List Char) : Reader Unit := do
  if !(← accept expected) then failure

/-- Takes the longest run of characters that satisfy a test. -/
def takeWhile (test : Char → Bool) : Reader (List Char) := do
  let text ← get
  set (text.dropWhile test)
  return text.takeWhile test

/-- Repeats a step, at most `bound` times, until it gives nothing. -/
def collect {α : Type} (step : Reader (Option α)) : Nat → Reader (List α)
  | 0 => failure
  | bound + 1 => do
    match ← step with
    | none => return []
    | some item => return item :: (← collect step bound)

/-- Repeats a step until it gives nothing.  A step that gives something takes a
character, so there are at most as many as there are characters. -/
def many {α : Type} (step : Reader (Option α)) : Reader (List α) := do
  collect step ((← get).length + 1)

/-- What the whole of a text stands for. -/
def readAll {α : Type} (reader : Reader α) (text : List Char) : Option α :=
  match reader.run text with
  | some (found, []) => some found
  | _ => none

end Reader

end CellBus.Toml
