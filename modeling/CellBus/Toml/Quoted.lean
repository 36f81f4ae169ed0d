import CellBus.Number.Literal
import CellBus.Toml.Reader

/-!
# Quoted texts

Double quotes allow escapes and single quotes do not.  Three quotes in a row open
a text that may hold line breaks; it ends at the next three quotes, before which
up to two more belong to the text.
-/

namespace CellBus.Toml

/-- A character that may not stand in a document, tabs and line breaks apart. -/
def isControl (character : Char) : Bool :=
  (character.toNat < 0x20 && character ≠ '\t' && character ≠ '\n') || character.toNat = 0x7F

/-- Blanks within a line. -/
def isSpace (character : Char) : Bool := character = ' ' || character = '\t'

namespace Quoted

/-- The character with a given code, surrogates excluded. -/
def scalar? (code : Nat) : Option Char :=
  if code.isValidChar then some (Char.ofNat code) else none

/-- A character given by hexadecimal digits. -/
def codeEscape (digits : Nat) : Reader Char := do
  let values ← (List.range digits).mapM fun _ => do
    match Number.digit? 16 (← Reader.any) with
    | some value => return value
    | none => failure
  match scalar? (values.foldl (fun code value => code * 16 + value) 0) with
  | some character => return character
  | none => failure

/-- The character that an escape stands for, after the backslash. -/
def escape : Reader Char := do
  match ← Reader.any with
  | 'b' => return '\x08'
  | 't' => return '\t'
  | 'n' => return '\n'
  | 'f' => return '\x0c'
  | 'r' => return '\r'
  | 'e' => return '\x1b'
  | '"' => return '"'
  | '\\' => return '\\'
  | 'x' => codeEscape 2
  | 'u' => codeEscape 4
  | 'U' => codeEscape 8
  | _ => failure

/-- Takes the blanks and line breaks that a backslash at the end of a line joins,
if one stands there. -/
def lineJoin : Reader Bool := do
  let text ← get
  match text.dropWhile isSpace with
  | '\n' :: rest =>
    set (rest.dropWhile fun character => isSpace character || character = '\n')
    return true
  | _ => return false

/-- A further piece of a text that ends at `quote`, or nothing at its end.  Only
double quotes allow escapes, and only a text of several lines holds line breaks. -/
def piece (quote : Char) (ending : List Char) : Reader (Option (List Char)) := do
  if ending.isPrefixOf (← get) then return none
  let character ← Reader.any
  let multiline := ending.length = 3
  if character = '\\' && quote = '"' then
    if multiline && (← lineJoin) then return some []
    return some [← escape]
  if isControl character || (character = '\n' && !multiline) then failure
  return some [character]

/-- A text within one line. -/
def singleLine (quote : Char) : Reader String := do
  Reader.expect [quote]
  let pieces ← Reader.many (piece quote [quote])
  Reader.expect [quote]
  return String.ofList pieces.flatten

/-- A text of several lines.  A line break right after the opening quotes does not
belong to it. -/
def multiLine (quote : Char) : Reader String := do
  let ending := List.replicate 3 quote
  Reader.expect ending
  let _ ← Reader.accept ['\n']
  let pieces ← Reader.many (piece quote ending)
  let quotes ← Reader.takeWhile (· = quote)
  if 5 < quotes.length then failure
  return String.ofList (pieces.flatten ++ quotes.drop 3)

/-- A text in quotes of either kind, of one line or several. -/
def text (quote : Char) : Reader String := do
  if (List.replicate 3 quote).isPrefixOf (← get) then multiLine quote else singleLine quote

end Quoted

end CellBus.Toml
