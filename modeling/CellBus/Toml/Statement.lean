import CellBus.Toml.Quoted
import CellBus.Toml.Unquoted

/-!
# TOML statements

A document is a list of lines, each with at most one statement: an assignment to
a key or the header of a table.  Values may span several lines inside brackets,
braces and triple quotes.
-/

namespace CellBus.Toml

/-- A key with the dots before its last part resolved into a path. -/
structure Key where
  path : List String
  name : String
  deriving DecidableEq, Repr

/-- One line's contribution to a document. -/
inductive Statement where
  | assignment (key : Key) (item : Item)
  /-- A header in single brackets. -/
  | tableHeader (key : Key)
  /-- A header in double brackets. -/
  | elementHeader (key : Key)

/-- How deeply brackets and braces may be nested. -/
def nestingLimit : Nat := 80

/-- How many parts a dotted key may have. -/
def keyLimit : Nat := 80

def isBareKeyCharacter (character : Char) : Bool :=
  character.isAlphanum || character = '_' || character = '-'

/-- Takes the blanks that come next. -/
def spaces : Reader Unit := do
  let _ ← Reader.takeWhile isSpace

/-- Takes a comment up to the end of its line, if one comes next. -/
def comment : Reader Unit := do
  if ← Reader.accept ['#'] then
    if (← Reader.takeWhile (· ≠ '\n')).any isControl then failure

/-- One blank, line break or comment, if one comes next. -/
def filler : Reader (Option Unit) := do
  match ← Reader.peek with
  | some '#' => some <$> comment
  | some character =>
    if isSpace character || character = '\n' then
      let _ ← Reader.any
      return some ()
    else return none
  | none => return none

/-- Takes blanks, line breaks and comments. -/
def fillers : Reader Unit := do
  let _ ← Reader.many filler

/-- One part of a dotted key. -/
def keyPart : Reader String := do
  match ← Reader.peek with
  | some '"' => Quoted.singleLine '"'
  | some '\x27' => Quoted.singleLine '\x27'
  | _ =>
    let characters ← Reader.takeWhile isBareKeyCharacter
    if characters.isEmpty then failure
    return String.ofList characters

/-- A further part of a dotted key, if a dot comes next. -/
def furtherPart : Reader (Option String) := do
  let text ← get
  spaces
  if ← Reader.accept ['.'] then
    spaces
    return some (← keyPart)
  set text
  return none

/-- A dotted key. -/
def key : Reader Key := do
  let first ← keyPart
  let further ← Reader.many furtherPart
  let parts := first :: further
  if keyLimit < parts.length then failure
  return ⟨parts.dropLast, parts.getLast?.getD first⟩

/-- A key with the value assigned to it, and what may stand around the sign between
them. -/
def assignment (gap : Reader Unit) (value : Reader Item) : Reader (Key × Item) := do
  let target ← key
  gap
  Reader.expect ['=']
  gap
  return (target, ← value)

/-- A further member between brackets, or nothing at the closing one.  A comma
must stand between two members and may follow the last. -/
def member {α : Type} (closing : Char) (one : Reader α) : Reader (Option α) := do
  fillers
  if ← Reader.accept [closing] then return none
  let found ← one
  fillers
  if !(← Reader.accept [',']) && (← Reader.peek) ≠ some closing then failure
  return some found

/-- The table between two braces. -/
def inlineTable (assignments : List (Key × Item)) : Option Item := do
  let table ← assignments.foldlM
    (fun (table : Table) (target, item) => table.assign target.path target.name item) []
  return .inlineTable table

/-- A value.  Brackets and braces may be nested as deeply as `nesting` says. -/
def value : Nat → Reader Item
  | 0 => scalar
  | nesting + 1 => do
    if ← Reader.accept ['['] then
      return .list (← Reader.many (member ']' (value nesting)))
    else if ← Reader.accept ['\x7b'] then
      match inlineTable (← Reader.many (member '\x7d' (assignment fillers (value nesting)))) with
      | some item => return item
      | none => failure
    else scalar
where
  /-- A value without parts. -/
  scalar : Reader Item := do
    match ← Reader.peek with
    | some '"' => return .text (← Quoted.text '"')
    | some '\x27' => return .text (← Quoted.text '\x27')
    | _ => Unquoted.value

/-- A header, whose first bracket comes next. -/
def header : Reader Statement := do
  let doubled ← Reader.accept ['[', '[']
  if !doubled then Reader.expect ['[']
  spaces
  let target ← key
  spaces
  if doubled then
    Reader.expect [']', ']']
    return .elementHeader target
  else
    Reader.expect [']']
    return .tableHeader target

/-- The statement of a line, if it has one. -/
def lineStatement : Reader (Option Statement) := do
  match ← Reader.peek with
  | none | some '\n' | some '#' => return none
  | some '[' => return some (← header)
  | some _ =>
    let (target, item) ← assignment spaces (value nestingLimit)
    return some (.assignment target item)

/-- A further line, or nothing at the end of the document. -/
def line : Reader (Option (Option Statement)) := do
  if (← get).isEmpty then return none
  spaces
  let statement ← lineStatement
  spaces
  comment
  if !(← Reader.accept ['\n']) && !(← get).isEmpty then failure
  return some statement

/-- The characters of a document without a leading byte order mark, and with
line breaks that are one character. -/
def unifyBreaks (text : List Char) : List Char :=
  unify (if text.head? = some '\ufeff' then text.drop 1 else text)
where
  unify : List Char → List Char
    | '\r' :: '\n' :: rest => '\n' :: unify rest
    | character :: rest => character :: unify rest
    | [] => []

/-- The statements of a document, in order. -/
def statements? (text : String) : Option (List Statement) :=
  (Reader.readAll (Reader.many line) (unifyBreaks text.toList)).map (·.filterMap id)

end CellBus.Toml
