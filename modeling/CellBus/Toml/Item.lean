import CellBus.Number.Binary64

/-!
# TOML items

What a TOML document says about a key.  Tables remember how they came about,
because that decides what later lines may still add to them.
-/

namespace CellBus.Toml

/-- What stands under a key. -/
inductive Item where
  | text (characters : String)
  | integer (number : Int)
  | float (number : Binary64)
  | bool (truth : Bool)
  /-- A date, a time of day or both, as written. -/
  | moment (written : String)
  | list (items : List Item)
  /-- A table written between braces; nothing can be added to it. -/
  | inlineTable (entries : List (String × Item))
  /-- A table that lines add to.  It is `headed` once a header names it, and
  `dotted` once the dots of a key made or entered it. -/
  | table (headed dotted : Bool) (entries : List (String × Item))
  /-- A list of tables, one for each header in double brackets. -/
  | tables (elements : List (List (String × Item)))
  deriving Inhabited, Repr

/-- Keys with their items, in the order in which they appeared. -/
abbrev Table := List (String × Item)

namespace Table

/-- Gives an existing key another item. -/
def replace (key : String) (item : Item) (table : Table) : Table :=
  table.map fun (name, found) => if name = key then (name, item) else (name, found)

/-- Adds a key that is not there yet. -/
def add (key : String) (item : Item) (table : Table) : Option Table :=
  if (table.lookup key).isSome then none else some (table ++ [(key, item)])

/-- Applies `change` to the table at the end of a path.  Missing tables are made
on the way.  A path through the dots of a key does not enter a table with a
header of its own, and every other table that it enters is dotted from then on.
Any path enters the last element of a list of tables.  The change also sees
whether the table is dotted. -/
def changeAt (throughDots : Bool) (change : Bool → Table → Option Table) :
    List String → Bool → Table → Option Table
  | [], dotted, table => change dotted table
  | key :: path, _, table =>
    match table.lookup key with
    | none => do
      let inner ← changeAt throughDots change path throughDots []
      return table ++ [(key, .table false throughDots inner)]
    | some (.table headed dotted inner) =>
      if throughDots && headed then none
      else do
        let dotted := dotted || throughDots
        let changed ← changeAt throughDots change path dotted inner
        return table.replace key (.table headed dotted changed)
    | some (.tables elements) => do
      let changed ← changeAt throughDots change path false (← elements.getLast?)
      return table.replace key (.tables (elements.dropLast ++ [changed]))
    | some _ => none

/-- Enters an item under a dotted key.  The dots must not end at an element of a
list of tables. -/
def assign (path : List String) (key : String) (item : Item) : Table → Option Table :=
  changeAt true
    (fun dotted target => if dotted || path.isEmpty then target.add key item else none)
    path false

/-- Opens the table that a header names.  A header may complete a table that only
longer headers have made so far. -/
def openTable (key : String) (table : Table) : Option Table :=
  match table.lookup key with
  | none => some (table ++ [(key, .table true false [])])
  | some (.table false false entries) => some (table.replace key (.table true false entries))
  | some _ => none

/-- Opens a further element of the list of tables that a header names. -/
def openElement (key : String) (table : Table) : Option Table :=
  match table.lookup key with
  | none => some (table ++ [(key, .tables [[]])])
  | some (.tables elements) => some (table.replace key (.tables (elements ++ [[]])))
  | some _ => none

end Table

end CellBus.Toml
