/-!
# Signatures

An event's signature is a text with one tag character per argument.  Parsing
reads the tags from left to right and stops at the first character that is no
tag.  A signature keeps its text as it was given beside the tags that were read;
`Signature.print` writes tags as a text.
-/

namespace CellBus

/-- The kind of one argument. -/
inductive Tag where
  /-- Address of a text. -/
  | text
  /-- Signed integer. -/
  | int
  /-- Unsigned integer. -/
  | uint
  /-- Single-precision number. -/
  | float
  /-- Base address and length of an array of integers. -/
  | intArray
  /-- Base address and length of an array of single-precision numbers. -/
  | floatArray
  deriving DecidableEq, Repr

namespace Tag

def ofChar? : Char → Option Tag
  | 's' => some text
  | 'd' => some int
  | 'i' => some uint
  | 'f' => some float
  | 'a' => some intArray
  | 'v' => some floatArray
  | _ => none

def toChar : Tag → Char
  | text => 's'
  | int => 'd'
  | uint => 'i'
  | float => 'f'
  | intArray => 'a'
  | floatArray => 'v'

/-- How many raw cells an argument of this kind takes. -/
def cells : Tag → Nat
  | intArray | floatArray => 2
  | text | int | uint | float => 1

end Tag

/-- A character that is no tag, with its place in the signature counted in
characters. -/
inductive SignatureError where
  | unknownTag (tag : Char) (position : Nat)
  deriving DecidableEq, Repr

def SignatureError.message : SignatureError → String
  | unknownTag tag position =>
    "unknown type tag '" ++ String.singleton tag ++ "' at position " ++ toString position

/-- A text and the kinds of an event's arguments, in order. -/
structure Signature where
  text : String
  tags : List Tag
  deriving DecidableEq, Repr

namespace Signature

/-- Reads tags off characters, the first of which stands at `position`. -/
def readTags (position : Nat) : List Char → Except SignatureError (List Tag)
  | [] => .ok []
  | character :: rest =>
    match Tag.ofChar? character with
    | none => .error (.unknownTag character position)
    | some tag => (readTags (position + 1) rest).map (tag :: ·)

def parse (text : String) : Except SignatureError Signature :=
  (readTags 0 text.toList).map (Signature.mk text)

/-- What a text becomes where a signature is wanted. -/
def ofString (text : String) : Except SignatureError Signature := parse text

/-- A signature is displayed by its text. -/
instance : ToString Signature := ⟨Signature.text⟩

/-- The characters of tags, in order. -/
def print (tags : List Tag) : String := String.ofList (tags.map Tag.toChar)

/-- Tags with the text that they print as. -/
def ofTags (tags : List Tag) : Signature := ⟨print tags, tags⟩

@[simp] theorem tags_ofTags (tags : List Tag) : (ofTags tags).tags = tags := rfl

/-- How many arguments the signature describes. -/
def length (signature : Signature) : Nat := signature.tags.length

/-- How many raw cells a full argument list takes. -/
def cellCount (signature : Signature) : Nat :=
  signature.tags.foldr (fun tag count => tag.cells + count) 0

end Signature

end CellBus
