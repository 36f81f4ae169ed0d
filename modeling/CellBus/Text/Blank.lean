/-!
# Blank characters

The characters with the Unicode property `White_Space`, and trimming them from
both ends of a text.
-/

namespace CellBus.Text

/-- First and last character of each range with the property `White_Space`. -/
def blankRanges : List (Char × Char) :=
  [('\x09', '\x0d'), (' ', ' '), ('\u0085', '\u0085'), ('\u00a0', '\u00a0'),
    ('\u1680', '\u1680'), ('\u2000', '\u200a'), ('\u2028', '\u2029'),
    ('\u202f', '\u202f'), ('\u205f', '\u205f'), ('\u3000', '\u3000')]

def isBlank (character : Char) : Bool :=
  blankRanges.any fun (first, last) => first ≤ character && character ≤ last

/-- The text without the blanks at its start and at its end. -/
def trimBlank (text : List Char) : List Char :=
  ((text.dropWhile isBlank).reverse.dropWhile isBlank).reverse

end CellBus.Text
