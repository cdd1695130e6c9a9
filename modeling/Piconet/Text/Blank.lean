/-!
# Blank characters

The characters with the Unicode property `White_Space`, and the removal of
blanks around a text.  The property is wider than the ASCII blanks: it also
holds of the no-break spaces, the typographic spaces and the line and paragraph
separators, and it does not hold of the zero-width joiners and marks.
-/

namespace Piconet.Text

/-- The ranges of code points with the property `White_Space`, both ends included. -/
def blankRanges : List (Nat × Nat) :=
  [(0x9, 0xd), (0x20, 0x20), (0x85, 0x85), (0xa0, 0xa0), (0x1680, 0x1680),
   (0x2000, 0x200a), (0x2028, 0x2029), (0x202f, 0x202f), (0x205f, 0x205f),
   (0x3000, 0x3000)]

def isBlank (character : Char) : Bool :=
  blankRanges.any fun range =>
    range.1 ≤ character.toNat && character.toNat ≤ range.2

def trim (text : List Char) : List Char :=
  ((text.dropWhile isBlank).reverse.dropWhile isBlank).reverse

end Piconet.Text
