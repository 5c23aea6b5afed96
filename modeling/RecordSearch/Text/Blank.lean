import RecordSearch.Text.CodePoints

/-!
# Blanks

The characters of the Unicode property `White_Space`, and texts without the blanks at their ends.
-/

namespace RecordSearch.Text

/-- The property `White_Space`. -/
def blanks : CodePoints :=
  [(0x9, 0xD), (0x20, 0x20), (0x85, 0x85), (0xA0, 0xA0), (0x1680, 0x1680), (0x2000, 0x200A),
   (0x2028, 0x2029), (0x202F, 0x202F), (0x205F, 0x205F), (0x3000, 0x3000)]

/-- The character is white space. -/
def isBlank (c : Char) : Bool :=
  blanks.contains c

/-- The characters between the first and the last that are not blank. -/
def trim (cs : List Char) : List Char :=
  ((cs.dropWhile isBlank).reverse.dropWhile isBlank).reverse

end RecordSearch.Text
