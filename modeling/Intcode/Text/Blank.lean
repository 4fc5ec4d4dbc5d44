import Intcode.Text.Ranges

/-! Blanks, the characters with the Unicode property White_Space, and their removal at both ends. -/

namespace Intcode.Text

/-- The code points with the property White_Space. -/
def blankRanges : List (Nat × Nat) :=
  [(0x9, 0xD), (0x20, 0x20), (0x85, 0x85), (0xA0, 0xA0), (0x1680, 0x1680), (0x2000, 0x200A),
    (0x2028, 0x2029), (0x202F, 0x202F), (0x205F, 0x205F), (0x3000, 0x3000)]

/-- `isBlank c` says that `c` is a blank. -/
def isBlank (c : Char) : Bool := within blankRanges c

/-- `trim cs` is `cs` without the blanks at its start and at its end. -/
def trim (cs : List Char) : List Char :=
  ((cs.dropWhile isBlank).reverse.dropWhile isBlank).reverse

end Intcode.Text
