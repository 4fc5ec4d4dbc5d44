/-! Sets of characters, given as lists of closed ranges of code points. -/

namespace Intcode.Text

/-- `within ranges c` says that the code point of `c` lies in one of the closed ranges. -/
def within (ranges : List (Nat × Nat)) (c : Char) : Bool :=
  ranges.any fun range => range.1 ≤ c.toNat && c.toNat ≤ range.2

end Intcode.Text
