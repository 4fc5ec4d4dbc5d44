import Intcode.Text.Decimal

/-!
Words, the values that a memory holds: signed 64-bit integers whose sums and products wrap. The text
of a word is its decimal form.
-/

namespace Intcode

/-- A signed 64-bit integer. -/
abbrev Word := Int64

namespace Word

/-- The word with the given value, if there is one. -/
def ofInt? (n : Int) : Option Word :=
  if Int64.minValue.toInt ≤ n ∧ n ≤ Int64.maxValue.toInt then some (Int64.ofInt n) else none

/-- The word that a decimal integer denotes, if the text is one and its value is in range. -/
def ofText? (cs : List Char) : Option Word := (Text.Decimal.toInt? cs).bind ofInt?

/-- The characters of a word's decimal form. -/
def chars (w : Word) : List Char := Text.Decimal.ofInt w.toInt

/-- The decimal form of a word. -/
def text (w : Word) : String := Text.Decimal.text w.toInt

end Word

end Intcode
