/-!
Decimal integers as text. The written form has a minus sign below zero and no superfluous zero; what
is read may also have a plus sign and any number of leading zeros, but nothing else.
-/

namespace Intcode.Text.Decimal

/-- The written form of an integer. -/
def ofInt : Int → List Char
  | .ofNat n => Nat.toDigits 10 n
  | .negSucc n => '-' :: Nat.toDigits 10 (n + 1)

/-- The value of a text of one or more ASCII digits. -/
def toNat? (cs : List Char) : Option Nat :=
  if !cs.isEmpty && cs.all Char.isDigit then some (Nat.ofDigitChars 10 cs 0) else none

/-- The value of a text of one or more ASCII digits after at most one sign. -/
def toInt? : List Char → Option Int
  | '+' :: cs => (toNat? cs).map fun n => (n : Int)
  | '-' :: cs => (toNat? cs).map fun n => -(n : Int)
  | cs => (toNat? cs).map fun n => (n : Int)

/-- The written form of an integer, as a string. -/
def text (n : Int) : String := String.ofList (ofInt n)

end Intcode.Text.Decimal
