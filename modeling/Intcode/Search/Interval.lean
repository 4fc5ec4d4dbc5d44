import Intcode.Word

/-! Closed intervals of words, and the first number below a bound that has a property. -/

namespace Intcode

/-- The words from `first` to `last`, both included; there is none if `first` is the greater. -/
structure Interval where
  first : Word
  last : Word
deriving DecidableEq

namespace Interval

/-- The number of words in an interval. -/
def size (r : Interval) : Nat := (r.last.toInt - r.first.toInt + 1).toNat

/-- The word at a position of an interval, counted from zero. -/
def word (r : Interval) (k : Nat) : Word := .ofInt (r.first.toInt + k)

end Interval

/-- The first of the `count` numbers from `k` on that has the property `p`. -/
def firstFrom (p : Nat → Bool) (k : Nat) : Nat → Option Nat
  | 0 => none
  | count + 1 => if p k then some k else firstFrom p (k + 1) count

end Intcode
