import Intcode.Word

/-!
Faults, the reasons for which an instruction cannot be carried out. Each holds what its message
names; a program counter is an unsigned 64-bit number.
-/

namespace Intcode

/-- The text of a program counter. -/
def counterText (pc : UInt64) : String := Text.Decimal.text pc.toNat

/-- Why an instruction cannot be carried out. -/
inductive Fault where
  /-- The word at the counter codes no operation. -/
  | invalidOpcode (word : Word) (pc : UInt64)
  /-- The word at the counter has a mode digit that is neither zero nor one. -/
  | invalidMode (word : Word) (pc : UInt64) (digit : Word)
  /-- An address is not the address of a cell. -/
  | outOfBounds (address : Word) (size : Nat)
  /-- An input is wanted and none has been given. -/
  | missingInput (pc : UInt64)
deriving DecidableEq

/-- What a user is told of a fault. -/
def Fault.message : Fault → String
  | .invalidOpcode word pc => "Invalid opcode " ++ word.text ++ " at pc " ++ counterText pc
  | .invalidMode word pc digit =>
    "Invalid addressing mode " ++ digit.text ++ " in " ++ word.text ++ " at pc " ++ counterText pc
  | .outOfBounds address size =>
    "Address " ++ address.text ++ " out of memory bounds (len " ++ Text.Decimal.text size ++ ")"
  | .missingInput pc => "No input available for store at pc " ++ counterText pc

end Intcode
