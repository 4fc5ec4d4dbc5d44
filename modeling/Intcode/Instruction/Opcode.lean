import Intcode.Word

/-!
The operations of the machine. Each has a code, a name, and a row of parameters that play the role of a
source or of a destination; an instruction takes one cell for its word and one for each parameter.
-/

namespace Intcode

/-- What a parameter is for. -/
inductive Role where
  /-- The operation takes a value from it. -/
  | source
  /-- The operation writes to the cell whose address it is. -/
  | destination
deriving DecidableEq

/-- An operation of the machine. -/
inductive Opcode where
  | add
  | mul
  | store
  | load
  | jumpIfTrue
  | jumpIfFalse
  | lessThan
  | equal
  | halt
deriving DecidableEq

namespace Opcode

/-- Every operation. -/
def all : List Opcode :=
  [add, mul, store, load, jumpIfTrue, jumpIfFalse, lessThan, equal, halt]

/-- The number that codes an operation. -/
def code : Opcode → Word
  | add => 1
  | mul => 2
  | store => 3
  | load => 4
  | jumpIfTrue => 5
  | jumpIfFalse => 6
  | lessThan => 7
  | equal => 8
  | halt => 99

/-- The operation that a number codes. -/
def ofCode? (code : Word) : Option Opcode := all.find? fun opcode => opcode.code == code

/-- The name of an operation. -/
def name : Opcode → String
  | add => "Add"
  | mul => "Mul"
  | store => "Store"
  | load => "Load"
  | jumpIfTrue => "JumpIfTrue"
  | jumpIfFalse => "JumpIfFalse"
  | lessThan => "LessThan"
  | equal => "Equal"
  | halt => "Halt"

/-- The parameters of an operation, in the order of their cells. -/
def parameters : Opcode → List Role
  | add | mul | lessThan | equal => [.source, .source, .destination]
  | store => [.destination]
  | load => [.source]
  | jumpIfTrue | jumpIfFalse => [.source, .source]
  | halt => []

/-- The number of cells of an instruction. -/
def length (opcode : Opcode) : Nat := opcode.parameters.length + 1

/-- Whether an operation writes to memory. -/
def hasDestination (opcode : Opcode) : Bool := opcode.parameters.contains .destination

end Opcode

end Intcode
