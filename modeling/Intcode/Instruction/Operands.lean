import Intcode.Instruction.Basic

/-!
Operands, the words that an operation works on. The cells after an instruction's word hold its
parameters; they are read in order, and a source in position mode is followed to its value before
the next parameter is read. A destination is taken as it stands, whatever its mode.
-/

namespace Intcode

/-- The operands of an instruction; those that its operation lacks are zero. -/
structure Operands where
  first : Word := 0
  second : Word := 0
  third : Word := 0
deriving DecidableEq

namespace Operands

/-- The first three words of a list, with zeros for those that it lacks. -/
def ofList (words : List Word) : Operands :=
  ⟨words.getD 0 0, words.getD 1 0, words.getD 2 0⟩

/-- The three words in order. -/
def toList (x : Operands) : List Word := [x.first, x.second, x.third]

end Operands

namespace Memory

/-- The operand of the parameter in the cell at `a`. -/
def operand (m : Memory) (a : Word) : Role × Mode → Except Fault Word
  | (.source, .position) =>
    match m.read a with
    | .error fault => .error fault
    | .ok address => m.read address
  | _ => m.read a

/-- The operands of the parameters in the cells from `pc` on. -/
def operands (m : Memory) (pc : UInt64) : List (Role × Mode) → Except Fault (List Word)
  | [] => .ok []
  | parameter :: rest =>
    match m.operand pc.toInt64 parameter with
    | .error fault => .error fault
    | .ok value =>
      match m.operands (pc + 1) rest with
      | .error fault => .error fault
      | .ok values => .ok (value :: values)

end Memory

namespace Instruction

/-- The parameters of an instruction with their modes. -/
def parameters (i : Instruction) : List (Role × Mode) := i.opcode.parameters.zip i.modes

/-- The operands that an instruction has in memory `m` with its word at `pc`. -/
def operands (i : Instruction) (m : Memory) (pc : UInt64) : Except Fault Operands :=
  match m.operands (pc + 1) i.parameters with
  | .error fault => .error fault
  | .ok values => .ok (.ofList values)

end Instruction

end Intcode
