import Intcode.Instruction.Opcode
import Intcode.Memory.Basic

/-!
Instructions. The word of an instruction packs the code of its operation in its two lowest decimal
digits and the mode of each parameter in one of the digits above, the first parameter's lowest;
digits above those are ignored.
-/

namespace Intcode

/-- How the value of a source is found. -/
inductive Mode where
  /-- The parameter is the address of the value. -/
  | position
  /-- The parameter is the value. -/
  | immediate
deriving DecidableEq

namespace Mode

/-- The name of a mode. -/
def name : Mode → String
  | position => "Position"
  | immediate => "Immediate"

/-- The mode that a digit codes. -/
def ofDigit? (digit : Word) : Option Mode :=
  if digit = 0 then some .position else if digit = 1 then some .immediate else none

/-- The modes that the `count` lowest digits of a word code, from the lowest, or the first of these
digits that codes none. -/
def ofDigits (word : Word) : Nat → Except Word (List Mode)
  | 0 => .ok []
  | count + 1 =>
    match ofDigit? (word % 10) with
    | none => .error (word % 10)
    | some mode =>
      match ofDigits (word / 10) count with
      | .error digit => .error digit
      | .ok modes => .ok (mode :: modes)

theorem length_of_ofDigits {word : Word} {count : Nat} {modes : List Mode}
    (h : ofDigits word count = .ok modes) : modes.length = count := by
  induction count generalizing word modes with
  | zero => cases h; rfl
  | succ count ih =>
    rw [ofDigits] at h
    split at h
    · cases h
    · split at h
      · cases h
      · rename_i hrest
        cases h
        rw [List.length_cons, ih hrest]

end Mode

/-- An instruction: its word, the operation that the word codes, and a mode for each parameter. -/
structure Instruction where
  word : Word
  opcode : Opcode
  modes : List Mode
  length_modes : modes.length = opcode.parameters.length
deriving DecidableEq

namespace Instruction

/-- The instruction that a word at `pc` packs. -/
def ofWord (word : Word) (pc : UInt64) : Except Fault Instruction :=
  match Opcode.ofCode? (word % 100) with
  | none => .error (.invalidOpcode word pc)
  | some opcode =>
    match h : Mode.ofDigits (word / 100) opcode.parameters.length with
    | .error digit => .error (.invalidMode word pc digit)
    | .ok modes => .ok ⟨word, opcode, modes, Mode.length_of_ofDigits h⟩

/-- The instruction in the cell at `pc`. -/
def decode (m : Memory) (pc : UInt64) : Except Fault Instruction :=
  match m.read pc.toInt64 with
  | .error fault => .error fault
  | .ok word => ofWord word pc

end Instruction

end Intcode
