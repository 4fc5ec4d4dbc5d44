import Intcode.Instruction.Operands

/-!
The machine: a memory, a program counter, a status, and one register each for input and output. An
instruction that can be carried out has one effect, which is found from the state before it and then
applied; whatever can fail fails before anything is changed.
-/

namespace Intcode

/-- How a machine stands. -/
inductive Status where
  | running
  | halted
  | faulted
deriving DecidableEq

/-- The name of a status. -/
def Status.name : Status → String
  | running => "Running"
  | halted => "Halted"
  | faulted => "Faulted"

/-- The state of a machine. The input is not used up when it is stored, and the output is the last word
that was put out. -/
structure Machine where
  memory : Memory
  pc : UInt64 := 0
  status : Status := .running
  input : Option Word := none
  output : Option Word := none
deriving DecidableEq

/-- What an instruction does. -/
inductive Effect where
  /-- Puts a word into a cell. -/
  | write (address value : Word)
  /-- Puts a word out. -/
  | output (value : Word)
  /-- Goes on at another counter. -/
  | jump (target : UInt64)
  /-- Does nothing. -/
  | pass
  /-- Ends the run. -/
  | halt
deriving DecidableEq

namespace Machine

/-- The machine at the start of the program in a memory. -/
def load (memory : Memory) : Machine := { memory }

/-- The machine with another input. -/
def setInput (m : Machine) (value : Word) : Machine := { m with input := some value }

/-- Whether the machine has halted. -/
def isHalted (m : Machine) : Bool := m.status = .halted

/-- The effect of writing a word, which needs a cell for it. -/
def writing (m : Machine) (address value : Word) : Except Fault Effect :=
  if m.memory.InBounds address then .ok (.write address value)
  else .error (m.memory.outOfBounds address)

/-- The effect of a jump, which needs a target that is not negative if it is taken; the target need not
be the address of a cell. -/
def jumping (m : Machine) (taken : Bool) (target : Word) : Except Fault Effect :=
  if taken then
    if target < 0 then .error (m.memory.outOfBounds target) else .ok (.jump target.toUInt64)
  else .ok .pass

/-- The effect of an operation on its operands. -/
def effect (m : Machine) (opcode : Opcode) (x : Operands) : Except Fault Effect :=
  match opcode with
  | .add => m.writing x.third (x.first + x.second)
  | .mul => m.writing x.third (x.first * x.second)
  | .store =>
    match m.input with
    | none => .error (.missingInput m.pc)
    | some value => m.writing x.first value
  | .load => .ok (.output x.first)
  | .jumpIfTrue => m.jumping (x.first != 0) x.second
  | .jumpIfFalse => m.jumping (x.first == 0) x.second
  | .lessThan => m.writing x.third (if x.first < x.second then 1 else 0)
  | .equal => m.writing x.third (if x.first = x.second then 1 else 0)
  | .halt => .ok .halt

/-- The machine after an effect of an instruction of `length` cells. -/
def apply (m : Machine) (length : Nat) : Effect → Machine
  | .write address value =>
    { m with memory := m.memory.set address value, pc := m.pc + .ofNat length, status := .running }
  | .output value => { m with output := some value, pc := m.pc + .ofNat length, status := .running }
  | .jump target => { m with pc := target, status := .running }
  | .pass => { m with pc := m.pc + .ofNat length, status := .running }
  | .halt => { m with status := .halted }

end Machine

end Intcode
