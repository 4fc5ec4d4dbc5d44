import Intcode.Log.Record
import Intcode.Machine.Basic

/-!
One step of a machine: the instruction at the counter is decoded, its operands are found, and its
effect is applied. A step that fails changes the status alone, and a machine that has halted stays
as it is.
-/

namespace Intcode

/-- How a step, or a row of them, ends. -/
inductive Outcome where
  /-- The machine can go on. -/
  | ongoing
  /-- The machine has halted. -/
  | halted
  /-- The last step failed. -/
  | faulted (fault : Fault)
deriving DecidableEq

/-- How a step with an effect ends. -/
def Effect.outcome : Effect → Outcome
  | halt => .halted
  | write .. | output _ | jump _ | pass => .ongoing

/-- The records that an effect of the instruction at `pc` adds to that of its execution. -/
def Effect.log (pc : UInt64) : Effect → List Record
  | halt => [.halted pc]
  | write .. | output _ | jump _ | pass => []

/-- A step: how it ends, the machine after it, and the records that it makes. -/
structure Step where
  outcome : Outcome
  machine : Machine
  log : List Record
deriving DecidableEq

namespace Machine

/-- The instruction at the counter and its operands. -/
def fetch (m : Machine) : Except Fault (Instruction × Operands) :=
  match Instruction.decode m.memory m.pc with
  | .error fault => .error fault
  | .ok i =>
    match i.operands m.memory m.pc with
    | .error fault => .error fault
    | .ok x => .ok (i, x)

/-- The step that fails after the records in `log`. -/
def fail (m : Machine) (log : List Record) (fault : Fault) : Step :=
  ⟨.faulted fault, { m with status := .faulted }, log ++ [.faulted m.pc fault]⟩

/-- The step that carries out an instruction on its operands. -/
def execute (m : Machine) (i : Instruction) (x : Operands) : Step :=
  match m.effect i.opcode x with
  | .error fault => m.fail [.executed m.pc i x] fault
  | .ok e => ⟨e.outcome, m.apply i.opcode.length e, .executed m.pc i x :: e.log m.pc⟩

/-- The next step of a machine. -/
def step (m : Machine) : Step :=
  if m.isHalted then ⟨.halted, m, []⟩
  else
    match m.fetch with
    | .error fault => m.fail [] fault
    | .ok (i, x) => m.execute i x

end Machine

end Intcode
