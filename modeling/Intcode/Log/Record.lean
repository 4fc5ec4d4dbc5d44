import Intcode.Instruction.Operands
import Intcode.Log.Level

/-!
Log records: what the machine and the search report of their work while they do it. A record holds
what it is about; its severity, its target and its text follow from that.
-/

namespace Intcode

/-- Something that happened. -/
inductive Record where
  /-- An instruction is about to take effect. -/
  | executed (pc : UInt64) (instruction : Instruction) (operands : Operands)
  /-- The machine halted. -/
  | halted (pc : UInt64)
  /-- The machine could not carry out an instruction. -/
  | faulted (pc : UInt64) (fault : Fault)
  /-- A search passed over a pair because its run ended in a fault. -/
  | pairFaulted (noun verb : Word) (fault : Fault)
  /-- A search found the pair that it was for. -/
  | pairFound (noun verb target : Word)
deriving DecidableEq

namespace Record

/-- The severity of a record. -/
def level : Record → Level
  | executed .. => .trace
  | halted .. | faulted .. | pairFaulted .. => .debug
  | pairFound .. => .info

/-- The part of the program that a record is from. -/
def target : Record → String
  | executed .. | halted .. | faulted .. => "intcode::vm"
  | pairFaulted .. | pairFound .. => "intcode::search"

/-- The words of a pair in a record. -/
def pairText (noun verb : Word) : String := "noun " ++ noun.text ++ " verb " ++ verb.text

/-- The text of a record. -/
def message : Record → String
  | executed pc i x =>
    counterText pc ++ ": " ++ i.word.text ++ " " ++ i.opcode.name ++ " [" ++
      ", ".intercalate ((x.toList.take i.opcode.parameters.length).map Word.text) ++ "]"
  | halted pc => "halt at pc " ++ counterText pc
  | faulted pc fault => "fault at pc " ++ counterText pc ++ ": " ++ fault.message
  | pairFaulted noun verb fault => pairText noun verb ++ " faulted: " ++ fault.message
  | pairFound noun verb target => pairText noun verb ++ " produces " ++ target.text

/-- The records of a log that a threshold admits, in order. -/
def shown (threshold : Threshold) (log : List Record) : List Record :=
  log.filter fun record => threshold.admits record.level

end Record

end Intcode
