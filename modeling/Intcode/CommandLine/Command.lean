import Intcode.Machine.Run
import Intcode.Memory.Text
import Intcode.Search.Basic

/-!
Commands: what the arguments of the program ask for, and what carrying it out on a program's memory
prints and logs.
-/

namespace Intcode

/-- What the program is asked to do with the file at a path. -/
inductive Command where
  /-- Run the program in the file, on an input if one is given. -/
  | run (path : String) (input : Option Word)
  /-- Search for the pair with which the program in the file leaves the target. -/
  | search (path : String) (target : Word)
deriving DecidableEq

/-- Why arguments ask for nothing. -/
inductive ArgumentError where
  /-- Their number or the first of them is wrong. -/
  | usage
  /-- The last of them is to be an integer and is none. -/
  | notInteger (argument : String)
deriving DecidableEq

namespace Command

/-- The word that an argument denotes, with no blanks around it. -/
def integer (argument : String) : Except ArgumentError Word :=
  match Word.ofText? argument.toList with
  | some w => .ok w
  | none => .error (.notInteger argument)

/-- The command that a row of arguments asks for. -/
def ofArguments : List String → Except ArgumentError Command
  | ["run", path] => .ok (.run path none)
  | ["run", path, input] => (integer input).map fun w => .run path (some w)
  | ["search", path, target] => (integer target).map fun w => .search path w
  | _ => .error .usage

/-- The path of the file that a command needs. -/
def path : Command → String
  | run path _ => path
  | search path _ => path

/-- The lines that a command prints for the program in a memory, or the message of its failure. -/
def results (memory : Memory) : Command → Except String (List String)
  | run _ input =>
    let start := { Machine.load memory with input }
    let r := start.run
    match r.result start.stateCount with
    | .error e => .error e.message
    | .ok () =>
      let output := r.machine.output.toList.map fun w => "output: " ++ w.text
      .ok (output ++ [r.machine.memory.text])
  | search _ target =>
    match ({ base := memory, target : Search }).solve with
    | .error e => .error e.message
    | .ok p =>
      .ok ["noun " ++ p.noun.text ++ " verb " ++ p.verb.text ++ " (answer " ++ p.answer.text ++ ")"]

/-- The records that a command makes on the program in a memory. -/
def log (memory : Memory) : Command → List Record
  | run _ input =>
    let start := { Machine.load memory with input }
    start.log start.run.steps
  | search _ target => ({ base := memory, target : Search }).log

end Command

end Intcode
