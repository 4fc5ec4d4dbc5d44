import Intcode.Machine.Session
import Intcode.Memory.Text

/-!
Programs as texts: the machine at the start of the program that a text holds, and the machine in which that
program halts when it is run without an input. A text with a field that is no word holds no program.
-/

namespace Intcode

/-- Why a text does not lead to a halt. -/
inductive ProgramError where
  /-- The text holds no program. -/
  | text (e : ParseError)
  /-- The program does not halt. -/
  | run (e : RunError)
deriving DecidableEq

namespace Machine

/-- The machine at the start of the program in a text. -/
def ofText (text : String) : Except ParseError Machine :=
  match Memory.parse text with
  | .error e => .error e
  | .ok memory => .ok (load memory)

/-- The machine in which the program in a text halts. -/
def runText (text : String) : Except ProgramError Machine :=
  match ofText text with
  | .error e => .error (.text e)
  | .ok start =>
    let reply := start.reply .run
    match reply.result with
    | .error e => .error (.run e)
    | .ok () => .ok reply.machine

end Machine

end Intcode
