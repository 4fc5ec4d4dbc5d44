import Intcode.CommandLine.Command
import Intcode.CommandLine.Directory

/-!
The whole of what the program does with its arguments: the lines that it prints, those of the log
first, and how it ends. Arguments are read before the file is, and the file before its text.
-/

namespace Intcode

/-- How the program ends. -/
inductive Ending where
  | success
  /-- The messages of the error, the outermost first. -/
  | failure (causes : List String)
  /-- The arguments ask for nothing. -/
  | usage
deriving DecidableEq

namespace Ending

/-- The number that the program returns to the system. -/
def exitCode : Ending → Nat
  | success => 0
  | failure _ => 1
  | usage => 2

/-- How the program is used. -/
def usageLine : String := "usage: intcode run <program> [input] | intcode search <program> <target>"

/-- What a user is told of an ending besides what is printed: the messages of the error, or how the program is
used. -/
def messages : Ending → List String
  | success => []
  | failure causes => causes
  | usage => [usageLine]

end Ending

/-- What the program prints, line by line, and how it ends. -/
structure Report where
  lines : List String
  ending : Ending
deriving DecidableEq

/-- The line that a record has in the printed log: its severity in five columns, its target and its
text. -/
def Record.line (r : Record) : String :=
  let level := r.level.name
  level ++ String.ofList (List.replicate (5 - level.length) ' ') ++ " [" ++ r.target ++ "] " ++
    r.message

namespace Command

/-- The lines of the log that a threshold admits. No record is more severe than `info`, so a threshold
that does not admit that admits none. -/
def logLines (threshold : Threshold) (memory : Memory) (command : Command) : List String :=
  if threshold.admits .info then (Record.shown threshold (command.log memory)).map Record.line
  else []

/-- The report of a command on a file with the given bytes. -/
def report (threshold : Threshold) (command : Command) :
    Except ReadError ByteArray → Report
  | .error e => ⟨[], .failure ["reading " ++ command.path, e.message]⟩
  | .ok bytes =>
    match String.fromUTF8? bytes with
    | none => ⟨[], .failure ["reading " ++ command.path, "stream did not contain valid UTF-8"]⟩
    | some text =>
      match Memory.parse text with
      | .error e => ⟨[], .failure [e.message]⟩
      | .ok memory =>
        let log := command.logLines threshold memory
        match command.results memory with
        | .error message => ⟨log, .failure [message]⟩
        | .ok lines => ⟨log ++ lines, .success⟩

end Command

namespace Report

/-- The report of the program on a row of arguments. The setting names the least severity of the records
that are printed. -/
def ofArguments (arguments : List String) (files : FileSystem) (setting : Option String) : Report :=
  match Command.ofArguments arguments with
  | .error .usage => ⟨[], .usage⟩
  | .error (.notInteger argument) =>
    ⟨[], .failure ["expected an integer, got " ++ Text.quoted argument]⟩
  | .ok command => command.report (.ofSetting setting) (files command.path)

end Report

end Intcode
