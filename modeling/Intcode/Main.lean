import Intcode.CommandLine.Report

/-!
The program: it reads the file that its arguments name and the setting of the log, prints the report,
and returns its exit code.
-/

namespace Intcode

/-- The reason for which the system does not read a file. -/
def readErrorOf (e : IO.Error) : ReadError :=
  match e with
  | .noFileOrDirectory _ code details | .inappropriateType _ code details
  | .permissionDenied _ code details | .invalidArgument _ code details
  | .resourceExhausted _ code details | .noSuchThing _ code details
  | .interrupted _ code details | .otherError code details =>
    .other (details ++ " (os error " ++ Text.Decimal.text code.toNat ++ ")")
  | e => .other e.toString

/-- The bytes of the file at a path. -/
def readBytes (path : String) : IO (Except ReadError ByteArray) := do
  try
    let bytes ← IO.FS.readBinFile path
    return .ok bytes
  catch e => return .error (readErrorOf e)

end Intcode

open Intcode in
/-- Carries out what the arguments ask for. -/
def main (arguments : List String) : IO UInt32 := do
  let setting ← IO.getEnv "RUST_LOG"
  let files : FileSystem ← match Command.ofArguments arguments with
    | .error _ => pure fun _ => .error .missing
    | .ok command =>
      let bytes ← readBytes command.path
      pure fun _ => bytes
  let report := Report.ofArguments arguments files setting
  for line in report.lines do
    IO.println line
  let margin ← match report.ending with
    | .failure _ => do
      IO.eprintln "Error:"
      pure "   "
    | .success | .usage => pure ""
  for message in report.ending.messages do
    IO.eprintln (margin ++ message)
  return report.ending.exitCode.toUInt32
