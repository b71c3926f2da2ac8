import ExprLang.Command.Arguments
import ExprLang.Command.Check

/-!
# The command

Reads the files that the arguments name, checks them and prints the result.
-/

namespace ExprLang

/-- The bytes of a file of the system. -/
def readSystemFile (path : String) : IO (Except ReadFailure ByteArray) := do
  try
    return .ok (← IO.FS.readBinFile path)
  catch
    | .noFileOrDirectory .. => return .error .missing
    | error => return .error (.other (toString error))

/-- The files that arguments ask to check, each with its bytes. -/
def readRequested (arguments : List String) : IO (List (String × Except ReadFailure ByteArray)) :=
  match parseArguments arguments with
  | .ok request => request.files.mapM fun file => do return (file, ← readSystemFile file)
  | .error _ => return []

/-- Prints what a run has printed and returns the status of the command. -/
def respond : Outcome Nat × Printed → IO UInt32
  | (outcome, printed) => do
    IO.print printed.output
    IO.eprint printed.errors
    match outcome with
    | .done status => return .ofNat status
    | .failed => return 101
    | .fault cause => do
      IO.eprintln (cause.message.getD "an internal rule was broken")
      return 101

end ExprLang

/-- Checks the files named by the arguments. -/
def main (arguments : List String) : IO UInt32 := do
  let files ← ExprLang.readRequested arguments
  let read := fun name => (files.lookup name).getD (.error .missing)
  ExprLang.respond (ExprLang.runCommand ExprLang.parseArguments read arguments)
