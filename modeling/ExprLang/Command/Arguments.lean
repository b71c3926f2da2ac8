import ExprLang.Command.Request

/-!
# Arguments

The parser of arguments that the command runs with.  Arguments are files and flags.  A flag stands anywhere before
`--`, in full and at most once; `-` and whatever follows `--` are files.  Arguments are read from left to right, and
the first one that is wrong or asks for help decides.
-/

namespace ExprLang

namespace Options

/-- No flag is set. -/
def plain : Options where
  dumpLexemes := false
  dumpStatements := false
  dumpProgram := false
  hideNotes := false

/-- The options with one more flag, if the flag exists and has not been set. -/
def set? (options : Options) (flag : String) : Option Options :=
  if flag = "--dump-lex" && !options.dumpLexemes then some { options with dumpLexemes := true }
  else if flag = "--dump-parse" && !options.dumpStatements then some { options with dumpStatements := true }
  else if flag = "--dump-eval" && !options.dumpProgram then some { options with dumpProgram := true }
  else if flag = "--no-notes" && !options.hideNotes then some { options with hideNotes := true }
  else none

end Options

namespace Refusal

/-- Help, or the version. -/
def information : Refusal where
  text := "Checks files: FILE... [--dump-lex] [--dump-parse] [--dump-eval] [--no-notes]\n"
  isMistake := false

/-- Arguments that make no sense. -/
def misuse : Refusal where
  text := "Usage: FILE... [--dump-lex] [--dump-parse] [--dump-eval] [--no-notes]\n"
  isMistake := true

end Refusal

/-- Whether an argument asks for help or the version. -/
def asksForInformation (argument : String) : Bool :=
  argument = "--help" || argument = "--version" || argument.startsWith "-h" || argument.startsWith "-V"

/-- Whether an argument is a file, before `--`. -/
def isFile (argument : String) : Bool :=
  argument = "-" || !argument.startsWith "-"

namespace Request

/-- A request for the given files, unless there are none or one has no name. -/
def ofFiles (options : Options) (files : List String) : Except Refusal Request :=
  if files.isEmpty || files.contains "" then .error .misuse else .ok { options, files }

/-- What further arguments ask for, after some options and files. -/
def ofArguments (options : Options) (files : List String) : List String → Except Refusal Request
  | [] => ofFiles options files
  | argument :: rest =>
    if argument = "--" then ofFiles options (files ++ rest)
    else if argument = "" then .error .misuse
    else if isFile argument then ofArguments options (files ++ [argument]) rest
    else if asksForInformation argument then .error .information
    else match options.set? argument with
      | some options => ofArguments options files rest
      | none => .error .misuse

end Request

/-- What the arguments of the command ask for. -/
def parseArguments : ArgumentParser :=
  Request.ofArguments .plain []

end ExprLang
