import ExprLang.Command.Request
import ExprLang.Source.Excerpt
import ExprLang.Source.Loading
import ExprLang.Typing.Statement

/-!
# Checking files

Each file is read, taken apart into lexemes, read as statements and given types; then what has been reported
about it is printed.  On request the lexemes, statements and the program are printed as well.  Files do not
affect each other, and a file that cannot be read does not keep the others from being checked.
-/

namespace ExprLang

/-- What has been printed. -/
structure Printed where
  output : String
  errors : String
  deriving DecidableEq, Repr

/-- Nothing has been printed. -/
def Printed.nothing : Printed where
  output := ""
  errors := ""

/-- What has gone wrong with files. -/
structure Troubles where
  /-- A file could not be loaded. -/
  unreadable : Bool
  /-- A file has errors. -/
  failed : Bool
  deriving DecidableEq, Repr

namespace Troubles

/-- Nothing has gone wrong. -/
def none : Troubles where
  unreadable := false
  failed := false

/-- The status that tells the caller what has gone wrong. -/
def status (troubles : Troubles) : Nat :=
  if troubles.unreadable then 3
  else if troubles.failed then 1
  else 0

end Troubles

/-- A computation that prints. -/
abbrev Printer (α : Type) : Type :=
  Stage Printed α

namespace Printer

/-- Prints to the output. -/
def print (text : String) : Printer Unit :=
  Stage.change fun printed => { printed with output := printed.output ++ text }

/-- Prints beside the output. -/
def printError (text : String) : Printer Unit :=
  Stage.change fun printed => { printed with errors := printed.errors ++ text }

/-- A result of a stage of the front end. -/
def ofOutcome {α : Type} : Outcome α → Printer α
  | .done value => pure value
  | .failed => Stage.fail
  | .fault cause => Stage.raise cause

/-- Prints lexemes of a source, one on a line. -/
def dumpLexemes (source : Source) (lexemes : Lexemes) : Printer Unit :=
  lexemes.toList.forM fun lexeme => do
    print s!"{lexeme.tag.label} {quotedText (← Stage.ofExcept (lexeme.textIn source.text))}\n"

/-- Prints statements, one on a line. -/
def dumpStatements (source : Source) (statements : List Statement) : Printer Unit :=
  statements.forM fun statement => do
    print s!"{← Stage.ofExcept (statement.render source.text)}\n"

/-- Prints what has been reported about a source. -/
def printDiagnostics (options : Options) (source : Source) (diagnostics : Diagnostics) : Printer Unit :=
  diagnostics.toList.forM fun diagnostic => do
    if !(options.hideNotes && diagnostic.severity = .info) then
      printError (← Stage.ofExcept (source.render diagnostic))

/-- Prints how many problems a source has, if it has any. -/
def printSummary (source : Source) (diagnostics : Diagnostics) : Printer Unit := do
  let errors := diagnostics.errorCount
  let warnings := diagnostics.warningCount
  if 0 < errors + warnings then
    printError s!"{source.name}: {errors} error(s), {warnings} warning(s)\n"

/-- Checks a source and tells whether it has errors. -/
def checkSource (options : Options) (source : Source) : Printer Bool := do
  let (lexemes, diagnostics) := source.lex
  let lexemes ← ofOutcome lexemes
  if options.dumpLexemes then
    dumpLexemes source lexemes
  let (statements, diagnostics) := source.parse lexemes diagnostics
  let statements ← ofOutcome statements
  if options.dumpStatements then
    dumpStatements source statements
  let (program, diagnostics) := source.program statements diagnostics
  let program ← ofOutcome program
  if options.dumpProgram then
    print (← Stage.ofExcept program.render)
  printDiagnostics options source diagnostics
  printSummary source diagnostics
  return diagnostics.hasErrors

/-- Checks the source at a path, if it can be loaded, and adds to the troubles with others. -/
def checkFile (options : Options) (path : String) (contents : Except ReadFailure ByteArray) (troubles : Troubles) :
    Printer Troubles := do
  match Source.load path contents with
  | .error failure =>
    printError s!"error: {failure.message}\n"
    return { troubles with unreadable := true }
  | .ok source =>
    let hasErrors ← checkSource options source
    return { troubles with failed := troubles.failed || hasErrors }

/-- Checks files in their order, after some troubles. -/
def checkFiles (options : Options) (read : String → Except ReadFailure ByteArray) :
    List String → Troubles → Printer Troubles
  | [], troubles => pure troubles
  | path :: paths, troubles => do
    checkFiles options read paths (← checkFile options path (read path) troubles)

/-- Does what arguments ask for and gives the status of the command. -/
def command (parse : ArgumentParser) (read : String → Except ReadFailure ByteArray) (arguments : List String) :
    Printer Nat := do
  match parse arguments with
  | .error refusal =>
    if refusal.isMistake then
      printError refusal.text
      return 2
    else
      print refusal.text
      return 0
  | .ok request =>
    return (← checkFiles request.options read request.files .none).status

end Printer

/-- Runs the command on arguments, with nothing printed before. -/
def runCommand (parse : ArgumentParser) (read : String → Except ReadFailure ByteArray) (arguments : List String) :
    Outcome Nat × Printed :=
  (Printer.command parse read arguments).run .nothing

end ExprLang
