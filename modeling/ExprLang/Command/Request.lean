/-!
# Requests

The arguments of the command ask for files to be checked, and for some of what is found on the way to be printed.  How
arguments are written is not known here: a parser of arguments takes them for a request, or else refuses them and says
what is to be printed instead.
-/

namespace ExprLang

/-- What is printed beside the diagnostics. -/
structure Options where
  dumpLexemes : Bool
  dumpStatements : Bool
  dumpProgram : Bool
  hideNotes : Bool
  deriving DecidableEq, Repr

/-- What arguments ask for. -/
structure Request where
  options : Options
  files : List String
  deriving DecidableEq, Repr

/-- Why arguments are not taken for a request. -/
structure Refusal where
  /-- What is to be printed. -/
  text : String
  /-- Whether the arguments make no sense, as opposed to asking for help or the version. -/
  isMistake : Bool
  deriving DecidableEq, Repr

/-- Takes arguments for a request, or refuses them. -/
abbrev ArgumentParser : Type :=
  List String → Except Refusal Request

end ExprLang
