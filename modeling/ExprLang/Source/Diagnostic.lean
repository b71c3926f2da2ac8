import ExprLang.Source.Basic

/-!
# Diagnostics

A diagnostic tells the reader of a source about one place in it.  Diagnostics are kept in the order in which
they are reported; how many there are of each severity is read off that list.
-/

namespace ExprLang

/-- How serious a diagnostic is. -/
inductive Severity where
  | error
  | warning
  | info
  deriving DecidableEq, Repr

/-- A severity as it is printed. -/
def Severity.render : Severity → String
  | error => "error"
  | warning => "warning"
  | info => "info"

/-- A message about a place in a source. -/
structure Diagnostic where
  severity : Severity
  span : Span
  message : String
  deriving DecidableEq, Repr

/-- Diagnostics in the order of their reports. -/
structure Diagnostics where
  entries : Array Diagnostic
  deriving DecidableEq, Repr

namespace Diagnostics

/-- No diagnostics. -/
def none : Diagnostics := ⟨#[]⟩

/-- Adds a diagnostic at the end. -/
def report (diagnostics : Diagnostics) (diagnostic : Diagnostic) : Diagnostics :=
  ⟨diagnostics.entries.push diagnostic⟩

/-- The diagnostics in the order of their reports. -/
def toList (diagnostics : Diagnostics) : List Diagnostic :=
  diagnostics.entries.toList

/-- The diagnostics of one severity, in the order of their reports. -/
def ofSeverity (diagnostics : Diagnostics) (severity : Severity) : List Diagnostic :=
  diagnostics.toList.filter (·.severity = severity)

/-- The number of errors. -/
def errorCount (diagnostics : Diagnostics) : Nat :=
  (diagnostics.ofSeverity .error).length

/-- The number of warnings. -/
def warningCount (diagnostics : Diagnostics) : Nat :=
  (diagnostics.ofSeverity .warning).length

/-- Whether an error has been reported. -/
def hasErrors (diagnostics : Diagnostics) : Bool :=
  0 < diagnostics.errorCount

@[simp] theorem toList_report (diagnostics : Diagnostics) (diagnostic : Diagnostic) :
    (diagnostics.report diagnostic).toList = diagnostics.toList ++ [diagnostic] := by
  simp [report, toList]

end Diagnostics

end ExprLang
