import ExprLang.Lexeme.Tag
import ExprLang.Source.Diagnostic

/-!
# Problems of statements

What can be wrong with the lexemes of a statement, and how it is told to the reader of the source.
-/

namespace ExprLang

/-- What stands where something else was expected. -/
inductive Found where
  | endOfFile
  | lexeme (text : List Char)
  deriving DecidableEq, Repr

/-- What stands in the place, in words. -/
def Found.describe : Found → String
  | endOfFile => Tag.endOfFile.describe
  | lexeme text => s!"`{String.ofList text}`"

/-- What a definition needs. -/
inductive Expectation where
  | bindingName
  | bindingValue
  | variableName
  deriving DecidableEq, Repr

/-- What is expected, in words. -/
def Expectation.describe : Expectation → String
  | bindingName => "a name for the binding"
  | bindingValue => "`=` and a value for the binding"
  | variableName => "a name for the variable"

/-- The problems of statements. -/
inductive StatementIssue where
  | expected (expectation : Expectation) (found : Found)
  | expectedTypeOrValue (found : Found)
  | expectedCloser (closer : Mark) (found : Found)
  | expectedTerminator (found : Found)
  | expectedExpression (found : Found)
  | expectedOperand (operator : List Char) (found : Found)
  | expectedStatement (run : List Char)
  | nestsTooDeeply
  /-- Points to the opener of a missing closer. -/
  | opener (text : List Char)
  /-- Points to the opener around a missing expression. -/
  | inside (text : List Char)
  | skipped
  deriving DecidableEq, Repr

namespace StatementIssue

/-- The severity of a problem. -/
def severity : StatementIssue → Severity
  | opener _ | inside _ | skipped => .info
  | _ => .error

/-- The message of a problem. -/
def message : StatementIssue → String
  | expected expectation found => s!"expected {expectation.describe} instead of {found.describe}"
  | expectedTypeOrValue found => s!"expected a type or an initial value instead of {found.describe}"
  | expectedCloser closer found => s!"expected `{closer.render}` instead of {found.describe}"
  | expectedTerminator found => s!"expected `;` after the statement instead of {found.describe}"
  | expectedExpression found => s!"expected an expression instead of {found.describe}"
  | expectedOperand operator found =>
    s!"expected an operand after `{String.ofList operator}` instead of {found.describe}"
  | expectedStatement run => s!"expected a statement instead of `{String.ofList run}`"
  | nestsTooDeeply => "the expression nests too deeply"
  | opener text => s!"to match this `{String.ofList text}`"
  | inside text => s!"inside this `{String.ofList text}`"
  | skipped => "skipped to the end of the statement"

/-- The report of a problem in a span. -/
def diagnostic (issue : StatementIssue) (span : Span) : Diagnostic where
  severity := issue.severity
  span := span
  message := issue.message

end StatementIssue

end ExprLang
