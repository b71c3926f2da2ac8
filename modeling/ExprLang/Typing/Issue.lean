import ExprLang.Decimal.Conversion
import ExprLang.Operator.Basic
import ExprLang.Source.Diagnostic

/-!
# Problems of meaning

What can be wrong with statements that have been read, and how it is told to the reader of the source.
-/

namespace ExprLang

/-- The problems of names, types and values. -/
inductive TypingIssue where
  | alreadyDefined (name : List Char)
  | firstDefined (name : List Char)
  | notDefined (name : List Char)
  | expectedTypeName
  | notType (name : List Char)
  | unexpectedType (expected found : Ty)
  | notFunction (callee : List Char)
  | listValue
  | noValue (error : ConversionError)
  | notApplicable (mark : Mark) (type : Ty)
  | mismatch (mark : Mark) (left right : Ty)
  | targetNotVariable (mark : Mark)
  | immutable (name : List Char)
  | definedImmutable (name : List Char)
  | unusedValue
  deriving DecidableEq, Repr

namespace TypingIssue

/-- The severity of a problem. -/
def severity : TypingIssue → Severity
  | firstDefined _ | definedImmutable _ => .info
  | unusedValue => .warning
  | _ => .error

/-- The message of a problem. -/
def message : TypingIssue → String
  | alreadyDefined name => s!"`{String.ofList name}` is already defined"
  | firstDefined name => s!"`{String.ofList name}` is first defined here"
  | notDefined name => s!"`{String.ofList name}` is not defined"
  | expectedTypeName => "expected the name of a type"
  | notType name => s!"`{String.ofList name}` is not a type"
  | unexpectedType expected found => s!"expected a value of type `{expected.name}`, found `{found.name}`"
  | notFunction callee => s!"`{String.ofList callee}` is not a function"
  | listValue => "lists have no value type yet"
  | noValue error => error.message
  | notApplicable mark type => s!"`{mark.render}` cannot be applied to `{type.name}`"
  | mismatch mark left right => s!"mismatched types for `{mark.render}`: `{left.name}` and `{right.name}`"
  | targetNotVariable mark => s!"the target of `{mark.render}` must be a variable"
  | immutable name => s!"`{String.ofList name}` is immutable and cannot be modified"
  | definedImmutable name => s!"`{String.ofList name}` is defined with `let` here"
  | unusedValue => "the value of this expression is unused"

/-- The report of a problem in a span. -/
def diagnostic (issue : TypingIssue) (span : Span) : Diagnostic where
  severity := issue.severity
  span := span
  message := issue.message

end TypingIssue

end ExprLang
