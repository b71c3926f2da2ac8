import ExprLang.Main
import ExprLang.Proofs.Decimal.Rebasing
import ExprLang.Proofs.Decimal.Spelling
import ExprLang.Proofs.Decimal.Evaluation
import ExprLang.Proofs.Decimal.FloatLiterals
import ExprLang.Proofs.Decimal.IntegerLiterals
import ExprLang.Proofs.Decimal.SameValue
import ExprLang.Proofs.Operator.Leading
import ExprLang.Proofs.Reading.Phrase
import ExprLang.Proofs.Stages
import ExprLang.Proofs.Comparison.Stages
import ExprLang.Proofs.Reading.Progress
import ExprLang.Proofs.Reading.Soundness
import ExprLang.Proofs.Reading.Completeness
import ExprLang.Proofs.Reading.Clause
import ExprLang.Proofs.Reading.Statements
import ExprLang.Proofs.Reading.Rounds
import ExprLang.Proofs.Reading.Sentences
import ExprLang.Proofs.Lexeme.Placing
import ExprLang.Proofs.Reading.Grammar
import ExprLang.Proofs.Expression.PostOrder
import ExprLang.Proofs.Reading.Safety
import ExprLang.Proofs.Typing.Safety
import ExprLang.Proofs.Typing.Programs
import ExprLang.Proofs.Expression.Subtrees
import ExprLang.Proofs.FrontEnd
import ExprLang.Proofs.Command.Checking
import ExprLang.Proofs.Command.Files
import ExprLang.Proofs.Decimal.Registers
import ExprLang.Proofs.Typing.Soundness
import ExprLang.Proofs.Source.Rendering
import ExprLang.Proofs.Lexeme.Ascii
import ExprLang.Proofs.Lexeme.Lines
import ExprLang.Proofs.Reading.Reports
import ExprLang.Proofs.Comparison.Readers
import ExprLang.Proofs.Comparison.Expressions
import ExprLang.Proofs.Comparison.Statements
import ExprLang.Proofs.Comparison.Recovery
import ExprLang.Proofs.Lexeme.Languages
import ExprLang.Proofs.Lexeme.Classification
import ExprLang.Proofs.Lexeme.Coverage
import ExprLang.Proofs.Lexeme.Relexing
import ExprLang.Proofs.Comparison.Trees
import ExprLang.Proofs.Comparison.Layout
import ExprLang.Proofs.Typing.Places
import ExprLang.Proofs.Comparison.Checkers
import ExprLang.Proofs.Expression.Listing
import ExprLang.Proofs.Typing.Outcomes
import ExprLang.Proofs.Typing.Verdicts
import ExprLang.Proofs.Typing.Scoping
import ExprLang.Proofs.Reading.Repeats
import ExprLang.Proofs.Decimal.Origins
import ExprLang.Proofs.Decimal.Encoding
import ExprLang.Proofs.Decimal.Order
import ExprLang.Proofs.Decimal.Conversions
import ExprLang.Proofs.Reading.Precedence
import ExprLang.Proofs.Courses
import ExprLang.Proofs.Reading.Passive
import ExprLang.Proofs.Reading.Independence
import ExprLang.Proofs.Reading.Failures
import ExprLang.Proofs.Reading.Iterations
import ExprLang.Proofs.Reading.Courses
import ExprLang.Proofs.Reading.Depths
import ExprLang.Proofs.Reading.Extents
import ExprLang.Proofs.Decimal.Termination
import ExprLang.Proofs.Source.Lines
import ExprLang.Proofs.Source.Underlines
import ExprLang.Proofs.Typing.Operands
import ExprLang.Proofs.Typing.Parentheses
import ExprLang.Proofs.Decimal.BinaryDigits
import ExprLang.Proofs.Source.Locations
import ExprLang.Proofs.Reading.Origins
import ExprLang.Proofs.Typing.Expectations
import ExprLang.Proofs.Expression.Printing
