import ExprLang.Reading.Expression
import ExprLang.Lexeme.Lexing
import ExprLang.Statement.Basic

/-!
# Reading statements

A statement is `let`, a name, an optional type and a value; or `var`, a name and a type or a value or both; or
an expression.  It ends in a semicolon, whose absence is reported without giving the statement up.  After any
other failure everything up to the next semicolon is skipped.  Lexemes that no statement begins with are
collected into runs, and each run is reported when the next statement begins or the source ends.
-/

namespace ExprLang

namespace Reader

variable (text : List Char)

/-- Moves over a lexeme that a definition needs. -/
def expect (tag : Tag) (expectation : Expectation) : Reader Lexeme := do
  match ← eat? tag with
  | some lexeme => return lexeme
  | none =>
    let lexeme ← peek
    if lexeme.tag ≠ .unrecognized then
      report lexeme.span (.expected expectation (← found text lexeme))
    Stage.fail

/-- Moves over lexemes that are not recognised, at most `limit` of them. -/
def skipUnrecognized : (limit : Nat) → Reader Unit
  | 0 => pure ()
  | limit + 1 => do
    if ← isAt .unrecognized then
      let _ ← next
      skipUnrecognized limit

/-- Moves over the semicolon of a statement, and joins it to the span of the statement. -/
def expectTerminator (span : Span) : Reader Span := do
  let reported ← isAt .unrecognized
  skipUnrecognized (← remaining)
  match ← eat? (.mark .semi) with
  | some semicolon => return span.join semicolon.span
  | none =>
    let lexeme ← peek
    if !reported then
      report lexeme.span (.expectedTerminator (← found text lexeme))
    return span

/-- Reads an expression if a mark comes before it. -/
def readAfter (mark : Mark) : Reader (Option Expression) := do
  match ← eat? (.mark mark) with
  | some _ => return some (← readExpression text .nested)
  | none => return none

/-- Reads a statement that begins with `let`. -/
def readBinding : Reader Statement := do
  let keyword ← next
  let name ← expect text .name .bindingName
  let type ← readAfter text .colon
  let _ ← expect text (.mark .eq) .bindingValue
  let value ← readExpression text .nested
  let span ← expectTerminator text (keyword.span.join value.span)
  match type with
  | some type => return .letTyped name.span type value span
  | none => return .letPlain name.span value span

/-- Reads a statement that begins with `var`. -/
def readVariable : Reader Statement := do
  let keyword ← next
  let name ← expect text .name .variableName
  let type ← readAfter text .colon
  let value ← readAfter text .eq
  match value <|> type with
  | some last =>
    let span ← expectTerminator text (keyword.span.join last.span)
    Stage.ofExcept (Statement.ofVariable name.span type value span)
  | none =>
    let lexeme ← peek
    report lexeme.span (.expectedTypeOrValue (← found text lexeme))
    Stage.fail

/-- Reads a statement that is an expression. -/
def readDiscarded : Reader Statement := do
  let value ← readExpression text .assignment
  let _ ← expectTerminator text value.span
  return .discarded value

/-- Reads one statement. -/
def readStatement : Reader Statement := do
  match (← peek).tag with
  | .keyword .let_ => readBinding text
  | .keyword .var => readVariable text
  | _ => readDiscarded text

/-- Moves past the next semicolon, or to the end of the file, over at most `limit` lexemes; the span of the
last lexeme passed is returned. -/
def skipStatement : (limit : Nat) → Option Span → Reader (Option Span)
  | 0, last => pure last
  | limit + 1, last => do
    let lexeme ← peek
    if lexeme.tag = .endOfFile then
      return last
    let _ ← next
    if lexeme.tag = .mark .semi then
      return some lexeme.span
    skipStatement limit (some lexeme.span)

/-- Skips the rest of a statement that could not be read. -/
def synchronize : Reader Unit := do
  let first ← peek
  match ← skipStatement (← remaining) none with
  | some last => report (first.span.join last) .skipped
  | none => return ()

/-- Reports a run of lexemes that no statement begins with. -/
def reportRun : Option Span → Reader Unit
  | some run => do report run (.expectedStatement (← Stage.ofExcept (sliceOf text run)))
  | none => pure ()

/-- Reads all statements, in at most `limit` rounds.  The span `run` covers lexemes that are to be reported
before the next statement. -/
def readStatements : (limit : Nat) → (run : Option Span) → Array Statement → Reader (Array Statement)
  | 0, _, statements => pure statements
  | limit + 1, run, statements => do
    let lexeme ← peek
    if lexeme.tag = .endOfFile then
      reportRun text run
      return statements
    else if lexeme.tag = .unrecognized then
      let _ ← next
      readStatements limit run statements
    else if !lexeme.tag.startsStatement then
      let _ ← next
      readStatements limit (some (match run with | some run => run.join lexeme.span | none => lexeme.span))
        statements
    else
      reportRun text run
      match ← Stage.attempt (readStatement text) with
      | some statement => readStatements limit none (statements.push statement)
      | none =>
        synchronize
        readStatements limit none statements

/-- Reads all statements up to the end of the file. -/
def readAll : Reader (List Statement) := do
  return (← readStatements text (← remaining) none #[]).toList

end Reader

/-- Runs a reader on lexemes, after the reports that there are. -/
def Reader.runOn {α : Type} (reader : Reader α) (lexemes : Lexemes) (diagnostics : Diagnostics) :
    Outcome α × Diagnostics :=
  match lexemes.cursor with
  | .ok cursor =>
    let (outcome, state) := reader.run (.start cursor diagnostics)
    (outcome, state.diagnostics)
  | .error cause => (.fault cause, diagnostics)

/-- The statements that lexemes of a source make, with the reports about them after those that there are. -/
def Source.parse (source : Source) (lexemes : Lexemes) (diagnostics : Diagnostics) :
    Outcome (List Statement) × Diagnostics :=
  Reader.runOn (Reader.readAll source.text) lexemes diagnostics

/-- The statements of a source, with all reports about its lexemes and statements. -/
def Source.statements (source : Source) : Outcome (List Statement) × Diagnostics :=
  match source.lex with
  | (.done lexemes, diagnostics) => source.parse lexemes diagnostics
  | (.failed, diagnostics) => (.failed, diagnostics)
  | (.fault cause, diagnostics) => (.fault cause, diagnostics)

end ExprLang
