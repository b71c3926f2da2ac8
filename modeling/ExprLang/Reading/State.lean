import ExprLang.Lexeme.Cursor
import ExprLang.Expression.Basic
import ExprLang.Reading.Issue
import ExprLang.Stage

/-!
# Readers

A reader moves a cursor over lexemes, reports problems and builds up an expression.  Beside the nodes of the
expression it keeps the depths of the subtrees that have not become operands yet, the last one first, and it
counts how many operands are being read one inside the other.
-/

namespace ExprLang

/-- The greatest depth of an expression, and of operands read one inside the other. -/
def maxDepth : Nat := 256

/-- What a reader works on. -/
structure ReaderState where
  cursor : Cursor
  diagnostics : Diagnostics
  /-- The expression being built. -/
  nodes : Array Node
  /-- The depths of the finished subtrees that are no operands yet, the last one first. -/
  depths : List Nat
  /-- The number of operands being read one inside the other. -/
  nesting : Nat

/-- The state of a reader that has not built anything. -/
def ReaderState.start (cursor : Cursor) (diagnostics : Diagnostics) : ReaderState where
  cursor := cursor
  diagnostics := diagnostics
  nodes := #[]
  depths := []
  nesting := 0

/-- A computation that reads lexemes. -/
abbrev Reader (α : Type) : Type :=
  Stage ReaderState α

/-- Takes `count` depths off a stack; what is left of it comes with the greatest of them. -/
def takeDepths : (count greatest : Nat) → List Nat → Option (Nat × List Nat)
  | 0, greatest, depths => some (greatest, depths)
  | _ + 1, _, [] => none
  | count + 1, greatest, depth :: depths => takeDepths count (max greatest depth) depths

namespace Reader

/-! ### Lexemes -/

/-- The next lexeme. -/
def peek : Reader Lexeme :=
  Stage.observe (·.cursor.peek)

/-- The number of lexemes from the next one on. -/
def remaining : Reader Nat :=
  Stage.observe (·.cursor.remaining)

/-- Whether the next lexeme has a tag. -/
def isAt (tag : Tag) : Reader Bool :=
  Stage.observe (·.cursor.isAt tag)

/-- Moves over the next lexeme. -/
def next : Reader Lexeme :=
  fun state => (.done state.cursor.peek, { state with cursor := state.cursor.advance })

/-- Moves over the next lexeme if it has a tag. -/
def eat? (tag : Tag) : Reader (Option Lexeme) := do
  if ← isAt tag then
    return some (← next)
  else
    return none

/-! ### Reports -/

/-- Reports a problem in a span. -/
def report (span : Span) (issue : StatementIssue) : Reader Unit :=
  Stage.change fun state => { state with diagnostics := state.diagnostics.report (issue.diagnostic span) }

/-- The characters of a lexeme. -/
def spell (text : List Char) (lexeme : Lexeme) : Reader (List Char) :=
  Stage.ofExcept (lexeme.textIn text)

/-- How a lexeme is named where another was expected. -/
def found (text : List Char) (lexeme : Lexeme) : Reader Found := do
  if lexeme.tag = .endOfFile then
    return .endOfFile
  else
    return .lexeme (← spell text lexeme)

/-- Reports that the expression nests too deeply, and fails. -/
def tooDeep {α : Type} : Reader α := do
  report (← peek).span .nestsTooDeeply
  Stage.fail

/-! ### Nodes -/

/-- The span of the last subtree. -/
def lastSpan : Reader Span := do
  match ← Stage.observe (·.nodes.back?) with
  | some node => return node.span
  | none => Stage.raise .noOperand

/-- Adds a node whose operands are the last subtrees.  Fails if the tree gets too deep. -/
def pushNode (operator : Operator) (arity : Nat) (span : Span) : Reader Unit := do
  match takeDepths arity 0 (← Stage.observe (·.depths)) with
  | none => Stage.raise .underflow
  | some (deepest, depths) =>
    Stage.change fun state => { state with depths }
    if maxDepth < deepest + 1 then tooDeep
    else Stage.change fun state => { state with
      depths := (deepest + 1) :: state.depths
      nodes := state.nodes.push { operator, arity, span } }

end Reader

end ExprLang
