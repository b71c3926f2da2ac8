import ExprLang.Proofs.Courses
import ExprLang.Reading.Statement

/-!
# Courses of readers

The readers that build expressions, and those that call them, as courses: what they pass is told down to the readers
that only move the cursor, report or add one node.  The stage of each course is the reader itself
(`Course.stage_readAll`).
-/

namespace ExprLang

namespace Course

open Reader (peek next isAt eat? remaining lastSpan pushNode)

variable (text : List Char)

/-! ### Expressions -/

section

variable (operand : Level → ReadingContext → Course ReaderState Unit)

/-- The course of reading operands up to one that no comma follows. -/
def readOperands (opener : Lexeme) : (limit count : Nat) → Course ReaderState Nat
  | 0, count => pure count
  | limit + 1, count => do
    operand .nested (.opener opener)
    match ← step (eat? (.mark .comma)) with
    | some _ => readOperands opener limit (count + 1)
    | none => return count + 1

/-- The course of reading an operator from its leading lexeme on. -/
def build (op : Operator) : Course ReaderState Unit := do
  match op.shape with
  | .leaf _ =>
    let lexeme ← step next
    step (pushNode op 0 lexeme.span)
  | .before _ =>
    let lexeme ← step next
    operand op.level (.operator lexeme)
    step (pushNode op 1 (lexeme.span.join (← step lastSpan)))
  | .after _ =>
    let lexeme ← step next
    step (pushNode op 1 ((← step lastSpan).join lexeme.span))
  | .around _ closer =>
    let opener ← step next
    operand .nested (.opener opener)
    let closing ← step (Reader.expectCloser text closer opener)
    step (pushNode op 1 (opener.span.join closing.span))
  | .between _ =>
    let left ← step lastSpan
    let lexeme ← step next
    match op.level.tighter? with
    | none => step (Stage.raise .noTighterLevel)
    | some level =>
      operand level (.operator lexeme)
      step (pushNode op 2 (left.join (← step lastSpan)))
  | .sequence _ closer =>
    let opener ← step next
    let count ← if ← step (isAt (.mark closer)) then pure 0 else readOperands operand opener (← step remaining) 0
    let closing ← step (Reader.expectCloser text closer opener)
    step (pushNode op count (opener.span.join closing.span))
  | .application _ closer =>
    let left ← step lastSpan
    let opener ← step next
    let count ← readOperands operand opener (← step remaining) 0
    let closing ← step (Reader.expectCloser text closer opener)
    step (pushNode op (1 + count) (left.join closing.span))

/-- The course of reading the operators that go on with what has been read. -/
def extend (min : Level) : (limit : Nat) → Course ReaderState Unit
  | 0 => pure ()
  | limit + 1 => do
    match Operator.leading? false min (← step peek).tag with
    | some op =>
      build text operand op
      extend min limit
    | none => return ()

/-- The course of reading an operator that begins an expression, and those that go on with it. -/
def scan (min : Level) (context : ReadingContext) : Course ReaderState Unit := do
  match Operator.leading? true min (← step peek).tag with
  | some op =>
    build text operand op
    extend text operand min (← step remaining)
  | none =>
    step (Reader.reportMissing text context)
    step Stage.fail

end

/-- The course of reading one operand. -/
def readOperand : (room : Nat) → Level → ReadingContext → Course ReaderState Unit
  | 0, _, _ => step Reader.tooDeep
  | room + 1, min, context =>
    around (fun _ => ()) (fun state => { state with nesting := state.nesting + 1 })
      (fun _ state => { state with nesting := state.nesting - 1 })
      (scan text (readOperand room) min context)

/-- The course of reading one expression. -/
def readExpression (min : Level) : Course ReaderState Expression :=
  around (fun state => (state.nodes, state.depths))
    (fun state => { state with nodes := #[], depths := [] })
    (fun (nodes, depths) state => { state with nodes, depths })
    (do
      readOperand text (maxDepth - (← step (Stage.observe (·.nesting)))) min .start
      step (Stage.observe fun state => ⟨state.nodes⟩))

/-! ### Statements -/

/-- The course of reading an expression if a mark comes before it. -/
def readAfter (mark : Mark) : Course ReaderState (Option Expression) := do
  match ← step (eat? (.mark mark)) with
  | some _ => return some (← readExpression text .nested)
  | none => return none

/-- The course of reading a statement that begins with `let`. -/
def readBinding : Course ReaderState Statement := do
  let keyword ← step next
  let name ← step (Reader.expect text .name .bindingName)
  let type ← readAfter text .colon
  let _ ← step (Reader.expect text (.mark .eq) .bindingValue)
  let value ← readExpression text .nested
  let span ← step (Reader.expectTerminator text (keyword.span.join value.span))
  match type with
  | some type => return .letTyped name.span type value span
  | none => return .letPlain name.span value span

/-- The course of reading a statement that begins with `var`. -/
def readVariable : Course ReaderState Statement := do
  let keyword ← step next
  let name ← step (Reader.expect text .name .variableName)
  let type ← readAfter text .colon
  let value ← readAfter text .eq
  match value <|> type with
  | some last =>
    let span ← step (Reader.expectTerminator text (keyword.span.join last.span))
    step (Stage.ofExcept (Statement.ofVariable name.span type value span))
  | none =>
    let lexeme ← step peek
    step (Reader.report lexeme.span (.expectedTypeOrValue (← step (Reader.found text lexeme))))
    step Stage.fail

/-- The course of reading a statement that is an expression. -/
def readDiscarded : Course ReaderState Statement := do
  let value ← readExpression text .assignment
  let _ ← step (Reader.expectTerminator text value.span)
  return .discarded value

/-- The course of reading one statement. -/
def readStatement : Course ReaderState Statement := do
  match (← step peek).tag with
  | .keyword .let_ => readBinding text
  | .keyword .var => readVariable text
  | _ => readDiscarded text

/-- The course of reading all statements in at most `limit` rounds. -/
def readStatements : (limit : Nat) → (run : Option Span) → Array Statement → Course ReaderState (Array Statement)
  | 0, _, statements => pure statements
  | limit + 1, run, statements => do
    let lexeme ← step peek
    if lexeme.tag = .endOfFile then
      step (Reader.reportRun text run)
      return statements
    else if lexeme.tag = .unrecognized then
      let _ ← step next
      readStatements limit run statements
    else if !lexeme.tag.startsStatement then
      let _ ← step next
      readStatements limit (some (match run with | some run => run.join lexeme.span | none => lexeme.span))
        statements
    else
      step (Reader.reportRun text run)
      match ← attempt (readStatement text) with
      | some statement => readStatements limit none (statements.push statement)
      | none =>
        step Reader.synchronize
        readStatements limit none statements

/-- The course of reading all statements up to the end of the file. -/
def readAll : Course ReaderState (List Statement) := do
  return (← readStatements text (← step remaining) none #[]).toList

/-! ### Stages -/

variable {text} {operand : Level → ReadingContext → Course ReaderState Unit}

private theorem stage_readOperands (opener : Lexeme) (limit count : Nat) :
    (readOperands operand opener limit count).stage
      = Reader.readOperands (fun level context => (operand level context).stage) opener limit count := by
  induction limit generalizing count with
  | zero => rfl
  | succ limit ih =>
    refine stage_bind_eq rfl fun _ => stage_bind_eq rfl fun comma => ?_
    cases comma with
    | some _ => exact ih (count + 1)
    | none => rfl

private theorem stage_build (op : Operator) : (build text operand op).stage
    = Reader.build text (fun level context => (operand level context).stage) op := by
  rw [build, Reader.build]
  cases op.shape with
  | leaf => rfl
  | before => rfl
  | after => rfl
  | around => rfl
  | between =>
    refine stage_bind_eq rfl fun left => stage_bind_eq rfl fun lexeme => ?_
    cases op.level.tighter? <;> rfl
  | sequence opener closer =>
    refine stage_bind_eq rfl fun opener => stage_bind_eq rfl fun closed => ?_
    cases closed with
    | true => rfl
    | false => exact stage_bind_eq rfl fun limit => stage_bind_eq (stage_readOperands opener limit 0) fun _ => rfl
  | application opener closer =>
    refine stage_bind_eq rfl fun left => stage_bind_eq rfl fun opener => stage_bind_eq rfl fun limit => ?_
    exact stage_bind_eq (stage_readOperands opener limit 0) fun _ => rfl

private theorem stage_extend (min : Level) (limit : Nat) : (extend text operand min limit).stage
    = Reader.extend text (fun level context => (operand level context).stage) min limit := by
  induction limit with
  | zero => rfl
  | succ limit ih =>
    refine stage_bind_eq rfl fun lexeme => ?_
    cases Operator.leading? false min lexeme.tag with
    | some op => exact stage_bind_eq (stage_build op) fun _ => ih
    | none => rfl

private theorem stage_scan (min : Level) (context : ReadingContext) : (scan text operand min context).stage
    = Reader.scan text (fun level context => (operand level context).stage) min context := by
  refine stage_bind_eq rfl fun lexeme => ?_
  cases Operator.leading? true min lexeme.tag with
  | some op => exact stage_bind_eq (stage_build op) fun _ => stage_bind_eq rfl fun limit => stage_extend min limit
  | none => rfl

private theorem stage_readOperand (room : Nat) (min : Level) (context : ReadingContext) :
    (readOperand text room min context).stage = Reader.readOperand text room min context := by
  induction room generalizing min context with
  | zero => rfl
  | succ room ih =>
    have hoperand : (fun level context => (readOperand text room level context).stage) = Reader.readOperand text room :=
      funext fun level => funext fun context => ih level context
    have hscan : (scan text (readOperand text room) min context).stage
        = Reader.scan text (Reader.readOperand text room) min context := by
      rw [stage_scan, hoperand]
    exact stage_around_eq hscan

theorem stage_readExpression (min : Level) :
    (readExpression text min).stage = Reader.readExpression text min :=
  stage_around_eq (stage_bind_eq rfl fun _ => stage_bind_eq (stage_readOperand _ min .start) fun _ => rfl)

private theorem stage_readAfter (mark : Mark) : (readAfter text mark).stage = Reader.readAfter text mark := by
  refine stage_bind_eq rfl fun sign => ?_
  cases sign with
  | some _ => exact stage_bind_eq (stage_readExpression .nested) fun _ => rfl
  | none => rfl

private theorem stage_readBinding : (readBinding text).stage = Reader.readBinding text := by
  refine stage_bind_eq rfl fun keyword => stage_bind_eq rfl fun name => stage_bind_eq (stage_readAfter .colon)
    fun type => stage_bind_eq rfl fun _ => stage_bind_eq (stage_readExpression .nested) fun value =>
      stage_bind_eq rfl fun span => ?_
  cases type <;> rfl

private theorem stage_readVariable : (readVariable text).stage = Reader.readVariable text := by
  refine stage_bind_eq rfl fun keyword => stage_bind_eq rfl fun name => stage_bind_eq (stage_readAfter .colon)
    fun type => stage_bind_eq (stage_readAfter .eq) fun value => ?_
  cases value <|> type <;> rfl

private theorem stage_readDiscarded : (readDiscarded text).stage = Reader.readDiscarded text :=
  stage_bind_eq (stage_readExpression .assignment) fun _ => rfl

theorem stage_readStatement : (readStatement text).stage = Reader.readStatement text := by
  refine stage_bind_eq rfl fun lexeme => ?_
  generalize lexeme.tag = tag
  cases tag with
  | keyword keyword =>
    cases keyword with
    | let_ => exact stage_readBinding
    | var => exact stage_readVariable
  | _ => exact stage_readDiscarded

private theorem stage_readStatements (limit : Nat) (run : Option Span) (statements : Array Statement) :
    (readStatements text limit run statements).stage = Reader.readStatements text limit run statements := by
  induction limit generalizing run statements with
  | zero => rfl
  | succ limit ih =>
    refine stage_bind_eq rfl fun lexeme => ?_
    split
    · rfl
    split
    · exact stage_bind_eq rfl fun _ => ih _ _
    split
    · exact stage_bind_eq rfl fun _ => ih _ _
    · refine stage_bind_eq rfl fun _ => stage_bind_eq (stage_attempt_eq stage_readStatement) fun statement => ?_
      cases statement with
      | some statement => exact ih _ _
      | none => exact stage_bind_eq rfl fun _ => ih _ _

/-- The course of reading all statements is one of the reader itself. -/
theorem stage_readAll : (readAll text).stage = Reader.readAll text :=
  stage_bind_eq rfl fun limit => stage_bind_eq (stage_readStatements limit none #[]) fun _ => rfl

end Course

end ExprLang
