import ExprLang.Reading.State

/-!
# Reading expressions

An expression is read by looking up its operators one after the other.  The first operator begins the
expression; every further one takes what has been read so far as its first operand.  The operators that may
come next are those of a least level and all tighter ones.  An operand on the right of an operator of that
kind is read by the same rule, with a least level that makes chains lean to the left and the marks before an
operand lean to the right.
-/

namespace ExprLang

/-- What a missing expression is reported against. -/
inductive ReadingContext where
  | start
  | operator (lexeme : Lexeme)
  | opener (lexeme : Lexeme)
  deriving DecidableEq, Repr

namespace Reader

variable (text : List Char)

/-- Reports that an expression is missing.  What is not recognised has been reported already. -/
def reportMissing (context : ReadingContext) : Reader Unit := do
  let lexeme ← peek
  if lexeme.tag = .unrecognized then
    return ()
  let found ← found text lexeme
  match context with
  | .start => report lexeme.span (.expectedExpression found)
  | .operator operator => do report lexeme.span (.expectedOperand (← spell text operator) found)
  | .opener opener => do
    report lexeme.span (.expectedExpression found)
    report opener.span (.inside (← spell text opener))

/-- Moves over the closer of an opener. -/
def expectCloser (closer : Mark) (opener : Lexeme) : Reader Lexeme := do
  match ← eat? (.mark closer) with
  | some lexeme => return lexeme
  | none =>
    let lexeme ← peek
    report lexeme.span (.expectedCloser closer (← found text lexeme))
    report opener.span (.opener (← spell text opener))
    Stage.fail

/-! In the following, `operand` reads one operand. -/

variable (operand : Level → ReadingContext → Reader Unit)

/-- Reads operands up to one that no comma follows, and counts them.  There are no more than `limit`. -/
def readOperands (opener : Lexeme) : (limit count : Nat) → Reader Nat
  | 0, count => pure count
  | limit + 1, count => do
    operand .nested (.opener opener)
    match ← eat? (.mark .comma) with
    | some _ => readOperands opener limit (count + 1)
    | none => return count + 1

/-- Reads the rest of an operator whose leading lexeme is next, and adds its node. -/
def build (op : Operator) : Reader Unit := do
  match op.shape with
  | .leaf _ =>
    let lexeme ← next
    pushNode op 0 lexeme.span
  | .before _ =>
    let lexeme ← next
    operand op.level (.operator lexeme)
    pushNode op 1 (lexeme.span.join (← lastSpan))
  | .after _ =>
    let lexeme ← next
    pushNode op 1 ((← lastSpan).join lexeme.span)
  | .around _ closer =>
    let opener ← next
    operand .nested (.opener opener)
    let closing ← expectCloser text closer opener
    pushNode op 1 (opener.span.join closing.span)
  | .between _ =>
    let left ← lastSpan
    let lexeme ← next
    match op.level.tighter? with
    | none => Stage.raise .noTighterLevel
    | some level =>
      operand level (.operator lexeme)
      pushNode op 2 (left.join (← lastSpan))
  | .sequence _ closer =>
    let opener ← next
    let count ← if ← isAt (.mark closer) then pure 0 else readOperands operand opener (← remaining) 0
    let closing ← expectCloser text closer opener
    pushNode op count (opener.span.join closing.span)
  | .application _ closer =>
    let left ← lastSpan
    let opener ← next
    let count ← readOperands operand opener (← remaining) 0
    let closing ← expectCloser text closer opener
    pushNode op (1 + count) (left.join closing.span)

/-- Reads the operators that go on with what has been read.  There are no more than `limit`. -/
def extend (min : Level) : (limit : Nat) → Reader Unit
  | 0 => pure ()
  | limit + 1 => do
    match Operator.leading? false min (← peek).tag with
    | some op =>
      build text operand op
      extend min limit
    | none => return ()

/-- Reads an operator that begins an expression, and those that go on with it. -/
def scan (min : Level) (context : ReadingContext) : Reader Unit := do
  match Operator.leading? true min (← peek).tag with
  | some op =>
    build text operand op
    extend text operand min (← remaining)
  | none =>
    reportMissing text context
    Stage.fail

omit operand

/-- Reads one operand, with `room` for operands inside it. -/
def readOperand : (room : Nat) → Level → ReadingContext → Reader Unit
  | 0, _, _ => tooDeep
  | room + 1, min, context =>
    Stage.around (fun _ => ()) (fun state => { state with nesting := state.nesting + 1 })
      (fun _ state => { state with nesting := state.nesting - 1 })
      (scan text (readOperand room) min context)

/-- Reads one expression whose root has the level `min` or a tighter one. -/
def readExpression (min : Level) : Reader Expression :=
  Stage.around (fun state => (state.nodes, state.depths))
    (fun state => { state with nodes := #[], depths := [] })
    (fun (nodes, depths) state => { state with nodes, depths })
    (do
      readOperand text (maxDepth - (← Stage.observe (·.nesting))) min .start
      Stage.observe fun state => ⟨state.nodes⟩)

end Reader

end ExprLang
