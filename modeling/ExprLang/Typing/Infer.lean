import ExprLang.Decimal.Literal
import ExprLang.Expression.Tree
import ExprLang.Stage
import ExprLang.Source.Basic
import ExprLang.Typing.Issue
import ExprLang.Typing.Program

/-!
# Types of expressions

Every place of an expression gets a type.  A literal adapts to the type that is expected of it: the declared
type of a definition, the type of an assignment's target or of the other operand.  Nothing else looks at the
expected type.  A sign directly before a literal belongs to it.
-/

namespace ExprLang

/-- What a checker works on. -/
structure CheckerState where
  diagnostics : Diagnostics
  scope : Scope
  symbols : Array Symbol

/-- A computation that gives types. -/
abbrev Checker (α : Type) : Type :=
  Stage CheckerState α

/-- What the operands of an operator must be. -/
inductive OperandClass where
  | any
  | arithmetic
  | integer
  | bool
  deriving DecidableEq, Repr

/-- Whether a type belongs to a class. -/
def OperandClass.accepts : OperandClass → Ty → Bool
  | any, _ => true
  | arithmetic, type => type.isArithmetic
  | integer, type => type.isInteger
  | bool, type => type = .bool

/-- What both operands of a binary operator must be. -/
def BinaryOperator.operandClass : BinaryOperator → OperandClass
  | assign | equal | notEqual => .any
  | logicalOr | logicalAnd => .bool
  | less | lessEqual | greater | greaterEqual | add | subtract | multiply | divide
  | addAssign | subtractAssign | multiplyAssign | divideAssign => .arithmetic
  | remainder | bitOr | bitXor | bitAnd | shiftLeft | shiftRight | remainderAssign | shiftLeftAssign
  | shiftRightAssign | andAssign | xorAssign | orAssign => .integer

/-- Whether a unary operator applies to a type. -/
def UnaryOperator.accepts : UnaryOperator → Ty → Bool
  | negate, type => type.isArithmetic && !type.isUnsigned
  | not, type => type = .bool
  | complement, type => type.isInteger
  | plus, type | preIncrement, type | preDecrement, type | postIncrement, type | postDecrement, type =>
    type.isArithmetic

/-- Whether a tree is a literal, with or without a minus sign. -/
def Tree.isLiteral (tree : Tree) : Except Fault Bool :=
  match tree.operator with
  | .literal => .ok true
  | .unary .negate => do return (← tree.operand 0).operator = .literal
  | _ => .ok false

/-- The type of numbers that a literal takes. -/
def literalTarget (text : List Char) (expected : Option Ty) : ArithmeticType :=
  match expected.bind Ty.arithmetic? with
  | some target => target
  | none => if text.any (fun c => c = '.' || isExponentMark c) then .float .f64 else .integer .i64

namespace Checker

/-- Reports a problem in a span. -/
def report (span : Span) (issue : TypingIssue) : Checker Unit :=
  Stage.change fun state => { state with diagnostics := state.diagnostics.report (issue.diagnostic span) }

/-- Reports a problem in a span, and fails. -/
def reject {α : Type} (span : Span) (issue : TypingIssue) : Checker α := do
  report span issue
  Stage.fail

/-- The symbol with a number. -/
def symbol (id : SymbolId) : Checker Symbol := do
  Stage.ofExcept (symbolAt (← Stage.observe (·.symbols)) id)

variable (text : List Char)

/-- The part of the source in a span. -/
def slice (span : Span) : Checker (List Char) :=
  Stage.ofExcept (sliceOf text span)

/-! ### Leaves -/

/-- The constant of a literal in the span `literal`, which is the value of the span `span`. -/
def inferLiteral (literal : Span) (negative : Bool) (span : Span) (expected : Option Ty) : Checker Term := do
  let digits ← slice text literal
  let number ← Stage.ofExcept (Number.ofText digits)
  let target := literalTarget digits expected
  match (if negative then number.negate else number).convert target with
  | .ok value => return .constant value (.arithmetic target) span
  | .error error => reject span (.noValue error)

/-- The symbol of a name. -/
def inferName (span : Span) : Checker Term := do
  let name ← slice text span
  match (← Stage.observe (·.scope)).find? name with
  | some id => return .symbol id (← symbol id).type span
  | none => reject span (.notDefined name)

/-- The term of a node whose operands are not looked at. -/
def inferLeaf? (root : Node) (expected : Option Ty) : Option (Checker Term) :=
  match root.operator with
  | .literal => some (inferLiteral text root.span false root.span expected)
  | .name => some (inferName text root.span)
  | .list => some (reject root.span .listValue)
  | _ => none

/-! ### Operators -/

/-- Fails unless an operand is a variable that may change. -/
def requireAssignable (target : Term) (mark : Mark) : Checker Unit := do
  match target.symbol? with
  | none => reject target.span (.targetNotVariable mark)
  | some id =>
    let symbol ← symbol id
    if !symbol.mutable then
      report target.span (.immutable symbol.name)
      reject symbol.span (.definedImmutable symbol.name)

/-- Fails unless an operand belongs to the class of its operator. -/
def requireClass (op : BinaryOperator) (operand : Term) : Checker Unit := do
  if !op.operandClass.accepts operand.type then
    reject operand.span (.notApplicable op.mark operand.type)

/-- Fails unless the operands suit their operator and each other. -/
def requireOperands (op : BinaryOperator) (left right : Term) (span : Span) : Checker Unit := do
  requireClass op left
  requireClass op right
  if !op.isShift && left.type ≠ right.type then
    reject span (.mismatch op.mark left.type right.type)

/-- The term of a unary operator with a given operand. -/
def applyUnary (op : UnaryOperator) (operand : Term) (span : Span) : Checker Term := do
  if !op.accepts operand.type then
    reject span (.notApplicable op.mark operand.type)
  if op.isStep then
    requireAssignable operand op.mark
  return .unary op operand operand.type span

/-- The term of a binary operator with given operands. -/
def applyBinary (op : BinaryOperator) (left right : Term) (span : Span) : Checker Term := do
  requireOperands op left right span
  if op.isAssignment then
    requireAssignable left op.mark
  return .binary op left right (if op.yieldsBool then .bool else left.type) span

/-- The type expected of the first operand that is looked at. -/
def operandExpected (op : BinaryOperator) (expected : Option Ty) : Option Ty :=
  if op.isAssignment then none
  else if op.operandClass = .bool then some .bool
  else if op.yieldsBool then none
  else expected

/-- The type expected of the operand that is looked at after one with the type `first`. -/
def otherExpected (op : BinaryOperator) (first : Ty) : Option Ty :=
  if op.isShift then none else some first

/-- Whether the right operand is looked at first: a literal on the left takes its type from an operand on the
right that is none. -/
def looksRightFirst (op : BinaryOperator) (left right : Tree) : Except Fault Bool := do
  if op.isAssignment || op.isShift then
    return false
  if ← left.isLiteral then
    return !(← right.isLiteral)
  return false

/-- The term of a tree.  The type that is expected of it is not enforced. -/
def infer : Tree → Option Ty → Checker Term
  | .broken root fault, expected => (inferLeaf? text root expected).getD (Stage.raise fault)
  | .node root operands, expected =>
    match root.operator, operands with
    | .group, inner :: _ => do return (← infer inner expected).withSpan root.span
    | .call, callee :: _ => do reject callee.span (.notFunction (← slice text callee.span))
    | .unary op, operand :: _ =>
      if op = .negate ∧ operand.operator = .literal then
        inferLiteral text operand.span true root.span expected
      else do
        let operand ← infer operand (if op = .not then some .bool else expected)
        applyUnary op operand root.span
    | .binary op, left :: right :: _ => do
      if ← Stage.ofExcept (looksRightFirst op left right) then
        let right ← infer right (operandExpected op expected)
        let left ← infer left (otherExpected op right.type)
        applyBinary op left right root.span
      else
        let left ← infer left (operandExpected op expected)
        let right ← infer right (otherExpected op left.type)
        applyBinary op left right root.span
    | _, _ => (inferLeaf? text root expected).getD (Stage.raise .index)
termination_by structural tree => tree

/-- The term of an expression. -/
def inferExpression (expr : Expression) (expected : Option Ty) : Checker Term := do
  infer text (← Stage.ofExcept expr.tree) expected

end Checker

end ExprLang
