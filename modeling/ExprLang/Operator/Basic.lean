import ExprLang.Lexeme.Tag
import ExprLang.Operator.Level

/-!
# Operators

Every operator has a level and a shape: the lexemes it is built from and where its operands stand.  The shape
tells whether the operator begins an expression or goes on with one that has been read.  Names, literals,
groups, calls and lists are operators as well.
-/

namespace ExprLang

/-- The operators with two operands and a mark between them. -/
inductive BinaryOperator where
  | assign
  | addAssign
  | subtractAssign
  | multiplyAssign
  | divideAssign
  | remainderAssign
  | shiftLeftAssign
  | shiftRightAssign
  | andAssign
  | xorAssign
  | orAssign
  | logicalOr
  | logicalAnd
  | equal
  | notEqual
  | less
  | lessEqual
  | greater
  | greaterEqual
  | bitOr
  | bitXor
  | bitAnd
  | shiftLeft
  | shiftRight
  | add
  | subtract
  | multiply
  | divide
  | remainder
  deriving DecidableEq, Repr

/-- The operators with one operand and a mark before or after it. -/
inductive UnaryOperator where
  | plus
  | negate
  | not
  | complement
  | preIncrement
  | preDecrement
  | postIncrement
  | postDecrement
  deriving DecidableEq, Repr

/-- The operators. -/
inductive Operator where
  | binary (op : BinaryOperator)
  | unary (op : UnaryOperator)
  | literal
  | name
  | group
  | call
  | list
  deriving DecidableEq, Repr

/-- The lexemes of an operator and the places of its operands. -/
inductive Shape where
  /-- One lexeme and no operand. -/
  | leaf (tag : Tag)
  /-- A mark before an operand. -/
  | before (mark : Mark)
  /-- A mark after an operand. -/
  | after (mark : Mark)
  /-- One operand in brackets. -/
  | around (opener closer : Mark)
  /-- A mark between two operands. -/
  | between (mark : Mark)
  /-- Any number of operands in brackets. -/
  | sequence (opener closer : Mark)
  /-- An operand followed by one or more operands in brackets. -/
  | application (opener closer : Mark)
  deriving DecidableEq, Repr

namespace Shape

/-- The tag of the lexeme that an operator of this shape is recognised by. -/
def leading : Shape → Tag
  | leaf tag => tag
  | before mark | after mark | between mark => .mark mark
  | around opener _ | sequence opener _ | application opener _ => .mark opener

/-- Whether operators of this shape begin an expression. -/
def isOpening : Shape → Bool
  | leaf _ | before _ | around _ _ | sequence _ _ => true
  | after _ | between _ | application _ _ => false

end Shape

namespace BinaryOperator

/-- All binary operators, the loosest first. -/
def all : List BinaryOperator := [
  assign, addAssign, subtractAssign, multiplyAssign, divideAssign, remainderAssign, shiftLeftAssign,
  shiftRightAssign, andAssign, xorAssign, orAssign, logicalOr, logicalAnd, equal, notEqual, less, lessEqual,
  greater, greaterEqual, bitOr, bitXor, bitAnd, shiftLeft, shiftRight, add, subtract, multiply, divide,
  remainder]

/-- The mark between the operands. -/
def mark : BinaryOperator → Mark
  | assign => .eq
  | addAssign => .plusEq
  | subtractAssign => .minusEq
  | multiplyAssign => .starEq
  | divideAssign => .slashEq
  | remainderAssign => .percentEq
  | shiftLeftAssign => .shlEq
  | shiftRightAssign => .shrEq
  | andAssign => .ampEq
  | xorAssign => .caretEq
  | orAssign => .pipeEq
  | logicalOr => .pipePipe
  | logicalAnd => .ampAmp
  | equal => .eqEq
  | notEqual => .bangEq
  | less => .lt
  | lessEqual => .le
  | greater => .gt
  | greaterEqual => .ge
  | bitOr => .pipe
  | bitXor => .caret
  | bitAnd => .amp
  | shiftLeft => .shl
  | shiftRight => .shr
  | add => .plus
  | subtract => .minus
  | multiply => .star
  | divide => .slash
  | remainder => .percent

/-- The level of a binary operator. -/
def level : BinaryOperator → Level
  | assign | addAssign | subtractAssign | multiplyAssign | divideAssign | remainderAssign | shiftLeftAssign
  | shiftRightAssign | andAssign | xorAssign | orAssign => .assignment
  | logicalOr => .logicalOr
  | logicalAnd => .logicalAnd
  | equal | notEqual => .equality
  | less | lessEqual | greater | greaterEqual => .order
  | bitOr => .bitwiseOr
  | bitXor => .bitwiseXor
  | bitAnd => .bitwiseAnd
  | shiftLeft | shiftRight => .shift
  | add | subtract => .term
  | multiply | divide | remainder => .factor

/-- Whether the left operand is changed. -/
def isAssignment (op : BinaryOperator) : Bool :=
  op.level = .assignment

/-- Whether the left operand is shifted. -/
def isShift : BinaryOperator → Bool
  | shiftLeft | shiftRight | shiftLeftAssign | shiftRightAssign => true
  | _ => false

/-- Whether the value is a truth value. -/
def yieldsBool : BinaryOperator → Bool
  | equal | notEqual | less | lessEqual | greater | greaterEqual | logicalOr | logicalAnd => true
  | _ => false

end BinaryOperator

namespace UnaryOperator

/-- All unary operators. -/
def all : List UnaryOperator := [
  plus, negate, not, complement, preIncrement, preDecrement, postIncrement, postDecrement]

/-- The mark beside the operand. -/
def mark : UnaryOperator → Mark
  | plus => .plus
  | negate => .minus
  | not => .bang
  | complement => .tilde
  | preIncrement | postIncrement => .plusPlus
  | preDecrement | postDecrement => .minusMinus

/-- Whether the mark stands after the operand. -/
def isAfter : UnaryOperator → Bool
  | postIncrement | postDecrement => true
  | _ => false

/-- Whether the operand is changed by one. -/
def isStep : UnaryOperator → Bool
  | preIncrement | preDecrement | postIncrement | postDecrement => true
  | _ => false

/-- The operator in printed expressions. -/
def symbol (op : UnaryOperator) : String :=
  if op.isAfter then s!"post{op.mark.render}" else op.mark.render

end UnaryOperator

namespace Operator

/-- All operators: the loosest level first, and within a level in the order of its catalogue. -/
def all : List Operator :=
  BinaryOperator.all.map binary ++ UnaryOperator.all.map unary ++ [literal, name, group, call, list]

/-- The shape of an operator. -/
def shape : Operator → Shape
  | binary op => .between op.mark
  | unary op => if op.isAfter then .after op.mark else .before op.mark
  | literal => .leaf .decimal
  | name => .leaf .name
  | group => .around .lparen .rparen
  | call => .application .lparen .rparen
  | list => .sequence .lbracket .rbracket

/-- The level of an operator. -/
def level : Operator → Level
  | binary op => op.level
  | unary _ => .unary
  | literal | name | group | call => .primary
  | list => .list

/-- The operator in printed expressions. -/
def symbol : Operator → String
  | binary op => op.mark.render
  | unary op => op.symbol
  | literal => "literal"
  | name => "name"
  | group => "()"
  | call => "call"
  | list => "list"

/-- Whether the left operand is changed. -/
def isAssignment (op : Operator) : Bool :=
  op.level = .assignment

/-- Whether a variable is changed by one. -/
def isStep : Operator → Bool
  | unary op => op.isStep
  | _ => false

theorem mem_all (op : Operator) : op ∈ all := by
  rcases op with op | op | _ | _ | _ | _ | _ <;> (try cases op) <;> decide

end Operator

/-- The operator of `min` or a tighter level that a tag leads to: one that begins an expression if `opening`
is set, or else one that goes on with it. -/
def Operator.leading? (opening : Bool) (min : Level) (tag : Tag) : Option Operator :=
  all.find? fun op => min ≤ op.level && op.shape.isOpening = opening && op.shape.leading = tag

/-- Whether an expression may begin with a tag. -/
def Tag.startsExpression (tag : Tag) : Bool :=
  Operator.all.any fun op => op.shape.isOpening && op.shape.leading = tag

/-- Whether a statement may begin with a tag. -/
def Tag.startsStatement : Tag → Bool
  | keyword _ => true
  | tag => tag.startsExpression

end ExprLang
