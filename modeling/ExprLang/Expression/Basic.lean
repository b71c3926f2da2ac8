import ExprLang.Count
import ExprLang.Operator.Basic
import ExprLang.Text.Span

/-!
# Expressions

An expression is a tree whose nodes are kept in post-order: every node follows the subtrees of its operands,
so the last node is the root.  A node knows how many operands it has, and where its subtree starts is found by
walking backwards over complete subtrees.
-/

namespace ExprLang

/-- An operator with the number of its operands and the span of its subtree. -/
structure Node where
  operator : Operator
  arity : Nat
  span : Span
  deriving DecidableEq, Repr

/-- The nodes of a tree in post-order. -/
structure Expression where
  nodes : Array Node
  deriving DecidableEq, Repr

/-- The start of `pending` complete subtrees that stand one after the other and end before the index
`place`, if they are all there.  The subtrees that are still to come are counted. -/
def subtreesStart? (nodes : Array Node) : (pending place : Nat) → Except Fault (Option Nat)
  | 0, place => .ok (some place)
  | _ + 1, 0 => .ok none
  | pending + 1, place + 1 =>
    match nodes[place]? with
    | some node => do subtreesStart? nodes (← addCounts pending node.arity) place
    | none => .ok none

namespace Expression

/-- Adds a node at the end. -/
def push (expr : Expression) (node : Node) : Expression :=
  ⟨expr.nodes.push node⟩

/-- The number of nodes. -/
def size (expr : Expression) : Nat :=
  expr.nodes.size

/-- Whether there are no nodes. -/
def isEmpty (expr : Expression) : Bool :=
  expr.nodes.isEmpty

/-- The node at an index. -/
def node (expr : Expression) (index : Nat) : Except Fault Node :=
  match expr.nodes[index]? with
  | some node => .ok node
  | none => .error .index

/-- The last node. -/
def last? (expr : Expression) : Option Node :=
  expr.nodes.back?

/-- The index of the root. -/
def root (expr : Expression) : Except Fault Nat :=
  if expr.isEmpty then .error .noRoot else .ok (expr.size - 1)

/-- The span of the root, or the empty span at the start. -/
def span (expr : Expression) : Span :=
  match expr.last? with
  | some node => node.span
  | none => .empty 0

/-- The index of the first node of the subtree with the root `index`, if its operands are all there. -/
def subtreeStart? (expr : Expression) (index : Nat) : Except Fault (Option Nat) := do
  subtreesStart? expr.nodes 1 (← addCounts index 1)

/-- The index of the first node of the subtree with the root `index`. -/
def subtreeStart (expr : Expression) (index : Nat) : Except Fault Nat := do
  match ← expr.subtreeStart? index with
  | some start => return start
  | none => throw (.missingOperands index)

/-- The roots of `count` subtrees that stand one after the other and end before the index `stop`, followed by
`roots`. -/
def rootsBefore (expr : Expression) : (count stop : Nat) → List Nat → Except Fault (List Nat)
  | 0, _, roots => .ok roots
  | _ + 1, 0, _ => .error .underflow
  | count + 1, operand + 1, roots => do
    let stop ← expr.subtreeStart operand
    expr.rootsBefore count stop (operand :: roots)

/-- The roots of the operands of a node, the first operand first. -/
def operands (expr : Expression) (index : Nat) : Except Fault (List Nat) := do
  let node ← expr.node index
  reserve node.arity
  expr.rootsBefore node.arity index []

/-- The root of one operand of a node. -/
def operand (expr : Expression) (index n : Nat) : Except Fault Nat := do
  let operands ← expr.operands index
  match operands[n]? with
  | some root => return root
  | none => throw .index

/-- Whether the subtree of the last node is the whole expression. -/
def isWellFormed (expr : Expression) : Except Fault Bool := do
  if expr.isEmpty then
    return false
  return (← expr.subtreeStart? (expr.size - 1)) = some 0

end Expression

end ExprLang
