import ExprLang.Expression.Basic

/-!
# Trees of expressions

The nodes of an expression, read from first to last, build up trees on a stack: each node takes as many trees
off the stack as it has operands.  A node whose operands are not all there is broken.  It keeps the fault that
looking for its operands runs into, and since it reaches back to the start of the expression, nothing that
comes before it can be an operand of a later node.
-/

namespace ExprLang

/-- The tree of a node. -/
inductive Tree where
  | node (root : Node) (operands : List Tree)
  /-- A node that lacks operands. -/
  | broken (root : Node) (fault : Fault)
  deriving Repr

namespace Tree

/-- The root of a tree. -/
def root : Tree → Node
  | node root _ => root
  | broken root _ => root

/-- The operator of the root. -/
def operator (tree : Tree) : Operator :=
  tree.root.operator

/-- The span of the root. -/
def span (tree : Tree) : Span :=
  tree.root.span

/-- The operands of the root. -/
def operands : Tree → Except Fault (List Tree)
  | node _ operands => .ok operands
  | broken _ fault => .error fault

/-- One operand of the root. -/
def operand (tree : Tree) (n : Nat) : Except Fault Tree := do
  match (← tree.operands)[n]? with
  | some operand => return operand
  | none => throw .index

/-- Moves `count` whole trees from the top of a stack to the front of `taken`, if there are so many. -/
def takeOperands : (count : Nat) → (taken stack : List Tree) → Option (List Tree × List Tree)
  | 0, taken, stack => some (taken, stack)
  | count + 1, taken, node root operands :: stack => takeOperands count (node root operands :: taken) stack
  | _ + 1, _, broken _ _ :: _ => none
  | _ + 1, _, [] => none

end Tree

/-- The fault that listing the operands of a broken node runs into. -/
def Expression.operandsFault (expr : Expression) (index : Nat) : Fault :=
  match expr.operands index with
  | .error fault => fault
  | .ok _ => .underflow

namespace Tree

/-- Puts the tree of the node at `index` on a stack, in place of its operands. -/
def pushNode (expr : Expression) (stack : List Tree) (root : Node) (index : Nat) : List Tree :=
  match takeOperands root.arity [] stack with
  | some (operands, stack) => node root operands :: stack
  | none => [broken root (expr.operandsFault index)]

/-- The trees of the nodes of an expression, the last one first. -/
def stackOf (expr : Expression) : List Tree :=
  expr.nodes.toList.zipIdx.foldl (fun stack (root, index) => pushNode expr stack root index) []

mutual
/-- The nodes of a tree in post-order. -/
def nodes : Tree → List Node
  | node root operands => nodesOfAll operands ++ [root]
  | broken root _ => [root]

/-- The nodes of trees that stand one after the other. -/
def nodesOfAll : List Tree → List Node
  | [] => []
  | tree :: trees => tree.nodes ++ nodesOfAll trees
end

mutual
/-- The number of nodes on the longest way from the root to a leaf. -/
def depth : Tree → Nat
  | node _ operands => depthOfAll operands + 1
  | broken _ _ => 1

/-- The greatest depth of some trees. -/
def depthOfAll : List Tree → Nat
  | [] => 0
  | tree :: trees => max tree.depth (depthOfAll trees)
end

end Tree

/-- The tree of the last node of an expression. -/
def Expression.tree (expr : Expression) : Except Fault Tree :=
  match (Tree.stackOf expr).head? with
  | some tree => .ok tree
  | none => .error .noRoot

end ExprLang
