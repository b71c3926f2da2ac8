import ExprLang.Expression.Tree
import ExprLang.Source.Basic

/-!
# Printed expressions

An expression is printed fully bracketed with each operator before its operands: `(+ 1 (* 2 3))`.  Names and
literals are printed as they stand in the source, and the expression without nodes as `()`.
-/

namespace ExprLang

namespace Tree

/-- Whether a node is printed as it stands in the source. -/
def isPlain (root : Node) : Bool :=
  root.arity = 0 && (root.operator = .literal || root.operator = .name)

mutual
/-- A tree as it is printed, in a text. -/
def render (text : List Char) : Tree → Except Fault String
  | node root operands => do
    if isPlain root then
      return String.ofList (← sliceOf text root.span)
    return s!"({root.operator.symbol}" ++ (← renderAll text operands) ++ ")"
  | broken _ fault => .error fault

/-- Operands as they are printed, each after a space. -/
def renderAll (text : List Char) : List Tree → Except Fault String
  | [] => .ok ""
  | tree :: trees => do
    let first ← tree.render text
    return " " ++ first ++ (← renderAll text trees)
end

end Tree

/-- An expression as it is printed, in a text. -/
def Expression.render (text : List Char) (expr : Expression) : Except Fault String := do
  if expr.isEmpty then
    return "()"
  (← expr.tree).render text

end ExprLang
