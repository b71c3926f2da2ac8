import ExprLang.Expression.Tree
import ExprLang.Proofs.Comparison.Statements

/-!
# Trees side by side

Corresponding expressions have corresponding trees: the operators and the numbers of operands are the same, so the same
nodes become operands of each other (`Comparison.RelatesExpression.relatesTree`).
-/

namespace ExprLang

/-- The root of an expression is its last node. -/
theorem Expression.node_root_eq_ok_iff {expr : Expression} {root : Node} :
    (do expr.node (← expr.root)) = .ok root ↔ expr.last? = some root := by
  have hlast : expr.last? = expr.nodes[expr.size - 1]? := by
    rw [last?, size, Array.back?_eq_getElem?]
  cases hempty : expr.isEmpty with
  | true =>
    have hnodes : expr.nodes = #[] := Array.isEmpty_iff.1 hempty
    rw [Expression.root, hempty, last?, hnodes]
    constructor <;> intro h <;> cases h
  | false =>
    have hroot : (do expr.node (← expr.root)) = expr.node (expr.size - 1) := by
      rw [Expression.root, hempty]
      rfl
    rw [hroot, hlast, node]
    cases expr.nodes[expr.size - 1]? <;> simp

namespace Comparison

variable (C : Comparison)

/-- Whether two trees correspond. -/
inductive RelatesTree : Tree → Tree → Prop
  | node {root root' operands operands'} (hroot : C.RelatesNode root root')
      (hoperands : List.Forall₂ RelatesTree operands operands') :
      RelatesTree (.node root operands) (.node root' operands')
  | broken {root root' fault fault'} (hroot : C.RelatesNode root root') :
      RelatesTree (.broken root fault) (.broken root' fault')

variable {C} {tree tree' : Tree} {expr expr' : Expression} {stack stack' taken taken' : List Tree}

theorem RelatesTree.root (h : C.RelatesTree tree tree') : C.RelatesNode tree.root tree'.root := by
  cases h with
  | node hroot _ => exact hroot
  | broken hroot => exact hroot

theorem RelatesTree.operator (h : C.RelatesTree tree tree') : tree.operator = tree'.operator :=
  h.root.operator

/-! ### Stacks of trees -/

/-- Operands are taken from both stacks or from none. -/
private theorem takeOperands_rel (count : Nat) (htaken : List.Forall₂ C.RelatesTree taken taken')
    (hstack : List.Forall₂ C.RelatesTree stack stack') :
    Option.Rel (fun a b => List.Forall₂ C.RelatesTree a.1 b.1 ∧ List.Forall₂ C.RelatesTree a.2 b.2)
      (Tree.takeOperands count taken stack) (Tree.takeOperands count taken' stack') := by
  induction count generalizing taken taken' stack stack' with
  | zero => exact .some ⟨htaken, hstack⟩
  | succ count ih =>
    cases hstack with
    | nil => exact .none
    | cons htree hstack =>
      cases htree with
      | node hroot hoperands => exact ih (.cons (.node hroot hoperands) htaken) hstack
      | broken hroot => exact .none

private theorem pushNode_rel (hstack : List.Forall₂ C.RelatesTree stack stack') {root root' : Node}
    (hroot : C.RelatesNode root root') (index : Nat) :
    List.Forall₂ C.RelatesTree (Tree.pushNode expr stack root index) (Tree.pushNode expr' stack' root' index) := by
  have htake := takeOperands_rel root.arity .nil hstack
  rw [Tree.pushNode, Tree.pushNode, ← hroot.arity]
  generalize Tree.takeOperands root.arity [] stack = parts, Tree.takeOperands root.arity [] stack' = parts' at htake
  cases htake with
  | none => exact .cons (.broken hroot) .nil
  | some htake => exact .cons (.node hroot htake.1) htake.2

private theorem stackOf_rel (h : C.RelatesExpression expr expr') :
    List.Forall₂ C.RelatesTree (Tree.stackOf expr) (Tree.stackOf expr') := by
  -- The stacks correspond after each node, at whatever index it stands.
  have hfold : ∀ {nodes nodes' : List Node} (start : Nat) {stack stack' : List Tree},
      List.Forall₂ C.RelatesNode nodes nodes' → List.Forall₂ C.RelatesTree stack stack' →
      List.Forall₂ C.RelatesTree
        ((nodes.zipIdx start).foldl (fun stack node => Tree.pushNode expr stack node.1 node.2) stack)
        ((nodes'.zipIdx start).foldl (fun stack node => Tree.pushNode expr' stack node.1 node.2) stack') := by
    intro nodes nodes' start stack stack' hnodes hstack
    induction hnodes generalizing start stack stack' with
    | nil => exact hstack
    | cons hnode _ ih => exact ih (start + 1) (pushNode_rel hstack hnode start)
  exact hfold 0 h.nodes .nil

/-- The trees of corresponding expressions correspond. -/
theorem RelatesExpression.relatesTree (h : C.RelatesExpression expr expr') (htree : expr.tree = .ok tree) :
    ∃ tree', expr'.tree = .ok tree' ∧ C.RelatesTree tree tree' := by
  have hstack := stackOf_rel h
  rw [Expression.tree] at htree ⊢
  generalize Tree.stackOf expr = stack, Tree.stackOf expr' = stack' at hstack htree
  cases hstack with
  | nil => cases htree
  | cons hfirst _ =>
    obtain rfl := Except.ok.inj htree
    exact ⟨_, rfl, hfirst⟩

/-- The roots of corresponding expressions correspond. -/
theorem RelatesExpression.relatesRoot (h : C.RelatesExpression expr expr') {root : Node}
    (hroot : (do expr.node (← expr.root)) = .ok root) :
    ∃ root', (do expr'.node (← expr'.root)) = .ok root' ∧ C.RelatesNode root root' := by
  have hlast := h.last?
  rw [Expression.node_root_eq_ok_iff.1 hroot] at hlast
  generalize hother : expr'.last? = other at hlast
  cases hlast with
  | some hnode => exact ⟨_, Expression.node_root_eq_ok_iff.2 hother, hnode⟩

end Comparison

end ExprLang
