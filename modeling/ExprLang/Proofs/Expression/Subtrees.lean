import ExprLang.Proofs.Reading.Phrase
import Mathlib.Data.List.Induction

/-!
# Subtrees in post-order

Where the nodes of some trees stand one after the other in an expression, the walk backwards over complete
subtrees goes over exactly these trees (`subtreesStart?_of_nodesOfAll`).  So the operands of every node of a tree
are found (`operands_of_nodes`).  Read from first to last, the nodes of a tree are built up to it again
(`Tree.IsWhole.tree_eq`).
-/

namespace ExprLang

namespace Tree

/-- Whether every node has as many operands as it says. -/
inductive IsWhole : Tree → Prop
  | node {root operands} (harity : root.arity = operands.length) (hoperands : ∀ operand ∈ operands, operand.IsWhole) :
      IsWhole (.node root operands)

theorem nodesOfAll_append (trees trees' : List Tree) :
    nodesOfAll (trees ++ trees') = nodesOfAll trees ++ nodesOfAll trees' := by
  induction trees with
  | nil => rfl
  | cons tree trees ih => rw [List.cons_append, nodesOfAll, nodesOfAll, ih, List.append_assoc]

theorem root_mem_nodes (tree : Tree) : tree.root ∈ tree.nodes := by
  cases tree with
  | node => exact List.mem_append_right _ (List.mem_singleton_self _)
  | broken => exact List.mem_singleton_self _

private theorem mem_nodesOfAll {trees : List Tree} {tree : Tree} {node : Node} (htree : tree ∈ trees)
    (h : node ∈ tree.nodes) :
    node ∈ nodesOfAll trees := by
  induction trees with
  | nil => exact absurd htree List.not_mem_nil
  | cons first trees ih =>
    rw [nodesOfAll, List.mem_append]
    rcases List.mem_cons.1 htree with rfl | htree
    · exact .inl h
    · exact .inr (ih htree)

theorem mem_nodes_of_mem_operands {root node : Node} {operands : List Tree} {operand : Tree}
    (hoperand : operand ∈ operands) (h : node ∈ operand.nodes) : node ∈ (Tree.node root operands).nodes :=
  List.mem_append_left _ (mem_nodesOfAll hoperand h)

theorem length_nodes_pos (tree : Tree) : 0 < tree.nodes.length := by
  cases tree <;> simp [nodes]

private theorem length_le_length_nodesOfAll (trees : List Tree) : trees.length ≤ (nodesOfAll trees).length := by
  induction trees with
  | nil => exact Nat.le_refl _
  | cons tree trees ih =>
    have := tree.length_nodes_pos
    rw [nodesOfAll, List.length_append, List.length_cons]
    omega

/-- The indices of the roots of trees whose nodes stand one after the other from `offset` on. -/
def rootIndices : (offset : Nat) → List Tree → List Nat
  | _, [] => []
  | offset, tree :: trees => (offset + tree.nodes.length - 1) :: rootIndices (offset + tree.nodes.length) trees

private theorem rootIndices_append (offset : Nat) (trees trees' : List Tree) :
    rootIndices offset (trees ++ trees')
      = rootIndices offset trees ++ rootIndices (offset + (nodesOfAll trees).length) trees' := by
  induction trees generalizing offset with
  | nil => rfl
  | cons tree trees ih =>
    rw [List.cons_append, rootIndices, rootIndices, ih, nodesOfAll, List.length_append, Nat.add_assoc, List.cons_append]

theorem length_rootIndices (offset : Nat) (trees : List Tree) : (rootIndices offset trees).length = trees.length := by
  induction trees generalizing offset with
  | nil => rfl
  | cons tree trees ih => rw [rootIndices, List.length_cons, List.length_cons, ih]

/-! ### The stack -/

private theorem takeOperands_append {trees : List Tree} (hwhole : ∀ tree ∈ trees, tree.IsWhole)
    (taken stack : List Tree) :
    takeOperands trees.length taken (trees ++ stack) = some (trees.reverse ++ taken, stack) := by
  induction trees generalizing taken with
  | nil => rfl
  | cons tree trees ih =>
    rw [List.forall_mem_cons] at hwhole
    cases hwhole.1 with
    | node =>
      rw [List.length_cons, List.cons_append, takeOperands, ih hwhole.2, List.reverse_cons, List.append_assoc]
      rfl

/-- A node takes its operands off the stack. -/
private theorem IsWhole.pushNode_append {root : Node} {operands : List Tree} (h : (Tree.node root operands).IsWhole)
    (expr : Expression) (stack : List Tree) (index : Nat) :
    pushNode expr (operands.reverse ++ stack) root index = Tree.node root operands :: stack := by
  cases h with
  | node harity hoperands =>
    have htake := takeOperands_append (fun tree hmem => hoperands tree (List.mem_reverse.1 hmem)) [] stack
    rw [List.length_reverse, List.reverse_reverse, List.append_nil, ← harity] at htake
    rw [pushNode, htake]

/-- Reading the nodes of whole trees puts them on the stack. -/
theorem foldl_pushNode (expr : Expression) {trees : List Tree} (hwhole : ∀ tree ∈ trees, tree.IsWhole)
    (stack : List Tree) (offset : Nat) :
    ((nodesOfAll trees).zipIdx offset).foldl (fun stack (root, index) => pushNode expr stack root index) stack
      = trees.reverse ++ stack := by
  -- The operands of the first tree have fewer nodes than it, and so have the trees after it.
  induction hlength : (nodesOfAll trees).length using Nat.strongRecOn generalizing trees stack offset with
  | ind length ih =>
    cases trees with
    | nil => rfl
    | cons tree trees =>
      rw [List.forall_mem_cons] at hwhole
      cases tree with
      | broken => cases hwhole.1
      | node root operands =>
        have hpush := hwhole.1.pushNode_append expr
        cases hwhole.1 with
        | node _ hoperands =>
          rw [nodesOfAll, nodes, List.append_assoc, List.length_append, List.length_append,
            List.length_singleton] at hlength
          have hfirst := ih (nodesOfAll operands).length (by omega) hoperands stack offset rfl
          have hrest := ih (nodesOfAll trees).length (by omega) hwhole.2 (node root operands :: stack)
          rw [nodesOfAll, nodes, List.append_assoc, List.zipIdx_append, List.foldl_append, hfirst,
            List.singleton_append, List.zipIdx_cons, List.foldl_cons]
          show List.foldl _ (pushNode expr _ root _) _ = _
          rw [hpush, hrest _ rfl]
          simp

/-- The tree of the nodes of a whole tree is this tree. -/
theorem IsWhole.tree_eq {tree : Tree} {expr : Expression} (h : tree.IsWhole) (hnodes : expr.nodes.toList = tree.nodes) :
    expr.tree = .ok tree := by
  have hstack := foldl_pushNode expr (List.forall_mem_singleton.2 h) [] 0
  rw [nodesOfAll, nodesOfAll, List.append_nil, ← hnodes] at hstack
  rw [Expression.tree, stackOf, hstack]
  rfl

end Tree

/-! ### The walk -/

variable {expr : Expression} {trees : List Tree} {front back : List Node}

/-- The walk backwards over whole trees ends where the first of them starts. -/
private theorem subtreesStart?_of_nodesOfAll (hwhole : ∀ tree ∈ trees, tree.IsWhole)
    (hnodes : expr.nodes.toList = front ++ Tree.nodesOfAll trees ++ back) {pending : Nat}
    (hroom : pending + expr.size < countLimit) :
    subtreesStart? expr.nodes (trees.length + pending) (front.length + (Tree.nodesOfAll trees).length)
      = subtreesStart? expr.nodes pending front.length := by
  -- The last root gives way to its operands, so there is one node less to go.
  induction hlength : (Tree.nodesOfAll trees).length using Nat.strongRecOn generalizing trees back with
  | ind length ih =>
    rcases List.eq_nil_or_concat trees with rfl | ⟨init, last, rfl⟩
    · obtain rfl : length = 0 := hlength.symm
      rw [List.length_nil, Nat.zero_add, Nat.add_zero]
    · rw [List.concat_eq_append] at hwhole hnodes hlength ⊢
      cases hwhole last (List.mem_append_right _ List.mem_cons_self) with
      | @node root operands harity hoperands =>
        have hsplit : Tree.nodesOfAll (init ++ [.node root operands])
            = Tree.nodesOfAll (init ++ operands) ++ [root] := by
          rw [Tree.nodesOfAll_append, Tree.nodesOfAll_append, Tree.nodesOfAll, Tree.nodes, Tree.nodesOfAll,
            List.append_nil, List.append_assoc]
        rw [hsplit] at hnodes hlength
        rw [List.length_append, List.length_singleton] at hlength
        have hsize : expr.size = expr.nodes.toList.length := rfl
        have hroot : expr.nodes[front.length + (Tree.nodesOfAll (init ++ operands)).length]? = some root := by
          rw [← Array.getElem?_toList, hnodes, ← List.append_assoc, ← List.length_append]
          simp
        have hcount := Tree.length_le_length_nodesOfAll (init ++ operands)
        have hfits : init.length + pending + root.arity < countLimit := by
          rw [hnodes] at hsize
          simp only [List.length_append, List.length_singleton] at hsize hcount
          omega
        have hrest := ih (Tree.nodesOfAll (init ++ operands)).length (by omega)
          (List.forall_mem_append.2 ⟨fun tree hmem => hwhole tree (List.mem_append_left _ hmem), hoperands⟩)
          (by rw [hnodes, ← List.append_assoc, List.append_assoc]) rfl
        rw [← hlength, List.length_append, List.length_singleton, Nat.add_right_comm, ← Nat.add_assoc, subtreesStart?,
          hroot]
        show (addCounts _ _ >>= _) = _
        rw [addCounts_eq_ok hfits, harity, ← hrest, List.length_append, Nat.add_right_comm]
        rfl

/-- The subtree of a root starts where the nodes of its tree do. -/
theorem subtreeStart_of_nodes {tree : Tree} (hwhole : tree.IsWhole)
    (hnodes : expr.nodes.toList = front ++ tree.nodes ++ back) (hroom : expr.size < countLimit) :
    expr.subtreeStart (front.length + tree.nodes.length - 1) = .ok front.length := by
  have hpos := tree.length_nodes_pos
  have hsize : expr.size = front.length + tree.nodes.length + back.length := by
    rw [← List.length_append, ← List.length_append, ← hnodes]
    rfl
  have hplace : front.length + tree.nodes.length - 1 + 1 = front.length + tree.nodes.length := by omega
  have hnodesOfAll : Tree.nodesOfAll [tree] = tree.nodes := List.append_nil _
  rw [← hnodesOfAll] at hnodes
  have hroom' : 0 + expr.size < countLimit := by rwa [Nat.zero_add]
  have hstart := subtreesStart?_of_nodesOfAll (List.forall_mem_singleton.2 hwhole) hnodes hroom'
  rw [hnodesOfAll, List.length_singleton] at hstart
  rw [Expression.subtreeStart, Expression.subtreeStart?, addCounts_eq_ok (by omega), hplace]
  show (subtreesStart? expr.nodes 1 (front.length + tree.nodes.length) >>= _) = _
  rw [hstart, subtreesStart?]
  rfl

/-- The roots of whole trees are found from the last to the first. -/
private theorem rootsBefore_of_nodesOfAll (hwhole : ∀ tree ∈ trees, tree.IsWhole)
    (hnodes : expr.nodes.toList = front ++ Tree.nodesOfAll trees ++ back) (hroom : expr.size < countLimit)
    (roots : List Nat) :
    expr.rootsBefore trees.length (front.length + (Tree.nodesOfAll trees).length) roots
      = .ok (Tree.rootIndices front.length trees ++ roots) := by
  induction trees using List.reverseRecOn generalizing back roots with
  | nil => rfl
  | append_singleton init last ih =>
    have hlast : Tree.nodesOfAll [last] = last.nodes := List.append_nil _
    have hpos := last.length_nodes_pos
    rw [Tree.nodesOfAll_append, hlast, ← List.append_assoc] at hnodes
    have hstart := subtreeStart_of_nodes (hwhole last (List.mem_append_right _ List.mem_cons_self)) hnodes hroom
    rw [List.append_assoc] at hnodes
    have hinit := ih (fun tree hmem => hwhole tree (List.mem_append_left _ hmem)) hnodes
    -- The last root is just before the place where the search is.
    have hplace : front.length + (Tree.nodesOfAll (init ++ [last])).length
        = front.length + (Tree.nodesOfAll init).length + last.nodes.length - 1 + 1 := by
      rw [Tree.nodesOfAll_append, hlast, List.length_append]
      omega
    rw [List.length_append] at hstart
    rw [hplace, List.length_append, List.length_singleton, Expression.rootsBefore, hstart]
    show expr.rootsBefore init.length (front.length + (Tree.nodesOfAll init).length) _ = _
    rw [hinit, Tree.rootIndices_append, Tree.rootIndices, Tree.rootIndices, List.append_assoc]
    rfl

namespace Tree

/-- Every node of whole trees is the root of a whole tree. -/
theorem exists_subtree (hwhole : ∀ tree ∈ trees, tree.IsWhole) {index : Nat}
    (hindex : index < (nodesOfAll trees).length) :
    ∃ tree front back, nodesOfAll trees = front ++ nodes tree ++ back ∧ tree.IsWhole ∧
      front.length + tree.nodes.length = index + 1 := by
  induction hlength : (nodesOfAll trees).length using Nat.strongRecOn generalizing trees index with
  | ind length ih =>
    cases trees with
    | nil => exact absurd hindex (Nat.not_lt_zero _)
    | cons tree trees =>
      have hfirst := hwhole tree List.mem_cons_self
      have hpos := tree.length_nodes_pos
      rw [nodesOfAll, List.length_append] at hindex hlength
      -- The node is below the first root, or it is the first root, or it belongs to a later tree.
      rcases Nat.lt_trichotomy (index + 1) tree.nodes.length with hlt | heq | hgt
      · cases hfirst with
        | @node root operands harity hoperands =>
          rw [nodes, List.length_append, List.length_singleton] at hlt hlength
          obtain ⟨subtree, front, back, hnodes, hsubtree, hplace⟩ :=
            ih (nodesOfAll operands).length (by omega) hoperands (show index < _ by omega) rfl
          refine ⟨subtree, front, back ++ [root] ++ nodesOfAll trees, ?_, hsubtree, hplace⟩
          rw [nodesOfAll, nodes, hnodes]
          simp only [List.append_assoc]
      · exact ⟨tree, [], nodesOfAll trees, rfl, hfirst, by rw [heq, List.length_nil, Nat.zero_add]⟩
      · obtain ⟨subtree, front, back, hnodes, hsubtree, hplace⟩ :=
          ih (nodesOfAll trees).length (by omega) (fun other hmem => hwhole other (List.mem_cons_of_mem _ hmem))
            (show index - tree.nodes.length < _ by omega) rfl
        refine ⟨subtree, tree.nodes ++ front, back, ?_, hsubtree, ?_⟩
        · rw [nodesOfAll, hnodes]
          simp only [List.append_assoc]
        · rw [List.length_append]
          omega

end Tree

/-- The operands of the root of a whole tree are found if the nodes fit into a list. -/
theorem operands_of_nodes {root : Node} {operands : List Tree} (hwhole : (Tree.node root operands).IsWhole)
    (hnodes : expr.nodes.toList = front ++ (Tree.node root operands).nodes ++ back)
    (hroom : reserve expr.size = .ok ()) : expr.operands (front.length + (Tree.nodesOfAll operands).length)
      = .ok (Tree.rootIndices front.length operands) := by
  cases hwhole with
  | node harity hoperands =>
    have hcount := Tree.length_le_length_nodesOfAll operands
    have hsize : expr.size = expr.nodes.toList.length := rfl
    rw [reserve_eq_ok_iff] at hroom
    have hroot : expr.nodes[front.length + (Tree.nodesOfAll operands).length]? = some root := by
      rw [← Array.getElem?_toList, hnodes, Tree.nodes, ← List.append_assoc, ← List.length_append]
      simp
    have hnode : expr.node (front.length + (Tree.nodesOfAll operands).length) = .ok root := by
      rw [Expression.node, hroot]
    rw [Tree.nodes, ← List.append_assoc, List.append_assoc] at hnodes
    rw [hnodes, List.length_append, List.length_append] at hsize
    have hroots := rootsBefore_of_nodesOfAll hoperands hnodes (by rw [countLimit]; omega) []
    rw [List.append_nil] at hroots
    rw [Expression.operands, hnode]
    show (reserve root.arity >>= _) = _
    rw [reserve_eq_ok_iff.2 (by omega)]
    show expr.rootsBefore root.arity _ [] = _
    rw [harity, hroots]

namespace Phrase

theorem isWhole_toTree (phrase : Phrase) : phrase.toTree.IsWhole := by
  induction phrase using induction_operands with
  | step phrase ih =>
    rw [toTree_eq]
    refine .node (List.length_map _).symm fun tree hmem => ?_
    obtain ⟨operand, hoperand, rfl⟩ := List.mem_map.1 hmem
    exact ih operand hoperand

/-- The operands of every node of an expression are found if the nodes fit into a list. -/
theorem exists_operands (phrase : Phrase) (hroom : reserve phrase.expression.size = .ok ()) {index : Nat}
    (hindex : index < phrase.expression.size) : ∃ roots, phrase.expression.operands index = .ok roots := by
  have hnodes : phrase.expression.nodes.toList = Tree.nodesOfAll [phrase.toTree] := (List.append_nil _).symm
  have hindex : index < (Tree.nodesOfAll [phrase.toTree]).length := hnodes ▸ hindex
  obtain ⟨tree, front, back, hsplit, hwhole, hplace⟩ :=
    Tree.exists_subtree (List.forall_mem_singleton.2 phrase.isWhole_toTree) hindex
  cases tree with
  | broken => cases hwhole
  | node root operands =>
    have hindex : index = front.length + (Tree.nodesOfAll operands).length := by
      rw [Tree.nodes, List.length_append, List.length_singleton] at hplace
      omega
    exact ⟨_, hindex ▸ operands_of_nodes hwhole (hnodes.trans hsplit) hroom⟩

end Phrase

end ExprLang
