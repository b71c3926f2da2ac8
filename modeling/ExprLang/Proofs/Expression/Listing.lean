import ExprLang.Proofs.Expression.Subtrees
import Mathlib

/-!
# Nodes that list a tree

The nodes of an expression list a tree in post-order, or several, or none.  The walk backwards over arities goes over
exactly the nodes of whole trees (`IsCountable.subtreeStart?_eq_some_iff`), and whole trees are told apart by their
nodes (`Tree.eq_of_nodesOfAll_eq`).  So the array and the tree stand for each other (`Expression.encodes_trees`).
-/

namespace ExprLang

/-! ### Listings -/

/-- Whether nodes are those of a whole tree in post-order. -/
structure Tree.IsListedAs (tree : Tree) (nodes : List Node) : Prop where
  whole : tree.IsWhole
  nodes : tree.nodes = nodes

namespace Expression

/-- The nodes from the index `start` up to and including the index `last`. -/
def slice (expr : Expression) (start last : Nat) : List Node :=
  (expr.nodes.toList.take (last + 1)).drop start

/-- Whether the arities can be summed up, and a list has room for an index of each node.  A node takes more bytes than
an index, so there is room wherever the nodes themselves are kept. -/
structure IsCountable (expr : Expression) : Prop where
  room : reserve expr.size = .ok ()
  arities : (expr.nodes.toList.map Node.arity).sum < countLimit

/-- Whether the subtrees of some roots are listings of trees that stand one after the other from `start` up to but not
including `stop`. -/
inductive Tiles (expr : Expression) : (start : Nat) → (roots : List Nat) → (trees : List Tree) → (stop : Nat) → Prop
  | nil {start} : Tiles expr start [] [] start
  | cons {start root stop roots tree trees} (hstart : expr.subtreeStart root = .ok start)
      (hlisted : tree.IsListedAs (expr.slice start root)) (hrest : Tiles expr (root + 1) roots trees stop) :
      Tiles expr start (root :: roots) (tree :: trees) stop

/-- The tree of the node at `index`, read off the operands of each node.  Operands stand before their node, so the
indices stay below a bound that gets smaller. -/
def readTreeBelow (expr : Expression) : (bound index : Nat) → Except Fault Tree
  | 0, _ => .error .index
  | bound + 1, index => do
    let root ← expr.node index
    let operands ← (← expr.operands index).mapM (readTreeBelow expr bound)
    return .node root operands

/-- The tree of an expression, read from the root down. -/
def readTree (expr : Expression) : Except Fault Tree := do
  expr.readTreeBelow expr.size (← expr.root)

end Expression

/-! ### The walk -/

section

variable {nodes : Array Node} {pending place start : Nat}

/-- The walk ends without a fault where the arities can be summed up. -/
private theorem exists_subtreesStart? (nodes : Array Node) {pending place : Nat}
    (harities : pending + ((nodes.toList.take place).map Node.arity).sum ≤ countLimit) :
    ∃ found, subtreesStart? nodes pending place = .ok found := by
  induction place generalizing pending with
  | zero =>
    cases pending with
    | zero => exact ⟨_, rfl⟩
    | succ pending => exact ⟨_, rfl⟩
  | succ place ih =>
    cases pending with
    | zero => exact ⟨_, rfl⟩
    | succ pending =>
      rw [subtreesStart?]
      cases hnode : nodes[place]? with
      | none => exact ⟨_, rfl⟩
      | some node =>
        -- What is still to come is counted among the arities before the node.
        have hlist : nodes.toList[place]? = some node := by rw [Array.getElem?_toList, hnode]
        rw [List.take_add_one, hlist, Option.toList_some, List.map_append, List.sum_append, List.map_singleton,
          List.sum_singleton] at harities
        show ∃ found, (addCounts pending node.arity >>= _) = _
        rw [addCounts_eq_ok (by omega)]
        exact ih (by omega)

/-- What the walk goes over are whole trees. -/
private theorem exists_trees_of_subtreesStart? (h : subtreesStart? nodes pending place = .ok (some start)) :
    ∃ trees, trees.length = pending ∧ (∀ tree ∈ trees, Tree.IsWhole tree) ∧ start ≤ place ∧
      (nodes.toList.take place).drop start = Tree.nodesOfAll trees := by
  induction place generalizing pending with
  | zero =>
    cases pending with
    | zero =>
      obtain rfl : 0 = start := Option.some.inj (Except.ok.inj h)
      exact ⟨[], rfl, by simp, Nat.le_refl _, by simp [Tree.nodesOfAll]⟩
    | succ pending => cases h
  | succ place ih =>
    cases pending with
    | zero =>
      obtain rfl : place + 1 = start := Option.some.inj (Except.ok.inj h)
      exact ⟨[], rfl, by simp, Nat.le_refl _, by simp [Tree.nodesOfAll]⟩
    | succ pending =>
      rw [subtreesStart?] at h
      cases hnode : nodes[place]? with
      | none =>
        rw [hnode] at h
        cases h
      | some node =>
        rw [hnode] at h
        have h : (addCounts pending node.arity >>= fun pending => subtreesStart? nodes pending place)
            = .ok (some start) := h
        rw [addCounts] at h
        split at h
        · obtain ⟨trees, hlength, hwhole, hle, hnodes⟩ := ih h
          have hlist : nodes.toList[place]? = some node := by rw [Array.getElem?_toList, hnode]
          have hplace := (List.getElem?_eq_some_iff.1 hlist).1
          -- The last trees become the operands of the node.
          refine ⟨trees.take pending ++ [.node node (trees.drop pending)], ?_, ?_, Nat.le_succ_of_le hle, ?_⟩
          · rw [List.length_append, List.length_take, List.length_singleton]
            omega
          · rw [List.forall_mem_append, List.forall_mem_singleton]
            refine ⟨fun tree hmem => hwhole tree (List.mem_of_mem_take hmem), .node ?_ fun tree hmem => ?_⟩
            · rw [List.length_drop]
              omega
            · exact hwhole tree (List.mem_of_mem_drop hmem)
          · rw [Tree.nodesOfAll_append, Tree.nodesOfAll, Tree.nodes, Tree.nodesOfAll, List.append_nil,
              ← List.append_assoc, ← Tree.nodesOfAll_append, List.take_append_drop, ← hnodes, List.take_add_one, hlist,
              List.drop_append_of_le_length (by rw [List.length_take]; omega)]
            rfl
        · cases h

end

/-! ### Uniqueness -/

namespace Tree

/-- Whole trees, as many on both sides, are told apart by their nodes. -/
private theorem eq_of_nodesOfAll_eq {trees trees' : List Tree} (hwhole : ∀ tree ∈ trees, tree.IsWhole)
    (hwhole' : ∀ tree ∈ trees', tree.IsWhole) (hlength : trees.length = trees'.length)
    (hnodes : nodesOfAll trees = nodesOfAll trees') : trees = trees' := by
  -- The last root is the same, and gives way to its operands.
  induction hcount : (nodesOfAll trees).length using Nat.strongRecOn generalizing trees trees' with
  | ind count ih =>
    rcases List.eq_nil_or_concat trees with rfl | ⟨init, last, rfl⟩
    · exact (List.eq_nil_of_length_eq_zero hlength.symm).symm
    rcases List.eq_nil_or_concat trees' with rfl | ⟨init', last', rfl⟩
    · exact List.eq_nil_of_length_eq_zero hlength
    rw [List.concat_eq_append] at hwhole hlength hnodes hcount ⊢
    rw [List.concat_eq_append] at hwhole' hlength hnodes ⊢
    rw [List.length_append, List.length_append, List.length_singleton, List.length_singleton] at hlength
    cases hwhole last (List.mem_append_right _ List.mem_cons_self) with
    | @node root operands harity hoperands =>
      cases hwhole' last' (List.mem_append_right _ List.mem_cons_self) with
      | @node root' operands' harity' hoperands' =>
        have hsplit : ∀ (init operands : List Tree) (root : Node), nodesOfAll (init ++ [.node root operands])
            = nodesOfAll (init ++ operands) ++ [root] := by
          intro init operands root
          rw [nodesOfAll_append, nodesOfAll_append, nodesOfAll, nodes, nodesOfAll, List.append_nil, List.append_assoc]
        rw [hsplit, hsplit] at hnodes
        rw [hsplit, List.length_append, List.length_singleton] at hcount
        obtain ⟨hfront, hroot⟩ := List.append_inj' hnodes rfl
        obtain rfl := (List.cons.inj hroot).1
        have hall := ih (nodesOfAll (init ++ operands)).length (by omega)
          (List.forall_mem_append.2 ⟨fun tree hmem => hwhole tree (List.mem_append_left _ hmem), hoperands⟩)
          (List.forall_mem_append.2 ⟨fun tree hmem => hwhole' tree (List.mem_append_left _ hmem), hoperands'⟩)
          (by rw [List.length_append, List.length_append]; omega) hfront rfl
        obtain ⟨rfl, rfl⟩ := List.append_inj hall (by omega)
        rfl

theorem IsListedAs.unique {tree other : Tree} {nodes : List Node} (h : tree.IsListedAs nodes)
    (hother : other.IsListedAs nodes) : tree = other := by
  have hsingle : ∀ tree, nodesOfAll [tree] = tree.nodes := fun tree => List.append_nil _
  have hnodes : nodesOfAll [tree] = nodesOfAll [other] := by
    rw [hsingle, hsingle, h.nodes, hother.nodes]
  exact (List.cons.inj (eq_of_nodesOfAll_eq (List.forall_mem_singleton.2 h.whole)
    (List.forall_mem_singleton.2 hother.whole) rfl hnodes)).1

/-- There is a listed tree if and only if there is just one. -/
private theorem existsUnique_isListedAs_iff {nodes : List Node} :
    (∃! tree : Tree, tree.IsListedAs nodes) ↔ ∃ tree : Tree, tree.IsListedAs nodes :=
  ⟨fun h => h.exists, fun ⟨tree, h⟩ => ⟨tree, h, fun _ hother => hother.unique h⟩⟩

end Tree

/-! ### Parts of an expression -/

variable {expr : Expression} {index start : Nat} {tree : Tree} {trees : List Tree} {front part back : List Node}

namespace Expression

private theorem slice_of_nodes (hnodes : expr.nodes.toList = front ++ part ++ back)
    (hindex : front.length + part.length = index + 1) : expr.slice front.length index = part := by
  rw [slice, hnodes, ← hindex, ← List.length_append, List.take_left, List.drop_left]

/-- The nodes around a tree that is listed. -/
private theorem nodes_of_slice (hindex : index < expr.size) (hslice : expr.slice start index = part)
    (hpart : part ≠ []) :
    start + part.length = index + 1 ∧ (expr.nodes.toList.take start).length = start ∧
      expr.nodes.toList = expr.nodes.toList.take start ++ part ++ expr.nodes.toList.drop (index + 1) := by
  have hsize : expr.size = expr.nodes.toList.length := rfl
  have hlength := congrArg List.length hslice
  have hpos := List.length_pos_iff.2 hpart
  rw [slice, List.length_drop, List.length_take] at hlength
  refine ⟨by omega, by rw [List.length_take]; omega, ?_⟩
  have htake : expr.nodes.toList.take start = (expr.nodes.toList.take (index + 1)).take start := by
    rw [List.take_take, Nat.min_eq_left (by omega)]
  rw [htake, ← hslice, slice, List.take_append_drop, List.take_append_drop]

theorem subtreeStart_eq_ok_iff : expr.subtreeStart index = .ok start ↔ expr.subtreeStart? index = .ok (some start) := by
  rw [subtreeStart]
  rcases expr.subtreeStart? index with _ | _ | _ <;> simp [bind, Except.bind, pure, Except.pure, throw,
    throwThe, MonadExceptOf.throw]

namespace IsCountable

private theorem size_lt (h : expr.IsCountable) : expr.size < countLimit := by
  have hroom := reserve_eq_ok_iff.1 h.room
  rw [countLimit]
  omega

private theorem exists_subtreeStart? (h : expr.IsCountable) (hindex : index < expr.size) :
    ∃ found, expr.subtreeStart? index = .ok found ∧ subtreesStart? expr.nodes 1 (index + 1) = .ok found := by
  have hsize := h.size_lt
  have harities := h.arities
  have hsplit := congrArg List.sum (congrArg (List.map Node.arity) (List.take_append_drop (index + 1) expr.nodes.toList))
  rw [List.map_append, List.sum_append] at hsplit
  have hbefore : 1 + ((expr.nodes.toList.take (index + 1)).map Node.arity).sum ≤ countLimit := by omega
  obtain ⟨found, hfound⟩ := exists_subtreesStart? expr.nodes hbefore
  refine ⟨found, ?_, hfound⟩
  rw [subtreeStart?, addCounts_eq_ok (by omega)]
  exact hfound

/-- The walk from a node ends where the nodes up to it list a tree. -/
private theorem subtreeStart?_eq_some_iff (h : expr.IsCountable) (hindex : index < expr.size) :
    expr.subtreeStart? index = .ok (some start) ↔ ∃ tree : Tree, tree.IsListedAs (expr.slice start index) := by
  constructor
  · intro hstart
    obtain ⟨found, hfound, hwalk⟩ := h.exists_subtreeStart? hindex
    obtain rfl : found = some start := Except.ok.inj (hfound.symm.trans hstart)
    obtain ⟨trees, hlength, hwhole, -, hnodes⟩ := exists_trees_of_subtreesStart? hwalk
    obtain ⟨tree, rfl⟩ := List.length_eq_one_iff.1 hlength
    refine ⟨tree, List.forall_mem_singleton.1 hwhole, ?_⟩
    rw [slice, hnodes, Tree.nodesOfAll, Tree.nodesOfAll, List.append_nil]
  · rintro ⟨tree, hwhole, hnodes⟩
    have hpos := tree.length_nodes_pos
    obtain ⟨hlength, hfront, hsplit⟩ := nodes_of_slice hindex hnodes.symm (List.ne_nil_of_length_pos hpos)
    have hstart := subtreeStart_of_nodes hwhole hsplit h.size_lt
    rw [hfront, hlength, Nat.add_sub_cancel] at hstart
    exact subtreeStart_eq_ok_iff.1 hstart

/-- An expression is well-formed if and only if its nodes list a tree. -/
private theorem exists_isWellFormed (h : expr.IsCountable) :
    ∃ formed, expr.isWellFormed = .ok formed ∧ (formed = true ↔ ∃ tree : Tree, tree.IsListedAs expr.nodes.toList) := by
  by_cases hempty : expr.isEmpty = true
  · refine ⟨false, by rw [isWellFormed, if_pos hempty]; rfl, ?_⟩
    have hnil : expr.nodes.toList = [] := by
      rw [Array.isEmpty_iff.1 hempty]
    constructor
    · exact fun h => absurd h Bool.false_ne_true
    · rintro ⟨tree, -, hnodes⟩
      have hpos := tree.length_nodes_pos
      rw [hnodes, hnil] at hpos
      exact absurd hpos (Nat.lt_irrefl 0)
  · have hpos : 0 < expr.size := by
      rw [isEmpty, Array.isEmpty_iff_size_eq_zero] at hempty
      exact Nat.pos_of_ne_zero hempty
    have hindex : expr.size - 1 < expr.size := by omega
    obtain ⟨found, hfound, -⟩ := h.exists_subtreeStart? hindex
    have hslice : expr.slice 0 (expr.size - 1) = expr.nodes.toList := by
      rw [slice, List.drop_zero, Nat.sub_add_cancel hpos]
      exact List.take_length
    have hiff : expr.subtreeStart? (expr.size - 1) = .ok (some 0) ↔ _ := h.subtreeStart?_eq_some_iff hindex
    rw [hfound, hslice] at hiff
    refine ⟨decide (found = some 0), ?_, ?_⟩
    · rw [isWellFormed, if_neg hempty, hfound]
      rfl
    · rw [decide_eq_true_iff, ← hiff]
      exact ⟨fun h => h ▸ rfl, Except.ok.inj⟩

end IsCountable

/-! ### Operands -/

/-- Whole trees that stand one after the other are the operands between their ends. -/
private theorem tiles_rootIndices (hwhole : ∀ tree ∈ trees, Tree.IsWhole tree)
    (hnodes : expr.nodes.toList = front ++ Tree.nodesOfAll trees ++ back) (hsize : expr.size < countLimit) :
    expr.Tiles front.length (Tree.rootIndices front.length trees) trees
      (front.length + (Tree.nodesOfAll trees).length) := by
  induction trees generalizing front with
  | nil => exact .nil
  | cons tree trees ih =>
    rw [List.forall_mem_cons] at hwhole
    have hpos := tree.length_nodes_pos
    have hfirst : expr.nodes.toList = front ++ tree.nodes ++ (Tree.nodesOfAll trees ++ back) := by
      rw [hnodes, Tree.nodesOfAll]
      simp only [List.append_assoc]
    have hlater : expr.nodes.toList = front ++ tree.nodes ++ Tree.nodesOfAll trees ++ back := by
      rw [hfirst, List.append_assoc _ _ back]
    have hrest := ih hwhole.2 hlater
    rw [List.length_append] at hrest
    rw [Tree.rootIndices, Tree.nodesOfAll, List.length_append, ← Nat.add_assoc]
    refine .cons (subtreeStart_of_nodes hwhole.1 hfirst hsize) ⟨hwhole.1, ?_⟩ ?_
    · exact (slice_of_nodes hfirst (by omega)).symm
    · rwa [Nat.sub_add_cancel (by omega)]

/-- The operands of each node of a listed tree are the roots of trees that fill the place before it. -/
private theorem exists_operands_of_isListedAs (h : tree.IsListedAs expr.nodes.toList)
    (hroom : reserve expr.size = .ok ()) {root : Node} (hroot : expr.nodes[index]? = some root) :
    ∃ start roots operands, expr.subtreeStart index = .ok start ∧ expr.operands index = .ok roots ∧
      roots.length = root.arity ∧ (Tree.node root operands).IsListedAs (expr.slice start index) ∧
      expr.Tiles start roots operands index := by
  have hsize : expr.size < countLimit := by
    rw [reserve_eq_ok_iff] at hroom
    rw [countLimit]
    omega
  have hall : expr.nodes.toList = Tree.nodesOfAll [tree] := by
    rw [Tree.nodesOfAll, Tree.nodesOfAll, List.append_nil, h.nodes]
  have hlist : expr.nodes.toList[index]? = some root := by rw [Array.getElem?_toList, hroot]
  have hindex : index < (Tree.nodesOfAll [tree]).length := hall ▸ (List.getElem?_eq_some_iff.1 hlist).1
  obtain ⟨subtree, front, back, hsplit, hwhole, hplace⟩ :=
    Tree.exists_subtree (List.forall_mem_singleton.2 h.whole) hindex
  have hnodes := hall.trans hsplit
  have hstart := subtreeStart_of_nodes hwhole hnodes hsize
  rw [hplace, Nat.add_sub_cancel] at hstart
  have hslice := slice_of_nodes hnodes hplace
  cases subtree with
  | broken => cases hwhole
  | node root' operands =>
    rw [Tree.nodes, List.length_append, List.length_singleton, ← Nat.add_assoc] at hplace
    obtain rfl : front.length + (Tree.nodesOfAll operands).length = index := Nat.succ.inj hplace
    -- The node is the one at the end of its subtree.
    obtain rfl : root' = root := by
      rw [hnodes, Tree.nodes, ← List.append_assoc, ← List.length_append] at hlist
      simpa using hlist
    refine ⟨front.length, _, operands, hstart, operands_of_nodes hwhole hnodes hroom, ?_, ⟨hwhole, hslice.symm⟩, ?_⟩
    · cases hwhole with
      | node harity => rw [Tree.length_rootIndices, harity]
    · cases hwhole with
      | node _ hoperands =>
        rw [Tree.nodes, ← List.append_assoc, List.append_assoc] at hnodes
        exact tiles_rootIndices hoperands hnodes hsize

/-! ### Reading back -/

private theorem mapM_rootIndices {read : Nat → Except Fault Tree} {offset : Nat}
    (hread : ∀ init tree rest, trees = init ++ tree :: rest →
      read (offset + (Tree.nodesOfAll init).length + tree.nodes.length - 1) = .ok tree) :
    (Tree.rootIndices offset trees).mapM read = .ok trees := by
  induction trees generalizing offset with
  | nil => rfl
  | cons tree trees ih =>
    have hfirst : read (offset + tree.nodes.length - 1) = .ok tree := hread [] tree trees rfl
    have hlater : ∀ init other rest, trees = init ++ other :: rest →
        read (offset + tree.nodes.length + (Tree.nodesOfAll init).length + other.nodes.length - 1) = .ok other := by
      intro init other rest hsplit
      have hother := hread (tree :: init) other rest (by rw [hsplit, List.cons_append])
      rwa [Tree.nodesOfAll, List.length_append, ← Nat.add_assoc] at hother
    rw [Tree.rootIndices, List.mapM_cons, hfirst, ih hlater]
    rfl

/-- The tree of a node is read where its nodes are. -/
private theorem readTreeBelow_of_nodes (hwhole : tree.IsWhole)
    (hnodes : expr.nodes.toList = front ++ tree.nodes ++ back)
    (hroom : reserve expr.size = .ok ()) {bound : Nat} (hbound : front.length + tree.nodes.length ≤ bound) :
    expr.readTreeBelow bound (front.length + tree.nodes.length - 1) = .ok tree := by
  induction bound generalizing tree front back with
  | zero =>
    have hpos := tree.length_nodes_pos
    omega
  | succ bound ih =>
    cases tree with
    | broken => cases hwhole
    | node root operands =>
      have hoperands := operands_of_nodes hwhole hnodes hroom
      have hindex : front.length + (Tree.node root operands).nodes.length - 1
          = front.length + (Tree.nodesOfAll operands).length := by
        rw [Tree.nodes, List.length_append, List.length_singleton]
        omega
      rw [Tree.nodes, List.length_append, List.length_singleton] at hbound
      have hroot : expr.node (front.length + (Tree.nodesOfAll operands).length) = .ok root := by
        rw [node, ← Array.getElem?_toList, hnodes, Tree.nodes, ← List.append_assoc, ← List.length_append]
        simp
      -- Each operand is read with the smaller bound.
      have hread : (Tree.rootIndices front.length operands).mapM (expr.readTreeBelow bound) = .ok operands := by
        refine mapM_rootIndices fun init operand rest hsplit => ?_
        cases hwhole with
        | node _ hall =>
          have hlength := congrArg (fun trees => (Tree.nodesOfAll trees).length) hsplit
          simp only [Tree.nodesOfAll_append, Tree.nodesOfAll, List.length_append] at hlength
          have hinside : expr.nodes.toList = front ++ Tree.nodesOfAll init ++ operand.nodes
              ++ (Tree.nodesOfAll rest ++ [root] ++ back) := by
            rw [hnodes, hsplit, Tree.nodes, Tree.nodesOfAll_append, Tree.nodesOfAll]
            simp only [List.append_assoc]
          have hplace := ih (hall operand (hsplit ▸ List.mem_append_right _ List.mem_cons_self)) hinside
            (by rw [List.length_append]; omega)
          rwa [List.length_append] at hplace
      rw [hindex, readTreeBelow, hroot, hoperands]
      show (List.mapM (expr.readTreeBelow bound) _ >>= _) = _
      rw [hread]
      rfl

/-- The nodes of a whole tree are read back to it. -/
private theorem readTree_of_isWhole (hwhole : tree.IsWhole) (hroom : reserve tree.nodes.length = .ok ()) :
    readTree ⟨tree.nodes.toArray⟩ = .ok tree := by
  have hpos := tree.length_nodes_pos
  have hroot : root ⟨tree.nodes.toArray⟩ = .ok (tree.nodes.length - 1) := by
    rw [root, if_neg]
    · rfl
    · rw [isEmpty, Array.isEmpty_iff_size_eq_zero, List.size_toArray]
      omega
  have hnodes : tree.nodes.toArray.toList = [] ++ tree.nodes ++ [] := by simp
  have hbound : ([] : List Node).length + tree.nodes.length ≤ tree.nodes.length := by simp
  have hread : readTreeBelow ⟨tree.nodes.toArray⟩ tree.nodes.length _ = _ :=
    readTreeBelow_of_nodes hwhole hnodes hroom hbound
  rw [List.length_nil, Nat.zero_add] at hread
  rw [readTree, hroot]
  exact hread

/-! ### Trees and arrays -/

/-- The nodes of an expression stand for a tree in one way at most.  The start of a subtree is found if and only if
the nodes from there list one tree.  An expression is well-formed if and only if all of its nodes do, and then the
operands of each node are the roots of trees that fill its subtree without a gap.  A tree that is listed is read back
from its root, and also from its first node on. -/
theorem encodes_trees :
    (∀ expr : Expression, expr.IsCountable →
      (∀ index < expr.size, ∃ found, expr.subtreeStart? index = .ok found ∧
        ∀ start, found = some start ↔ ∃! tree : Tree, tree.IsListedAs (expr.slice start index)) ∧
      (∃ formed, expr.isWellFormed = .ok formed ∧
        (formed = true ↔ ∃! tree : Tree, tree.IsListedAs expr.nodes.toList) ∧
        (formed = true → ∀ index root, expr.nodes[index]? = some root →
          ∃ start roots operands, expr.subtreeStart index = .ok start ∧ expr.operands index = .ok roots ∧
            roots.length = root.arity ∧ (Tree.node root operands).IsListedAs (expr.slice start index) ∧
            expr.Tiles start roots operands index))) ∧
    ∀ tree : Tree, tree.IsWhole → reserve tree.nodes.length = .ok () →
      readTree ⟨tree.nodes.toArray⟩ = .ok tree ∧ Expression.tree ⟨tree.nodes.toArray⟩ = .ok tree := by
  refine ⟨fun expr hcount => ⟨fun index hindex => ?_, ?_⟩, fun tree hwhole hroom => ?_⟩
  · obtain ⟨found, hfound, -⟩ := hcount.exists_subtreeStart? hindex
    refine ⟨found, hfound, fun start => ?_⟩
    rw [Tree.existsUnique_isListedAs_iff, ← hcount.subtreeStart?_eq_some_iff hindex, hfound]
    exact ⟨fun h => h ▸ rfl, Except.ok.inj⟩
  · obtain ⟨formed, hformed, hiff⟩ := hcount.exists_isWellFormed
    refine ⟨formed, hformed, by rw [hiff, Tree.existsUnique_isListedAs_iff], fun htrue index root hroot => ?_⟩
    obtain ⟨tree, htree⟩ := hiff.1 htrue
    exact exists_operands_of_isListedAs htree hcount.room hroot
  · exact ⟨readTree_of_isWhole hwhole hroom, hwhole.tree_eq rfl⟩

/-- The nodes of a list of two literals, which stand for a tree, and its tree, which is read back. -/
theorem encodes_trees_pair :
    let leaf : Node := ⟨.literal, 0, .empty 0⟩
    let root : Node := ⟨.list, 2, .empty 0⟩
    let expr : Expression := ⟨#[leaf, leaf, root]⟩
    let tree : Tree := .node root [.node leaf [], .node leaf []]
    (expr.IsCountable ∧ 2 < expr.size ∧ expr.nodes[2]? = some root ∧ tree.IsWhole ∧
        reserve tree.nodes.length = .ok ()) ∧
      (∃! tree : Tree, tree.IsListedAs (expr.slice 0 2)) ∧ (∃! tree : Tree, tree.IsListedAs expr.nodes.toList) ∧
      (∃ start roots operands, expr.subtreeStart 2 = .ok start ∧ expr.operands 2 = .ok roots ∧ roots.length = 2 ∧
        (Tree.node root operands).IsListedAs (expr.slice start 2) ∧ expr.Tiles start roots operands 2) ∧
      readTree expr = .ok tree := by
  intro leaf root expr tree
  have hcount : expr.IsCountable := ⟨by decide, by decide⟩
  have hleaf : (Tree.node leaf []).IsWhole := .node rfl (by simp)
  have hwhole : tree.IsWhole := .node rfl (by simp [hleaf])
  obtain ⟨hstarts, formed, hformed, hiff, hoperands⟩ := encodes_trees.1 expr hcount
  obtain ⟨found, hfound, hunique⟩ := hstarts 2 (by decide)
  obtain rfl : formed = true := Except.ok.inj (hformed.symm.trans (by decide))
  obtain rfl : found = some 0 := Except.ok.inj (hfound.symm.trans (by decide))
  exact ⟨⟨hcount, by decide, rfl, hwhole, by decide⟩, (hunique 0).1 rfl, hiff.1 rfl, hoperands rfl 2 root rfl,
    (encodes_trees.2 tree hwhole (by decide)).1⟩

/-- A node without its operands is not taken for a tree. -/
example : isWellFormed ⟨#[⟨.list, 1, .empty 0⟩]⟩ = .ok false := by decide

end Expression

end ExprLang
