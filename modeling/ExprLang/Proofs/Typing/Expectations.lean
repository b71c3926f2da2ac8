import ExprLang.Proofs.Expression.Listing
import ExprLang.Proofs.Reading.Origins
import ExprLang.Proofs.Typing.Verdicts

/-!
# Expected types

What is expected of a tree steers the types of its literals and nothing else.  A tree without literals has the same term
or the same errors whatever is expected of it (`Checker.infer_eq_of_hasNoLiteral`), and so has each such part of an
expression that is read from a source (`Source.expected_steers_literals`).
-/

namespace ExprLang

namespace Tree

/-- Whether a tree is another one or a part of it. -/
inductive IsPartOf : Tree → Tree → Prop
  | refl (tree) : IsPartOf tree tree
  | operand {part root operands operand} (hmem : operand ∈ operands) (hpart : IsPartOf part operand) :
      IsPartOf part (.node root operands)

/-- Whether no node of a tree is a literal. -/
def HasNoLiteral (tree : Tree) : Prop :=
  ∀ node ∈ tree.nodes, node.operator ≠ .literal

instance (tree : Tree) : Decidable tree.HasNoLiteral :=
  inferInstanceAs (Decidable (∀ node ∈ tree.nodes, node.operator ≠ .literal))

private theorem HasNoLiteral.root {tree : Tree} (h : tree.HasNoLiteral) : tree.root.operator ≠ .literal :=
  h tree.root tree.root_mem_nodes

private theorem HasNoLiteral.operand {root : Node} {operands : List Tree} (h : (Tree.node root operands).HasNoLiteral)
    {operand : Tree} (hmem : operand ∈ operands) : operand.HasNoLiteral :=
  fun node hnode => h node (mem_nodes_of_mem_operands hmem hnode)

end Tree

/-- A part of the tree of a valid phrase is the tree of a valid phrase with some of its lexemes. -/
private theorem Phrase.IsValid.exists_of_isPartOf {phrase : Phrase} (h : phrase.IsValid) {part : Tree}
    (hpart : part.IsPartOf phrase.toTree) :
    ∃ inner : Phrase, inner.IsValid ∧ (∀ lexeme ∈ inner.lexemes, lexeme ∈ phrase.lexemes) ∧ part = inner.toTree := by
  generalize htree : phrase.toTree = tree at hpart
  induction hpart generalizing phrase with
  | refl => exact ⟨phrase, h, fun _ hmem => hmem, htree.symm⟩
  | operand hmem _ ih =>
    rw [toTree_eq] at htree
    rw [← (Tree.node.inj htree).2] at hmem
    obtain ⟨operand, hoperand, rfl⟩ := List.mem_map.1 hmem
    obtain ⟨hvalid, hwritten⟩ := h.of_mem_operands hoperand
    obtain ⟨inner, hinner, hlexemes, rfl⟩ := ih hvalid rfl
    exact ⟨inner, hinner, fun lexeme hlexeme => hwritten lexeme (hlexemes lexeme hlexeme), rfl⟩

namespace Checker

variable {text : List Char} {tree : Tree}

private theorem inferLeaf?_eq_of_ne {root : Node} (h : root.operator ≠ .literal) (expected other : Option Ty) :
    inferLeaf? text root expected = inferLeaf? text root other := by
  rw [inferLeaf?, inferLeaf?]
  split
  · exact absurd ‹_› h
  · rfl
  · rfl
  · rfl

/-- The term of a tree without literals, and what is reported about it, do not depend on what is expected. -/
private theorem infer_eq_of_hasNoLiteral (h : tree.HasNoLiteral) (expected other : Option Ty) :
    infer text tree expected = infer text tree other := by
  fun_induction infer text tree expected generalizing other with
  | case1 root fault expected =>
    have hroot : root.operator ≠ .literal := h.root
    rw [infer, inferLeaf?_eq_of_ne hroot expected other]
  | case2 root expected inner tail hop ih =>
    simp only [infer, hop]
    rw [ih (h.operand List.mem_cons_self) other]
  | case3 root expected callee tail hop => simp only [infer, hop]
  | case4 root expected op operand tail hop hnegated =>
    exact absurd hnegated.2 (h.operand List.mem_cons_self).root
  | case5 root expected op operand tail hop hplain ih =>
    simp only [infer.eq_def text (.node _ (_ :: _)), hop, if_neg hplain]
    rw [ih (h.operand List.mem_cons_self) (if op = .not then some .bool else other)]
  | case6 root expected op left right tail hop ihRight _ ihLeft _ =>
    -- The operand that is looked at first is the only one of which the type for the whole may be expected.
    simp only [infer.eq_def text (.node _ (_ :: _ :: _)), hop]
    rw [ihRight (h.operand (List.mem_cons_of_mem _ List.mem_cons_self)) (operandExpected op other),
      ihLeft (h.operand List.mem_cons_self) (operandExpected op other)]
  | case7 root operands expected hgroup hcall hunary hbinary =>
    have hroot : root.operator ≠ .literal := h.root
    rw [infer, inferLeaf?_eq_of_ne hroot expected other]
    all_goals assumption

end Checker

namespace Source

variable {name : String} {content : List Char} {expr : Expression}

/-- Whatever is expected of a part without literals of an expression, checking it comes from each state to the same term
or the same failure, with the same reports, and if the state is one that a checker reaches, not to a fault. -/
theorem expected_steers_literals (h : (ofContent name content).ReadsExpression expr) :
    ∃ tree, expr.tree = .ok tree ∧ tree.IsListedAs expr.nodes.toList ∧
      ∀ part : Tree, part.IsPartOf tree → part.HasNoLiteral → ∀ state, ∃ outcome after,
        (∀ expected, Checker.infer (ofContent name content).text part expected state = (outcome, after)) ∧
        ((ofContent name content).Reaches state → ∀ cause, outcome ≠ .fault cause) := by
  obtain ⟨phrase, hvalid, hlexemes, rfl⟩ := h.exists_phrase
  refine ⟨phrase.toTree, phrase.tree_expression, ⟨phrase.isWhole_toTree, rfl⟩, fun part hpart hfree state => ?_⟩
  obtain ⟨inner, hinner, hwritten, rfl⟩ := hvalid.exists_of_isPartOf hpart
  have hlegible : ∀ lexeme ∈ inner.lexemes, lexeme.IsLegible (ofContent name content).text :=
    fun lexeme hmem => isLegible_of_mem name content (hlexemes lexeme (hwritten lexeme hmem))
  let run := Checker.infer (ofContent name content).text inner.toTree none state
  refine ⟨run.1, run.2, fun expected => ?_, fun hreaches => ?_⟩
  · exact congrFun (Checker.infer_eq_of_hasNoLiteral hfree expected none) state
  · exact (Checker.infer_isSafe hinner hlegible state none hreaches.isSound).ne_fault

/-- After the variable `a` has been defined in `var a:i32;2*(a+a);`, the sum has a term whatever is expected of it. -/
theorem expected_steers_literals_sum :
    let source := ofContent "" "var a:i32;2*(a+a);".toList
    let leaf (op : Operator) (start : Nat) : Tree := .node ⟨op, 0, ⟨start, start + 1, Nat.le_succ start⟩⟩ []
    let sum : Tree := .node ⟨.group, 1, ⟨12, 17, by decide⟩⟩
      [.node ⟨.binary .add, 2, ⟨13, 16, by decide⟩⟩ [leaf .name 13, leaf .name 15]]
    let product : Tree := .node ⟨.binary .multiply, 2, ⟨10, 17, by decide⟩⟩ [leaf .literal 10, sum]
    ∃ state term after, source.ReadsExpression ⟨product.nodes.toArray⟩ ∧ sum.IsPartOf product ∧ sum.HasNoLiteral ∧
      source.Reaches state ∧ ∀ expected, Checker.infer source.text sum expected state = (.done term, after) := by
  intro source leaf sum product
  let type : Tree := .node ⟨.name, 0, ⟨6, 9, by decide⟩⟩ []
  let declaration : Statement :=
    .var ⟨4, 5, by decide⟩ (some ⟨type.nodes.toArray⟩) none ⟨0, 10, by decide⟩ rfl
  let state := (Checker.checkStatement source.text declaration (.start .none)).2
  have hknown : source.statements.1 = .done [declaration, .discarded ⟨product.nodes.toArray⟩] := by decide +kernel
  have hread : source.statements = (.done [declaration, .discarded ⟨product.nodes.toArray⟩], source.statements.2) :=
    Prod.ext hknown rfl
  have hexpr : source.ReadsExpression ⟨product.nodes.toArray⟩ :=
    .all hread (List.mem_cons_of_mem _ (List.mem_singleton_self _)) (List.mem_singleton_self _)
  have hreaches : source.Reaches state := .step (.start .none) (.all hread List.mem_cons_self) rfl
  have hpart : sum.IsPartOf product := .operand (List.mem_cons_of_mem _ (List.mem_singleton_self _)) (.refl sum)
  have hfree : sum.HasNoLiteral := by decide
  obtain ⟨tree, htree, -, hsame⟩ := expected_steers_literals hexpr
  have hproduct : Expression.tree ⟨product.nodes.toArray⟩ = .ok product := rfl
  obtain rfl : product = tree := Except.ok.inj (hproduct.symm.trans htree)
  obtain ⟨outcome, after, hinfer, -⟩ := hsame sum hpart hfree state
  obtain ⟨term, rfl⟩ : ∃ term, outcome = .done term := ⟨_, (congrArg Prod.fst (hinfer none)).symm.trans rfl⟩
  exact ⟨state, term, after, hexpr, hpart, hfree, hreaches, hinfer⟩

end Source

end ExprLang
