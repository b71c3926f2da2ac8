import ExprLang.Expression.Display
import ExprLang.Proofs.Expression.Subtrees
import ExprLang.Proofs.Text.Boundaries

/-!
# Trees in post-order

The nodes of a phrase in post-order are built up to its tree again (`Phrase.tree_expression`), and a phrase whose
leaves stand for parts of a text is printed (`Phrase.exists_render`).
-/

namespace ExprLang

namespace Phrase

/-- The tree of the nodes of a phrase is its tree. -/
theorem tree_expression (phrase : Phrase) : phrase.expression.tree = .ok phrase.toTree :=
  phrase.isWhole_toTree.tree_eq rfl

theorem isEmpty_expression (phrase : Phrase) : phrase.expression.isEmpty = false := by
  rw [Expression.isEmpty, expression, nodes_eq]
  simp

theorem root_expression (phrase : Phrase) : phrase.expression.root = .ok (phrase.expression.size - 1) := by
  rw [Expression.root, phrase.isEmpty_expression]
  rfl

theorem node_root_expression (phrase : Phrase) :
    phrase.expression.node (phrase.expression.size - 1) = .ok phrase.root := by
  have hlast : phrase.expression.nodes[phrase.expression.size - 1]? = some phrase.root := by
    rw [Expression.size, ← Array.back?_eq_getElem?, Phrase.expression, ← Array.getLast?_toList, Phrase.nodes_eq]
    simp
  rw [Expression.node, hlast]

/-! ### Spans -/

variable {text : List Char} {phrase : Phrase}

/-- A phrase stands at a place if its lexemes do, provided that places can be joined. -/
theorem IsValid.span_of_join {places : Span → Prop} (h : phrase.IsValid)
    (hjoin : ∀ a b, places a → places b → places (a.join b))
    (hlexemes : ∀ lexeme ∈ phrase.lexemes, places lexeme.span) : places phrase.span := by
  -- A span reaches from the first lexeme or operand to the last one.
  induction h with
  | leaf => exact hlexemes _ (List.mem_singleton_self _)
  | before _ _ _ _ ih =>
    rw [lexemes, List.forall_mem_cons] at hlexemes
    exact hjoin _ _ hlexemes.1 (ih hlexemes.2)
  | after _ _ _ _ ih =>
    rw [lexemes, List.forall_mem_append, List.forall_mem_singleton] at hlexemes
    exact hjoin _ _ (ih hlexemes.1) hlexemes.2
  | around =>
    rw [lexemes, List.forall_mem_append, List.forall_mem_cons, List.forall_mem_singleton] at hlexemes
    exact hjoin _ _ hlexemes.1.1 hlexemes.2
  | between _ _ _ _ _ _ ihLeft ihRight =>
    rw [lexemes, List.forall_mem_append, List.forall_mem_cons] at hlexemes
    exact hjoin _ _ (ihLeft hlexemes.1) (ihRight hlexemes.2.2)
  | sequence =>
    rw [lexemes, List.forall_mem_append, List.forall_mem_cons, List.forall_mem_singleton] at hlexemes
    exact hjoin _ _ hlexemes.1.1 hlexemes.2
  | application _ _ _ _ _ _ _ _ _ ih _ =>
    rw [lexemes, List.forall_mem_append, List.forall_mem_append, List.forall_mem_singleton] at hlexemes
    exact hjoin _ _ (ih hlexemes.1.1) hlexemes.2

/-- What a phrase covers is a part of the text if its lexemes are. -/
theorem IsValid.exists_sliceOf_span (h : phrase.IsValid)
    (htext : ∀ lexeme ∈ phrase.lexemes, ∃ part, sliceOf text lexeme.span = .ok part) :
    ∃ part, sliceOf text phrase.span = .ok part :=
  @span_of_join phrase (fun span => ∃ part, sliceOf text span = .ok part) h (fun _ _ => exists_sliceOf_join) htext

/-- The operands of a valid phrase are valid, and they are written with lexemes of it. -/
theorem IsValid.of_mem_operands (h : phrase.IsValid) {operand : Phrase} (hmem : operand ∈ phrase.operands) :
    operand.IsValid ∧ ∀ lexeme ∈ operand.lexemes, lexeme ∈ phrase.lexemes := by
  have hlist : ∀ (operands : List Phrase) (commas : List Lexeme), operand ∈ operands →
      ∀ lexeme ∈ operand.lexemes, lexeme ∈ interleave (lexemesOfAll operands) commas := by
    intro operands commas hoperand lexeme hlexeme
    rw [lexemesOfAll_eq_map]
    exact mem_interleave_of_mem commas (List.mem_map_of_mem hoperand) hlexeme
  cases h with
  | leaf => exact absurd hmem List.not_mem_nil
  | before _ _ _ hvalid =>
    obtain rfl := List.mem_singleton.1 hmem
    exact ⟨hvalid, fun lexeme h => List.mem_cons_of_mem _ h⟩
  | after _ _ _ hvalid =>
    obtain rfl := List.mem_singleton.1 hmem
    exact ⟨hvalid, fun lexeme h => List.mem_append_left _ h⟩
  | around _ _ _ _ hvalid =>
    obtain rfl := List.mem_singleton.1 hmem
    exact ⟨hvalid, fun lexeme h => List.mem_append_left _ (List.mem_cons_of_mem _ h)⟩
  | between _ _ _ _ hleft hright =>
    rcases List.mem_cons.1 hmem with rfl | hmem
    · exact ⟨hleft, fun lexeme h => List.mem_append_left _ h⟩
    · obtain rfl := List.mem_singleton.1 hmem
      exact ⟨hright, fun lexeme h => List.mem_append_right _ (List.mem_cons_of_mem _ h)⟩
  | sequence _ _ _ _ _ _ hvalid =>
    refine ⟨hvalid operand hmem, fun lexeme h => ?_⟩
    exact List.mem_append_left _ (List.mem_cons_of_mem _ (hlist _ _ hmem lexeme h))
  | application _ _ _ _ _ _ _ hcallee hvalid =>
    rcases List.mem_cons.1 hmem with rfl | hmem
    · exact ⟨hcallee, fun lexeme h => List.mem_append_left _ (List.mem_append_left _ h)⟩
    · refine ⟨hvalid operand hmem, fun lexeme h => ?_⟩
      exact List.mem_append_left _ (List.mem_append_right _ (List.mem_cons_of_mem _ (hlist _ _ hmem lexeme h)))

/-! ### Printing -/

private theorem exists_renderAll {trees : List Tree} (h : ∀ tree ∈ trees, ∃ shown, tree.render text = .ok shown) :
    ∃ shown, Tree.renderAll text trees = .ok shown := by
  induction trees with
  | nil => exact ⟨"", rfl⟩
  | cons tree trees ih =>
    rw [List.forall_mem_cons] at h
    obtain ⟨first, hfirst⟩ := h.1
    obtain ⟨rest, hrest⟩ := ih h.2
    exact ⟨" " ++ first ++ rest, by rw [Tree.renderAll, hfirst, hrest]; rfl⟩

/-- A valid phrase whose lexemes stand for parts of a text is printed. -/
private theorem IsValid.exists_render_toTree (h : phrase.IsValid)
    (htext : ∀ lexeme ∈ phrase.lexemes, ∃ part, sliceOf text lexeme.span = .ok part) :
    ∃ shown, phrase.toTree.render text = .ok shown := by
  induction phrase using induction_operands with
  | step phrase ih =>
    obtain ⟨part, hpart⟩ := h.exists_sliceOf_span htext
    have hoperands : ∀ tree ∈ phrase.operands.map toTree, ∃ shown, tree.render text = .ok shown := by
      intro tree hmem
      obtain ⟨operand, hoperand, rfl⟩ := List.mem_map.1 hmem
      obtain ⟨hvalid, hlexemes⟩ := h.of_mem_operands hoperand
      exact ih operand hoperand hvalid fun lexeme hmem => htext lexeme (hlexemes lexeme hmem)
    obtain ⟨shown, hshown⟩ := exists_renderAll hoperands
    rw [toTree_eq, Tree.render]
    by_cases hplain : Tree.isPlain phrase.root = true
    · have hspan : sliceOf text phrase.root.span = .ok part := hpart
      rw [if_pos hplain, hspan]
      exact ⟨_, rfl⟩
    · rw [if_neg hplain, hshown]
      exact ⟨_, rfl⟩

/-- A valid expression whose lexemes stand for parts of a text is printed. -/
theorem IsValid.exists_render (h : phrase.IsValid)
    (htext : ∀ lexeme ∈ phrase.lexemes, ∃ part, sliceOf text lexeme.span = .ok part) :
    ∃ shown, phrase.expression.render text = .ok shown := by
  obtain ⟨shown, hshown⟩ := h.exists_render_toTree htext
  refine ⟨shown, ?_⟩
  rw [Expression.render, phrase.isEmpty_expression, tree_expression]
  exact hshown

end Phrase

end ExprLang
