import ExprLang.Proofs.Comparison.Layout
import ExprLang.Proofs.Reading.Extents
import ExprLang.Proofs.Reading.Origins

/-!
# Printed trees

The grammar of what is printed (`Tree.PrintsAs`) is unambiguous: a printed tree is followed by the end or by what no
word goes on with, and is told by its characters up to there (`Tree.relatesTree_of_printsAs`).  So two expressions that
are read from any texts are printed alike if and only if their trees have the same operators, with as many operands, and
leaves with the same characters (`Source.render_eq_iff`).
-/

namespace ExprLang

variable {text text' rest rest' : List Char}

/-- Whether a text is over or goes on after a word of a printed tree. -/
inductive EndsWord : List Char → Prop
  | nil : EndsWord []
  | space (rest : List Char) : EndsWord (' ' :: rest)
  | closer (rest : List Char) : EndsWord (')' :: rest)

private theorem EndsWord.isSeparated (h : EndsWord rest) : IsSeparated rest := by
  cases h with
  | nil => exact .nil
  | space rest => exact .blank (by simp [Lexical.blanks])
  | closer rest => exact .mark .rparen rest

/-- A leaf is not taken for a node in brackets. -/
private theorem IsAtom.append_ne_opener {tag : Tag} {part : List Char} (h : IsAtom tag part) (hrest : EndsWord rest)
    (after : List Char) : part ++ rest ≠ '(' :: after := by
  intro heq
  have hsplit := h.splitAtom?_append hrest.isSeparated
  rw [heq] at hsplit
  cases hsplit

/-! ### Symbols -/

namespace Operator

variable {op op' : Operator}

/-- A symbol that begins with another one does not go on with what ends a word. -/
private theorem head?_drop_symbol : ∀ op ∈ all, ∀ op' ∈ all, op.symbol.toList.isPrefixOf op'.symbol.toList = true →
    (op'.symbol.toList.drop op.symbol.toList.length).head?.all (fun c => c != ' ' && c != ')') = true := by
  decide +kernel

private theorem eq_nil_of_symbol_eq_append {more : List Char} (hsymbol : op'.symbol.toList = op.symbol.toList ++ more)
    (hends : EndsWord (more ++ rest)) : more = [] := by
  have hhead := head?_drop_symbol op op.mem_all op' op'.mem_all
  rw [hsymbol, List.drop_left, List.isPrefixOf_iff_prefix] at hhead
  have hhead := hhead (List.prefix_append _ _)
  cases more with
  | nil => rfl
  | cons c more =>
    rw [List.cons_append] at hends
    cases hends with
    | space => cases hhead
    | closer => cases hhead

/-- A symbol is told by the characters up to the end of a word. -/
private theorem symbol_append_inj (hrest : EndsWord rest) (hrest' : EndsWord rest')
    (h : op.symbol.toList ++ rest = op'.symbol.toList ++ rest') :
    op.symbol.toList = op'.symbol.toList ∧ rest = rest' := by
  rcases List.append_eq_append_iff.1 h with ⟨more, hsymbol, rfl⟩ | ⟨more, hsymbol, rfl⟩
  · obtain rfl := eq_nil_of_symbol_eq_append hsymbol hrest
    rw [hsymbol, List.append_nil]
    exact ⟨rfl, rfl⟩
  · obtain rfl := eq_nil_of_symbol_eq_append hsymbol hrest'
    rw [hsymbol, List.append_nil]
    exact ⟨rfl, rfl⟩

/-- A symbol stands for one operator, or for a sign and for what is between two operands. -/
private theorem eq_or_of_symbol_eq : ∀ op ∈ all, ∀ op' ∈ all, op.symbol.toList = op'.symbol.toList →
    op = op' ∨ ∃ binaryOp ∈ BinaryOperator.all, ∃ unaryOp ∈ UnaryOperator.all,
      op = .binary binaryOp ∧ op' = .unary unaryOp ∨ op = .unary unaryOp ∧ op' = .binary binaryOp := by
  decide +kernel

private theorem eq_one_of_allowsArity_unary {op : UnaryOperator} {count : Nat}
    (h : (unary op).shape.AllowsArity count) :
    count = 1 := by
  cases op <;> exact h

/-- An operator is told by its symbol and by how many operands there are. -/
private theorem eq_of_symbol_eq {count : Nat} (hsymbol : op.symbol.toList = op'.symbol.toList)
    (hallows : op.shape.AllowsArity count) (hallows' : op'.shape.AllowsArity count) : op = op' := by
  rcases eq_or_of_symbol_eq op op.mem_all op' op'.mem_all hsymbol with
    heq | ⟨_, -, _, -, ⟨rfl, rfl⟩ | ⟨rfl, rfl⟩⟩
  · exact heq
  · have htwo : count = 2 := hallows
    have hone := eq_one_of_allowsArity_unary hallows'
    omega
  · have htwo : count = 2 := hallows'
    have hone := eq_one_of_allowsArity_unary hallows
    omega

private theorem eq_of_leaf {tag : Tag} (h : op.shape = .leaf tag) (h' : op'.shape = .leaf tag) : op = op' := by
  rcases eq_of_shape_leaf h with ⟨rfl, rfl⟩ | ⟨rfl, rfl⟩
  · rcases eq_of_shape_leaf h' with ⟨rfl, -⟩ | ⟨-, htag⟩
    · rfl
    · cases htag
  · rcases eq_of_shape_leaf h' with ⟨-, htag⟩ | ⟨rfl, -⟩
    · cases htag
    · rfl

end Operator

/-! ### The grammar of printed trees -/

namespace Tree

/-- How a tree is printed: a leaf as the word or number that it is, and a node in brackets, with its operands after its
symbol. -/
inductive PrintsAs (text : List Char) : Tree → List Char → Prop
  | plain {root tag part} (hshape : root.operator.shape = .leaf tag) (harity : root.arity = 0)
      (hspan : sliceOf text root.span = .ok part) (hatom : IsAtom tag part) : PrintsAs text (.node root []) part
  | bracketed {root operands parts} (hshape : ∀ tag, root.operator.shape ≠ .leaf tag)
      (harity : root.arity = operands.length) (hallows : root.operator.shape.AllowsArity operands.length)
      (hoperands : List.Forall₂ (PrintsAs text) operands parts) :
      PrintsAs text (.node root operands)
        ('(' :: (root.operator.symbol.toList ++ (parts.flatMap (' ' :: ·) ++ [')'])))

private theorem isPlain_iff {root : Node} :
    isPlain root = true ↔ root.arity = 0 ∧ ∃ tag, root.operator.shape = .leaf tag := by
  simp only [isPlain, Bool.and_eq_true, Bool.or_eq_true, decide_eq_true_eq]
  refine and_congr_right fun _ => ⟨?_, ?_⟩
  · rintro (hop | hop)
    · exact ⟨.decimal, by rw [hop]; rfl⟩
    · exact ⟨.name, by rw [hop]; rfl⟩
  · rintro ⟨tag, hshape⟩
    exact (Operator.eq_of_shape_leaf hshape).imp And.left And.left

mutual

/-- A tree is printed as the grammar says. -/
private theorem render_of_printsAs {tree : Tree} {shown : List Char} (h : tree.PrintsAs text shown) :
    tree.render text = .ok (String.ofList shown) := by
  cases h with
  | plain hshape harity hspan =>
    rw [render, if_pos (isPlain_iff.2 ⟨harity, _, hshape⟩), hspan]
    rfl
  | bracketed hshape _ _ hoperands =>
    rw [render, if_neg fun hplain => (isPlain_iff.1 hplain).2.elim hshape, renderAll_of_printsAs hoperands]
    refine congrArg Except.ok (String.toList_inj.1 ?_)
    simp [toString]

private theorem renderAll_of_printsAs {trees : List Tree} {parts : List (List Char)}
    (h : List.Forall₂ (PrintsAs text) trees parts) :
    renderAll text trees = .ok (String.ofList (parts.flatMap (' ' :: ·))) := by
  cases h with
  | nil => rfl
  | cons htree htrees =>
    rw [renderAll, render_of_printsAs htree, renderAll_of_printsAs htrees]
    refine congrArg Except.ok (String.toList_inj.1 ?_)
    simp

end

private theorem exists_forall₂_printsAs {trees : List Tree} (h : ∀ tree ∈ trees, ∃ shown, tree.PrintsAs text shown) :
    ∃ parts, List.Forall₂ (PrintsAs text) trees parts := by
  induction trees with
  | nil => exact ⟨[], .nil⟩
  | cons tree trees ih =>
    rw [List.forall_mem_cons] at h
    obtain ⟨part, hpart⟩ := h.1
    obtain ⟨parts, hparts⟩ := ih h.2
    exact ⟨part :: parts, .cons hpart hparts⟩

/-! ### Reading back -/

private theorem endsWord_flatMap (parts : List (List Char)) (rest : List Char) :
    EndsWord (parts.flatMap (' ' :: ·) ++ ')' :: rest) := by
  cases parts with
  | nil => exact .closer rest
  | cons part parts => exact .space _

mutual

/-- A printed tree is read in one way only. -/
private theorem relatesTree_of_printsAs {tree tree' : Tree} {shown shown' rest rest' : List Char}
    (h : tree.PrintsAs text shown) (h' : tree'.PrintsAs text' shown') (hrest : EndsWord rest) (hrest' : EndsWord rest')
    (heq : shown ++ rest = shown' ++ rest') :
    (Comparison.respaced text text').RelatesTree tree tree' ∧ rest = rest' := by
  cases h with
  | plain hshape harity hspan hatom =>
    cases h' with
    | plain hshape' harity' hspan' hatom' =>
      -- The lexer finds the same word or number again at the start of both texts.
      have hsplit := hatom.splitAtom?_append hrest.isSeparated
      rw [heq, hatom'.splitAtom?_append hrest'.isSeparated] at hsplit
      simp only [Option.some.injEq, Prod.mk.injEq] at hsplit
      obtain ⟨rfl, rfl, rfl⟩ := hsplit
      refine ⟨.node ⟨Operator.eq_of_leaf hshape hshape', harity.trans harity'.symm, trivial, fun _ _ => ?_⟩ .nil, rfl⟩
      exact ⟨_, hspan, hspan'⟩
    | bracketed => exact absurd heq (hatom.append_ne_opener hrest _)
  | bracketed hshape harity hallows hoperands =>
    cases h' with
    | plain _ _ _ hatom' => exact absurd heq.symm (hatom'.append_ne_opener hrest' _)
    | bracketed hshape' harity' hallows' hoperands' =>
      simp only [List.cons_append, List.append_assoc, List.cons.injEq, true_and] at heq
      obtain ⟨hsymbol, hparts⟩ := Operator.symbol_append_inj (endsWord_flatMap _ _) (endsWord_flatMap _ _) heq
      obtain ⟨hrelated, hrest⟩ := forall₂_relatesTree_of_printsAs hoperands hoperands' hparts
      -- How many operands there are tells a sign from what is between two operands.
      have hlength := hrelated.length_eq
      rw [← hlength] at harity' hallows'
      have hop := Operator.eq_of_symbol_eq hsymbol hallows hallows'
      refine ⟨.node ⟨hop, harity.trans harity'.symm, trivial, fun tag hleaf => ?_⟩ hrelated, hrest⟩
      exact absurd hleaf (hshape tag)

private theorem forall₂_relatesTree_of_printsAs {trees trees' : List Tree} {parts parts' : List (List Char)}
    {rest rest' : List Char} (h : List.Forall₂ (PrintsAs text) trees parts)
    (h' : List.Forall₂ (PrintsAs text') trees' parts')
    (heq : parts.flatMap (' ' :: ·) ++ ')' :: rest = parts'.flatMap (' ' :: ·) ++ ')' :: rest') :
    List.Forall₂ (Comparison.respaced text text').RelatesTree trees trees' ∧ rest = rest' := by
  cases h with
  | nil =>
    cases h' with
    | nil => exact ⟨.nil, (List.cons.inj heq).2⟩
    | cons => cases (List.cons.inj heq).1
  | cons htree htrees =>
    cases h' with
    | nil => cases (List.cons.inj heq).1
    | cons htree' htrees' =>
      simp only [List.flatMap_cons, List.cons_append, List.append_assoc, List.cons.injEq, true_and] at heq
      obtain ⟨hfirst, hparts⟩ := relatesTree_of_printsAs htree htree' (endsWord_flatMap _ _) (endsWord_flatMap _ _) heq
      obtain ⟨hothers, hrest⟩ := forall₂_relatesTree_of_printsAs htrees htrees' hparts
      exact ⟨.cons hfirst hothers, hrest⟩

end

end Tree

namespace Phrase

/-- A valid phrase of which the leaves are words and numbers is printed as the grammar says. -/
private theorem IsValid.exists_printsAs {phrase : Phrase} (h : phrase.IsValid)
    (hspelled : ∀ lexeme ∈ phrase.lexemes, ∀ op : Operator, op.shape = .leaf lexeme.tag →
      ∃ part, sliceOf text lexeme.span = .ok part ∧ IsAtom lexeme.tag part) :
    ∃ shown, phrase.toTree.PrintsAs text shown := by
  induction phrase using induction_operands with
  | step phrase ih =>
    have hbracketed : (∀ tag, phrase.operator.shape ≠ .leaf tag) → ∃ shown, phrase.toTree.PrintsAs text shown := by
      intro hshape
      have hoperands : ∀ tree ∈ phrase.operands.map toTree, ∃ shown, tree.PrintsAs text shown := by
        intro tree hmem
        obtain ⟨operand, hoperand, rfl⟩ := List.mem_map.1 hmem
        obtain ⟨hvalid, hwritten⟩ := h.of_mem_operands hoperand
        exact ih operand hoperand hvalid fun lexeme hlexeme => hspelled lexeme (hwritten lexeme hlexeme)
      obtain ⟨parts, hparts⟩ := Tree.exists_forall₂_printsAs hoperands
      have hallows := h.arranges.allowsArity
      rw [List.length_map] at hallows
      rw [toTree_eq]
      exact ⟨_, .bracketed hshape (by rw [List.length_map]; rfl) (by rwa [List.length_map]) hparts⟩
    cases h with
    | @leaf op lexeme hshape =>
      obtain ⟨part, hpart, hatom⟩ := hspelled lexeme (List.mem_singleton_self _) op hshape
      exact ⟨part, .plain hshape rfl hpart hatom⟩
    | before hshape => exact hbracketed (by simp [operator, hshape])
    | after hshape => exact hbracketed (by simp [operator, hshape])
    | around hshape => exact hbracketed (by simp [operator, hshape])
    | between hshape => exact hbracketed (by simp [operator, hshape])
    | sequence hshape => exact hbracketed (by simp [operator, hshape])
    | application hshape => exact hbracketed (by simp [operator, hshape])

end Phrase

/-- Whether an expression has a tree, and is printed as that tree is. -/
structure Expression.IsShownAs (text : List Char) (expr : Expression) (tree : Tree) (shown : String) : Prop where
  tree_eq : expr.tree = .ok tree
  listed : tree.IsListedAs expr.nodes.toList
  render_eq : expr.render text = .ok shown

namespace Source

variable {name name' : String} {content content' : List Char} {expr expr' : Expression}

private theorem ReadsExpression.exists_isShownAs (h : (ofContent name content).ReadsExpression expr) :
    ∃ tree shown, expr.IsShownAs (ofContent name content).text tree (String.ofList shown) ∧
      tree.PrintsAs (ofContent name content).text shown := by
  obtain ⟨phrase, hvalid, hlexemes, rfl⟩ := h.exists_phrase
  obtain ⟨shown, hshown⟩ := hvalid.exists_printsAs fun lexeme hmem op hshape =>
    exists_isAtom name content (hlexemes lexeme hmem) hshape
  refine ⟨phrase.toTree, shown, ⟨phrase.tree_expression, ⟨phrase.isWhole_toTree, rfl⟩, ?_⟩, hshown⟩
  rw [Expression.render, phrase.isEmpty_expression, phrase.tree_expression]
  exact Tree.render_of_printsAs hshown

/-- Expressions that are read from any two texts are printed alike if and only if their trees have the same operators,
with as many operands, and leaves with the same characters. -/
theorem render_eq_iff (h : (ofContent name content).ReadsExpression expr)
    (h' : (ofContent name' content').ReadsExpression expr') :
    ∃ tree tree' shown shown', expr.IsShownAs (ofContent name content).text tree shown ∧
      expr'.IsShownAs (ofContent name' content').text tree' shown' ∧
      (shown = shown' ↔ (Comparison.respaced (ofContent name content).text
        (ofContent name' content').text).RelatesTree tree tree') := by
  obtain ⟨tree, shown, hshown, hprints⟩ := h.exists_isShownAs
  obtain ⟨tree', shown', hshown', hprints'⟩ := h'.exists_isShownAs
  refine ⟨tree, tree', _, _, hshown, hshown', fun heq => ?_, fun hrelated => ?_⟩
  · have hsame : shown = shown' := String.ofList_injective heq
    exact (Tree.relatesTree_of_printsAs hprints hprints' .nil .nil (congrArg (· ++ []) hsame)).1
  · have hrender := Comparison.render_respaced hrelated _ (Tree.render_of_printsAs hprints)
    exact Except.ok.inj (hrender.symm.trans (Tree.render_of_printsAs hprints'))

/-- A sign and a difference, which have the same symbol, in texts with different spaces. -/
theorem render_eq_iff_negated :
    let source := ofContent "" "-(a-1);".toList
    let other := ofContent "" " - ( a - 1 ) ;".toList
    let negated (whole group difference name literal : Span) : Tree :=
      .node ⟨.unary .negate, 1, whole⟩ [.node ⟨.group, 1, group⟩ [.node ⟨.binary .subtract, 2, difference⟩
        [.node ⟨.name, 0, name⟩ [], .node ⟨.literal, 0, literal⟩ []]]]
    let tree := negated ⟨0, 6, by decide⟩ ⟨1, 6, by decide⟩ ⟨2, 5, by decide⟩ ⟨2, 3, by decide⟩ ⟨4, 5, by decide⟩
    let tree' := negated ⟨1, 12, by decide⟩ ⟨3, 12, by decide⟩ ⟨5, 10, by decide⟩ ⟨5, 6, by decide⟩ ⟨9, 10, by decide⟩
    source.ReadsExpression ⟨tree.nodes.toArray⟩ ∧ other.ReadsExpression ⟨tree'.nodes.toArray⟩ ∧
      Expression.IsShownAs source.text ⟨tree.nodes.toArray⟩ tree "(- (() (- a 1)))" ∧
      Expression.IsShownAs other.text ⟨tree'.nodes.toArray⟩ tree' "(- (() (- a 1)))" ∧
      (Comparison.respaced source.text other.text).RelatesTree tree tree' := by
  intro source other negated tree tree'
  have hread : source.statements.1 = .done [.discarded ⟨tree.nodes.toArray⟩] := by decide +kernel
  have hread' : other.statements.1 = .done [.discarded ⟨tree'.nodes.toArray⟩] := by decide +kernel
  have hexpr : source.ReadsExpression ⟨tree.nodes.toArray⟩ :=
    .all (Prod.ext hread rfl) (List.mem_singleton_self _) (List.mem_singleton_self _)
  have hexpr' : other.ReadsExpression ⟨tree'.nodes.toArray⟩ :=
    .all (Prod.ext hread' rfl) (List.mem_singleton_self _) (List.mem_singleton_self _)
  obtain ⟨first, second, shown, shown', hfirst, hsecond, hiff⟩ := render_eq_iff hexpr hexpr'
  have htree : Expression.tree ⟨tree.nodes.toArray⟩ = .ok tree := rfl
  have htree' : Expression.tree ⟨tree'.nodes.toArray⟩ = .ok tree' := rfl
  obtain rfl : tree = first := Except.ok.inj (htree.symm.trans hfirst.tree_eq)
  obtain rfl : tree' = second := Except.ok.inj (htree'.symm.trans hsecond.tree_eq)
  have hshown : Expression.render source.text ⟨tree.nodes.toArray⟩ = .ok "(- (() (- a 1)))" := by decide +kernel
  have hshown' : Expression.render other.text ⟨tree'.nodes.toArray⟩ = .ok "(- (() (- a 1)))" := by decide +kernel
  obtain rfl := Except.ok.inj (hshown.symm.trans hfirst.render_eq)
  obtain rfl := Except.ok.inj (hshown'.symm.trans hsecond.render_eq)
  exact ⟨hexpr, hexpr', hfirst, hsecond, hiff.1 rfl⟩

end Source

end ExprLang
