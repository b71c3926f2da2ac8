import ExprLang.Proofs.Expression.Listing
import ExprLang.Proofs.Expression.PostOrder
import ExprLang.Proofs.Reading.Grammar

/-!
# Precedence of trees

A tree has the lexemes that it is written with, in their order, and operators that bind more tightly stand further
down.  Both are said here of the tree alone (`Tree.tokens`, `Tree.KeepsPrecedence`), without the phrase that it comes
from.  Whatever has been read or has failed before, an expression has the tree of exactly the lexemes that are passed,
with the right precedence, and it ends where no operator of its level goes on (`Source.readExpression_is_exact`).
-/

namespace ExprLang

/-! ### Lexemes of trees -/

/-- A lexeme as far as a tree tells it: where a mark stands is not kept. -/
inductive Token where
  | mark (mark : Mark)
  | leaf (tag : Tag) (span : Span)
  deriving DecidableEq, Repr

/-- What a tree tells of a lexeme. -/
def Lexeme.token (lexeme : Lexeme) : Token :=
  match lexeme.tag with
  | .mark mark => .mark mark
  | tag => .leaf tag lexeme.span

/-- The lexemes of an operator of a shape, in their order with those of its operands. -/
def Shape.arrange (span : Span) : Shape → (operands : List (List Token)) → List Token
  | leaf tag, _ => [.leaf tag span]
  | before sign, operands => .mark sign :: operands.flatten
  | after sign, operands => operands.flatten ++ [.mark sign]
  | around opener closer, operands => .mark opener :: operands.flatten ++ [.mark closer]
  | between sign, operands => [.mark sign].intercalate operands
  | sequence opener closer, operands => .mark opener :: [.mark .comma].intercalate operands ++ [.mark closer]
  | application opener closer, operands =>
    operands.head?.getD [] ++ .mark opener :: [.mark .comma].intercalate operands.tail ++ [.mark closer]

namespace Tree

mutual
/-- The lexemes of a tree in their order. -/
def tokens : Tree → List Token
  | node root operands => root.operator.shape.arrange root.span (tokensOfAll operands)
  | broken _ _ => []

/-- The lexemes of some trees, apart from each other. -/
def tokensOfAll : List Tree → List (List Token)
  | [] => []
  | tree :: trees => tree.tokens :: tokensOfAll trees
end

private theorem tokensOfAll_eq_map (trees : List Tree) : tokensOfAll trees = trees.map tokens := by
  induction trees with
  | nil => rfl
  | cons tree trees ih => rw [tokensOfAll, ih, List.map_cons]

/-! ### Levels of trees -/

/-- The level of the root. -/
def level (tree : Tree) : Level :=
  tree.operator.level

/-- Whether no mark of the root stands before its last operand. -/
def IsClosed (tree : Tree) : Prop :=
  ∀ sign, tree.operator.shape ≠ .between sign ∧ tree.operator.shape ≠ .before sign

end Tree

/-- Whether an operator may have some operands: on the left of a mark are those that bind at least as tightly, on the
right those that bind more tightly; what an operator after an operand applies to is closed, and what is in brackets is
no assignment. -/
def Operator.Takes (op : Operator) (operands : List Tree) : Prop :=
  match op.shape with
  | .leaf _ => operands = []
  | .before _ => ∃ operand, operands = [operand] ∧ .unary ≤ operand.level
  | .after _ => ∃ operand, operands = [operand] ∧ operand.IsClosed
  | .around _ _ => ∃ operand, operands = [operand] ∧ .nested ≤ operand.level
  | .between _ => ∃ left right, operands = [left, right] ∧ op.level ≤ left.level ∧ op.level < right.level
  | .sequence _ _ => ∀ operand ∈ operands, .nested ≤ operand.level
  | .application _ _ => ∃ callee arguments, operands = callee :: arguments ∧ callee.IsClosed ∧ arguments ≠ [] ∧
      ∀ argument ∈ arguments, .nested ≤ argument.level

/-- Whether each node of a tree has operands that its operator may have. -/
inductive Tree.KeepsPrecedence : Tree → Prop
  | node {root operands} (htakes : root.operator.Takes operands)
      (hoperands : ∀ operand ∈ operands, operand.KeepsPrecedence) : (Tree.node root operands).KeepsPrecedence

/-! ### Trees of phrases -/

private theorem Lexeme.token_of_mark {lexeme : Lexeme} {sign : Mark} (h : lexeme.tag = .mark sign) :
    lexeme.token = .mark sign := by
  rw [token, h]

/-- Parts with commas between them. -/
private theorem map_token_interleave {parts : List (List Lexeme)} {commas : List Lexeme}
    (hcommas : ∀ comma ∈ commas, comma.tag = .mark .comma) (hcount : commas.length = parts.length - 1) :
    (interleave parts commas).map Lexeme.token
      = [.mark .comma].intercalate (parts.map (·.map Lexeme.token)) := by
  fun_induction interleave parts commas with
  | case1 => rfl
  | case2 part => rw [List.map_singleton, List.intercalate_singleton]
  | case3 part parts hparts ih =>
    have := List.length_pos_iff.2 hparts
    rw [List.length_nil, List.length_cons] at hcount
    omega
  | case4 part parts comma commas hparts ih =>
    obtain ⟨second, others, rfl⟩ := List.exists_cons_of_ne_nil hparts
    rw [List.forall_mem_cons] at hcommas
    have hrest := ih hcommas.2 (by simpa using hcount)
    rw [List.map_append, List.map_cons, hrest, Lexeme.token_of_mark hcommas.1, List.map_cons, List.map_cons,
      List.map_cons, List.intercalate_cons_cons, List.append_assoc]
    rfl

namespace Phrase

variable {phrase : Phrase}

private theorem operator_toTree (phrase : Phrase) : phrase.toTree.operator = phrase.operator := by
  rw [toTree_eq]
  rfl

private theorem level_toTree (phrase : Phrase) : phrase.toTree.level = phrase.level := by
  rw [Tree.level, operator_toTree, level]

private theorem IsValid.isClosed_toTree (h : phrase.IsValid) (hclosed : phrase.trailsOperand = false) :
    phrase.toTree.IsClosed := by
  intro sign
  rw [operator_toTree]
  cases h with
  | before => exact absurd hclosed (by simp [trailsOperand])
  | between => exact absurd hclosed (by simp [trailsOperand])
  | leaf hshape => simp [operator, hshape]
  | after hshape => simp [operator, hshape]
  | around hshape => simp [operator, hshape]
  | sequence hshape => simp [operator, hshape]
  | application hshape => simp [operator, hshape]

private theorem tokens_toTree_eq (phrase : Phrase) : phrase.toTree.tokens
    = phrase.operator.shape.arrange phrase.span (phrase.operands.map fun operand => operand.toTree.tokens) := by
  rw [toTree_eq, Tree.tokens, Tree.tokensOfAll_eq_map, List.map_map]
  rfl

/-- The tree of a valid phrase has its lexemes, in the same order. -/
private theorem IsValid.tokens_toTree (h : phrase.IsValid) :
    phrase.toTree.tokens = phrase.lexemes.map Lexeme.token := by
  have hlist : ∀ {operands : List Phrase} {commas : List Lexeme},
      (∀ operand ∈ operands, operand.toTree.tokens = operand.lexemes.map Lexeme.token) →
      (∀ comma ∈ commas, comma.tag = .mark .comma) → commas.length = operands.length - 1 →
      [.mark .comma].intercalate (operands.map fun operand => operand.toTree.tokens)
        = (interleave (lexemesOfAll operands) commas).map Lexeme.token := by
    intro operands commas hoperands hcommas hcount
    rw [lexemesOfAll_eq_map, map_token_interleave hcommas (by simpa using hcount), List.map_map]
    exact congrArg _ (List.map_congr_left hoperands)
  induction h with
  | leaf hshape =>
    rw [tokens_toTree_eq, operator, hshape, Shape.arrange, lexemes, List.map_singleton, Lexeme.token]
    rcases Operator.eq_of_shape_leaf hshape with ⟨-, htag⟩ | ⟨-, htag⟩ <;> rw [htag] <;> rfl
  | before hshape hmark _ _ ih =>
    rw [tokens_toTree_eq, operator, hshape, operands, List.map_singleton, Shape.arrange, List.flatten_singleton, ih,
      lexemes, List.map_cons, Lexeme.token_of_mark hmark]
  | after hshape hmark _ _ ih =>
    rw [tokens_toTree_eq, operator, hshape, operands, List.map_singleton, Shape.arrange, List.flatten_singleton, ih,
      lexemes, List.map_append, List.map_singleton, Lexeme.token_of_mark hmark]
  | around hshape hopener hcloser _ _ ih =>
    rw [tokens_toTree_eq, operator, hshape, operands, List.map_singleton, Shape.arrange, List.flatten_singleton, ih,
      lexemes, List.map_append, List.map_cons, List.map_singleton, Lexeme.token_of_mark hopener,
      Lexeme.token_of_mark hcloser]
  | between hshape hmark _ _ _ _ ihLeft ihRight =>
    rw [tokens_toTree_eq, operator, hshape, operands, List.map_cons, List.map_singleton, Shape.arrange,
      List.intercalate_cons_cons, List.intercalate_singleton, ihLeft, ihRight, lexemes, List.map_append, List.map_cons,
      Lexeme.token_of_mark hmark, List.append_assoc, List.singleton_append]
  | sequence hshape hopener hcloser hcommas hcount _ _ ih =>
    rw [tokens_toTree_eq, operator, hshape, operands, Shape.arrange, hlist ih hcommas hcount, lexemes, List.map_append,
      List.map_cons, List.map_singleton, Lexeme.token_of_mark hopener, Lexeme.token_of_mark hcloser]
  | application hshape hopener hcloser _ hcommas hcount _ _ _ ihCallee ih =>
    rw [tokens_toTree_eq, operator, hshape, operands, List.map_cons, Shape.arrange, List.head?_cons, List.tail_cons,
      Option.getD_some, ihCallee, hlist ih hcommas (by omega), lexemes, List.map_append, List.map_append, List.map_cons,
      List.map_singleton, Lexeme.token_of_mark hopener, Lexeme.token_of_mark hcloser]

/-- The root of a valid phrase may have its operands. -/
private theorem IsValid.takes_operands (h : phrase.IsValid) : phrase.operator.Takes (phrase.operands.map toTree) := by
  have hnested : ∀ {operands : List Phrase}, (∀ operand ∈ operands, .nested ≤ operand.level) →
      ∀ tree ∈ operands.map toTree, .nested ≤ tree.level := by
    intro operands hoperands tree hmem
    obtain ⟨operand, hoperand, rfl⟩ := List.mem_map.1 hmem
    rw [level_toTree]
    exact hoperands operand hoperand
  rw [Operator.Takes]
  cases h with
  | leaf hshape =>
    rw [operator, hshape]
    rfl
  | before hshape _ hlevel =>
    rw [operator, hshape]
    exact ⟨_, rfl, by rwa [level_toTree]⟩
  | after hshape _ hclosed hvalid =>
    rw [operator, hshape]
    exact ⟨_, rfl, hvalid.isClosed_toTree hclosed⟩
  | around hshape _ _ hlevel =>
    rw [operator, hshape]
    exact ⟨_, rfl, by rwa [level_toTree]⟩
  | between hshape _ hleft hright =>
    rw [operator, hshape]
    exact ⟨_, _, rfl, by rwa [level_toTree], by rwa [level_toTree]⟩
  | sequence hshape _ _ _ _ hlevels =>
    rw [operator, hshape]
    exact hnested hlevels
  | application hshape _ _ hclosed _ hcount hlevels hcallee =>
    rw [operator, hshape]
    refine ⟨_, _, rfl, hcallee.isClosed_toTree hclosed, fun hnil => ?_, hnested hlevels⟩
    rw [List.map_eq_nil_iff.1 hnil] at hcount
    cases hcount

/-- The tree of a valid phrase has the right precedence. -/
private theorem IsValid.keepsPrecedence_toTree (h : phrase.IsValid) : phrase.toTree.KeepsPrecedence := by
  induction phrase using induction_operands with
  | step phrase ih =>
    rw [toTree_eq]
    refine .node h.takes_operands fun tree hmem => ?_
    obtain ⟨operand, hoperand, rfl⟩ := List.mem_map.1 hmem
    exact ih operand hoperand (h.of_mem_operands hoperand).1

end Phrase

/-! ### Readers -/

/-- A reader that moves its cursor, whether it is done or fails, keeps its lexemes. -/
private theorem Reader.lexemes_of_meets {α : Type} {reader : Reader α} {before after : ReaderState}
    {outcome : Outcome α} (h : reader.Meets before (fun _ last => ∃ passed, before.cursor.Moved last.cursor passed)
      fun last => ∃ passed, before.cursor.Moved last.cursor passed)
    (hrun : reader before = (outcome, after)) : after.cursor.lexemes = before.cursor.lexemes := by
  rcases h.cases with ⟨_, last, hlast, _, hmoved⟩ | ⟨last, hlast, _, hmoved⟩
  · rw [hrun] at hlast
    rw [(Prod.mk.inj hlast).2]
    exact hmoved.lexemes
  · rw [hrun] at hlast
    rw [(Prod.mk.inj hlast).2]
    exact hmoved.lexemes

namespace Source

/-- Whether a reader of a source comes to a state by reading expressions and statements, whether they are read or not,
whatever has been reported before. -/
inductive ReachesReader (source : Source) : ReaderState → Prop
  | start {cursor} (reports) (hcursor : source.lexemes.cursor = .ok cursor) :
      source.ReachesReader (.start cursor reports)
  | expression {before min outcome after} (hbefore : source.ReachesReader before)
      (hread : Reader.readExpression source.text min before = (outcome, after)) : source.ReachesReader after
  | statement {before outcome after} (hbefore : source.ReachesReader before)
      (hread : Reader.readStatement source.text before = (outcome, after)) : source.ReachesReader after

variable {name : String} {content : List Char} {state after : ReaderState}

/-- A reader of a source always moves over its lexemes. -/
theorem ReachesReader.lexemes (h : (ofContent name content).ReachesReader state) :
    state.cursor.lexemes = (ofContent name content).lexemes := by
  have htext := areIn_lexemes name content
  induction h with
  | start reports hcursor =>
    obtain ⟨cursor, hexists, hlexemes, -⟩ := (ofContent name content).exists_cursor
    rw [hcursor, Except.ok.injEq] at hexists
    rw [hexists]
    exact hlexemes
  | expression hbefore hread ih =>
    rw [← ih] at htext
    refine (Reader.lexemes_of_meets ((Reader.readExpression_meets htext _).mono ?_ ?_) hread).trans ih
    · rintro _ last ⟨phrase, -, -, hbuilt⟩
      exact ⟨_, hbuilt.moved⟩
    · exact fun _ hstopped => hstopped.moved
  | statement hbefore hread ih =>
    rw [← ih] at htext
    refine (Reader.lexemes_of_meets ((Reader.readStatement_meets htext).mono ?_ ?_) hread).trans ih
    · rintro _ last ⟨clause, skipped, semicolon, -, hhasRead⟩
      exact ⟨_, hhasRead.moved⟩
    · exact fun _ hstopped => hstopped.moved

/-- Whatever a reader has come across before, an expression that it reads lists the nodes of one tree, which has exactly
the lexemes that are passed, in their order.  Its root binds as tightly as asked for at least, precedence is kept all
through it, and no operator that binds so tightly goes on with it. -/
theorem readExpression_is_exact (hreaches : (ofContent name content).ReachesReader state) {min : Level}
    {expr : Expression} (hread : Reader.readExpression (ofContent name content).text min state = (.done expr, after)) :
    ∃ tree passed, expr.tree = .ok tree ∧ tree.IsListedAs expr.nodes.toList ∧
      state.cursor.Moved after.cursor passed ∧ tree.tokens = passed.map Lexeme.token ∧
      min ≤ tree.level ∧ tree.KeepsPrecedence ∧
      ∀ op : Operator, op.shape.isOpening = false → op.shape.leading = after.cursor.peek.tag → ¬min ≤ op.level := by
  have htext := areIn_lexemes name content
  rw [← hreaches.lexemes] at htext
  have hmeets := Reader.readExpression_meets htext min
  rw [Stage.meets_of_done hread] at hmeets
  obtain ⟨phrase, hphrase, rfl, hbuilt⟩ := hmeets
  refine ⟨phrase.toTree, phrase.lexemes, phrase.tree_expression, ⟨phrase.isWhole_toTree, rfl⟩, hbuilt.moved,
    hphrase.valid.tokens_toTree, ?_, hphrase.valid.keepsPrecedence_toTree, fun op hopening hleading => ?_⟩
  · rw [Phrase.level_toTree]
    exact hphrase.le_level
  · exact (Operator.leading?_eq_none_iff hopening hleading).1 hphrase.ends

/-- The name `a` that is followed by `-f(x)*2`. -/
private def difference : Source :=
  ofContent "" ['a', '-', 'f', '(', 'x', ')', '*', '2']

/-- The span of the one character that begins there. -/
private def cell (start : Nat) : Span :=
  ⟨start, start + 1, Nat.le_succ start⟩

/-- The expression `-f(x)*2` there. -/
private def negatedCall : Phrase :=
  .between (.binary .multiply)
    (.before (.unary .negate) ⟨.mark .minus, cell 1⟩
      (.application .call (.leaf .name ⟨.name, cell 2⟩) ⟨.mark .lparen, cell 3⟩
        [.leaf .name ⟨.name, cell 4⟩] [] ⟨.mark .rparen, cell 5⟩))
    ⟨.mark .star, cell 6⟩ (.leaf .literal ⟨.decimal, cell 7⟩)

private theorem isOperand_negatedCall : negatedCall.IsOperand .factor .endOfFile := by
  have hvalid : negatedCall.IsValid := by
    refine .between rfl rfl (by decide) (by decide) (.before rfl rfl (by decide) ?_) (.leaf rfl)
    exact .application rfl rfl rfl rfl (by simp) rfl (List.forall_mem_singleton.2 (by decide)) (.leaf rfl)
      (List.forall_mem_singleton.2 (.leaf rfl))
  have hends : Operator.leading? false .factor .endOfFile = none := by decide
  exact ⟨⟨hvalid, by decide, hvalid.admits_of_leading?_eq_none (by decide) hends⟩, by decide, hends⟩

/-- After the name alone has been read, the minus is a sign, and what it stands before binds more tightly than the
product. -/
theorem readExpression_is_exact_product :
    ∃ (state : ReaderState) (expr : Expression) (after : ReaderState) (tree : Tree) (passed : List Lexeme),
      difference.ReachesReader state ∧ Reader.readExpression difference.text .factor state = (.done expr, after) ∧
      expr.tree = .ok tree ∧ tree.operator = .binary .multiply ∧ state.cursor.Moved after.cursor passed ∧
      passed.map Lexeme.token = [.mark .minus, .leaf .name (cell 2), .mark .lparen,
        .leaf .name (cell 4), .mark .rparen, .mark .star, .leaf .decimal (cell 7)] ∧
      tree.KeepsPrecedence := by
  obtain ⟨cursor, hcursor, -, hahead⟩ := difference.exists_cursor
  let name : Phrase := .leaf .name ⟨.name, cell 0⟩
  have hname : name.IsOperand .unary (.mark .minus) :=
    ⟨⟨.leaf rfl, by decide, trivial⟩, by decide, by decide⟩
  have hlexemes : difference.lexemes.toList
      = name.lexemes ++ negatedCall.lexemes ++ [closingLexeme difference.text] := by
    cbv
  have hstart : (ReaderState.start cursor .none).cursor.ahead
      = name.lexemes ++ (negatedCall.lexemes ++ [closingLexeme difference.text]) := by
    rw [← List.append_assoc, ← hlexemes]
    exact hahead
  have hfirst : (Reader.readExpression difference.text .unary).Meets (.start cursor .none) _ _ :=
    Reader.readExpression_meets_of_ahead hname (by decide) rfl hstart
  obtain ⟨_, state, hfirst, -, hbuilt⟩ := hfirst.exists_done
  have hreaches : difference.ReachesReader state := .expression (.start .none hcursor) hfirst
  have hsecond : (Reader.readExpression difference.text .factor).Meets state _ _ :=
    Reader.readExpression_meets_of_ahead isOperand_negatedCall (by decide) hbuilt.nesting (hbuilt.moved.ahead_eq hstart)
  obtain ⟨_, after, hread, rfl, -⟩ := hsecond.exists_done
  obtain ⟨tree, passed, htree, -, hmoved, htokens, -, hkeeps, -⟩ := readExpression_is_exact hreaches hread
  have hsame : negatedCall.toTree = tree := by
    rwa [Phrase.tree_expression, Except.ok.injEq] at htree
  refine ⟨state, _, after, tree, passed, hreaches, hread, htree, ?_, hmoved, ?_, hkeeps⟩
  · rw [← hsame]
    rfl
  · rw [← htokens, ← hsame]
    rfl

end Source

end ExprLang
