import ExprLang.Proofs.Expression.Subtrees
import ExprLang.Proofs.Reading.Courses
import ExprLang.Proofs.Reading.Passive

/-!
# Depths of what is being built

While expressions are read, the nodes that have been built are those of finished subtrees, and each subtree that is no
operand yet has its depth on the stack (`ReaderState.HasFinished`).  So in every state that is passed all subtrees are
accounted for, and no more operands are being read one inside the other than are allowed (`ReaderState.IsAccounted`).
Where a reader stops, this holds as well, unless a node has just been refused because its tree would be too deep: then
it is the depths of its operands that are not on the stack any more (`ReaderState.HasRefused`), and the expression is
given up.  The main statement is `Course.keeps_readAll`.
-/

namespace ExprLang

/-! ### Finished subtrees -/

/-- Whether the nodes that have been built are those of some trees, the last one first.  The trees are whole and not too
deep, and their depths are on the stack. -/
structure ReaderState.HasFinished (state : ReaderState) (trees : List Tree) : Prop where
  whole : ∀ tree ∈ trees, tree.IsWhole
  depth_le : ∀ tree ∈ trees, tree.depth ≤ maxDepth
  nodes : state.nodes.toList = Tree.nodesOfAll trees.reverse
  depths : state.depths = trees.map Tree.depth

/-- Whether there is one depth on the stack for each finished subtree that is no operand yet, and no more operands are
being read one inside the other than are allowed. -/
structure ReaderState.IsAccounted (state : ReaderState) : Prop where
  nesting_le : state.nesting ≤ maxDepth
  finished : state.HasFinished (Tree.stackOf ⟨state.nodes⟩)

/-- Whether a node has been refused because its tree would be too deep, which has been reported last.  Its operands are
the last subtrees, and their depths have been taken off the stack; with them all subtrees would be accounted for. -/
structure ReaderState.HasRefused (state : ReaderState) (node : Node) (operands : List Tree) : Prop where
  accounted : ReaderState.IsAccounted { state with depths := operands.reverse.map Tree.depth ++ state.depths }
  last : operands.reverse <+: Tree.stackOf ⟨state.nodes⟩
  arity : node.arity = operands.length
  tooDeep : maxDepth < (Tree.node node operands).depth
  reported : state.diagnostics.toList.getLast?
    = some (StatementIssue.nestsTooDeeply.diagnostic state.cursor.peek.span)

/-- Whether all subtrees are accounted for, but for the operands of a node that has been refused. -/
def ReaderState.IsStopped (state : ReaderState) : Prop :=
  state.IsAccounted ∨ ∃ node operands, state.HasRefused node operands

namespace Tree

private theorem depthOfAll_append (trees trees' : List Tree) :
    depthOfAll (trees ++ trees') = max (depthOfAll trees) (depthOfAll trees') := by
  induction trees with
  | nil => rw [List.nil_append, depthOfAll, Nat.zero_max]
  | cons tree trees ih => rw [List.cons_append, depthOfAll, depthOfAll, ih, Nat.max_assoc]

/-- Depths are taken off a stack with the trees that they belong to, whose order makes no difference. -/
private theorem exists_taken {trees : List Tree} {count greatest deepest : Nat} {left : List Nat}
    (h : takeDepths count greatest (trees.map depth) = some (deepest, left)) :
    ∃ taken rest, trees = taken ++ rest ∧ taken.length = count ∧ left = rest.map depth ∧
      deepest = max greatest (depthOfAll taken.reverse) := by
  induction trees generalizing count greatest with
  | nil =>
    cases count with
    | zero =>
      obtain ⟨rfl, rfl⟩ := Prod.mk.inj (Option.some.inj h)
      exact ⟨[], [], rfl, rfl, rfl, (Nat.max_zero _).symm⟩
    | succ count => cases h
  | cons tree trees ih =>
    cases count with
    | zero =>
      obtain ⟨rfl, rfl⟩ := Prod.mk.inj (Option.some.inj h)
      exact ⟨[], tree :: trees, rfl, rfl, rfl, (Nat.max_zero _).symm⟩
    | succ count =>
      obtain ⟨taken, rest, rfl, rfl, hleft, hdeepest⟩ := ih h
      refine ⟨tree :: taken, rest, rfl, rfl, hleft, ?_⟩
      rw [hdeepest, List.reverse_cons, depthOfAll_append, depthOfAll, depthOfAll, Nat.max_zero, Nat.max_assoc,
        Nat.max_comm tree.depth]

end Tree

namespace ReaderState

variable {state before after : ReaderState} {trees taken rest : List Tree}

private theorem HasFinished.stackOf_eq (h : state.HasFinished trees) : Tree.stackOf ⟨state.nodes⟩ = trees := by
  have hwhole : ∀ tree ∈ trees.reverse, tree.IsWhole := fun tree hmem => h.whole tree (List.mem_reverse.1 hmem)
  rw [Tree.stackOf, h.nodes, Tree.foldl_pushNode _ hwhole, List.reverse_reverse, List.append_nil]

private theorem HasFinished.isAccounted (h : state.HasFinished trees) (hnesting : state.nesting ≤ maxDepth) :
    state.IsAccounted where
  nesting_le := hnesting
  finished := by rwa [h.stackOf_eq]

/-- What is finished and what is accounted for depends on the nodes and depths only, but for the nesting. -/
private theorem HasFinished.of_eq (h : before.HasFinished trees) (hnodes : after.nodes = before.nodes)
    (hdepths : after.depths = before.depths) : after.HasFinished trees :=
  ⟨h.whole, h.depth_le, by rw [hnodes, h.nodes], by rw [hdepths, h.depths]⟩

/-- An operand that is given up leaves what has been built as it is. -/
private theorem IsStopped.leave (h : state.IsStopped) : IsStopped { state with nesting := state.nesting - 1 } := by
  rcases h with h | ⟨node, operands, h⟩
  · exact .inl ⟨Nat.le_trans (Nat.sub_le _ _) h.nesting_le, h.finished.of_eq rfl rfl⟩
  · refine .inr ⟨node, operands, ⟨Nat.le_trans (Nat.sub_le _ _) h.accounted.nesting_le, ?_⟩, h.last, h.arity, h.tooDeep,
      h.reported⟩
    exact h.accounted.finished.of_eq rfl rfl

/-- The node of some subtrees takes their place. -/
private theorem HasFinished.push (h : state.HasFinished (taken ++ rest)) (op : Operator) (span : Span)
    (hdepth : Tree.depthOfAll taken.reverse < maxDepth) :
    HasFinished { state with
        depths := (Tree.depthOfAll taken.reverse + 1) :: rest.map Tree.depth
        nodes := state.nodes.push ⟨op, taken.length, span⟩ }
      (.node ⟨op, taken.length, span⟩ taken.reverse :: rest) where
  whole := by
    refine List.forall_mem_cons.2 ⟨.node (List.length_reverse).symm fun operand hmem => ?_, fun tree hmem => ?_⟩
    · exact h.whole operand (List.mem_append_left _ (List.mem_reverse.1 hmem))
    · exact h.whole tree (List.mem_append_right _ hmem)
  depth_le := by
    refine List.forall_mem_cons.2 ⟨?_, fun tree hmem => h.depth_le tree (List.mem_append_right _ hmem)⟩
    rw [Tree.depth]
    exact hdepth
  nodes := by
    rw [Array.toList_push, h.nodes, List.reverse_append, Tree.nodesOfAll_append, List.reverse_cons,
      Tree.nodesOfAll_append, Tree.nodesOfAll, Tree.nodes, Tree.nodesOfAll, List.append_nil, List.append_assoc]
  depths := by rw [List.map_cons, Tree.depth]

/-- A node whose tree would be too deep is refused, and its operands have been taken. -/
private theorem HasFinished.refuse (h : state.HasFinished (taken ++ rest)) (hnesting : state.nesting ≤ maxDepth)
    (op : Operator) (span : Span) (hdepth : maxDepth < Tree.depthOfAll taken.reverse + 1) :
    HasRefused { state with
        depths := rest.map Tree.depth
        diagnostics := state.diagnostics.report (StatementIssue.nestsTooDeeply.diagnostic state.cursor.peek.span) }
      ⟨op, taken.length, span⟩ taken.reverse where
  accounted := by
    refine HasFinished.isAccounted (h.of_eq rfl ?_) hnesting
    rw [h.depths, List.reverse_reverse, List.map_append]
  last := by
    rw [List.reverse_reverse, h.stackOf_eq]
    exact List.prefix_append taken rest
  arity := List.length_reverse.symm
  tooDeep := by rwa [Tree.depth]
  reported := by rw [Diagnostics.toList_report, List.getLast?_concat]

end ReaderState

/-- A reader that builds nothing leaves alone what is being built, however it ends. -/
private theorem Reader.IsPassive.spares {α : Type} {reader : Reader α} (h : reader.IsPassive) (state : ReaderState) :
    (reader state).2.nodes = state.nodes ∧ (reader state).2.depths = state.depths ∧
      (reader state).2.nesting = state.nesting := by
  induction h generalizing state with
  | pure => exact ⟨rfl, rfl, rfl⟩
  | fail => exact ⟨rfl, rfl, rfl⟩
  | raise => exact ⟨rfl, rfl, rfl⟩
  | observe => exact ⟨rfl, rfl, rfl⟩
  | next => exact ⟨rfl, rfl, rfl⟩
  | report => exact ⟨rfl, rfl, rfl⟩
  | @bind _ _ first following _ _ ih ihFollowing =>
    have hfirst := ih state
    rw [Stage.bind_apply]
    generalize first state = result at hfirst ⊢
    obtain ⟨outcome, middle⟩ := result
    cases outcome with
    | done value =>
      obtain ⟨hnodes, hdepths, hnesting⟩ := ihFollowing value middle
      exact ⟨hnodes.trans hfirst.1, hdepths.trans hfirst.2.1, hnesting.trans hfirst.2.2⟩
    | failed => exact hfirst
    | fault => exact hfirst

/-! ### Accounts -/

/-- Whether so many operands are being read, and all that has been built are finished subtrees. -/
def ReaderState.IsBetween (nesting : Nat) (state : ReaderState) : Prop :=
  state.nesting = nesting ∧ ∃ trees, state.HasFinished trees

variable {nesting : Nat}

private theorem ReaderState.IsBetween.isAccounted {state : ReaderState} (hle : nesting ≤ maxDepth)
    (h : state.IsBetween nesting) : state.IsAccounted := by
  obtain ⟨hnesting, trees, htrees⟩ := h
  exact htrees.isAccounted (hnesting ▸ hle)

/-- While an operand is being read: it may be given up when a node has been refused. -/
def operandAccount (hle : nesting ≤ maxDepth) : Account ReaderState ReaderState.IsAccounted ReaderState.IsStopped where
  between := ReaderState.IsBetween nesting
  failing state := state.nesting = nesting ∧ state.IsStopped
  inside_of_between := ReaderState.IsBetween.isAccounted hle
  stopped_of_failing := And.right

/-- Around whole expressions: nothing is left of one that is given up. -/
def expressionAccount (hle : nesting ≤ maxDepth) :
    Account ReaderState ReaderState.IsAccounted ReaderState.IsStopped where
  between := ReaderState.IsBetween nesting
  failing := ReaderState.IsBetween nesting
  inside_of_between := ReaderState.IsBetween.isAccounted hle
  stopped_of_failing hstate := .inl (hstate.isAccounted hle)

/-- A reader that builds nothing stays between the parts, however it ends. -/
private theorem Reader.IsPassive.isBetween {α : Type} {reader : Reader α} (h : reader.IsPassive) {before : ReaderState}
    (hbefore : before.IsBetween nesting) : (reader before).2.IsBetween nesting := by
  obtain ⟨hnodes, hdepths, hnesting⟩ := h.spares before
  obtain ⟨hsame, trees, htrees⟩ := hbefore
  exact ⟨hnesting.trans hsame, trees, htrees.of_eq hnodes hdepths⟩

namespace Course

variable {text : List Char} {α : Type} {reader : Reader α} {hle : nesting ≤ maxDepth}

private theorem keeps_of_isPassive {account : Account ReaderState ReaderState.IsAccounted ReaderState.IsStopped}
    (hbetween : ∀ state, account.between state ↔ state.IsBetween nesting)
    (hfailing : ∀ state, state.IsBetween nesting → account.failing state) (h : reader.IsPassive) :
    (step reader).Keeps account := by
  refine keeps_step (.of_match fun before hbefore => ?_)
  have hafter := h.isBetween ((hbetween before).1 hbefore)
  generalize reader before = result at hafter ⊢
  rcases result with ⟨_ | _ | _, after⟩
  · exact (hbetween after).2 hafter
  · exact hfailing after hafter
  · exact hfailing after hafter

private theorem keeps_operand (h : reader.IsPassive) : (step reader).Keeps (operandAccount hle) :=
  keeps_of_isPassive (fun _ => Iff.rfl) (fun _ hstate => ⟨hstate.1, .inl (hstate.isAccounted hle)⟩) h

private theorem keeps_expression (h : reader.IsPassive) : (step reader).Keeps (expressionAccount hle) :=
  keeps_of_isPassive (fun _ => Iff.rfl) (fun _ hstate => hstate) h

/-- A node takes the place of its operands, or it is too deep. -/
private theorem keeps_pushNode (op : Operator) (arity : Nat) (span : Span) :
    (step (Reader.pushNode op arity span)).Keeps (operandAccount hle) := by
  refine keeps_step (.of_match fun before hbefore => ?_)
  obtain ⟨hnesting, trees, htrees⟩ := hbefore
  have hobserve : Stage.observe (·.depths) before = (.done before.depths, before) := rfl
  have hbefore : before.nesting ≤ maxDepth := hnesting ▸ hle
  rw [Reader.pushNode, Stage.bind_of_done hobserve, htrees.depths]
  cases htake : takeDepths arity 0 (trees.map Tree.depth) with
  | none => exact ⟨hnesting, .inl (htrees.isAccounted hbefore)⟩
  | some result =>
    obtain ⟨deepest, left⟩ := result
    obtain ⟨taken, rest, rfl, rfl, rfl, hdeepest⟩ := Tree.exists_taken htake
    rw [Nat.zero_max] at hdeepest
    subst hdeepest
    have hchange : Stage.change (fun state : ReaderState => { state with depths := rest.map Tree.depth }) before
        = (.done (), { before with depths := rest.map Tree.depth }) := rfl
    dsimp only
    rw [Stage.bind_of_done hchange]
    by_cases hdeep : maxDepth < Tree.depthOfAll taken.reverse + 1
    · rw [if_pos hdeep]
      exact ⟨hnesting, .inr ⟨_, _, htrees.refuse hbefore op span hdeep⟩⟩
    · rw [if_neg hdeep]
      exact ⟨hnesting, _, htrees.push op span (Nat.lt_of_not_le fun h => hdeep (Nat.lt_succ_of_le h))⟩

/-! ### Expressions -/

section

variable {operand : Level → ReadingContext → Course ReaderState Unit}
  (hoperand : ∀ level context, (operand level context).Keeps (operandAccount hle))
include hoperand

private theorem keeps_readOperands (opener : Lexeme) (limit count : Nat) :
    (readOperands operand opener limit count).Keeps (operandAccount hle) := by
  induction limit generalizing count with
  | zero => exact keeps_pure count
  | succ limit ih =>
    refine (hoperand _ _).bind fun _ => (keeps_operand (Reader.isPassive_eat? _)).bind fun comma => ?_
    cases comma with
    | some _ => exact ih (count + 1)
    | none => exact keeps_pure (count + 1)

private theorem keeps_build (op : Operator) : (build text operand op).Keeps (operandAccount hle) := by
  have hnext : (step Reader.next).Keeps (operandAccount hle) := keeps_operand .next
  have hlast : (step Reader.lastSpan).Keeps (operandAccount hle) := keeps_operand Reader.isPassive_lastSpan
  have hremaining : (step Reader.remaining).Keeps (operandAccount hle) := keeps_operand Reader.isPassive_remaining
  have hclose : ∀ {closer opener} {span : Lexeme → Span} {arity : Nat},
      (step (Reader.expectCloser text closer opener) >>= fun closing =>
        step (Reader.pushNode op arity (span closing))).Keeps (operandAccount hle) :=
    (keeps_operand (Reader.isPassive_expectCloser _ _)).bind fun _ => keeps_pushNode _ _ _
  rw [build]
  cases op.shape with
  | leaf => exact hnext.bind fun _ => keeps_pushNode _ _ _
  | before => exact hnext.bind fun _ => (hoperand _ _).bind fun _ => hlast.bind fun _ => keeps_pushNode _ _ _
  | after => exact hnext.bind fun _ => hlast.bind fun _ => keeps_pushNode _ _ _
  | around => exact hnext.bind fun _ => (hoperand _ _).bind fun _ => hclose
  | between =>
    refine hlast.bind fun _ => hnext.bind fun _ => ?_
    cases op.level.tighter? with
    | none => exact keeps_operand (.raise _)
    | some level => exact (hoperand _ _).bind fun _ => hlast.bind fun _ => keeps_pushNode _ _ _
  | sequence =>
    refine hnext.bind fun opener => (keeps_operand (Reader.isPassive_isAt _)).bind fun closed => ?_
    cases closed with
    | true => exact (keeps_pure 0).bind fun _ => hclose
    | false => exact hremaining.bind fun _ => (keeps_readOperands hoperand opener _ 0).bind fun _ => hclose
  | application =>
    refine hlast.bind fun _ => hnext.bind fun opener => hremaining.bind fun _ => ?_
    exact (keeps_readOperands hoperand opener _ 0).bind fun _ => hclose

private theorem keeps_extend (min : Level) (limit : Nat) :
    (extend text operand min limit).Keeps (operandAccount hle) := by
  induction limit with
  | zero => exact keeps_pure ()
  | succ limit ih =>
    refine (keeps_operand Reader.isPassive_peek).bind fun lexeme => ?_
    cases Operator.leading? false min lexeme.tag with
    | some op => exact (keeps_build hoperand op).bind fun _ => ih
    | none => exact keeps_pure ()

private theorem keeps_scan (min : Level) (context : ReadingContext) :
    (scan text operand min context).Keeps (operandAccount hle) := by
  refine (keeps_operand Reader.isPassive_peek).bind fun lexeme => ?_
  cases Operator.leading? true min lexeme.tag with
  | some op =>
    exact (keeps_build hoperand op).bind fun _ => (keeps_operand Reader.isPassive_remaining).bind fun _ =>
      keeps_extend hoperand min _
  | none =>
    exact (keeps_operand (Reader.isPassive_reportMissing _)).bind fun _ => keeps_operand .fail

end

/-- No more operands are read one inside the other than there is room for. -/
private theorem keeps_readOperand {room : Nat} (hroom : nesting + room ≤ maxDepth) (min : Level)
    (context : ReadingContext) :
    (readOperand text room min context).Keeps (operandAccount hle) := by
  induction room generalizing nesting min context with
  | zero => exact keeps_operand Reader.isPassive_tooDeep
  | succ room ih =>
    have hinner : nesting + 1 ≤ maxDepth := by omega
    have hoperand : ∀ level context, (readOperand text room level context).Keeps (operandAccount hinner) :=
      fun level context => ih (by omega) level context
    refine (keeps_scan hoperand min context).around ?_ ?_ ?_
    · rintro before ⟨hnesting, trees, htrees⟩
      exact ⟨congrArg (· + 1) hnesting, trees, htrees.of_eq rfl rfl⟩
    · rintro before after - ⟨hnesting, trees, htrees⟩
      refine ⟨?_, trees, htrees.of_eq rfl rfl⟩
      show after.nesting - 1 = nesting
      omega
    · rintro before after - ⟨hnesting, hstopped⟩
      refine ⟨?_, hstopped.leave⟩
      show after.nesting - 1 = nesting
      omega

/-- A whole expression is built apart from what was there before. -/
theorem keeps_readExpression (min : Level) : (readExpression text min).Keeps (expressionAccount hle) := by
  have hread : (step (Stage.observe (·.nesting)) >>= fun nesting =>
      readOperand text (maxDepth - nesting) min .start >>= fun _ =>
        step (Stage.observe fun state => (⟨state.nodes⟩ : Expression))).Keeps (operandAccount hle) := by
    refine keeps_observe_bind (fun state hstate => hstate.1) ?_
    exact (keeps_readOperand (by omega) min .start).bind fun _ => keeps_operand (.observe fun _ _ => rfl)
  refine hread.around ?_ ?_ ?_
  · rintro before ⟨hnesting, -⟩
    exact ⟨hnesting, [], by simp, by simp, rfl, rfl⟩
  · rintro before after ⟨-, trees, htrees⟩ ⟨hnesting, -⟩
    exact ⟨hnesting, trees, htrees.of_eq rfl rfl⟩
  · rintro before after ⟨-, trees, htrees⟩ ⟨hnesting, -⟩
    exact ⟨hnesting, trees, htrees.of_eq rfl rfl⟩

/-! ### Statements -/

private theorem keeps_readAfter (mark : Mark) : (readAfter text mark).Keeps (expressionAccount hle) := by
  refine (keeps_expression (Reader.isPassive_eat? _)).bind fun sign => ?_
  cases sign with
  | some _ => exact (keeps_readExpression _).bind fun _ => keeps_pure _
  | none => exact keeps_pure none

private theorem keeps_readBinding : (readBinding text).Keeps (expressionAccount hle) := by
  have hexpect : ∀ tag expectation, (step (Reader.expect text tag expectation)).Keeps (expressionAccount hle) :=
    fun _ _ => keeps_expression (Reader.isPassive_expect _ _)
  refine (keeps_expression .next).bind fun _ => (hexpect _ _).bind fun _ => ?_
  refine (keeps_readAfter _).bind fun type => (hexpect _ _).bind fun _ => (keeps_readExpression _).bind fun _ => ?_
  refine (keeps_expression (Reader.isPassive_expectTerminator _)).bind fun _ => ?_
  cases type with
  | some type => exact keeps_pure _
  | none => exact keeps_pure _

private theorem keeps_readVariable : (readVariable text).Keeps (expressionAccount hle) := by
  refine (keeps_expression .next).bind fun _ => ?_
  refine (keeps_expression (Reader.isPassive_expect _ _)).bind fun _ => ?_
  refine (keeps_readAfter _).bind fun type => (keeps_readAfter _).bind fun value => ?_
  cases value <|> type with
  | some last =>
    refine (keeps_expression (Reader.isPassive_expectTerminator _)).bind fun _ => ?_
    exact keeps_expression (Reader.isPassive_ofExcept _)
  | none =>
    refine (keeps_expression Reader.isPassive_peek).bind fun lexeme => ?_
    refine (keeps_expression (Reader.isPassive_found lexeme)).bind fun _ => ?_
    exact (keeps_expression (.report _ _)).bind fun _ => keeps_expression .fail

private theorem keeps_readDiscarded : (readDiscarded text).Keeps (expressionAccount hle) := by
  refine (keeps_readExpression _).bind fun _ => ?_
  exact (keeps_expression (Reader.isPassive_expectTerminator _)).bind fun _ => keeps_pure _

theorem keeps_readStatement : (readStatement text).Keeps (expressionAccount hle) := by
  refine (keeps_expression Reader.isPassive_peek).bind fun lexeme => ?_
  split
  · exact keeps_readBinding
  · exact keeps_readVariable
  · exact keeps_readDiscarded

private theorem keeps_readStatements (limit : Nat) (run : Option Span) (statements : Array Statement) :
    (readStatements text limit run statements).Keeps (expressionAccount hle) := by
  have hnext : (step Reader.next).Keeps (expressionAccount hle) := keeps_expression .next
  have hrun : ∀ run, (step (Reader.reportRun text run)).Keeps (expressionAccount hle) :=
    fun run => keeps_expression (Reader.isPassive_reportRun run)
  induction limit generalizing run statements with
  | zero => exact keeps_pure statements
  | succ limit ih =>
    refine (keeps_expression Reader.isPassive_peek).bind fun lexeme => ?_
    split
    · exact (hrun run).bind fun _ => keeps_pure statements
    split
    · exact hnext.bind fun _ => ih _ _
    split
    · exact hnext.bind fun _ => ih _ _
    · refine (hrun run).bind fun _ => (keeps_readStatement.attempt fun _ h => h).bind fun statement => ?_
      cases statement with
      | some statement => exact ih _ _
      | none => exact (keeps_expression Reader.isPassive_synchronize).bind fun _ => ih _ _

/-- In all states that are passed while statements are read, the subtrees are accounted for; where a part stops, a node
may have been refused. -/
theorem keeps_readAll : (readAll text).Keeps (expressionAccount hle) := by
  refine (keeps_expression Reader.isPassive_remaining).bind fun _ => ?_
  exact (keeps_readStatements _ none #[]).bind fun _ => keeps_pure _

end Course

end ExprLang
