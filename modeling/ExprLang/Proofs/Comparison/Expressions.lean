import ExprLang.Proofs.Comparison.Readers

/-!
# Expressions side by side

Readers in step read corresponding expressions, or both fail (`Comparison.readExpression_matches`): no operator is
recognised by a semicolon or the end of the file, so a reader of an expression never moves over one.
-/

namespace ExprLang

namespace Comparison

variable {C : Comparison} {n m : Nat} {state other : ReaderState} {α β : Type}
  {Q : α → ReaderState → β → ReaderState → Prop} {text text' : List Char}

/-! ### Operands -/

variable (C) in
/-- Whether two readers of operands keep step, and move if they are done. -/
def ReadsOperandsAlike (operand operand' : Level → ReadingContext → Reader Unit) : Prop :=
  ∀ (n m : Nat) (state other : ReaderState) (min : Level) (context context' : ReadingContext),
    C.Within (n + 1) (m + 1) state other → RelatesContext context context' →
    (operand min context).Matches state (operand' min context') other (fun _ after _ last => C.Built n m after last)
      C.InStep

variable {operand operand' : Level → ReadingContext → Reader Unit}

private theorem bind_operand_matches (hread : C.ReadsOperandsAlike operand operand') (h : C.Within n m state other)
    {min : Level} {context context' : ReadingContext} (hcontext : RelatesContext context context')
    {first : Unit → Reader α} {second : Unit → Reader β}
    (hnext : ∀ after last, C.Within n m after last → (first ()).Matches after (second ()) last Q C.InStep) :
    (operand min context >>= first).Matches state (operand' min context' >>= second) other Q C.InStep := by
  obtain ⟨n, m, rfl, rfl⟩ := h.exists_succ
  refine (hread n m state other min context context' h hcontext).bind fun _ after _ last hafter => ?_
  exact hnext after last (RelatesWithin.mono hafter.toRelatesWithin (Nat.le_succ n) (Nat.le_succ m))

/-- Operands in brackets are as many for both readers. -/
private theorem readOperands_matches (hread : C.ReadsOperandsAlike operand operand') (h : C.Within n m state other)
    (opener opener' : Lexeme) (count : Nat) :
    (Reader.readOperands operand opener n count).Matches state (Reader.readOperands operand' opener' m count) other
      (fun total after total' last => total = total' ∧ C.Within n m after last) C.InStep := by
  induction n generalizing m state other count with
  | zero =>
    obtain ⟨_, _, hzero, -⟩ := h.exists_succ
    cases hzero
  | succ n ih =>
    obtain ⟨_, m, -, rfl⟩ := h.exists_succ
    refine (hread n m state other .nested _ _ h .opener).bind fun _ after _ last hoperand => ?_
    refine bind_eat?_matches hoperand.toRelatesWithin (by simp) (by simp) (fun _ _ middle middle' _ hcomma => ?_) ?_
    · refine (ih hcomma (count + 1)).mono (fun _ _ _ _ hrest => ?_) fun _ _ h => h
      exact ⟨hrest.1, hrest.2.mono (Nat.le_succ n) (Nat.le_succ m)⟩
    · exact Stage.matches_pure ⟨rfl, RelatesWithin.mono hoperand.toRelatesWithin (Nat.le_succ n) (Nat.le_succ m)⟩

/-- Operands in brackets may be read up to all lexemes that are left. -/
private theorem bind_readOperands_matches (hread : C.ReadsOperandsAlike operand operand') (h : C.Within n m state other)
    (opener opener' : Lexeme) {first : Nat → Reader α} {second : Nat → Reader β}
    (hnext : ∀ count after last, C.Within n m after last → (first count).Matches after (second count) last Q C.InStep) :
    (Reader.remaining >>= fun limit => Reader.readOperands operand opener limit 0 >>= first).Matches state
      (Reader.remaining >>= fun limit => Reader.readOperands operand' opener' limit 0 >>= second) other Q C.InStep := by
  refine Stage.matches_observe_bind.2 ?_
  refine (readOperands_matches hread (InStep.within h.toRelates) opener opener' 0).bind ?_
  rintro count after _ last ⟨rfl, hcount⟩
  exact hnext count after last (hcount.mono h.left h.right)

/-- No operator is recognised by a lexeme that ends what readers have in common. -/
private theorem leading_ne (op : Operator) : op.shape.leading ≠ .endOfFile ∧ op.shape.leading ≠ .mark .semi := by
  have hall : ∀ op ∈ Operator.all, op.shape.leading ≠ .endOfFile ∧ op.shape.leading ≠ .mark .semi := by
    decide +kernel
  exact hall op op.mem_all

private theorem closer_ne_semi {op : Operator} {closer : Mark} (h : op.shape.closer? = some closer) :
    closer ≠ .semi := by
  rcases op.closer_cases h with rfl | rfl <;> decide

/-- A node that ends with a closing bracket is added by both readers or by none. -/
private theorem expectCloser_pushNode_matches (h : C.Within n m state other) {op : Operator} {closer : Mark}
    (hcloser : op.shape.closer? = some closer) (opener opener' : Lexeme) (arity : Nat) {span span' : Span}
    (hspan : C.spans span span') :
    (Reader.expectCloser text closer opener >>= fun closing =>
        Reader.pushNode op arity (span.join closing.span)).Matches state
      (Reader.expectCloser text' closer opener' >>= fun closing =>
        Reader.pushNode op arity (span'.join closing.span)) other
      (fun _ after _ last => C.Built n m after last) C.InStep := by
  refine bind_expectCloser_matches h (closer_ne_semi hcloser) opener opener' fun _ _ after last hclosing hafter => ?_
  refine pushNode_matches hafter op arity (C.spans_join hspan hclosing.spans) fun tag hleaf => ?_
  rw [hleaf] at hcloser
  cases hcloser

/-- The rest of an operator is read alike. -/
private theorem build_matches (hread : C.ReadsOperandsAlike operand operand') (h : C.Within (n + 1) (m + 1) state other)
    (op : Operator) (hleading : op.shape.leading = state.cursor.peek.tag) :
    (Reader.build text operand op).Matches state (Reader.build text' operand' op) other
      (fun _ after _ last => C.Built n m after last) C.InStep := by
  have hne := leading_ne op
  rw [hleading] at hne
  have hend := hne.1
  have hsemi := hne.2
  unfold Reader.build
  match hshape : op.shape with
  | .leaf _ =>
    refine bind_next_matches h hend hsemi fun lexeme lexeme' after last hlexeme hafter => ?_
    exact pushNode_matches hafter op 0 hlexeme.spans fun _ _ => hlexeme.span
  | .before _ =>
    refine bind_next_matches h hend hsemi fun lexeme lexeme' after last hlexeme hafter => ?_
    refine bind_operand_matches hread hafter .operator fun built built' hbuilt => ?_
    refine bind_lastSpan_matches hbuilt.toRelates fun span span' hspan => ?_
    exact pushNode_matches hbuilt op 1 (C.spans_join hlexeme.spans hspan) (by simp [hshape])
  | .after _ =>
    refine bind_next_matches h hend hsemi fun lexeme lexeme' after last hlexeme hafter => ?_
    refine bind_lastSpan_matches hafter.toRelates fun span span' hspan => ?_
    exact pushNode_matches hafter op 1 (C.spans_join hspan hlexeme.spans) (by simp [hshape])
  | .around _ closer =>
    have hcloser : op.shape.closer? = some closer := by rw [hshape, Shape.closer?]
    refine bind_next_matches h hend hsemi fun opener opener' after last hopener hafter => ?_
    refine bind_operand_matches hread hafter .opener fun built built' hbuilt => ?_
    exact expectCloser_pushNode_matches hbuilt hcloser opener opener' 1 hopener.spans
  | .between _ =>
    refine bind_lastSpan_matches h.toRelates fun left left' hleft => ?_
    refine bind_next_matches h hend hsemi fun lexeme lexeme' after last hlexeme hafter => ?_
    match op.level.tighter? with
    | none => exact Stage.matches_raise
    | some level =>
      refine bind_operand_matches hread hafter .operator fun built built' hbuilt => ?_
      refine bind_lastSpan_matches hbuilt.toRelates fun span span' hspan => ?_
      exact pushNode_matches hbuilt op 2 (C.spans_join hleft hspan) (by simp [hshape])
  | .sequence _ closer =>
    have hcloser : op.shape.closer? = some closer := by rw [hshape, Shape.closer?]
    refine bind_next_matches h hend hsemi fun opener opener' after last hopener hafter => ?_
    refine Stage.matches_observe_bind.2 ?_
    rw [InStep.isAt hafter.toRelates]
    split
    · exact expectCloser_pushNode_matches hafter hcloser opener opener' 0 hopener.spans
    · refine bind_readOperands_matches hread hafter opener opener' fun count built built' hbuilt => ?_
      exact expectCloser_pushNode_matches hbuilt hcloser opener opener' count hopener.spans
  | .application _ closer =>
    have hcloser : op.shape.closer? = some closer := by rw [hshape, Shape.closer?]
    refine bind_lastSpan_matches h.toRelates fun left left' hleft => ?_
    refine bind_next_matches h hend hsemi fun opener opener' after last hopener hafter => ?_
    refine bind_readOperands_matches hread hafter opener opener' fun count built built' hbuilt => ?_
    exact expectCloser_pushNode_matches hbuilt hcloser opener opener' (1 + count) hleft

/-- The operators that go on with an expression are the same for both readers. -/
private theorem extend_matches (hread : C.ReadsOperandsAlike operand operand') (h : C.Built n m state other)
    (min : Level) :
    (Reader.extend text operand min n).Matches state (Reader.extend text' operand' min m) other
      (fun _ after _ last => C.Built n m after last) C.InStep := by
  induction n generalizing m state other with
  | zero =>
    obtain ⟨_, _, hzero, -⟩ := h.exists_succ
    cases hzero
  | succ n ih =>
    obtain ⟨_, m, -, rfl⟩ := h.exists_succ
    unfold Reader.extend
    refine Stage.matches_observe_bind.2 ?_
    rw [← (InStep.peek h.toRelates).tag]
    match hfound : Operator.leading? false min state.cursor.peek.tag with
    | none => exact Stage.matches_pure h
    | some op =>
      have hleading := (Operator.leading?_eq_some_iff.1 hfound).2.2
      refine (build_matches hread h.toRelatesWithin op hleading).bind fun _ after _ last hafter => ?_
      exact (ih hafter).mono (fun _ _ _ _ h => h.mono (Nat.le_succ n) (Nat.le_succ m)) fun _ _ h => h

private theorem scan_matches (hread : C.ReadsOperandsAlike operand operand') (h : C.Within (n + 1) (m + 1) state other)
    (min : Level) {context context' : ReadingContext} (hcontext : RelatesContext context context') :
    (Reader.scan text operand min context).Matches state (Reader.scan text' operand' min context') other
      (fun _ after _ last => C.Built n m after last) C.InStep := by
  unfold Reader.scan
  refine Stage.matches_observe_bind.2 ?_
  rw [← (InStep.peek h.toRelates).tag]
  match hfound : Operator.leading? true min state.cursor.peek.tag with
  | none => exact reportMissing_matches h.toRelates hcontext
  | some op =>
    have hleading := (Operator.leading?_eq_some_iff.1 hfound).2.2
    refine (build_matches hread h op hleading).bind fun _ after _ last hafter => ?_
    refine Stage.matches_observe_bind.2 ?_
    have hexact : C.Built after.cursor.remaining last.cursor.remaining after last :=
      ⟨InStep.within hafter.toRelates, hafter.nodes_ne⟩
    refine (extend_matches hread hexact min).mono (fun _ _ _ _ hrest => ?_) fun _ _ h => h
    exact hrest.mono hafter.left hafter.right

/-- Operands are read alike, whatever room there is for operands inside them. -/
private theorem readOperand_matches (text text' : List Char) (room : Nat) :
    C.ReadsOperandsAlike (Reader.readOperand text room) (Reader.readOperand text' room) := by
  induction room with
  | zero => exact fun n m state other min context context' h _ => tooDeep_matches h.toRelates
  | succ room ih =>
    intro n m state other min context context' h hcontext
    have hentered : C.Within (n + 1) (m + 1) { state with nesting := state.nesting + 1 }
        { other with nesting := other.nesting + 1 } :=
      ⟨⟨h.ahead, h.nodes, h.depths, congrArg (· + 1) h.nesting, h.reports⟩, h.left, h.right⟩
    refine (scan_matches ih hentered min hcontext).around (fun _ after _ last hafter => ?_) fun after last hafter => ?_
    · exact ⟨⟨⟨hafter.ahead, hafter.nodes, hafter.depths, congrArg (· - 1) hafter.nesting, hafter.reports⟩,
        hafter.left, hafter.right⟩, hafter.nodes_ne⟩
    · exact ⟨hafter.ahead, hafter.nodes, hafter.depths, congrArg (· - 1) hafter.nesting, hafter.reports⟩

variable (C) in
/-- Whether two expressions correspond. -/
structure RelatesExpression (expr expr' : Expression) : Prop where
  nodes : List.Forall₂ C.RelatesNode expr.nodes.toList expr'.nodes.toList
  nodes_ne : expr.nodes.toList ≠ []

theorem RelatesExpression.last? {expr expr' : Expression} (h : C.RelatesExpression expr expr') :
    Option.Rel C.RelatesNode expr.last? expr'.last? := by
  have hnodes := List.rel_reverse h.nodes
  rw [Expression.last?, Expression.last?, ← Array.getLast?_toList, ← Array.getLast?_toList, ← List.head?_reverse,
    ← List.head?_reverse]
  generalize expr.nodes.toList.reverse = nodes, expr'.nodes.toList.reverse = nodes' at hnodes
  cases hnodes with
  | nil => exact .none
  | cons hnode _ => exact .some hnode

theorem RelatesExpression.span {expr expr' : Expression} (h : C.RelatesExpression expr expr') :
    C.spans expr.span expr'.span := by
  have hne : expr.last? ≠ none := by
    rw [Expression.last?, ← Array.getLast?_toList]
    simpa using h.nodes_ne
  have hlast := h.last?
  rw [Expression.span, Expression.span]
  generalize expr.last? = node, expr'.last? = node' at hne hlast
  cases hlast with
  | none => exact absurd rfl hne
  | some hnode => exact hnode.span

/-- Readers in step read corresponding expressions, or both fail. -/
theorem readExpression_matches (h : C.Within (n + 1) (m + 1) state other) (min : Level) :
    (Reader.readExpression text min).Matches state (Reader.readExpression text' min) other
      (fun expr after expr' last => C.RelatesExpression expr expr' ∧ C.Within n m after last) C.InStep := by
  have hentered : C.Within (n + 1) (m + 1) { state with nodes := #[], depths := [] }
      { other with nodes := #[], depths := [] } :=
    ⟨⟨h.ahead, .nil, rfl, h.nesting, h.reports⟩, h.left, h.right⟩
  have hread : Stage.Matches (do
        Reader.readOperand text (maxDepth - (← Stage.observe (·.nesting))) min .start
        Stage.observe fun state => ⟨state.nodes⟩)
      { state with nodes := #[], depths := [] } (do
        Reader.readOperand text' (maxDepth - (← Stage.observe (·.nesting))) min .start
        Stage.observe fun state => ⟨state.nodes⟩)
      { other with nodes := #[], depths := [] }
      (fun expr after expr' last => C.RelatesExpression expr expr' ∧ C.Within n m after last) C.InStep := by
    have hroom : maxDepth - state.nesting = maxDepth - other.nesting := by
      rw [h.nesting]
    show (Reader.readOperand text (maxDepth - state.nesting) min .start >>= _).Matches _
      (Reader.readOperand text' (maxDepth - other.nesting) min .start >>= _) _ _ _
    rw [hroom]
    refine (readOperand_matches text text' _ n m _ _ min _ _ hentered .start).bind fun _ after _ last hafter => ?_
    exact .done ⟨⟨hafter.nodes, hafter.nodes_ne⟩, hafter.toRelatesWithin⟩
  refine hread.around (fun expr after expr' last hafter => ⟨hafter.1, ?_⟩) fun after last hafter => ?_
  · exact ⟨⟨hafter.2.ahead, h.nodes, h.depths, hafter.2.nesting, hafter.2.reports⟩, hafter.2.left, hafter.2.right⟩
  · exact ⟨hafter.ahead, h.nodes, h.depths, hafter.nesting, hafter.reports⟩

end Comparison

end ExprLang
