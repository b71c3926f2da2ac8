import ExprLang.Proofs.Decimal.Origins
import ExprLang.Proofs.Typing.Programs
import ExprLang.Proofs.Typing.Types

/-!
# Results of checking

Whatever a checker is given, it adds symbols and reports at the places that it is given and at no others, and each
term that it is done with is well typed (`infer_yields`).  So the program of every source is well typed
(`Source.program_isTyped`).
-/

namespace ExprLang

/-- Whether all symbols of a checker are defined at some places. -/
def CheckerState.IsPlaced (places : Span → Prop) (state : CheckerState) : Prop :=
  ∀ symbol ∈ state.symbols.toList, places symbol.span

/-- Whether symbols and reports have been added to a state, all of them at some places if its symbols were. -/
structure CheckerState.Leads (places : Span → Prop) (before after : CheckerState) : Prop where
  symbols : before.symbols.toList <+: after.symbols.toList
  placed : before.IsPlaced places → after.IsPlaced places
  reports : ∃ more, after.diagnostics.toList = before.diagnostics.toList ++ more ∧
    (before.IsPlaced places → ∀ report ∈ more, places report.span)

/-- Whether a term is well typed and stands at one of some places. -/
structure Term.IsResult (places : Span → Prop) (symbols : Array Symbol) (term : Term) : Prop where
  typed : term.IsTyped symbols
  placed : places term.span

variable {places : Span → Prop}

private theorem CheckerState.Leads.refl (state : CheckerState) : state.Leads places state :=
  ⟨List.prefix_rfl, id, [], (List.append_nil _).symm, fun _ _ hmem => absurd hmem List.not_mem_nil⟩

private theorem CheckerState.Leads.trans {before middle after : CheckerState} (h : before.Leads places middle)
    (h' : middle.Leads places after) : before.Leads places after := by
  obtain ⟨more, hmore, hplaces⟩ := h.reports
  obtain ⟨further, hfurther, hplaces'⟩ := h'.reports
  refine ⟨h.symbols.trans h'.symbols, h'.placed ∘ h.placed, more ++ further, ?_, fun hplaced => ?_⟩
  · rw [hfurther, hmore, List.append_assoc]
  · rw [List.forall_mem_append]
    exact ⟨hplaces hplaced, hplaces' (h.placed hplaced)⟩

theorem Term.IsResult.mono {before after : CheckerState} {term : Term} (h : term.IsResult places before.symbols)
    (hleads : before.Leads places after) : term.IsResult places after.symbols :=
  ⟨h.typed.mono hleads.symbols, h.placed⟩

namespace Checker

variable {α β : Type} {text : List Char} {state : CheckerState} {span : Span}

/-- Whether a checker that runs into no fault only adds to the state, and is done only with what meets a condition. -/
def Yields (places : Span → Prop) (checker : Checker α) (state : CheckerState) (Q : α → CheckerState → Prop) : Prop :=
  match checker state with
  | (.done value, after) => state.Leads places after ∧ Q value after
  | (.failed, after) => state.Leads places after
  | (.fault _, _) => True

/-! ### Constructs -/

private theorem yields_iff_leaves {checker : Checker α} {Q : α → CheckerState → Prop} :
    Yields places checker state Q ↔ checker.Leaves state
      (fun value after => state.Leads places after ∧ Q value after) fun after => state.Leads places after := by
  unfold Yields Stage.Leaves
  rcases checker state with ⟨_ | _ | _, after⟩ <;> exact Iff.rfl

theorem Yields.mono {checker : Checker α} {Q R : α → CheckerState → Prop} (h : Yields places checker state Q)
    (hQ : ∀ value after, Q value after → R value after) : Yields places checker state R := by
  rw [yields_iff_leaves] at h ⊢
  exact h.mono (fun value after h => ⟨h.1, hQ value after h.2⟩) fun _ h => h

theorem Yields.bind {first : Checker α} {next : α → Checker β} {Q : α → CheckerState → Prop}
    {R : β → CheckerState → Prop} (h : Yields places first state Q)
    (hnext : ∀ value after, state.Leads places after → Q value after → Yields places (next value) after R) :
    Yields places (first >>= next) state R := by
  rw [yields_iff_leaves] at h ⊢
  rw [Stage.leaves_bind]
  refine h.mono ?_ fun _ h => h
  rintro value middle ⟨hleads, hQ⟩
  refine (yields_iff_leaves.1 (hnext value middle hleads hQ)).mono ?_ fun _ h => hleads.trans h
  exact fun _ _ h => ⟨hleads.trans h.1, h.2⟩

theorem yields_pure {value : α} {Q : α → CheckerState → Prop} (hQ : Q value state) :
    Yields places (pure value) state Q :=
  ⟨.refl state, hQ⟩

theorem yields_fail {Q : α → CheckerState → Prop} : Yields places (Stage.fail : Checker α) state Q :=
  CheckerState.Leads.refl state

private theorem yields_raise {cause : Fault} {Q : α → CheckerState → Prop} :
    Yields places (Stage.raise cause : Checker α) state Q :=
  trivial

theorem yields_observe_bind {f : CheckerState → α} {next : α → Checker β} {R : β → CheckerState → Prop}
    (hnext : Yields places (next (f state)) state R) : Yields places (Stage.observe f >>= next) state R :=
  hnext

theorem yields_ofExcept_bind {result : Except Fault α} {next : α → Checker β} {R : β → CheckerState → Prop}
    (hnext : ∀ value, result = .ok value → Yields places (next value) state R) :
    Yields places (Stage.ofExcept result >>= next) state R :=
  yields_iff_leaves.2 (Stage.leaves_ofExcept_bind fun value h => yields_iff_leaves.1 (hnext value h))

theorem Yields.attempt {checker : Checker α} {Q : α → CheckerState → Prop} (h : Yields places checker state Q) :
    Yields places (Stage.attempt checker) state fun result after => ∀ value ∈ result, Q value after := by
  rw [yields_iff_leaves] at h ⊢
  rw [Stage.leaves_attempt]
  refine h.mono (fun _ _ h => ⟨h.1, fun _ hmem => Option.mem_some.1 hmem ▸ h.2⟩) fun _ h => ⟨h, ?_⟩
  exact fun _ hmem => absurd hmem (Option.not_mem_none _)

theorem yields_mapM {value : Option α} {checker : α → Checker β} {Q : β → CheckerState → Prop}
    (hchecker : ∀ inner ∈ value, Yields places (checker inner) state Q) :
    Yields places (value.mapM checker) state fun result after => ∀ inner ∈ result, Q inner after := by
  cases value with
  | none => exact yields_pure fun _ hmem => absurd hmem (Option.not_mem_none _)
  | some value =>
    refine (hchecker value rfl).bind fun result after _ hresult => ?_
    exact yields_pure fun _ hmem => Option.mem_some.1 hmem ▸ hresult

/-! ### Reports and look-ups -/

theorem yields_report (hspan : state.IsPlaced places → places span) (issue : TypingIssue) :
    Yields places (report span issue) state fun _ after => after.symbols = state.symbols := by
  refine ⟨⟨List.prefix_rfl, id, _, Diagnostics.toList_report _ _, fun hplaced => ?_⟩, rfl⟩
  exact List.forall_mem_singleton.2 (hspan hplaced)

theorem yields_reject (hspan : state.IsPlaced places → places span) (issue : TypingIssue)
    {Q : α → CheckerState → Prop} : Yields places (reject span issue) state Q :=
  (yields_report hspan issue).bind fun _ _ _ _ => yields_fail

/-- A symbol that is looked up is there. -/
theorem yields_symbol_bind {id : SymbolId} {next : Symbol → Checker β} {R : β → CheckerState → Prop}
    (hnext : ∀ found, state.symbols[id.index]? = some found → Yields places (next found) state R) :
    Yields places (symbol id >>= next) state R := by
  show Yields places (Stage.ofExcept (symbolAt state.symbols id) >>= next) state R
  refine yields_ofExcept_bind fun found hfound => hnext found ?_
  rw [symbolAt] at hfound
  split at hfound
  · rename_i hsome
    rw [hsome, Except.ok.inj hfound]
  · cases hfound

theorem mem_of_getElem?_symbols {id : SymbolId} {found : Symbol} (h : state.symbols[id.index]? = some found) :
    found ∈ state.symbols.toList :=
  Array.mem_toList_iff.2 (Array.mem_of_getElem? h)

/-! ### Leaves -/

private theorem inferLiteral_yields (literal : Span) (negative : Bool) (hspan : places span) (expected : Option Ty) :
    Yields places (inferLiteral text literal negative span expected) state
      fun term after => term.IsResult places after.symbols := by
  rw [inferLiteral]
  refine yields_ofExcept_bind fun digits _ => yields_ofExcept_bind fun number hnumber => ?_
  have hobtained : (if negative = true then number.negate else number).IsObtained := by
    cases negative with
    | false => exact .ofText hnumber
    | true => exact (Number.IsObtained.ofText hnumber).negate
  cases hconvert : (if negative = true then number.negate else number).convert (literalTarget digits expected) with
  | ok value =>
    simp only [hconvert]
    exact yields_pure ⟨.constant (Number.isOf_of_convert hobtained.isCanonical hconvert), hspan⟩
  | error error =>
    simp only [hconvert]
    exact yields_reject (fun _ => hspan) _

private theorem inferName_yields (hspan : places span) :
    Yields places (inferName text span) state fun term after => term.IsResult places after.symbols := by
  rw [inferName]
  refine yields_ofExcept_bind fun name _ => yields_observe_bind ?_
  cases state.scope.find? name with
  | none => exact yields_reject (fun _ => hspan) _
  | some id => exact yields_symbol_bind fun found hfound => yields_pure ⟨.symbol hfound, hspan⟩

/-- The term of a node without its operands is a literal or a name. -/
private theorem inferLeaf?_yields {root : Node} (hspan : places root.span) (expected : Option Ty) (cause : Fault) :
    Yields places ((inferLeaf? text root expected).getD (Stage.raise cause)) state
      fun term after => term.IsResult places after.symbols := by
  rw [inferLeaf?]
  split
  · exact inferLiteral_yields root.span false hspan expected
  · exact inferName_yields hspan
  · exact yields_reject (fun _ => hspan) _
  · exact yields_raise

/-! ### Operators -/

private theorem requireAssignable_yields {target : Term} (htarget : places target.span) (mark : Mark) :
    Yields places (requireAssignable target mark) state fun _ after => target.IsVariable after.symbols := by
  rw [requireAssignable]
  cases target with
  | symbol id type span =>
    refine yields_symbol_bind fun found hfound => ?_
    split
    · refine (yields_report (fun _ => htarget) _).bind fun _ after _ hsymbols => yields_reject (fun hplaced => ?_) _
      refine hplaced found ?_
      rw [hsymbols]
      exact mem_of_getElem?_symbols hfound
    · rename_i hmutable
      exact yields_pure ⟨id, type, span, found, rfl, hfound, by simpa using hmutable⟩
  | constant => exact yields_reject (fun _ => htarget) _
  | unary => exact yields_reject (fun _ => htarget) _
  | binary => exact yields_reject (fun _ => htarget) _

private theorem requireClass_yields (op : BinaryOperator) {operand : Term} (hoperand : places operand.span) :
    Yields places (requireClass op operand) state fun _ _ => op.AppliesTo operand.type := by
  rw [requireClass]
  split
  · exact yields_reject (fun _ => hoperand) _
  · rename_i haccepts
    exact yields_pure (BinaryOperator.accepts_operandClass_iff.1 (by simpa using haccepts))

private theorem requireOperands_yields (op : BinaryOperator) {left right : Term} (hleft : places left.span)
    (hright : places right.span) (hspan : places span) :
    Yields places (requireOperands op left right span) state fun _ _ =>
      op.AppliesTo left.type ∧ op.AppliesTo right.type ∧ (op.isShift = false → left.type = right.type) := by
  rw [requireOperands]
  refine (requireClass_yields op hleft).bind fun _ _ _ happliesLeft => ?_
  refine (requireClass_yields op hright).bind fun _ _ _ happliesRight => ?_
  split
  · exact yields_reject (fun _ => hspan) _
  · rename_i hsame
    exact yields_pure ⟨happliesLeft, happliesRight, by simpa using hsame⟩

private theorem applyUnary_yields (op : UnaryOperator) {operand : Term}
    (hoperand : operand.IsResult places state.symbols) (hspan : places span) :
    Yields places (applyUnary op operand span) state fun term after => term.IsResult places after.symbols := by
  rw [applyUnary]
  split
  · exact (yields_reject (Q := fun _ _ => False) (fun _ => hspan) _).bind fun _ _ _ h => h.elim
  · rename_i haccepts
    have happlies : op.AppliesTo operand.type := UnaryOperator.accepts_iff.1 (by simpa using haccepts)
    show Yields places (if op.isStep = true then _ else _) _ _
    by_cases hstep : op.isStep = true
    · rw [if_pos hstep]
      refine (requireAssignable_yields hoperand.placed op.mark).bind fun _ after hafter htarget => ?_
      exact yields_pure ⟨.unary (hoperand.mono hafter).typed happlies fun _ => htarget, hspan⟩
    · rw [if_neg hstep]
      exact yields_pure ⟨.unary hoperand.typed happlies fun h => absurd h hstep, hspan⟩

private theorem applyBinary_yields (op : BinaryOperator) {left right : Term}
    (hleft : left.IsResult places state.symbols) (hright : right.IsResult places state.symbols) (hspan : places span) :
    Yields places (applyBinary op left right span) state fun term after => term.IsResult places after.symbols := by
  rw [applyBinary]
  refine (requireOperands_yields op hleft.placed hright.placed hspan).bind fun _ after hafter hoperands => ?_
  obtain ⟨happliesLeft, happliesRight, hsame⟩ := hoperands
  rw [← op.resultType_eq]
  show Yields places (if op.isAssignment = true then _ else _) _ _
  by_cases hassign : op.isAssignment = true
  · rw [if_pos hassign]
    refine (requireAssignable_yields hleft.placed op.mark).bind fun _ last hlast htarget => ?_
    exact yields_pure ⟨.binary ((hleft.mono hafter).mono hlast).typed ((hright.mono hafter).mono hlast).typed
      happliesLeft happliesRight hsame fun _ => htarget, hspan⟩
  · rw [if_neg hassign]
    exact yields_pure ⟨.binary (hleft.mono hafter).typed (hright.mono hafter).typed happliesLeft happliesRight hsame
      fun h => absurd h hassign, hspan⟩

/-! ### Trees -/

/-- Whether all nodes of a tree stand at some places. -/
def IsTreeAt (places : Span → Prop) (tree : Tree) : Prop :=
  ∀ node ∈ tree.nodes, places node.span

private theorem IsTreeAt.root {tree : Tree} (h : IsTreeAt places tree) : places tree.span :=
  h tree.root tree.root_mem_nodes

private theorem IsTreeAt.operand {root : Node} {operands : List Tree} (h : IsTreeAt places (.node root operands))
    {operand : Tree} (hmem : operand ∈ operands) : IsTreeAt places operand :=
  fun node hnode => h node (Tree.mem_nodes_of_mem_operands hmem hnode)

/-- The term of a tree is well typed, whatever type is expected. -/
theorem infer_yields {tree : Tree} (htree : IsTreeAt places tree) (expected : Option Ty) (state : CheckerState) :
    Yields places (infer text tree expected) state fun term after => term.IsResult places after.symbols := by
  fun_induction infer text tree expected generalizing state with
  | case1 root fault expected => exact inferLeaf?_yields htree.root expected fault
  | case2 root expected inner tail _ ih =>
    refine (ih (htree.operand List.mem_cons_self) state).bind fun term after _ hterm => ?_
    refine yields_pure ⟨hterm.typed.withSpan root.span, ?_⟩
    cases term <;> exact htree.root
  | case3 root expected callee tail =>
    have hcallee := (htree.operand List.mem_cons_self).root
    exact yields_ofExcept_bind fun _ _ => yields_reject (fun _ => hcallee) _
  | case4 root expected op operand tail => exact inferLiteral_yields operand.span true htree.root expected
  | case5 root expected op operand tail _ _ ih =>
    refine (ih (htree.operand List.mem_cons_self) state).bind fun term after _ hterm => ?_
    exact applyUnary_yields op hterm htree.root
  | case6 root expected op left right tail _ ihRight ihLeftOther ihLeft ihRightOther =>
    have hleft := htree.operand List.mem_cons_self
    have hright := htree.operand (List.mem_cons_of_mem _ List.mem_cons_self)
    refine yields_ofExcept_bind fun first _ => ?_
    split
    · refine (ihRight hright state).bind fun rightTerm middle _ hrightTerm => ?_
      refine (ihLeftOther rightTerm hleft middle).bind fun leftTerm last hlast hleftTerm => ?_
      exact applyBinary_yields op hleftTerm (hrightTerm.mono hlast) htree.root
    · refine (ihLeft hleft state).bind fun leftTerm middle _ hleftTerm => ?_
      refine (ihRightOther leftTerm hright middle).bind fun rightTerm last hlast hrightTerm => ?_
      exact applyBinary_yields op (hleftTerm.mono hlast) hrightTerm htree.root
  | case7 root operands expected => exact inferLeaf?_yields htree.root expected .index

end Checker

end ExprLang
