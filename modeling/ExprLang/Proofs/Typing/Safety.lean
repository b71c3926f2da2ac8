import ExprLang.Proofs.Decimal.Evaluation
import ExprLang.Proofs.Expression.PostOrder
import ExprLang.Proofs.Lexeme.Placing
import ExprLang.Proofs.Stages
import ExprLang.Typing.Infer

/-!
# Safety of checking

A checker keeps its state sound: the scope leads to symbols that there are, and what is reported stands at parts of the
text.  From a sound state the term of a valid phrase is inferred without a fault (`infer_isSafe`).
-/

namespace ExprLang

/-- Whether all symbols in a term are among the first `count`. -/
def Term.IsBound (count : Nat) : Term → Prop
  | constant _ _ _ => True
  | symbol id _ _ => id.index < count
  | unary _ operand _ _ => operand.IsBound count
  | binary _ left right _ _ => left.IsBound count ∧ right.IsBound count

/-- Whether a term has symbols that there are and covers a part of the text. -/
structure Term.IsSound (text : List Char) (count : Nat) (term : Term) : Prop where
  bound : term.IsBound count
  span : ∃ part, sliceOf text term.span = .ok part

/-- Whether all names of a scope lead to one of the first `count` symbols. -/
def Scope.IsBelow (count : Nat) (scope : Scope) : Prop :=
  ∀ entry ∈ scope.entries, entry.2.index < count

theorem Scope.IsBelow.index_lt_of_find? {scope : Scope} {count : Nat} (h : scope.IsBelow count) {name : List Char}
    {id : SymbolId} (hfound : scope.find? name = some id) : id.index < count := by
  obtain ⟨before, after, hentries, -⟩ := List.lookup_eq_some_iff.1 hfound
  refine h (name, id) ?_
  rw [hentries]
  exact List.mem_append_right _ List.mem_cons_self

/-- Whether the scope of a checker leads to symbols that there are, whose names stand for parts of a text. -/
structure CheckerState.IsSound (text : List Char) (state : CheckerState) : Prop where
  scope : state.scope.IsBelow state.symbols.size
  symbols : ∀ symbol ∈ state.symbols.toList, ∃ part, sliceOf text symbol.span = .ok part

/-- Whether a state is sound and has the symbols and reports of one before it, and what else has been reported stands at
parts of the text. -/
structure CheckerState.IsAfter (text : List Char) (before after : CheckerState) : Prop
    extends after.IsSound text where
  size_le : before.symbols.size ≤ after.symbols.size
  kept : ∃ more, after.diagnostics.toList = before.diagnostics.toList ++ more ∧
    ∀ report ∈ more, ∃ part, sliceOf text report.span = .ok part

theorem CheckerState.IsSound.isAfter {text : List Char} {state : CheckerState} (h : state.IsSound text) :
    state.IsAfter text state :=
  ⟨h, Nat.le_refl _, [], (List.append_nil _).symm, fun _ hmem => absurd hmem List.not_mem_nil⟩

theorem CheckerState.IsAfter.trans {text : List Char} {before middle after : CheckerState}
    (h : before.IsAfter text middle) (h' : middle.IsAfter text after) : before.IsAfter text after := by
  obtain ⟨more, hmore, hspans⟩ := h.kept
  obtain ⟨further, hfurther, hspans'⟩ := h'.kept
  refine ⟨h'.toIsSound, Nat.le_trans h.size_le h'.size_le, more ++ further, ?_, ?_⟩
  · rw [hfurther, hmore, List.append_assoc]
  · exact List.forall_mem_append.2 ⟨hspans, hspans'⟩

theorem Term.IsBound.mono {term : Term} {count more : Nat} (h : term.IsBound count) (hle : count ≤ more) :
    term.IsBound more := by
  induction term with
  | constant => trivial
  | symbol => exact Nat.lt_of_lt_of_le h hle
  | unary _ _ _ _ ih => exact ih h
  | binary _ _ _ _ _ ihLeft ihRight => exact ⟨ihLeft h.1, ihRight h.2⟩

namespace Checker

variable {α β : Type} {text : List Char} {state : CheckerState} {span : Span}

/-- Whether a checker runs into no fault, keeps the state sound, and is done only with what meets a condition. -/
def IsSafe (text : List Char) (checker : Checker α) (state : CheckerState) (Q : α → CheckerState → Prop) : Prop :=
  checker.Meets state (fun value after => state.IsAfter text after ∧ Q value after) fun after =>
    state.IsAfter text after

/-! ### Constructs -/

theorem IsSafe.mono {checker : Checker α} {Q R : α → CheckerState → Prop} (h : IsSafe text checker state Q)
    (hQ : ∀ value after, Q value after → R value after) : IsSafe text checker state R :=
  Stage.Meets.mono h (fun value after h => ⟨h.1, hQ value after h.2⟩) fun _ h => h

theorem IsSafe.bind {first : Checker α} {next : α → Checker β} {Q : α → CheckerState → Prop}
    {R : β → CheckerState → Prop} (h : IsSafe text first state Q)
    (hnext : ∀ value after, state.IsAfter text after → Q value after → IsSafe text (next value) after R) :
    IsSafe text (first >>= next) state R := by
  rw [IsSafe, Stage.meets_bind]
  refine Stage.Meets.mono h ?_ fun _ h => h
  rintro value middle ⟨hafter, hQ⟩
  exact Stage.Meets.mono (hnext value middle hafter hQ) (fun _ _ h => ⟨hafter.trans h.1, h.2⟩) fun _ h => hafter.trans h

theorem isSafe_pure {value : α} {Q : α → CheckerState → Prop} (h : state.IsSound text) (hQ : Q value state) :
    IsSafe text (pure value) state Q :=
  ⟨h.isAfter, hQ⟩

theorem isSafe_fail {Q : α → CheckerState → Prop} (h : state.IsSound text) :
    IsSafe text (Stage.fail : Checker α) state Q :=
  h.isAfter

theorem isSafe_observe_bind {f : CheckerState → α} {next : α → Checker β} {R : β → CheckerState → Prop}
    (hnext : IsSafe text (next (f state)) state R) : IsSafe text (Stage.observe f >>= next) state R :=
  hnext

theorem isSafe_ofExcept_bind {result : Except Fault α} {value : α} (hresult : result = .ok value)
    {next : α → Checker β} {R : β → CheckerState → Prop} (hnext : IsSafe text (next value) state R) :
    IsSafe text (Stage.ofExcept result >>= next) state R := by
  rw [hresult]
  exact hnext

theorem IsSafe.attempt {checker : Checker α} {Q : α → CheckerState → Prop} (h : IsSafe text checker state Q) :
    IsSafe text (Stage.attempt checker) state fun result after => ∀ value ∈ result, Q value after := by
  rw [IsSafe, Stage.meets_attempt]
  refine Stage.Meets.mono h ?_ ?_
  · rintro value after ⟨hafter, hQ⟩
    exact ⟨hafter, fun _ hmem => Option.mem_some.1 hmem ▸ hQ⟩
  · intro after hafter
    exact ⟨hafter, by simp⟩

/-! ### Reports and look-ups -/

theorem isSafe_report (h : state.IsSound text) (hspan : ∃ part, sliceOf text span = .ok part) (issue : TypingIssue) :
    IsSafe text (report span issue) state fun _ after => after.symbols = state.symbols := by
  refine ⟨⟨⟨h.scope, h.symbols⟩, Nat.le_refl _, _, Diagnostics.toList_report _ _, ?_⟩, rfl⟩
  exact List.forall_mem_singleton.2 hspan

theorem isSafe_reject (h : state.IsSound text) (hspan : ∃ part, sliceOf text span = .ok part) (issue : TypingIssue)
    {Q : α → CheckerState → Prop} : IsSafe text (reject span issue) state Q :=
  (isSafe_report h hspan issue).bind fun _ _ hafter _ => isSafe_fail hafter.toIsSound

theorem isSafe_slice_bind (hspan : ∃ part, sliceOf text span = .ok part) {next : List Char → Checker β}
    {R : β → CheckerState → Prop} (hnext : ∀ part, IsSafe text (next part) state R) :
    IsSafe text (slice text span >>= next) state R := by
  obtain ⟨part, hpart⟩ := hspan
  exact isSafe_ofExcept_bind hpart (hnext part)

theorem isSafe_symbol_bind {id : SymbolId} (hid : id.index < state.symbols.size) {next : Symbol → Checker β}
    {R : β → CheckerState → Prop} (hnext : ∀ found ∈ state.symbols.toList, IsSafe text (next found) state R) :
    IsSafe text (symbol id >>= next) state R := by
  have hsymbol : symbolAt state.symbols id = .ok state.symbols[id.index] := by
    rw [symbolAt, Array.getElem?_eq_getElem hid]
  show IsSafe text (Stage.ofExcept (symbolAt state.symbols id) >>= next) state R
  exact isSafe_ofExcept_bind hsymbol (hnext _ (Array.mem_toList_iff.2 (Array.getElem_mem hid)))

/-! ### Leaves -/

private theorem inferLiteral_isSafe (h : state.IsSound text) {lexeme : Lexeme} (hlexeme : lexeme.IsLegible text)
    (htag : lexeme.tag = .decimal) (negative : Bool) (hspan : ∃ part, sliceOf text span = .ok part)
    (expected : Option Ty) : IsSafe text (inferLiteral text lexeme.span negative span expected) state
      fun term after => term.IsSound text after.symbols.size := by
  obtain ⟨digits, hslice, hdigits⟩ := hlexeme
  obtain ⟨front, rest, hsplit⟩ := hdigits htag
  obtain ⟨decimal, -, rfl⟩ := exists_decimalText hsplit
  obtain ⟨number, hnumber⟩ := decimal.exists_ofText_spelling
  rw [inferLiteral]
  refine isSafe_ofExcept_bind hslice (isSafe_ofExcept_bind hnumber ?_)
  cases hconvert : (if negative = true then number.negate else number).convert
      (literalTarget decimal.spelling expected) with
  | ok constant =>
    simp only [hconvert]
    exact isSafe_pure h ⟨trivial, hspan⟩
  | error error =>
    simp only [hconvert]
    exact isSafe_reject h hspan _

private theorem inferName_isSafe (h : state.IsSound text) (hspan : ∃ part, sliceOf text span = .ok part) :
    IsSafe text (inferName text span) state fun term after => term.IsSound text after.symbols.size := by
  rw [inferName]
  refine isSafe_slice_bind hspan fun name => isSafe_observe_bind ?_
  cases hfound : state.scope.find? name with
  | none => exact isSafe_reject h hspan _
  | some id =>
    have hid := h.scope.index_lt_of_find? hfound
    exact isSafe_symbol_bind hid fun _ _ => isSafe_pure h ⟨hid, hspan⟩

/-! ### Operators -/

private theorem requireAssignable_isSafe (h : state.IsSound text) {target : Term}
    (htarget : target.IsSound text state.symbols.size) (mark : Mark) :
    IsSafe text (requireAssignable target mark) state fun _ _ => True := by
  rw [requireAssignable]
  cases hsymbol : target.symbol? with
  | none => exact isSafe_reject h htarget.span _
  | some id =>
    have hid : id.index < state.symbols.size := by
      cases target with
      | symbol => exact Option.some.inj hsymbol ▸ htarget.bound
      | _ => cases hsymbol
    refine isSafe_symbol_bind hid fun symbol hmem => ?_
    split
    · refine (isSafe_report h htarget.span _).bind fun _ after hreported _ => ?_
      exact isSafe_reject hreported.toIsSound (h.symbols symbol hmem) _
    · exact isSafe_pure h trivial

private theorem requireClass_isSafe (h : state.IsSound text) (op : BinaryOperator) {operand : Term}
    (hoperand : ∃ part, sliceOf text operand.span = .ok part) :
    IsSafe text (requireClass op operand) state fun _ _ => True := by
  rw [requireClass]
  split
  · exact isSafe_reject h hoperand _
  · exact isSafe_pure h trivial

private theorem requireOperands_isSafe (h : state.IsSound text) (op : BinaryOperator) {left right : Term}
    (hleft : ∃ part, sliceOf text left.span = .ok part) (hright : ∃ part, sliceOf text right.span = .ok part)
    (hspan : ∃ part, sliceOf text span = .ok part) :
    IsSafe text (requireOperands op left right span) state fun _ _ => True := by
  rw [requireOperands]
  refine (requireClass_isSafe h op hleft).bind fun _ _ hafter _ => ?_
  refine (requireClass_isSafe hafter.toIsSound op hright).bind fun _ _ hafter _ => ?_
  split
  · exact isSafe_reject hafter.toIsSound hspan _
  · exact isSafe_pure hafter.toIsSound trivial

private theorem applyUnary_isSafe (h : state.IsSound text) (op : UnaryOperator) {operand : Term}
    (hoperand : operand.IsSound text state.symbols.size) (hspan : ∃ part, sliceOf text span = .ok part) :
    IsSafe text (applyUnary op operand span) state fun term after => term.IsSound text after.symbols.size := by
  rw [applyUnary]
  split
  · exact (isSafe_reject (Q := fun _ _ => False) h hspan _).bind fun _ _ _ h => h.elim
  · show IsSafe text (if op.isStep = true then _ else _) _ _
    split
    · refine (requireAssignable_isSafe h hoperand op.mark).bind fun _ after hafter _ => ?_
      exact isSafe_pure hafter.toIsSound ⟨hoperand.bound.mono hafter.size_le, hspan⟩
    · exact isSafe_pure h ⟨hoperand.bound, hspan⟩

private theorem applyBinary_isSafe (h : state.IsSound text) (op : BinaryOperator) {left right : Term}
    (hleft : left.IsSound text state.symbols.size) (hright : right.IsSound text state.symbols.size)
    (hspan : ∃ part, sliceOf text span = .ok part) :
    IsSafe text (applyBinary op left right span) state fun term after => term.IsSound text after.symbols.size := by
  rw [applyBinary]
  refine (requireOperands_isSafe h op hleft.span hright.span hspan).bind fun _ after hafter _ => ?_
  have hleft : left.IsSound text after.symbols.size := ⟨hleft.bound.mono hafter.size_le, hleft.span⟩
  have hright : right.IsSound text after.symbols.size := ⟨hright.bound.mono hafter.size_le, hright.span⟩
  show IsSafe text (if op.isAssignment = true then _ else _) _ _
  by_cases hassign : op.isAssignment = true
  · rw [if_pos hassign]
    refine (requireAssignable_isSafe hafter.toIsSound hleft op.mark).bind fun _ last hlast _ => ?_
    exact isSafe_pure hlast.toIsSound ⟨⟨hleft.bound.mono hlast.size_le, hright.bound.mono hlast.size_le⟩, hspan⟩
  · rw [if_neg hassign]
    exact isSafe_pure hafter.toIsSound ⟨⟨hleft.bound, hright.bound⟩, hspan⟩

end Checker

/-! ### Expressions -/

namespace Phrase

variable {text : List Char} {phrase : Phrase}

/-- A valid phrase that is a literal is one lexeme. -/
private theorem IsValid.exists_of_literal (h : phrase.IsValid) (hop : phrase.operator = .literal) :
    ∃ lexeme, phrase = .leaf .literal lexeme ∧ lexeme.tag = .decimal := by
  cases h with
  | @leaf op lexeme hshape =>
    obtain rfl : op = .literal := hop
    exact ⟨lexeme, rfl, (Shape.leaf.inj hshape).symm⟩
  | before hshape => rw [operator] at hop; rw [hop] at hshape; cases hshape
  | after hshape => rw [operator] at hop; rw [hop] at hshape; cases hshape
  | around hshape => rw [operator] at hop; rw [hop] at hshape; cases hshape
  | between hshape => rw [operator] at hop; rw [hop] at hshape; cases hshape
  | sequence hshape => rw [operator] at hop; rw [hop] at hshape; cases hshape
  | application hshape => rw [operator] at hop; rw [hop] at hshape; cases hshape

/-- Whether a valid phrase is a literal with or without a sign can be told. -/
private theorem IsValid.exists_isLiteral (h : phrase.IsValid) : ∃ literal, phrase.toTree.isLiteral = .ok literal := by
  rw [toTree_eq, Tree.isLiteral]
  split
  · exact ⟨true, rfl⟩
  · rename_i hop
    have hop : phrase.operator = .unary .negate := hop
    obtain ⟨operand, others, hoperands⟩ : ∃ operand others, phrase.operands = operand :: others := by
      cases h with
      | before => exact ⟨_, [], rfl⟩
      | after => exact ⟨_, [], rfl⟩
      | around => exact ⟨_, [], rfl⟩
      | between => exact ⟨_, _, rfl⟩
      | application => exact ⟨_, _, rfl⟩
      | leaf hshape => rw [operator] at hop; rw [hop] at hshape; cases hshape
      | sequence hshape => rw [operator] at hop; rw [hop] at hshape; cases hshape
    rw [hoperands]
    exact ⟨_, rfl⟩
  · exact ⟨false, rfl⟩

end Phrase

namespace Checker

variable {text : List Char} {state : CheckerState}

private theorem exists_looksRightFirst (op : BinaryOperator) {left right : Phrase} (hleft : left.IsValid)
    (hright : right.IsValid) : ∃ first, looksRightFirst op left.toTree right.toTree = .ok first := by
  obtain ⟨leftLiteral, hleft⟩ := hleft.exists_isLiteral
  obtain ⟨rightLiteral, hright⟩ := hright.exists_isLiteral
  rw [looksRightFirst, hleft, hright]
  split
  · exact ⟨_, rfl⟩
  · cases leftLiteral <;> exact ⟨_, rfl⟩

/-- What inferring the term of a phrase from any sound state comes to. -/
def InfersSafely (text : List Char) (phrase : Phrase) : Prop :=
  ∀ (state : CheckerState) (expected : Option Ty), state.IsSound text →
    IsSafe text (infer text phrase.toTree expected) state fun term after => term.IsSound text after.symbols.size

private theorem inferUnary_isSafe {operand : Phrase} (hvalid : operand.IsValid)
    (hlegible : ∀ lexeme ∈ operand.lexemes, lexeme.IsLegible text) (hoperand : InfersSafely text operand)
    (h : state.IsSound text) (op : UnaryOperator) {span : Span} (hspan : ∃ part, sliceOf text span = .ok part)
    (arity : Nat) (expected : Option Ty) :
    IsSafe text (infer text (.node ⟨.unary op, arity, span⟩ [operand.toTree]) expected) state
      fun term after => term.IsSound text after.symbols.size := by
  show IsSafe text (if op = .negate ∧ operand.toTree.operator = .literal then _ else _) state _
  split
  · rename_i hnegate
    have hliteral : operand.operator = .literal := by
      have := hnegate.2
      rwa [Phrase.toTree_eq] at this
    obtain ⟨lexeme, rfl, htag⟩ := hvalid.exists_of_literal hliteral
    exact inferLiteral_isSafe h (hlegible lexeme (List.mem_singleton_self _)) htag true hspan expected
  · refine (hoperand state _ h).bind fun term after hafter hterm => ?_
    exact applyUnary_isSafe hafter.toIsSound op hterm hspan

private theorem inferBinary_isSafe {left right : Phrase} (hvalidLeft : left.IsValid) (hvalidRight : right.IsValid)
    (hleft : InfersSafely text left) (hright : InfersSafely text right) (h : state.IsSound text)
    (op : BinaryOperator) {span : Span} (hspan : ∃ part, sliceOf text span = .ok part) (arity : Nat)
    (expected : Option Ty) :
    IsSafe text (infer text (.node ⟨.binary op, arity, span⟩ [left.toTree, right.toTree]) expected) state
      fun term after => term.IsSound text after.symbols.size := by
  show IsSafe text (Stage.ofExcept (looksRightFirst op left.toTree right.toTree) >>= _) state _
  obtain ⟨first, hfirst⟩ := exists_looksRightFirst op hvalidLeft hvalidRight
  refine isSafe_ofExcept_bind hfirst ?_
  cases first with
  | true =>
    show IsSafe text (infer text right.toTree (operandExpected op expected) >>= _) state _
    refine (hright state _ h).bind fun right middle hmiddle hright => ?_
    refine (hleft middle _ hmiddle.toIsSound).bind fun left last hlast hleft => ?_
    exact applyBinary_isSafe hlast.toIsSound op hleft ⟨hright.bound.mono hlast.size_le, hright.span⟩ hspan
  | false =>
    show IsSafe text (infer text left.toTree (operandExpected op expected) >>= _) state _
    refine (hleft state _ h).bind fun left middle hmiddle hleft => ?_
    refine (hright middle _ hmiddle.toIsSound).bind fun right last hlast hright => ?_
    exact applyBinary_isSafe hlast.toIsSound op ⟨hleft.bound.mono hlast.size_le, hleft.span⟩ hright hspan

/-- The term of a valid phrase is inferred without a fault. -/
theorem infer_isSafe {phrase : Phrase} (hvalid : phrase.IsValid)
    (hlegible : ∀ lexeme ∈ phrase.lexemes, lexeme.IsLegible text) : InfersSafely text phrase := by
  have hsliced : ∀ lexeme ∈ phrase.lexemes, ∃ part, sliceOf text lexeme.span = .ok part :=
    fun lexeme hmem => (hlegible lexeme hmem).imp fun _ h => h.1
  have hspan := hvalid.exists_sliceOf_span hsliced
  -- A node is checked with the terms of its operands, except for a literal under a minus.
  induction hvalid with
  | @leaf op lexeme hshape =>
    intro state expected h
    rcases Operator.eq_of_shape_leaf hshape with ⟨rfl, htag⟩ | ⟨rfl, -⟩
    · exact inferLiteral_isSafe h (hlegible lexeme (List.mem_singleton_self _)) htag false hspan expected
    · exact inferName_isSafe h hspan
  | @before op mark _ operand hshape _ _ hoperand ih =>
    intro state expected h
    obtain ⟨unary, rfl⟩ := Operator.exists_of_shape_before hshape
    rw [Phrase.lexemes, List.forall_mem_cons] at hlegible hsliced
    have hinner := ih hlegible.2 hsliced.2 (hoperand.exists_sliceOf_span hsliced.2)
    exact inferUnary_isSafe hoperand hlegible.2 hinner h unary hspan 1 expected
  | @after op operand mark _ hshape _ _ hoperand ih =>
    intro state expected h
    obtain ⟨unary, rfl⟩ := Operator.exists_of_shape_after hshape
    rw [Phrase.lexemes, List.forall_mem_append] at hlegible hsliced
    have hinner := ih hlegible.1 hsliced.1 (hoperand.exists_sliceOf_span hsliced.1)
    exact inferUnary_isSafe hoperand hlegible.1 hinner h unary hspan 1 expected
  | @around op opener operand closer _ _ hshape _ _ _ hoperand ih =>
    intro state expected h
    obtain rfl := Operator.eq_of_shape_around hshape
    rw [Phrase.lexemes, List.forall_mem_append, List.forall_mem_cons] at hlegible hsliced
    have hinner := ih hlegible.1.2 hsliced.1.2 (hoperand.exists_sliceOf_span hsliced.1.2)
    refine (hinner state expected h).bind fun term after hafter hterm => ?_
    refine isSafe_pure hafter.toIsSound ?_
    cases term <;> exact ⟨hterm.bound, hspan⟩
  | @between op left mark right _ hshape _ _ _ hleft hright ihLeft ihRight =>
    intro state expected h
    obtain ⟨binary, rfl⟩ := Operator.exists_of_shape_between hshape
    rw [Phrase.lexemes, List.forall_mem_append, List.forall_mem_cons] at hlegible hsliced
    have hinnerLeft := ihLeft hlegible.1 hsliced.1 (hleft.exists_sliceOf_span hsliced.1)
    have hinnerRight := ihRight hlegible.2.2 hsliced.2.2 (hright.exists_sliceOf_span hsliced.2.2)
    exact inferBinary_isSafe hleft hright hinnerLeft hinnerRight h binary hspan 2 expected
  | @sequence op opener operands commas closer _ _ hshape =>
    intro state expected h
    obtain rfl := Operator.eq_of_shape_sequence hshape
    exact isSafe_reject h hspan .listValue
  | @application op callee opener operands commas closer _ _ hshape _ _ _ _ _ _ hcallee _ ihCallee _ =>
    intro state expected h
    obtain rfl := Operator.eq_of_shape_application hshape
    rw [Phrase.lexemes, List.forall_mem_append, List.forall_mem_append] at hsliced
    have hcalleeSpan : ∃ part, sliceOf text callee.toTree.span = .ok part := by
      rw [Phrase.toTree_eq]
      exact hcallee.exists_sliceOf_span hsliced.1.1
    show IsSafe text (slice text callee.toTree.span >>= _) state _
    exact isSafe_slice_bind hcalleeSpan fun _ => isSafe_reject h hcalleeSpan _

end Checker

end ExprLang
