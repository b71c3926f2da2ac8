import ExprLang.Proofs.Comparison.Layout
import ExprLang.Proofs.Typing.Places
import ExprLang.Proofs.Typing.Programs
import ExprLang.Proofs.Typing.Results

/-!
# Checkers side by side

Checkers that look at corresponding statements of two texts come to the same program, but for the places in it, and
report as seriously as each other (`Checker.checkAll_alike`).  So what a source means does not depend on the layout
between its lexemes (`Source.exists_checking_resembles`).
-/

namespace ExprLang

/-- Whether the states of two checkers are the same but for places and messages. -/
structure CheckerState.Resembles (state other : CheckerState) : Prop where
  severities : state.diagnostics.severities = other.diagnostics.severities
  scope : state.scope = other.scope
  symbols : state.symbols.map Symbol.unplaced = other.symbols.map Symbol.unplaced

namespace Checker

open Comparison

variable {α β γ δ : Type} {R : α → β → Prop} {S : γ → δ → Prop} {text text' : List Char}

/-! ### Rules -/

/-- Whether two checkers that start alike come to related results, or both fail, and end alike. -/
def Alike (R : α → β → Prop) (first : Checker α) (second : Checker β) : Prop :=
  ∀ ⦃state other : CheckerState⦄, state.Resembles other →
    first.Matches state second other (fun value after result last => R value result ∧ after.Resembles last)
      CheckerState.Resembles

private theorem alike_pure {value : α} {result : β} (h : R value result) : Alike R (pure value) (pure result) :=
  fun _ _ hstate => Stage.matches_pure ⟨h, hstate⟩

private theorem alike_fail : Alike R (Stage.fail : Checker α) (Stage.fail : Checker β) :=
  fun _ _ hstate => Stage.matches_fail hstate

private theorem alike_raise {cause cause' : Fault} :
    Alike R (Stage.raise cause : Checker α) (Stage.raise cause' : Checker β) :=
  fun _ _ _ => Stage.matches_raise

private theorem Alike.bind {first : Checker α} {second : Checker β} {next : α → Checker γ} {further : β → Checker δ}
    (h : Alike R first second) (hnext : ∀ value result, R value result → Alike S (next value) (further result)) :
    Alike S (first >>= next) (second >>= further) := by
  intro state other hstate
  refine (h hstate).bind fun value after result last hmiddle => ?_
  exact hnext value result hmiddle.1 hmiddle.2

private theorem Alike.attempt {first : Checker α} {second : Checker β} (h : Alike R first second) :
    Alike (Option.Rel R) (Stage.attempt first) (Stage.attempt second) :=
  fun _ _ hstate => (h hstate).attempt (fun _ _ _ _ hlast => ⟨.some hlast.1, hlast.2⟩) fun _ _ hlast => ⟨.none, hlast⟩

private theorem alike_mapM {value : Option α} {result : Option β} {first : α → Checker γ} {second : β → Checker δ}
    (h : Option.Rel R value result) (hchecker : ∀ a b, R a b → Alike S (first a) (second b)) :
    Alike (Option.Rel S) (value.mapM first) (result.mapM second) := by
  cases h with
  | none => exact alike_pure .none
  | some h => exact (hchecker _ _ h).bind fun _ _ hvalue => alike_pure (.some hvalue)

private theorem alike_report {issue issue' : TypingIssue} (span span' : Span) (h : issue.severity = issue'.severity) :
    Alike (fun _ _ => True) (report span issue) (report span' issue') := by
  intro state other hstate
  refine .done ⟨trivial, ?_, hstate.scope, hstate.symbols⟩
  show (state.diagnostics.report _).severities = (other.diagnostics.report _).severities
  rw [Diagnostics.severities_report, Diagnostics.severities_report, hstate.severities]
  exact congrArg (_ ++ [·]) h

private theorem alike_reject {issue issue' : TypingIssue} (span span' : Span) (h : issue.severity = issue'.severity) :
    Alike R (reject span issue : Checker α) (reject span' issue' : Checker β) :=
  (alike_report span span' h).bind fun _ _ _ => alike_fail

private theorem alike_ofExcept_bind {value : Except Fault α} {result : Except Fault β} {next : α → Checker γ}
    {further : β → Checker δ} (h : ∀ a b, value = .ok a → result = .ok b → Alike S (next a) (further b)) :
    Alike S (Stage.ofExcept value >>= next) (Stage.ofExcept result >>= further) :=
  fun _ _ hstate => Stage.matches_ofExcept_bind_of_ok fun a b ha hb => h a b ha hb hstate

private theorem alike_ofExcept_bind_of_extendedBy {value result : Except Fault α} {next : α → Checker γ}
    {further : α → Checker δ} (hsame : ExtendedBy value result) (h : ∀ a, Alike S (next a) (further a)) :
    Alike S (Stage.ofExcept value >>= next) (Stage.ofExcept result >>= further) :=
  fun _ _ hstate => Stage.matches_ofExcept_bind_of_extendedBy hsame fun a => h a hstate

/-- Spans that are spelled alike hold the same characters. -/
private theorem alike_slice_bind {span span' : Span} {next : List Char → Checker γ} {further : List Char → Checker δ}
    (hspan : SpelledAlike text text' span span') (h : ∀ part, Alike S (next part) (further part)) :
    Alike S (slice text span >>= next) (slice text' span' >>= further) :=
  alike_ofExcept_bind_of_extendedBy (extendedBy_sliceOf hspan) h

private theorem alike_scope_bind {next : Scope → Checker γ} {further : Scope → Checker δ}
    (h : ∀ scope, Alike S (next scope) (further scope)) :
    Alike S (Stage.observe (·.scope) >>= next) (Stage.observe (·.scope) >>= further) := by
  intro state other hstate
  refine Stage.matches_observe_bind.2 ?_
  rw [hstate.scope]
  exact h other.scope hstate

/-- A symbol that is looked up is the same but for its place. -/
private theorem alike_symbol_bind (id : SymbolId) {next : Symbol → Checker γ} {further : Symbol → Checker δ}
    (h : ∀ found found', found.unplaced = found'.unplaced → Alike S (next found) (further found')) :
    Alike S (symbol id >>= next) (symbol id >>= further) := by
  intro state other hstate
  show (Stage.ofExcept (symbolAt state.symbols id) >>= next).Matches state
    (Stage.ofExcept (symbolAt other.symbols id) >>= further) other _ _
  refine Stage.matches_ofExcept_bind_of_ok fun found found' hfound hfound' => h found found' ?_ hstate
  have hsymbols := congrArg (symbolAt · id) hstate.symbols
  simp only [symbolAt_unplaced, hfound, hfound'] at hsymbols
  exact Except.ok.inj hsymbols

/-! ### Leaves -/

/-- Whether two terms are the same but for their places. -/
def SameTerm (term term' : Term) : Prop :=
  term.unplaced = term'.unplaced

theorem SameTerm.type {term term' : Term} (h : SameTerm term term') : term.type = term'.type := by
  rw [← term.type_unplaced, ← term'.type_unplaced, h]

private theorem SameTerm.symbol? {term term' : Term} (h : SameTerm term term') : term.symbol? = term'.symbol? := by
  rw [← term.symbol?_unplaced, ← term'.symbol?_unplaced, h]

private theorem inferLiteral_alike {literal literal' : Span} (hliteral : SpelledAlike text text' literal literal')
    (negative : Bool) (span span' : Span) (expected : Option Ty) :
    Alike SameTerm (inferLiteral text literal negative span expected)
      (inferLiteral text' literal' negative span' expected) := by
  rw [inferLiteral, inferLiteral]
  refine alike_slice_bind hliteral fun digits => ?_
  refine alike_ofExcept_bind_of_extendedBy extendedBy_rfl fun number => ?_
  cases hconvert : (if negative = true then number.negate else number).convert (literalTarget digits expected) with
  | ok value =>
    simp only [hconvert]
    exact alike_pure rfl
  | error error =>
    simp only [hconvert]
    exact alike_reject _ _ rfl

private theorem inferName_alike {span span' : Span} (hspan : SpelledAlike text text' span span') :
    Alike SameTerm (inferName text span) (inferName text' span') := by
  rw [inferName, inferName]
  refine alike_slice_bind hspan fun name => ?_
  refine alike_scope_bind fun scope => ?_
  cases scope.find? name with
  | none => exact alike_reject _ _ rfl
  | some id =>
    refine alike_symbol_bind id fun found found' hfound => alike_pure ?_
    have htype := (Symbol.eq_of_unplaced_eq hfound).2.1
    show Term.symbol id found.type _ = Term.symbol id found'.type _
    rw [htype]

/-- The term of a node without its operands depends on the characters of its lexeme only. -/
private theorem inferLeaf?_alike {root root' : Node} (hroot : (respaced text text').RelatesNode root root')
    (expected : Option Ty) (cause cause' : Fault) :
    Alike SameTerm ((inferLeaf? text root expected).getD (Stage.raise cause))
      ((inferLeaf? text' root' expected).getD (Stage.raise cause')) := by
  rw [inferLeaf?, inferLeaf?, ← hroot.operator]
  split
  · rename_i hop
    exact inferLiteral_alike (hroot.leaf .decimal (by rw [hop]; rfl)) false _ _ expected
  · rename_i hop
    exact inferName_alike (hroot.leaf .name (by rw [hop]; rfl))
  · exact alike_reject _ _ rfl
  · exact alike_raise

/-! ### Operators -/

private theorem requireAssignable_alike {target target' : Term} (h : SameTerm target target') (mark : Mark) :
    Alike (fun _ _ => True) (requireAssignable target mark) (requireAssignable target' mark) := by
  rw [requireAssignable, requireAssignable, h.symbol?]
  cases target'.symbol? with
  | none => exact alike_reject _ _ rfl
  | some id =>
    refine alike_symbol_bind id fun found found' hfound => ?_
    rw [(Symbol.eq_of_unplaced_eq hfound).2.2]
    split
    · exact (alike_report _ _ (by rfl)).bind fun _ _ _ => alike_reject _ _ (by rfl)
    · exact alike_pure trivial

private theorem requireClass_alike (op : BinaryOperator) {operand operand' : Term} (h : SameTerm operand operand') :
    Alike (fun _ _ => True) (requireClass op operand) (requireClass op operand') := by
  rw [requireClass, requireClass, h.type]
  split
  · exact alike_reject _ _ rfl
  · exact alike_pure trivial

private theorem requireOperands_alike (op : BinaryOperator) {left left' right right' : Term}
    (hleft : SameTerm left left') (hright : SameTerm right right') (span span' : Span) :
    Alike (fun _ _ => True) (requireOperands op left right span) (requireOperands op left' right' span') := by
  rw [requireOperands, requireOperands]
  refine (requireClass_alike op hleft).bind fun _ _ _ => ?_
  refine (requireClass_alike op hright).bind fun _ _ _ => ?_
  rw [hleft.type, hright.type]
  split
  · exact alike_reject _ _ rfl
  · exact alike_pure trivial

private theorem applyUnary_alike (op : UnaryOperator) {operand operand' : Term} (h : SameTerm operand operand')
    (span span' : Span) : Alike SameTerm (applyUnary op operand span) (applyUnary op operand' span') := by
  have hterm : SameTerm (.unary op operand operand.type span) (.unary op operand' operand.type span') := by
    rw [SameTerm, Term.unplaced, Term.unplaced, h]
  rw [applyUnary, applyUnary, ← h.type]
  split
  · exact (alike_reject (R := fun _ _ => False) _ _ (by rfl)).bind fun _ _ h => h.elim
  · show Alike SameTerm (if op.isStep = true then _ else _) (if op.isStep = true then _ else _)
    split
    · refine (requireAssignable_alike h op.mark).bind fun _ _ _ => ?_
      exact alike_pure hterm
    · exact alike_pure hterm

private theorem applyBinary_alike (op : BinaryOperator) {left left' right right' : Term} (hleft : SameTerm left left')
    (hright : SameTerm right right') (span span' : Span) :
    Alike SameTerm (applyBinary op left right span) (applyBinary op left' right' span') := by
  have hterm : SameTerm (.binary op left right (if op.yieldsBool then .bool else left.type) span)
      (.binary op left' right' (if op.yieldsBool then .bool else left'.type) span') := by
    rw [SameTerm, Term.unplaced, Term.unplaced, hleft.type, hleft, hright]
  rw [applyBinary, applyBinary]
  refine (requireOperands_alike op hleft hright span span').bind fun _ _ _ => ?_
  show Alike SameTerm (if op.isAssignment = true then _ else _) (if op.isAssignment = true then _ else _)
  split
  · refine (requireAssignable_alike hleft op.mark).bind fun _ _ _ => ?_
    exact alike_pure hterm
  · exact alike_pure hterm

/-! ### Trees -/

private theorem exists_operand_respaced {tree tree' operand : Tree} (h : (respaced text text').RelatesTree tree tree')
    (hoperand : tree.operand 0 = .ok operand) :
    ∃ operand', tree'.operand 0 = .ok operand' ∧ (respaced text text').RelatesTree operand operand' := by
  cases h with
  | broken hroot => cases hoperand
  | node hroot hoperands =>
    cases hoperands with
    | nil => cases hoperand
    | cons hfirst _ =>
      obtain rfl := Except.ok.inj hoperand
      exact ⟨_, rfl, hfirst⟩

private theorem isLiteral_respaced {tree tree' : Tree} (h : (respaced text text').RelatesTree tree tree') :
    ExtendedBy tree.isLiteral tree'.isLiteral := by
  rw [Tree.isLiteral, Tree.isLiteral, ← h.operator]
  split
  · exact extendedBy_rfl
  · refine extendedBy_bind fun operand hoperand => ?_
    obtain ⟨operand', hoperand', hrelated⟩ := exists_operand_respaced h hoperand
    refine ⟨operand', hoperand', ?_⟩
    rw [hrelated.operator]
    exact extendedBy_rfl
  · exact extendedBy_rfl

private theorem looksRightFirst_respaced (op : BinaryOperator) {left left' right right' : Tree}
    (hleft : (respaced text text').RelatesTree left left') (hright : (respaced text text').RelatesTree right right') :
    ExtendedBy (looksRightFirst op left right) (looksRightFirst op left' right') := by
  rw [looksRightFirst, looksRightFirst]
  split
  · exact extendedBy_rfl
  · refine (isLiteral_respaced hleft).bind fun isLiteral => ?_
    split
    · exact (isLiteral_respaced hright).bind fun _ => extendedBy_rfl
    · exact extendedBy_rfl


/-- Corresponding trees have the same term, whatever type is expected. -/
private theorem infer_alike {tree tree' : Tree} (h : (respaced text text').RelatesTree tree tree')
    (expected : Option Ty) :
    Alike SameTerm (infer text tree expected) (infer text' tree' expected) := by
  fun_induction infer text tree expected generalizing tree' with
  | case1 root fault expected =>
    cases h with
    | broken hroot => exact inferLeaf?_alike hroot expected _ _
  | case2 root expected inner tail hop ih =>
    obtain ⟨hroot, _ | ⟨hinner, -⟩⟩ := h
    rw [hroot.operator] at hop
    simp only [infer, hop]
    refine (ih hinner).bind fun term term' hterm => alike_pure ?_
    rw [SameTerm, Term.unplaced_withSpan, Term.unplaced_withSpan, hterm]
  | case3 root expected callee tail hop =>
    obtain ⟨hroot, _ | ⟨-, -⟩⟩ := h
    rw [hroot.operator] at hop
    simp only [infer, hop]
    exact alike_ofExcept_bind fun _ _ _ _ => alike_reject _ _ (by rfl)
  | case4 root expected op operand tail hop hnegated =>
    obtain ⟨hroot, _ | ⟨hoperand, -⟩⟩ := h
    have hliteral := hoperand.root.leaf .decimal (by rw [show operand.root.operator = _ from hnegated.2]; rfl)
    rw [hroot.operator] at hop
    rw [hoperand.operator] at hnegated
    simp only [infer.eq_def text' (.node _ (_ :: _)), hop, if_pos hnegated]
    exact inferLiteral_alike hliteral true _ _ expected
  | case5 root expected op operand tail hop hplain ih =>
    obtain ⟨hroot, _ | ⟨hoperand, -⟩⟩ := h
    rw [hroot.operator] at hop
    rw [hoperand.operator] at hplain
    simp only [infer.eq_def text' (.node _ (_ :: _)), hop, if_neg hplain]
    refine (ih hoperand).bind fun term term' hterm => ?_
    exact applyUnary_alike op hterm _ _
  | case6 root expected op left right tail hop ihRight ihLeftOther ihLeft ihRightOther =>
    obtain ⟨hroot, _ | ⟨hleft, _ | ⟨hright, -⟩⟩⟩ := h
    rw [hroot.operator] at hop
    simp only [infer.eq_def text' (.node _ (_ :: _ :: _)), hop]
    refine alike_ofExcept_bind_of_extendedBy (looksRightFirst_respaced op hleft hright) fun first => ?_
    split
    · refine (ihRight hright).bind fun rightTerm rightTerm' hrightTerm => ?_
      rw [← hrightTerm.type]
      refine (ihLeftOther rightTerm hleft).bind fun leftTerm leftTerm' hleftTerm => ?_
      exact applyBinary_alike op hleftTerm hrightTerm _ _
    · refine (ihLeft hleft).bind fun leftTerm leftTerm' hleftTerm => ?_
      rw [← hleftTerm.type]
      refine (ihRightOther leftTerm hright).bind fun rightTerm rightTerm' hrightTerm => ?_
      exact applyBinary_alike op hleftTerm hrightTerm _ _
  | case7 root operands expected hgroup hcall hunary hbinary =>
    cases h with
    | node hroot hoperands =>
      -- The operands of the other tree are as many, so none of the other cases fits it either.
      rw [infer]
      · exact inferLeaf?_alike hroot expected _ _
      · rintro inner tail hop rfl
        cases hoperands with
        | cons _ _ => exact hgroup _ _ (hroot.operator.trans hop) rfl
      · rintro callee tail hop rfl
        cases hoperands with
        | cons _ _ => exact hcall _ _ (hroot.operator.trans hop) rfl
      · rintro op operand tail hop rfl
        cases hoperands with
        | cons _ _ => exact hunary op _ _ (hroot.operator.trans hop) rfl
      · rintro op left right tail hop rfl
        cases hoperands with
        | cons _ hoperands =>
          cases hoperands with
          | cons _ _ => exact hbinary op _ _ _ (hroot.operator.trans hop) rfl

/-! ### Statements -/

private theorem inferExpression_alike {expr expr' : Expression} (h : (respaced text text').RelatesExpression expr expr')
    (expected : Option Ty) :
    Alike SameTerm (inferExpression text expr expected) (inferExpression text' expr' expected) := by
  rw [inferExpression, inferExpression]
  refine alike_ofExcept_bind fun tree tree' htree htree' => ?_
  obtain ⟨other, hother, hrelated⟩ := h.relatesTree htree
  obtain rfl := Except.ok.inj (htree'.symm.trans hother)
  exact infer_alike hrelated expected

private theorem resolveType_alike {expr expr' : Expression} (h : (respaced text text').RelatesExpression expr expr') :
    Alike (· = ·) (resolveType text expr) (resolveType text' expr') := by
  rw [resolveType, resolveType]
  refine alike_ofExcept_bind fun root root' hroot hroot' => ?_
  obtain ⟨other, hother, hrelated⟩ := h.relatesRoot hroot
  obtain rfl := Except.ok.inj (hroot'.symm.trans hother)
  rw [← hrelated.operator]
  split
  · exact (alike_reject (R := fun _ _ => False) _ _ (by rfl)).bind fun _ _ h => h.elim
  · rename_i hop
    have hspelled := hrelated.leaf .name (by rw [not_ne_iff.1 hop]; rfl)
    refine alike_slice_bind hspelled fun name => ?_
    cases Ty.ofName? name with
    | some type => exact alike_pure rfl
    | none => exact alike_reject _ _ (by rfl)

private theorem inferValue_alike {expr expr' : Expression} (h : (respaced text text').RelatesExpression expr expr')
    (type : Option Ty) : Alike SameTerm (inferValue text expr type) (inferValue text' expr' type) := by
  cases type with
  | none => exact inferExpression_alike h none
  | some type =>
    rw [inferValue, inferValue, inferAs, inferAs]
    refine (inferExpression_alike h (some type)).bind fun term term' hterm => ?_
    rw [hterm.type]
    split
    · exact (alike_reject (R := fun _ _ => False) _ _ (by rfl)).bind fun _ _ h => h.elim
    · exact alike_pure hterm

/-- A name is defined for both checkers or for none. -/
private theorem define_alike {name name' : Span} (hname : SpelledAlike text text' name name') (type : Ty)
    (mutable : Bool) :
    Alike (· = ·) (define text name type mutable) (define text' name' type mutable) := by
  rw [define, define]
  refine alike_slice_bind hname fun spelling => ?_
  intro state other hstate
  have hsize : state.symbols.size = other.symbols.size := by
    simpa using congrArg Array.size hstate.symbols
  refine Stage.matches_observe_bind.2 (Stage.matches_observe_bind.2 ?_)
  rw [hstate.scope, hsize]
  cases other.scope.add? spelling ⟨other.symbols.size⟩ with
  | some added =>
    refine .done ⟨rfl, hstate.severities, rfl, ?_⟩
    show (state.symbols.push _).map _ = (other.symbols.push _).map _
    rw [Array.map_push, Array.map_push, hstate.symbols]
    rfl
  | none =>
    refine (alike_report name name' (by rfl)).bind (fun _ _ _ => ?_) hstate
    cases other.scope.find? spelling with
    | none => exact alike_fail
    | some previous =>
      refine alike_symbol_bind previous fun found found' _ => ?_
      exact (alike_report found.span found'.span (by rfl)).bind fun _ _ _ => alike_fail

private theorem hasEffect_respaced {expr expr' : Expression} (h : (respaced text text').RelatesExpression expr expr') :
    ExtendedBy expr.hasEffect expr'.hasEffect := by
  have hassoc : ∀ expr : Expression, expr.hasEffect
      = (do expr.node (← expr.root)) >>= fun root => pure (root.operator.isAssignment || root.operator.isStep) := by
    intro expr
    rw [Expression.hasEffect, bind_assoc]
  rw [hassoc, hassoc]
  refine extendedBy_bind fun root hroot => ?_
  obtain ⟨root', hroot', hrelated⟩ := h.relatesRoot hroot
  refine ⟨root', hroot', ?_⟩
  rw [hrelated.operator]
  exact extendedBy_rfl

/-- Whether two items are the same but for their places. -/
def SameItem (item item' : Item) : Prop :=
  item.unplaced = item'.unplaced

private theorem definitionItem_alike (id : SymbolId) {value value' : Option (Option Term)}
    (h : Option.Rel (Option.Rel SameTerm) value value') :
    Alike SameItem (definitionItem id value) (definitionItem id value') := by
  cases h with
  | none => exact alike_pure rfl
  | some h =>
    cases h with
    | none => exact alike_fail
    | some hterm =>
      refine alike_pure ?_
      rw [SameItem, Item.unplaced, Item.unplaced, Option.map_some, Option.map_some, hterm]

private theorem letTyped_alike {name name' span span' : Span} {type type' value value' : Expression}
    (hname : SpelledAlike text text' name name') (htype : (respaced text text').RelatesExpression type type')
    (hvalue : (respaced text text').RelatesExpression value value') :
    Alike SameItem (checkStatement text (.letTyped name type value span))
      (checkStatement text' (.letTyped name' type' value' span')) := by
  refine (resolveType_alike htype).attempt.bind fun type type' htype => ?_
  obtain rfl : type = type' := by
    cases htype with
    | none => rfl
    | some htype => rw [htype]
  refine (inferValue_alike hvalue type).attempt.bind fun term term' hterm => ?_
  cases type with
  | none => exact alike_fail
  | some type =>
    refine (define_alike hname type false).bind ?_
    rintro id _ rfl
    exact definitionItem_alike id (.some hterm)

private theorem var_alike {name name' span span' : Span} {type type' value value' : Option Expression} {hparts hparts'}
    (hname : SpelledAlike text text' name name') (htype : Option.Rel (respaced text text').RelatesExpression type type')
    (hvalue : Option.Rel (respaced text text').RelatesExpression value value') :
    Alike SameItem (checkStatement text (.var name type value span hparts))
      (checkStatement text' (.var name' type' value' span' hparts')) := by
  refine (alike_mapM htype fun _ _ => resolveType_alike).bind fun type type' htype => ?_
  obtain rfl : type = type' := by
    cases htype with
    | none => rfl
    | some htype => rw [htype]
  refine (alike_mapM hvalue fun _ _ hvalue => (inferValue_alike hvalue type).attempt).bind fun term term' hterm => ?_
  have hknown : (type <|> term.join.map Term.type) = (type <|> term'.join.map Term.type) := by
    cases hterm with
    | none => rfl
    | some hterm =>
      cases hterm with
      | none => rfl
      | some hterm => simp [hterm.type]
  rw [← hknown]
  cases type <|> term.join.map Term.type with
  | none => exact alike_fail
  | some known =>
    refine (define_alike hname known true).bind ?_
    rintro id _ rfl
    exact definitionItem_alike id hterm

/-- Corresponding statements come to the same item, or both fail. -/
private theorem checkStatement_alike {statement statement' : Statement}
    (h : (respaced text text').RelatesStatement statement statement') :
    Alike SameItem (checkStatement text statement) (checkStatement text' statement') := by
  cases h with
  | letTyped hname htype hvalue _ => exact letTyped_alike hname htype hvalue
  | letPlain hname hvalue _ =>
    refine (inferExpression_alike hvalue none).bind fun term term' hterm => ?_
    rw [hterm.type]
    refine (define_alike hname term'.type false).bind ?_
    rintro id _ rfl
    refine alike_pure ?_
    rw [SameItem, Item.unplaced, Item.unplaced, Option.map_some, Option.map_some, hterm]
  | var hname htype hvalue _ => exact var_alike hname htype hvalue
  | discarded hvalue =>
    refine (inferExpression_alike hvalue none).bind fun term term' hterm => ?_
    have hitem : SameItem (.expression term) (.expression term') := by
      rw [SameItem, Item.unplaced, Item.unplaced, hterm]
    refine alike_ofExcept_bind_of_extendedBy (hasEffect_respaced hvalue) fun effect => ?_
    cases effect with
    | true => exact alike_pure hitem
    | false => exact (alike_report _ _ (by rfl)).bind fun _ _ _ => alike_pure hitem

/-! ### Programs -/

private theorem checkStatements_alike {statements statements' : List Statement}
    (h : List.Forall₂ (respaced text text').RelatesStatement statements statements') {items items' : Array Item}
    (hitems : items.map Item.unplaced = items'.map Item.unplaced) :
    Alike (fun items items' => items.map Item.unplaced = items'.map Item.unplaced)
      (checkStatements text statements items) (checkStatements text' statements' items') := by
  induction h generalizing items items' with
  | nil => exact alike_pure hitems
  | cons hstatement _ ih =>
    rw [checkStatements, checkStatements]
    refine (checkStatement_alike hstatement).attempt.bind fun result result' hresult => ?_
    cases hresult with
    | none => exact ih hitems
    | some hitem =>
      refine ih ?_
      rw [Array.map_push, Array.map_push, hitems, hitem]

/-- Corresponding statements come to the same program, but for the places in it. -/
private theorem checkAll_alike {statements statements' : List Statement}
    (h : List.Forall₂ (respaced text text').RelatesStatement statements statements') :
    Alike (fun program program' => program.unplaced = program'.unplaced) (checkAll text statements)
      (checkAll text' statements') := by
  rw [checkAll, checkAll]
  refine (checkStatements_alike h rfl).bind fun items items' hitems => ?_
  intro state other hstate
  refine .done ⟨?_, hstate⟩
  show Program.mk (state.symbols.map _) (items.toList.map _) = Program.mk (other.symbols.map _) (items'.toList.map _)
  rw [hstate.symbols, ← Array.toList_map, hitems, Array.toList_map]

end Checker

/-! ### Sources -/

namespace Source

variable (name name' : String) {content content' : List Char}

/-- The programs of sources with the same lexemes are the same, but for the places in them. -/
private theorem program_respaced {source source' : Source} {statements statements' : List Statement}
    {reports reports' after after' : Diagnostics} {program program' : Program}
    (h : List.Forall₂ (Comparison.respaced source.text source'.text).RelatesStatement statements statements')
    (hreports : reports.severities = reports'.severities)
    (hprogram : source.program statements reports = (.done program, after))
    (hprogram' : source'.program statements' reports' = (.done program', after')) :
    program.unplaced = program'.unplaced ∧ after.severities = after'.severities := by
  have hstart : (CheckerState.start reports).Resembles (.start reports') := ⟨hreports, rfl, rfl⟩
  have hmatches := Checker.checkAll_alike h hstart
  rw [Source.program, Stage.run] at hprogram hprogram'
  rcases hrun : Checker.checkAll source.text statements (.start reports) with ⟨outcome, last⟩
  rcases hrun' : Checker.checkAll source'.text statements' (.start reports') with ⟨outcome', last'⟩
  rw [hrun] at hprogram
  rw [hrun'] at hprogram'
  rw [Stage.Matches, hrun, hrun'] at hmatches
  obtain ⟨rfl, rfl⟩ := Prod.mk.inj hprogram
  obtain ⟨rfl, rfl⟩ := Prod.mk.inj hprogram'
  cases hmatches with
  | done h => exact ⟨h.1, h.2.severities⟩

/-- What the stages of the front end make of a source. -/
structure Checking (source : Source) where
  statements : List Statement
  /-- The reports about lexemes and statements. -/
  reports : Diagnostics
  program : Program
  /-- All reports. -/
  diagnostics : Diagnostics
  statements_eq : source.statements = (.done statements, reports)
  program_eq : source.program statements reports = (.done program, diagnostics)

/-- Whether two sources mean the same: their statements and programs are printed alike, they define the same symbols,
and what is reported about them is as serious. -/
structure Checking.Resembles {source source' : Source} (first : Checking source) (second : Checking source') :
    Prop where
  statements : List.Forall₂ (fun statement statement' => ∃ shown,
    statement.render source.text = .ok shown ∧ statement'.render source'.text = .ok shown)
    first.statements second.statements
  symbols : first.program.symbols.toList.map (fun symbol => (symbol.name, symbol.type, symbol.mutable))
    = second.program.symbols.toList.map (fun symbol => (symbol.name, symbol.type, symbol.mutable))
  program : ∃ shown, first.program.render = .ok shown ∧ second.program.render = .ok shown
  lexemes : source.lexicalDiagnostics.severities = source'.lexicalDiagnostics.severities
  reports : first.reports.severities = second.reports.severities
  diagnostics : first.diagnostics.severities = second.diagnostics.severities

/-- What a source means does not depend on the layout between its lexemes. -/
theorem exists_checking_resembles
    (h : (ofContent name content).tagsAndTexts = (ofContent name' content').tagsAndTexts) :
    ∃ (first : Checking (ofContent name content)) (second : Checking (ofContent name' content')),
      first.Resembles second := by
  obtain ⟨statements, statements', reports, reports', hstatements, hstatements', hrelated, hreports⟩ :=
    exists_statements_respaced name name' h
  obtain ⟨_, program, _, after, hread, hprogram, hclauses, ⟨shown, hshown⟩, -⟩ := exists_checked name content
  obtain ⟨_, program', _, after', hread', hprogram', -⟩ := exists_checked name' content'
  rw [hstatements, Prod.mk.injEq, Outcome.done.injEq] at hread
  rw [hstatements', Prod.mk.injEq, Outcome.done.injEq] at hread'
  obtain ⟨rfl, rfl⟩ := hread
  obtain ⟨rfl, rfl⟩ := hread'
  obtain ⟨hsame, hafter⟩ := program_respaced hrelated hreports hprogram hprogram'
  refine ⟨⟨statements, reports, program, after, hstatements, hprogram⟩,
    ⟨statements', reports', program', after', hstatements', hprogram'⟩, ?_⟩
  constructor
  case statements =>
    have htext := areIn_lexemes name content
    have hrender : ∀ statement ∈ statements, ∃ shown,
        statement.render (ofContent name content).text = .ok shown := by
      intro statement hmem
      obtain ⟨clause, span, rfl, hvalid, hlexemes⟩ := hclauses statement hmem
      exact hvalid.exists_render (fun lexeme hmem => htext lexeme (hlexemes lexeme hmem)) span
    refine ((List.forall₂_and_left _ _).2 ⟨hrender, hrelated⟩).imp ?_
    rintro statement statement' ⟨⟨shown, hshown⟩, hstatement⟩
    exact ⟨shown, hshown, Comparison.render_statement_respaced hstatement shown hshown⟩
  case symbols =>
    have hsymbols := congrArg (·.symbols.toList.map fun symbol => (symbol.name, symbol.type, symbol.mutable)) hsame
    simp only [Program.unplaced, Array.toList_map, List.map_map] at hsymbols
    exact hsymbols
  case program =>
    refine ⟨shown, hshown, ?_⟩
    show program'.render = _
    rw [← program'.render_unplaced, ← hsame, program.render_unplaced]
    exact hshown
  case lexemes => exact severities_lexicalDiagnostics_respaced name name' h
  case reports => exact hreports
  case diagnostics => exact hafter

theorem exists_checking_resembles_comment :
    (ofContent "" "let a=1;a=é2;".toList).tagsAndTexts
        = (ofContent "" "let a\t= 1; // one\r\n a = é2 ;".toList).tagsAndTexts ∧
      ∃ (first : Checking (ofContent "" "let a=1;a=é2;".toList))
        (second : Checking (ofContent "" "let a\t= 1; // one\r\n a = é2 ;".toList)), first.Resembles second := by
  have h : (ofContent "" "let a=1;a=é2;".toList).tagsAndTexts
      = (ofContent "" "let a\t= 1; // one\r\n a = é2 ;".toList).tagsAndTexts := by
    cbv
  exact ⟨h, exists_checking_resembles "" "" h⟩

end Source

end ExprLang
