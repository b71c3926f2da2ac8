import ExprLang.Proofs.Typing.Results

/-!
# Outcomes of checking

A checker that fails has reported an error, and one that is done has not (`infer_tells`).  Names are added to the scope
by definitions only.  What checking a statement can come to is said once (`Checked`).
-/

namespace ExprLang

/-! ### Reports -/

/-- Whether reports have been added, and whether one of them is an error. -/
def Diagnostics.Gain (before after : Diagnostics) (erred : Bool) : Prop :=
  ∃ more, after.toList = before.toList ++ more ∧ more.any (fun report => report.severity = .error) = erred

private theorem Diagnostics.Gain.refl (diagnostics : Diagnostics) : diagnostics.Gain diagnostics false :=
  ⟨[], (List.append_nil _).symm, rfl⟩

private theorem Diagnostics.Gain.trans {before middle after : Diagnostics} {erred erred' : Bool}
    (h : before.Gain middle erred) (h' : middle.Gain after erred') : before.Gain after (erred || erred') := by
  obtain ⟨more, hmore, rfl⟩ := h
  obtain ⟨further, hfurther, rfl⟩ := h'
  exact ⟨more ++ further, by rw [hfurther, hmore, List.append_assoc], List.any_append⟩

namespace CheckerState

/-- Whether reports have been added to a state, and nothing else. -/
structure Reports (before after : CheckerState) (erred : Bool) : Prop where
  scope : after.scope = before.scope
  symbols : after.symbols = before.symbols
  gain : before.diagnostics.Gain after.diagnostics erred

/-- Whether a symbol has been added to a state, under a name that was free. -/
structure Defines (text : List Char) (before : CheckerState) (symbol : Symbol) (after : CheckerState) : Prop where
  spelled : sliceOf text symbol.span = .ok symbol.name
  free : before.scope.find? symbol.name = none
  scope : after.scope.entries = before.scope.entries ++ [(symbol.name, ⟨before.symbols.size⟩)]
  symbols : after.symbols = before.symbols.push symbol

variable {before middle after : CheckerState} {erred erred' : Bool}

private theorem Reports.refl (state : CheckerState) : state.Reports state false :=
  ⟨rfl, rfl, .refl _⟩

private theorem Reports.trans (h : before.Reports middle erred) (h' : middle.Reports after erred') :
    before.Reports after (erred || erred') :=
  ⟨h'.scope.trans h.scope, h'.symbols.trans h.symbols, h.gain.trans h'.gain⟩

/-- What is defined after some reports is defined before them. -/
private theorem Reports.defines {text : List Char} {symbol : Symbol} (h : before.Reports middle erred)
    (h' : middle.Defines text symbol after) : before.Defines text symbol after where
  spelled := h'.spelled
  free := h.scope ▸ h'.free
  scope := by rw [h'.scope, h.scope, h.symbols]
  symbols := by rw [h'.symbols, h.symbols]

private theorem reports_report (state : CheckerState) (span : Span) (issue : TypingIssue) :
    state.Reports { state with diagnostics := state.diagnostics.report (issue.diagnostic span) }
      (issue.severity = .error) :=
  ⟨rfl, rfl, _, Diagnostics.toList_report _ _, Bool.or_false _⟩

end CheckerState

/-! ### Declarations -/

/-- Whether an expression is the name of a type. -/
def Expression.Names (text : List Char) (expr : Expression) (type : Ty) : Prop :=
  ∃ index root, expr.root = .ok index ∧ expr.node index = .ok root ∧ root.operator = .name ∧
    sliceOf text root.span = .ok type.name.toList

namespace Statement

/-- The name that a statement defines. -/
def name? : Statement → Option Span
  | letTyped name _ _ _ | letPlain name _ _ | var name _ _ _ _ => some name
  | discarded _ => none

/-- Whether a statement declares a symbol: it has its name and names its type. -/
def Declares (text : List Char) (symbol : Symbol) : Statement → Prop
  | letTyped name type _ _ => symbol.span = name ∧ type.Names text symbol.type ∧ symbol.mutable = false
  | var name (some type) _ _ _ => symbol.span = name ∧ type.Names text symbol.type ∧ symbol.mutable = true
  | _ => False

end Statement

private theorem Ty.name_of_ofName? {name : List Char} {type : Ty} (h : ofName? name = some type) :
    type.name.toList = name := by
  rw [ofName?] at h
  have hsame := List.find?_some h
  exact eq_of_beq hsame

namespace Checker

variable {α β : Type} {text : List Char} {state : CheckerState} {span : Span} {count : Nat}

/-- Whether a checker that runs into no fault reports an error if and only if it fails, changes nothing else, and is
done only with what meets a condition. -/
def Tells (checker : Checker α) (state : CheckerState) (Q : α → Prop) : Prop :=
  checker.Leaves state (fun value after => state.Reports after false ∧ Q value) fun after => state.Reports after true

/-! ### Constructs -/

private theorem Tells.bind {first : Checker α} {next : α → Checker β} {Q : α → Prop} {R : β → Prop}
    (h : Tells first state Q)
    (hnext : ∀ value after, state.Reports after false → Q value → Tells (next value) after R) :
    Tells (first >>= next) state R := by
  rw [Tells, Stage.leaves_bind]
  refine Stage.Leaves.mono h ?_ fun _ h => h
  rintro value middle ⟨hreports, hQ⟩
  refine Stage.Leaves.mono (hnext value middle hreports hQ) ?_ fun _ h => hreports.trans h
  exact fun _ _ h => ⟨hreports.trans h.1, h.2⟩

/-- A checker that is tried has failed if it has reported an error. -/
private theorem Tells.attempt {checker : Checker α} {Q : α → Prop} (h : Tells checker state Q) :
    (Stage.attempt checker).Leaves state
      (fun result after => state.Reports after result.isNone ∧ ∀ value ∈ result, Q value) fun _ => False := by
  rw [Stage.leaves_attempt]
  refine Stage.Leaves.mono h ?_ fun _ h => ⟨h, fun _ hmem => absurd hmem (Option.not_mem_none _)⟩
  exact fun value _ h => ⟨h.1, fun _ hmem => Option.mem_some.1 hmem ▸ h.2⟩

private theorem tells_pure {value : α} {Q : α → Prop} (hQ : Q value) : Tells (pure value) state Q :=
  ⟨.refl state, hQ⟩

private theorem tells_raise {cause : Fault} {Q : α → Prop} : Tells (Stage.raise cause : Checker α) state Q :=
  trivial

private theorem tells_observe_bind {f : CheckerState → α} {next : α → Checker β} {R : β → Prop}
    (hnext : Tells (next (f state)) state R) : Tells (Stage.observe f >>= next) state R :=
  hnext

private theorem tells_ofExcept_bind {result : Except Fault α} {next : α → Checker β} {R : β → Prop}
    (hnext : ∀ value, result = .ok value → Tells (next value) state R) :
    Tells (Stage.ofExcept result >>= next) state R :=
  Stage.leaves_ofExcept_bind hnext

private theorem tells_reject {issue : TypingIssue} (hissue : issue.severity = .error) {Q : α → Prop} :
    Tells (reject span issue) state Q := by
  have hreports := state.reports_report span issue
  rw [decide_eq_true hissue] at hreports
  exact hreports

private theorem tells_symbol_bind {id : SymbolId} {next : Symbol → Checker β} {R : β → Prop}
    (hnext : ∀ found, Tells (next found) state R) : Tells (symbol id >>= next) state R := by
  show Tells (Stage.ofExcept (symbolAt state.symbols id) >>= next) state R
  exact tells_ofExcept_bind fun found _ => hnext found

/-! ### Leaves -/

private theorem inferLiteral_tells (literal : Span) (negative : Bool) (span : Span) (expected : Option Ty) :
    Tells (inferLiteral text literal negative span expected) state (·.IsBound count) := by
  rw [inferLiteral]
  refine tells_ofExcept_bind fun digits _ => tells_ofExcept_bind fun number _ => ?_
  cases hconvert : (if negative = true then number.negate else number).convert (literalTarget digits expected) with
  | ok value =>
    simp only [hconvert]
    exact tells_pure trivial
  | error error =>
    simp only [hconvert]
    exact tells_reject rfl

private theorem inferName_tells (hscope : state.scope.IsBelow count) :
    Tells (inferName text span) state (·.IsBound count) := by
  rw [inferName]
  refine tells_ofExcept_bind fun name _ => tells_observe_bind ?_
  cases hfound : state.scope.find? name with
  | none => exact tells_reject rfl
  | some id => exact tells_symbol_bind fun _ => tells_pure (hscope.index_lt_of_find? hfound)

private theorem inferLeaf?_tells (hscope : state.scope.IsBelow count) (root : Node) (expected : Option Ty)
    (cause : Fault) :
    Tells ((inferLeaf? text root expected).getD (Stage.raise cause)) state (·.IsBound count) := by
  rw [inferLeaf?]
  split
  · exact inferLiteral_tells root.span false root.span expected
  · exact inferName_tells hscope
  · exact tells_reject rfl
  · exact tells_raise

/-! ### Operators -/

private theorem requireAssignable_tells (target : Term) (mark : Mark) :
    Tells (requireAssignable target mark) state fun _ => True := by
  rw [requireAssignable]
  cases target.symbol? with
  | none => exact tells_reject rfl
  | some id =>
    refine tells_symbol_bind fun found => ?_
    split
    · -- The error is followed by a note.
      have herror := state.reports_report target.span (.immutable found.name)
      exact herror.trans (CheckerState.reports_report _ found.span (.definedImmutable found.name))
    · exact tells_pure trivial

private theorem requireClass_tells (op : BinaryOperator) (operand : Term) :
    Tells (requireClass op operand) state fun _ => True := by
  rw [requireClass]
  split
  · exact tells_reject rfl
  · exact tells_pure trivial

private theorem requireOperands_tells (op : BinaryOperator) (left right : Term) :
    Tells (requireOperands op left right span) state fun _ => True := by
  rw [requireOperands]
  refine (requireClass_tells op left).bind fun _ _ _ _ => (requireClass_tells op right).bind fun _ _ _ _ => ?_
  split
  · exact tells_reject rfl
  · exact tells_pure trivial

private theorem applyUnary_tells (op : UnaryOperator) {operand : Term} (hoperand : operand.IsBound count) :
    Tells (applyUnary op operand span) state (·.IsBound count) := by
  rw [applyUnary]
  split
  · exact (tells_reject (Q := fun _ => False) rfl).bind fun _ _ _ h => h.elim
  · show Tells (if op.isStep = true then _ else _) _ _
    split
    · exact (requireAssignable_tells operand op.mark).bind fun _ _ _ _ => tells_pure hoperand
    · exact tells_pure hoperand

private theorem applyBinary_tells (op : BinaryOperator) {left right : Term} (hleft : left.IsBound count)
    (hright : right.IsBound count) : Tells (applyBinary op left right span) state (·.IsBound count) := by
  rw [applyBinary]
  refine (requireOperands_tells op left right).bind fun _ after _ _ => ?_
  show Tells (if op.isAssignment = true then _ else _) _ _
  by_cases hassign : op.isAssignment = true
  · rw [if_pos hassign]
    exact (requireAssignable_tells left op.mark).bind fun _ _ _ _ => tells_pure ⟨hleft, hright⟩
  · rw [if_neg hassign]
    exact tells_pure ⟨hleft, hright⟩

/-! ### Expressions -/

/-- The term of a tree has symbols of the scope only. -/
private theorem infer_tells (tree : Tree) (expected : Option Ty) (hscope : state.scope.IsBelow count) :
    Tells (infer text tree expected) state (·.IsBound count) := by
  fun_induction infer text tree expected generalizing state with
  | case1 root fault expected => exact inferLeaf?_tells hscope root expected fault
  | case2 root expected inner tail _ ih =>
    refine (ih hscope).bind fun term _ _ hterm => tells_pure ?_
    cases term <;> exact hterm
  | case3 root expected callee tail => exact tells_ofExcept_bind fun _ _ => tells_reject rfl
  | case4 root expected op operand tail => exact inferLiteral_tells operand.span true root.span expected
  | case5 root expected op operand tail _ _ ih => exact (ih hscope).bind fun _ _ _ hterm => applyUnary_tells op hterm
  | case6 root expected op left right tail _ ihRight ihLeftOther ihLeft ihRightOther =>
    refine tells_ofExcept_bind fun first _ => ?_
    split
    · refine (ihRight hscope).bind fun rightTerm middle hmiddle hright => ?_
      refine (ihLeftOther rightTerm (hmiddle.scope ▸ hscope)).bind fun leftTerm last _ hleft => ?_
      exact applyBinary_tells op hleft hright
    · refine (ihLeft hscope).bind fun leftTerm middle hmiddle hleft => ?_
      refine (ihRightOther leftTerm (hmiddle.scope ▸ hscope)).bind fun rightTerm last _ hright => ?_
      exact applyBinary_tells op hleft hright
  | case7 root operands expected => exact inferLeaf?_tells hscope root expected .index

private theorem inferExpression_tells (expr : Expression) (expected : Option Ty) (hscope : state.scope.IsBelow count) :
    Tells (inferExpression text expr expected) state (·.IsBound count) := by
  rw [inferExpression]
  exact tells_ofExcept_bind fun tree _ => infer_tells tree expected hscope

private theorem inferValue_tells (expr : Expression) (type : Option Ty) (hscope : state.scope.IsBelow count) :
    Tells (inferValue text expr type) state (·.IsBound count) := by
  cases type with
  | none => exact inferExpression_tells expr none hscope
  | some type =>
    rw [inferValue, inferAs]
    refine (inferExpression_tells expr (some type) hscope).bind fun term _ _ hterm => ?_
    split
    · exact (tells_reject (Q := fun _ => False) rfl).bind fun _ _ _ h => h.elim
    · exact tells_pure hterm

private theorem resolveType_tells (expr : Expression) : Tells (resolveType text expr) state (expr.Names text) := by
  rw [resolveType]
  refine tells_ofExcept_bind fun root hroot => ?_
  split
  · exact (tells_reject (Q := fun _ => False) rfl).bind fun _ _ _ h => h.elim
  · rename_i hname
    refine tells_ofExcept_bind fun name hslice => ?_
    cases htype : Ty.ofName? name with
    | none => exact tells_reject rfl
    | some type =>
      refine tells_pure ?_
      cases hindex : expr.root with
      | error => rw [hindex] at hroot; cases hroot
      | ok index =>
        rw [hindex] at hroot
        exact ⟨index, root, hindex, hroot, not_ne_iff.1 hname, Ty.name_of_ofName? htype ▸ hslice⟩

/-! ### Statements -/

/-- What checking a statement comes to. -/
inductive Checked (text : List Char) (statement : Statement) (before : CheckerState) :
    Outcome Item → CheckerState → Prop
  /-- A name is defined, and its value has symbols from before it only. -/
  | definition {symbol value after} (hname : statement.name? = some symbol.span)
      (hdefines : before.Defines text symbol after) (hgain : before.diagnostics.Gain after.diagnostics false)
      (hvalue : ∀ term ∈ value, Term.IsBound before.symbols.size term) :
      Checked text statement before (.done (.definition ⟨before.symbols.size⟩ value)) after
  /-- An expression is worked out. -/
  | expression {value after} (hreports : before.Reports after false) (hvalue : value.IsBound before.symbols.size) :
      Checked text statement before (.done (.expression value)) after
  /-- Nothing is defined. -/
  | rejected {after} (hreports : before.Reports after true) : Checked text statement before .failed after
  /-- A name is defined with its declared type, but its value is wrong. -/
  | declared {symbol after} (hdeclares : statement.Declares text symbol) (hdefines : before.Defines text symbol after)
      (hgain : before.diagnostics.Gain after.diagnostics true) : Checked text statement before .failed after

/-- A name is defined if it is free, and otherwise an error is reported. -/
private theorem define_leaves (name : Span) (type : Ty) (mutable : Bool) :
    (define text name type mutable).Leaves state
      (fun id after => id = ⟨state.symbols.size⟩ ∧ after.diagnostics = state.diagnostics ∧
        ∃ spelling, state.Defines text ⟨spelling, name, type, mutable⟩ after)
      fun after => state.Reports after true := by
  rw [define]
  refine Stage.leaves_ofExcept_bind fun spelling hspelling => ?_
  rw [Stage.leaves_observe_bind, Stage.leaves_observe_bind]
  cases hadd : state.scope.add? spelling ⟨state.symbols.size⟩ with
  | some added =>
    rw [Scope.add?] at hadd
    split at hadd
    · cases hadd
    · rename_i hfree
      refine ⟨rfl, rfl, spelling, hspelling, ?_, ?_, rfl⟩
      · simpa using hfree
      · show added.entries = _
        rw [← Option.some.inj hadd]
  | none =>
    have herror := state.reports_report name (.alreadyDefined spelling)
    show Stage.Leaves (report name (.alreadyDefined spelling) >>= _) state _ _
    rw [Stage.leaves_bind]
    dsimp only
    cases state.scope.find? spelling with
    | none => exact herror
    | some previous =>
      refine Stage.leaves_ofExcept_bind fun found _ => ?_
      exact herror.trans (CheckerState.reports_report _ found.span (.firstDefined spelling))

/-- A name is defined after some reports, and its value is given as `value` or not at all. -/
private theorem defined_leaves {statement : Statement} {before middle : CheckerState} {erred : Bool}
    (hreports : before.Reports middle erred) {name : Span} (hname : statement.name? = some name) {type : Ty}
    {mutable : Bool} (value : Option (Option Term)) (herred : value = some none ↔ erred = true)
    (hdeclares : erred = true → ∀ spelling, statement.Declares text ⟨spelling, name, type, mutable⟩)
    (hvalue : ∀ term ∈ value.join, Term.IsBound before.symbols.size term) :
    (define text name type mutable >>= fun id => definitionItem id value).Leaves middle
      (fun item after => Checked text statement before (.done item) after)
      fun after => Checked text statement before .failed after := by
  rw [Stage.leaves_bind]
  refine (define_leaves name type mutable).mono ?_ ?_
  · rintro id after ⟨rfl, hdiagnostics, spelling, hdefines⟩
    have hdefines := hreports.defines hdefines
    have hgain := hreports.gain
    rw [← hdiagnostics] at hgain
    rw [hreports.symbols]
    match value with
    | none =>
      obtain rfl : erred = false := by simpa using herred
      exact .definition hname hdefines hgain fun _ hmem => absurd hmem (Option.not_mem_none _)
    | some none =>
      obtain rfl : erred = true := herred.1 rfl
      exact .declared (hdeclares rfl spelling) hdefines hgain
    | some (some term) =>
      obtain rfl : erred = false := by simpa using herred
      exact .definition hname hdefines hgain hvalue
  · intro after hfailed
    have hreports := hreports.trans hfailed
    rw [Bool.or_true] at hreports
    exact .rejected hreports

private theorem letTyped_leaves {before : CheckerState} (hscope : before.scope.IsBelow before.symbols.size)
    (name : Span) (type value : Expression) (span : Span) :
    (checkStatement text (.letTyped name type value span)).Leaves before
      (fun item after => Checked text (.letTyped name type value span) before (.done item) after)
      fun after => Checked text (.letTyped name type value span) before .failed after := by
  show Stage.Leaves (Stage.attempt (resolveType text type) >>= _) before _ _
  rw [Stage.leaves_bind]
  refine (resolveType_tells type).attempt.mono ?_ fun _ h => h.elim
  rintro resolved middle ⟨hmiddle, hnames⟩
  show Stage.Leaves (Stage.attempt (inferValue text value resolved) >>= _) middle _ _
  rw [Stage.leaves_bind]
  refine (inferValue_tells value resolved (hmiddle.scope ▸ hscope)).attempt.mono ?_ fun _ h => h.elim
  rintro result last ⟨hlast, hterm⟩
  have hreports := hmiddle.trans hlast
  cases resolved with
  | none => exact .rejected hreports
  | some resolved =>
    rw [Option.isNone_some, Bool.false_or] at hreports
    refine defined_leaves hreports rfl (some result) ?_ (fun _ spelling => ⟨rfl, hnames resolved rfl, rfl⟩) hterm
    cases result <;> simp

private theorem var_leaves {before : CheckerState} (hscope : before.scope.IsBelow before.symbols.size) (name : Span)
    (type value : Option Expression) (span : Span) (hparts) :
    (checkStatement text (.var name type value span hparts)).Leaves before
      (fun item after => Checked text (.var name type value span hparts) before (.done item) after)
      fun after => Checked text (.var name type value span hparts) before .failed after := by
  show Stage.Leaves (Option.mapM _ type >>= fun type => Option.mapM _ value >>= _) before _ _
  cases type with
  | none =>
    cases value with
    | none => cases hparts
    | some value =>
      -- Without a type the name is defined only if there is a value.
      show Stage.Leaves (Option.mapM _ (some value) >>= _) before _ _
      rw [Stage.leaves_bind, Stage.leaves_mapM_some]
      refine (inferValue_tells value none hscope).attempt.mono ?_ fun _ h => h.elim
      rintro result middle ⟨hmiddle, hterm⟩
      cases result with
      | none => exact .rejected hmiddle
      | some term =>
        exact defined_leaves hmiddle rfl (some (some term)) (by simp) (fun h => absurd h Bool.false_ne_true) hterm
  | some type =>
    rw [Stage.leaves_bind, Stage.leaves_mapM_some]
    refine Stage.Leaves.mono (resolveType_tells type) ?_ fun _ h => .rejected h
    rintro resolved middle ⟨hmiddle, hnames⟩
    cases value with
    | none =>
      exact defined_leaves hmiddle rfl none (by simp) (fun h => absurd h Bool.false_ne_true)
        fun _ hmem => absurd hmem (Option.not_mem_none _)
    | some value =>
      rw [Stage.leaves_bind, Stage.leaves_mapM_some]
      refine (inferValue_tells value (some resolved) (hmiddle.scope ▸ hscope)).attempt.mono ?_ fun _ h => h.elim
      rintro result last ⟨hlast, hterm⟩
      refine defined_leaves (hmiddle.trans hlast) rfl (some result) ?_ (fun _ spelling => ⟨rfl, hnames, rfl⟩) hterm
      cases result <;> simp

/-- Checking a statement comes to one of the four ends. -/
private theorem checkStatement_leaves {before : CheckerState} (hscope : before.scope.IsBelow before.symbols.size)
    (statement : Statement) :
    (checkStatement text statement).Leaves before
      (fun item after => Checked text statement before (.done item) after)
      fun after => Checked text statement before .failed after := by
  cases statement with
  | letTyped name type value span => exact letTyped_leaves hscope name type value span
  | letPlain name value span =>
    show Stage.Leaves (inferExpression text value none >>= _) before _ _
    rw [Stage.leaves_bind]
    refine Stage.Leaves.mono (inferExpression_tells value none hscope) ?_ fun _ h => .rejected h
    rintro term middle ⟨hmiddle, hterm⟩
    refine defined_leaves hmiddle rfl (some (some term)) (by simp) (fun h => absurd h Bool.false_ne_true) ?_
    exact fun value hmem => Option.mem_some.1 hmem ▸ hterm
  | var name type value span hparts => exact var_leaves hscope name type value span hparts
  | discarded expr =>
    show Stage.Leaves (inferExpression text expr none >>= _) before _ _
    rw [Stage.leaves_bind]
    refine Stage.Leaves.mono (inferExpression_tells expr none hscope) ?_ fun _ h => .rejected h
    rintro term middle ⟨hmiddle, hterm⟩
    refine Stage.leaves_ofExcept_bind fun effect _ => ?_
    cases effect with
    | true => exact .expression hmiddle hterm
    | false => exact .expression (hmiddle.trans (CheckerState.reports_report _ expr.span .unusedValue)) hterm

/-- From a sound state a checkable statement comes to one of the four ends, which is a sound state again. -/
theorem IsCheckable.exists_checked {statement : Statement} {before : CheckerState} (h : IsCheckable text statement)
    (hsound : before.IsSound text) :
    ∃ outcome after, checkStatement text statement before = (outcome, after) ∧
      Checked text statement before outcome after ∧ before.IsAfter text after := by
  obtain ⟨clause, span, rfl, hvalid, hlegible⟩ := h
  have hmeets := (checkStatement_isSafe hsound hvalid hlegible span).and_leaves
    (checkStatement_leaves hsound.scope (clause.toStatement span))
  rcases hmeets.cases with ⟨item, after, hrun, ⟨hafter, -⟩, hchecked⟩ | ⟨after, hrun, hafter, hchecked⟩
  · exact ⟨_, after, hrun, hchecked, hafter⟩
  · exact ⟨_, after, hrun, hchecked, hafter⟩

/-- A statement fails if and only if it reports an error. -/
theorem Checked.exists_gain {statement : Statement} {before after : CheckerState} {outcome : Outcome Item}
    (h : Checked text statement before outcome after) :
    ∃ erred, before.diagnostics.Gain after.diagnostics erred ∧ ((∃ item, outcome = .done item) ↔ erred = false) := by
  cases h with
  | definition _ _ hgain => exact ⟨false, hgain, by simp⟩
  | expression hreports => exact ⟨false, hreports.gain, by simp⟩
  | rejected hreports => exact ⟨true, hreports.gain, by simp⟩
  | declared _ _ hgain => exact ⟨true, hgain, by simp⟩

/-! ### Runs -/

/-- The statements that are checked one after the other, with the items before and after them. -/
inductive Runs (text : List Char) : List Statement → Array Item → CheckerState → Array Item → CheckerState → Prop
  | nil {items state} : Runs text [] items state items state
  | item {statement statements items before item middle items' after}
      (hrun : checkStatement text statement before = (.done item, middle))
      (hchecked : Checked text statement before (.done item) middle)
      (hrest : Runs text statements (items.push item) middle items' after) :
      Runs text (statement :: statements) items before items' after
  | failure {statement statements items before middle items' after}
      (hrun : checkStatement text statement before = (.failed, middle))
      (hchecked : Checked text statement before .failed middle)
      (hrest : Runs text statements items middle items' after) :
      Runs text (statement :: statements) items before items' after

/-- Checkable statements are all checked. -/
private theorem exists_runs {statements : List Statement}
    (hstatements : ∀ statement ∈ statements, IsCheckable text statement)
    {before : CheckerState} (hsound : before.IsSound text) (items : Array Item) :
    ∃ items' after, Runs text statements items before items' after := by
  induction statements generalizing items before with
  | nil => exact ⟨items, before, .nil⟩
  | cons statement statements ih =>
    rw [List.forall_mem_cons] at hstatements
    obtain ⟨outcome, middle, hrun, hchecked, hafter⟩ := hstatements.1.exists_checked hsound
    match outcome with
    | .done item =>
      obtain ⟨items', after, hrest⟩ := ih hstatements.2 hafter.toIsSound (items.push item)
      exact ⟨items', after, .item hrun hchecked hrest⟩
    | .failed =>
      obtain ⟨items', after, hrest⟩ := ih hstatements.2 hafter.toIsSound items
      exact ⟨items', after, .failure hrun hchecked hrest⟩
    | .fault cause => cases hchecked

variable {statements : List Statement} {items items' : Array Item} {before after : CheckerState}

/-- What a run comes to is what checking the statements comes to. -/
theorem Runs.checkStatements_eq (h : Runs text statements items before items' after) :
    checkStatements text statements items before = (.done items', after) := by
  induction h with
  | nil => rfl
  | @item statement _ _ before item middle _ _ hrun _ _ ih =>
    have hattempt : Stage.attempt (checkStatement text statement) before = (.done (some item), middle) := by
      rw [Stage.attempt, hrun]
    rw [checkStatements, Stage.bind_of_done hattempt]
    exact ih
  | @failure statement _ _ before middle _ _ hrun _ _ ih =>
    have hattempt : Stage.attempt (checkStatement text statement) before = (.done none, middle) := by
      rw [Stage.attempt, hrun]
    rw [checkStatements, Stage.bind_of_done hattempt]
    exact ih

theorem Runs.checkAll_eq (h : Runs text statements #[] before items after) :
    checkAll text statements before = (.done ⟨after.symbols, items.toList⟩, after) := by
  rw [checkAll, Stage.bind_of_done h.checkStatements_eq]
  rfl

/-- Every statement has an item if and only if no error is reported. -/
theorem Runs.exists_gain (h : Runs text statements items before items' after) :
    ∃ erred, before.diagnostics.Gain after.diagnostics erred ∧ items'.size ≤ items.size + statements.length ∧
      (items'.size = items.size + statements.length ↔ erred = false) := by
  induction h with
  | nil => exact ⟨false, .refl _, Nat.le_refl _, by simp⟩
  | item _ hchecked _ ih =>
    obtain ⟨first, hfirst, hiff⟩ := hchecked.exists_gain
    obtain rfl : first = false := hiff.1 ⟨_, rfl⟩
    obtain ⟨rest, hrest, hle, hsize⟩ := ih
    rw [Array.size_push] at hle hsize
    refine ⟨_, hfirst.trans hrest, by rw [List.length_cons]; omega, ?_⟩
    rw [Bool.false_or, ← hsize, List.length_cons]
    omega
  | failure _ hchecked _ ih =>
    obtain ⟨first, hfirst, hiff⟩ := hchecked.exists_gain
    obtain rfl : first = true := by
      cases first with
      | true => rfl
      | false =>
        obtain ⟨item, hitem⟩ := hiff.2 rfl
        cases hitem
    obtain ⟨rest, hrest, hle, -⟩ := ih
    refine ⟨_, hfirst.trans hrest, by rw [List.length_cons]; omega, ?_⟩
    rw [Bool.true_or, List.length_cons]
    constructor
    · intro h
      omega
    · exact fun h => absurd h.symm Bool.false_ne_true

end Checker

/-! ### Sources -/

namespace Source

/-- The statements of a source are checkable. -/
theorem isCheckable_of_mem {name : String} {content : List Char} {statements : List Statement} {reports : Diagnostics}
    (hread : (ofContent name content).statements = (.done statements, reports)) {statement : Statement}
    (hmem : statement ∈ statements) : Checker.IsCheckable (ofContent name content).text statement := by
  obtain ⟨others, program, _, after, hothers, -, hclauses, -⟩ := exists_checked name content
  rw [hread] at hothers
  obtain rfl := Outcome.done.inj (Prod.mk.inj hothers).1
  obtain ⟨clause, span, rfl, hvalid, hlexemes⟩ := hclauses statement hmem
  exact ⟨clause, span, rfl, hvalid, fun lexeme hmem => isLegible_of_mem name content (hlexemes lexeme hmem)⟩

/-- The statements of every source are checked in a run. -/
theorem exists_runs (name : String) (content : List Char) :
    ∃ statements reports items last, (ofContent name content).statements = (.done statements, reports) ∧
      Checker.Runs (ofContent name content).text statements #[] (.start reports) items last := by
  obtain ⟨statements, -, reports, -, hstatements, -⟩ := exists_checked name content
  obtain ⟨items, last, hruns⟩ := Checker.exists_runs (fun _ hmem => isCheckable_of_mem hstatements hmem)
    (CheckerState.isSound_start (ofContent name content).text reports) #[]
  exact ⟨statements, reports, items, last, hstatements, hruns⟩

/-- The program of a source is what a run comes to. -/
theorem program_of_runs {source : Source} {statements : List Statement} {reports : Diagnostics} {items : Array Item}
    {last : CheckerState} (h : Checker.Runs source.text statements #[] (.start reports) items last) :
    source.program statements reports = (.done ⟨last.symbols, items.toList⟩, last.diagnostics) := by
  rw [program, Stage.run, h.checkAll_eq]

end Source

end ExprLang
