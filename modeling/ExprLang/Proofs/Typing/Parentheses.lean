import ExprLang.Proofs.Comparison.Checkers
import ExprLang.Proofs.Expression.Listing
import ExprLang.Proofs.FrontEnd
import ExprLang.Proofs.Typing.Verdicts

/-!
# Parentheses

Parentheses around a whole value change nothing but spans, with one exception: a checker that looks for an effect sees
the parentheses only, so it takes a discarded expression in parentheses for one without an effect
(`Checker.checkStatement_grouped`).
-/

namespace ExprLang

/-- The expression in parentheses that reach over a span. -/
def Expression.grouped (span : Span) (expr : Expression) : Expression :=
  expr.push { operator := .group, arity := 1, span }

namespace Statement

/-- The values of a statement. -/
def values : Statement → List Expression
  | letTyped _ _ value _ | letPlain _ value _ | discarded value => [value]
  | var _ _ value _ _ => value.toList

/-- The statement with its value in parentheses. -/
def grouped (span : Span) : Statement → Statement
  | letTyped name type value whole => .letTyped name type (value.grouped span) whole
  | letPlain name value whole => .letPlain name (value.grouped span) whole
  | var name type value whole isDefined =>
    .var name type (value.map (·.grouped span)) whole (by rwa [Option.isSome_map])
  | discarded value => .discarded (value.grouped span)

/-- Whether a statement is an expression that changes a variable. -/
def HasEffect : Statement → Prop
  | discarded value => value.hasEffect = .ok true
  | _ => False

end Statement

namespace Expression

variable {expr : Expression}

private theorem hasEffect_of_last? {root : Node} (h : expr.last? = some root) :
    expr.hasEffect = .ok (root.operator.isAssignment || root.operator.isStep) := by
  have hassoc : expr.hasEffect
      = (do expr.node (← expr.root)) >>= fun root => pure (root.operator.isAssignment || root.operator.isStep) := by
    rw [hasEffect, bind_assoc]
  rw [hassoc, node_root_eq_ok_iff.2 h]
  rfl

/-- Parentheses change no variable. -/
private theorem hasEffect_grouped (span : Span) (expr : Expression) : (expr.grouped span).hasEffect = .ok false :=
  hasEffect_of_last? Array.back?_push

private theorem exists_hasEffect {tree : Tree} (h : tree.IsListedAs expr.nodes.toList) :
    ∃ effect, expr.hasEffect = .ok effect := by
  cases h.whole with
  | @node root operands =>
    have hlast : expr.last? = some root := by
      rw [last?, ← Array.getLast?_toList, ← h.nodes, Tree.nodes, List.getLast?_concat]
    exact ⟨_, hasEffect_of_last? hlast⟩

/-- The tree of an expression in parentheses has one operand. -/
private theorem tree_grouped {tree : Tree} (h : tree.IsListedAs expr.nodes.toList) (span : Span) :
    (expr.grouped span).tree = .ok (.node ⟨.group, 1, span⟩ [tree]) := by
  refine Tree.IsWhole.tree_eq (.node rfl (List.forall_mem_singleton.2 h.whole)) ?_
  rw [Tree.nodes, Tree.nodesOfAll, Tree.nodesOfAll, List.append_nil, h.nodes]
  exact Array.toList_push

end Expression

/-- The report at no place. -/
def Diagnostic.unplaced (report : Diagnostic) : Diagnostic :=
  { report with span := .empty 0 }

/-- Whether the states of two checkers are the same but for the spans of reports. -/
structure CheckerState.Agrees (state other : CheckerState) : Prop where
  scope : state.scope = other.scope
  symbols : state.symbols = other.symbols
  reports : state.diagnostics.toList.map Diagnostic.unplaced = other.diagnostics.toList.map Diagnostic.unplaced

namespace Checker

variable {α β γ δ : Type} {R : α → β → Prop} {S : γ → δ → Prop} {text : List Char} {span : Span}
  {state other : CheckerState} {expr : Expression}

/-- Whether two checkers end in related values, both in failure or both in the same fault, and in states that are the
same but for the spans of reports. -/
inductive Coincide (R : α → β → Prop) : Outcome α × CheckerState → Outcome β × CheckerState → Prop
  | done {value result after last} (hvalue : R value result) (hafter : after.Agrees last) :
      Coincide R (.done value, after) (.done result, last)
  | failed {after last} (hafter : after.Agrees last) : Coincide R (.failed, after) (.failed, last)
  | fault {cause after last} (hafter : after.Agrees last) : Coincide R (.fault cause, after) (.fault cause, last)

/-! ### Rules -/

private theorem agrees_rfl : state.Agrees state :=
  ⟨rfl, rfl, rfl⟩

/-- Reports of the same problem agree, wherever it is reported. -/
private theorem agrees_report (h : state.Agrees other) (span span' : Span) (issue : TypingIssue) :
    CheckerState.Agrees { state with diagnostics := state.diagnostics.report (issue.diagnostic span) }
      { other with diagnostics := other.diagnostics.report (issue.diagnostic span') } := by
  refine ⟨h.scope, h.symbols, ?_⟩
  rw [Diagnostics.toList_report, Diagnostics.toList_report, List.map_append, List.map_append, h.reports]
  rfl

private theorem Coincide.bind {first : Checker α} {second : Checker β} {next : α → Checker γ} {further : β → Checker δ}
    (h : Coincide R (first state) (second other))
    (hnext : ∀ value result after last, R value result → after.Agrees last →
      Coincide S (next value after) (further result last)) :
    Coincide S ((first >>= next) state) ((second >>= further) other) := by
  rw [Stage.bind_apply, Stage.bind_apply]
  generalize first state = start, second other = finish at h
  cases h with
  | done hvalue hafter => exact hnext _ _ _ _ hvalue hafter
  | failed hafter => exact .failed hafter
  | fault hafter => exact .fault hafter

/-- A checker that comes first on both sides makes no difference. -/
private theorem coincide_bind_of_same {first : Checker α} {next : α → Checker γ} {further : α → Checker δ}
    (h : ∀ value after, Coincide S (next value after) (further value after)) :
    Coincide S ((first >>= next) state) ((first >>= further) state) := by
  rw [Stage.bind_apply, Stage.bind_apply]
  rcases first state with ⟨value | _ | cause, after⟩
  · exact h value after
  · exact .failed agrees_rfl
  · exact .fault agrees_rfl

private theorem Coincide.attempt {first : Checker α} {second : Checker β}
    (h : Coincide R (first state) (second other)) :
    Coincide (Option.Rel R) (Stage.attempt first state) (Stage.attempt second other) := by
  rw [Stage.attempt, Stage.attempt]
  generalize first state = start, second other = finish at h
  cases h with
  | done hvalue hafter => exact .done (.some hvalue) hafter
  | failed hafter => exact .done .none hafter
  | fault hafter => exact .fault hafter

private theorem coincide_ofExcept_bind (h : state.Agrees other) {result : Except Fault α} {next : α → Checker γ}
    {further : α → Checker δ} (hnext : ∀ value, Coincide S (next value state) (further value other)) :
    Coincide S ((Stage.ofExcept result >>= next) state) ((Stage.ofExcept result >>= further) other) := by
  cases result with
  | ok value => exact hnext value
  | error cause => exact .fault h

private theorem coincide_observe_bind {f : CheckerState → α} {next : α → Checker γ} {further : α → Checker δ}
    (hsame : f state = f other) (hnext : Coincide S (next (f other) state) (further (f other) other)) :
    Coincide S ((Stage.observe f >>= next) state) ((Stage.observe f >>= further) other) := by
  show Coincide S (next (f state) state) _
  rw [hsame]
  exact hnext

private theorem coincide_symbol_bind (h : state.Agrees other) (id : SymbolId) {next : Symbol → Checker γ}
    {further : Symbol → Checker δ} (hnext : ∀ found, Coincide S (next found state) (further found other)) :
    Coincide S ((symbol id >>= next) state) ((symbol id >>= further) other) := by
  show Coincide S ((Stage.ofExcept (symbolAt state.symbols id) >>= next) state)
    ((Stage.ofExcept (symbolAt other.symbols id) >>= further) other)
  rw [h.symbols]
  exact coincide_ofExcept_bind h hnext

private theorem coincide_report (h : state.Agrees other) (span span' : Span) (issue : TypingIssue) :
    Coincide (fun _ _ => True) (report span issue state) (report span' issue other) :=
  .done trivial (agrees_report h span span' issue)

private theorem coincide_reject (h : state.Agrees other) (span span' : Span) (issue : TypingIssue) :
    Coincide R (reject span issue state) (reject span' issue other) :=
  .failed (agrees_report h span span' issue)

/-! ### Values -/

/-- The term of an expression in parentheses is that of the expression, but for its span. -/
private theorem inferExpression_grouped (h : ∃ tree : Tree, tree.IsListedAs expr.nodes.toList) (text : List Char)
    (span : Span) (expected : Option Ty) :
    inferExpression text (expr.grouped span) expected
      = inferExpression text expr expected >>= fun term => pure (term.withSpan span) := by
  obtain ⟨tree, htree⟩ := h
  rw [inferExpression, inferExpression, Expression.tree_grouped htree, htree.whole.tree_eq htree.nodes.symm]
  show infer text (.node ⟨.group, 1, span⟩ [tree]) expected = infer text tree expected >>= _
  rw [infer]
  rfl

private theorem inferValue_grouped (h : ∃ tree : Tree, tree.IsListedAs expr.nodes.toList) (text : List Char)
    (span : Span) (type : Option Ty) (state : CheckerState) :
    Coincide SameTerm (inferValue text expr type state) (inferValue text (expr.grouped span) type state) := by
  have hplain : ∀ expected, Coincide SameTerm (inferExpression text expr expected state)
      (inferExpression text (expr.grouped span) expected state) := by
    intro expected
    rw [inferExpression_grouped h, Stage.bind_apply]
    rcases inferExpression text expr expected state with ⟨term | _ | cause, after⟩
    · exact .done (term.unplaced_withSpan span).symm agrees_rfl
    · exact .failed agrees_rfl
    · exact .fault agrees_rfl
  cases type with
  | none => exact hplain none
  | some type =>
    rw [inferValue, inferValue, inferAs, inferAs]
    refine (hplain (some type)).bind fun term term' after last hterm hafter => ?_
    rw [hterm.type]
    by_cases hne : term'.type ≠ type
    · rw [if_pos hne, if_pos hne]
      exact (coincide_reject (R := fun _ _ => False) hafter _ _ _).bind fun _ _ _ _ h => h.elim
    · rw [if_neg hne, if_neg hne]
      exact .done hterm hafter

/-! ### Statements -/

/-- A name is defined on both sides or on none. -/
private theorem define_coincide (h : state.Agrees other) (name : Span) (type : Ty) (mutable : Bool) :
    Coincide (· = ·) (define text name type mutable state) (define text name type mutable other) := by
  rw [define]
  refine coincide_ofExcept_bind h fun spelling => ?_
  refine coincide_observe_bind h.symbols (coincide_observe_bind h.scope ?_)
  cases other.scope.add? spelling ⟨other.symbols.size⟩ with
  | some added =>
    refine .done rfl ⟨rfl, ?_, h.reports⟩
    show state.symbols.push _ = other.symbols.push _
    rw [h.symbols]
  | none =>
    refine (coincide_report h name name _).bind fun _ _ _ _ _ hreported => ?_
    cases other.scope.find? spelling with
    | none => exact .failed hreported
    | some previous =>
      refine coincide_symbol_bind hreported previous fun found => ?_
      exact (coincide_report hreported _ _ _).bind fun _ _ _ _ _ hfirst => .failed hfirst

private theorem definitionItem_coincide (h : state.Agrees other) (id : SymbolId) {value value' : Option (Option Term)}
    (hvalue : Option.Rel (Option.Rel SameTerm) value value') :
    Coincide SameItem (definitionItem id value state) (definitionItem id value' other) := by
  cases hvalue with
  | none => exact .done rfl h
  | some hvalue =>
    cases hvalue with
    | none => exact .failed h
    | some hterm =>
      refine .done ?_ h
      rw [SameItem, Item.unplaced, Item.unplaced, Option.map_some, Option.map_some, hterm]

private theorem var_grouped {name whole : Span} {type value : Option Expression} {isDefined}
    (h : ∀ expr ∈ value, ∃ tree : Tree, tree.IsListedAs expr.nodes.toList) (text : List Char) (span : Span)
    (state : CheckerState) :
    Coincide SameItem (checkStatement text (.var name type value whole isDefined) state)
      (checkStatement text (Statement.grouped span (.var name type value whole isDefined)) state) := by
  refine coincide_bind_of_same fun type after => ?_
  have hvalue : Coincide (Option.Rel (Option.Rel SameTerm))
      (value.mapM (fun value => Stage.attempt (inferValue text value type)) after)
      ((value.map (·.grouped span)).mapM (fun value => Stage.attempt (inferValue text value type)) after) := by
    cases value with
    | none => exact .done .none agrees_rfl
    | some value =>
      refine (inferValue_grouped (h value rfl) text span type after).attempt.bind ?_
      intro term term' middle last hterm hmiddle
      exact .done (.some hterm) hmiddle
  refine hvalue.bind fun term term' middle last hterm hmiddle => ?_
  have hknown : (type <|> term.join.map Term.type) = (type <|> term'.join.map Term.type) := by
    cases hterm with
    | none => rfl
    | some hterm =>
      cases hterm with
      | none => rfl
      | some hterm => simp [hterm.type]
  rw [← hknown]
  cases type <|> term.join.map Term.type with
  | none => exact .failed hmiddle
  | some known =>
    refine (define_coincide hmiddle name known true).bind ?_
    rintro id _ after last rfl hafter
    exact definitionItem_coincide hafter id hterm

private theorem letTyped_grouped {name whole : Span} {type value : Expression}
    (h : ∃ tree : Tree, tree.IsListedAs value.nodes.toList) (text : List Char) (span : Span) (state : CheckerState) :
    Coincide SameItem (checkStatement text (.letTyped name type value whole) state)
      (checkStatement text (Statement.grouped span (.letTyped name type value whole)) state) := by
  refine coincide_bind_of_same fun type after => ?_
  refine (inferValue_grouped h text span type after).attempt.bind fun term term' middle last hterm hmiddle => ?_
  cases type with
  | none => exact .failed hmiddle
  | some type =>
    refine (define_coincide hmiddle name type false).bind ?_
    rintro id _ after last rfl hafter
    exact definitionItem_coincide hafter id (.some hterm)

private theorem letPlain_grouped {name whole : Span} {value : Expression}
    (h : ∃ tree : Tree, tree.IsListedAs value.nodes.toList) (text : List Char) (span : Span) (state : CheckerState) :
    Coincide SameItem (checkStatement text (.letPlain name value whole) state)
      (checkStatement text (Statement.grouped span (.letPlain name value whole)) state) := by
  refine (inferValue_grouped h text span none state).bind fun term term' middle last hterm hmiddle => ?_
  rw [hterm.type]
  refine (define_coincide hmiddle name term'.type false).bind ?_
  rintro id _ after last rfl hafter
  exact definitionItem_coincide hafter id (.some (.some hterm))

private theorem discarded_of_hasEffect {value : Expression} (h : value.hasEffect = .ok true) (text : List Char) :
    checkStatement text (.discarded value)
      = inferExpression text value none >>= fun term => pure (.expression term) := by
  rw [checkStatement, h]
  rfl

private theorem discarded_of_not_hasEffect {value : Expression} (h : value.hasEffect = .ok false) (text : List Char) :
    checkStatement text (.discarded value)
      = inferExpression text value none >>= fun term =>
          report value.span .unusedValue >>= fun _ => pure (.expression term) := by
  rw [checkStatement, h]
  rfl

/-- In parentheses, a discarded value is reported as unused, whether it has an effect or not. -/
private theorem discarded_grouped {value : Expression} (h : ∃ tree : Tree, tree.IsListedAs value.nodes.toList)
    (text : List Char) (span place : Span) (state : CheckerState) :
    Coincide SameItem
      ((inferExpression text value none >>= fun term =>
        report place .unusedValue >>= fun _ => pure (.expression term)) state)
      (checkStatement text (.discarded (value.grouped span)) state) := by
  rw [discarded_of_not_hasEffect (Expression.hasEffect_grouped span value)]
  have hvalue : Coincide SameTerm (inferExpression text value none state)
      (inferExpression text (value.grouped span) none state) := inferValue_grouped h text span none state
  refine hvalue.bind fun term term' after last hterm hafter => ?_
  refine (coincide_report hafter _ _ _).bind fun _ _ _ _ _ hreported => ?_
  exact .done (congrArg Item.expression hterm) hreported

/-- Parentheses around a value change nothing but spans, unless the value is discarded and changes a variable: then it
is reported as unused as well. -/
theorem checkStatement_grouped (text : List Char) (span : Span) {statement : Statement}
    (h : ∀ expr ∈ statement.values, ∃ tree : Tree, tree.IsListedAs expr.nodes.toList) (state : CheckerState) :
    (¬statement.HasEffect →
      Coincide SameItem (checkStatement text statement state) (checkStatement text (statement.grouped span) state)) ∧
    (statement.HasEffect →
      Coincide SameItem
        ((do
          let item ← checkStatement text statement
          report span .unusedValue
          return item) state)
        (checkStatement text (statement.grouped span) state)) := by
  cases statement with
  | letTyped => exact ⟨fun _ => letTyped_grouped (h _ List.mem_cons_self) text span state, False.elim⟩
  | letPlain => exact ⟨fun _ => letPlain_grouped (h _ List.mem_cons_self) text span state, False.elim⟩
  | var => exact ⟨fun _ => var_grouped (fun expr hmem => h expr (Option.mem_toList.2 hmem)) text span state, False.elim⟩
  | discarded value =>
    have hvalue := h value List.mem_cons_self
    constructor
    · intro hnone
      obtain ⟨tree, htree⟩ := hvalue
      obtain ⟨effect, heffect⟩ := Expression.exists_hasEffect htree
      cases effect with
      | true => exact absurd heffect hnone
      | false =>
        rw [discarded_of_not_hasEffect heffect]
        exact discarded_grouped ⟨tree, htree⟩ text span value.span state
    · intro heffect
      rw [discarded_of_hasEffect heffect, bind_assoc]
      simp only [pure_bind]
      exact discarded_grouped hvalue text span span state

/-- An increment, which changes a variable. -/
theorem checkStatement_grouped_increment :
    let text := "x++".toList
    let expr : Expression := ⟨#[⟨.name, 0, ⟨0, 1, by decide⟩⟩, ⟨.unary .postIncrement, 1, ⟨0, 3, by decide⟩⟩]⟩
    let x : Symbol := ⟨['x'], ⟨0, 0, by decide⟩, .arithmetic (.integer .u16), true⟩
    let state : CheckerState := ⟨.none, ⟨[(['x'], ⟨0⟩)]⟩, #[x]⟩
    (∀ value ∈ (Statement.discarded expr).values, ∃ tree : Tree, tree.IsListedAs value.nodes.toList) ∧
      (Statement.discarded expr).HasEffect ∧
      Coincide SameItem
        ((do
          let item ← checkStatement text (.discarded expr)
          report ⟨0, 3, by decide⟩ .unusedValue
          return item) state)
        (checkStatement text (.discarded (expr.grouped ⟨0, 3, by decide⟩)) state) := by
  intro text expr x state
  have hleaf : (Tree.node ⟨.name, 0, ⟨0, 1, by decide⟩⟩ []).IsWhole := .node rfl (by simp)
  have hvalue : ∀ value ∈ (Statement.discarded expr).values, ∃ tree : Tree, tree.IsListedAs value.nodes.toList := by
    intro value hmem
    obtain rfl := List.mem_singleton.1 hmem
    exact ⟨.node ⟨.unary .postIncrement, 1, ⟨0, 3, by decide⟩⟩ [_], .node rfl (List.forall_mem_singleton.2 hleaf), rfl⟩
  have heffect : (Statement.discarded expr).HasEffect := rfl
  exact ⟨hvalue, heffect, (checkStatement_grouped text _ hvalue state).2 heffect⟩

end Checker

/-! ### Sources -/

private theorem Statement.mem_expressions_of_mem_values {statement : Statement} {expr : Expression}
    (h : expr ∈ statement.values) : expr ∈ statement.expressions := by
  cases statement with
  | letTyped => exact List.mem_cons_of_mem _ h
  | letPlain => exact h
  | var => exact List.mem_append_right _ h
  | discarded => exact h

/-- The values of every statement that is read from a source are trees, so parentheses around them change no more than
that. -/
theorem Source.Reads.exists_isListedAs {name : String} {content : List Char} {statement : Statement}
    (h : (ofContent name content).Reads statement) :
    ∀ value ∈ statement.values, ∃ tree : Tree, tree.IsListedAs value.nodes.toList := by
  intro value hmem
  obtain ⟨clause, span, rfl, -, -⟩ := h.isCheckable
  have hexpr := Statement.mem_expressions_of_mem_values hmem
  rw [Clause.expressions_toStatement] at hexpr
  obtain ⟨phrase, -, rfl⟩ := List.mem_map.1 hexpr
  exact ⟨phrase.toTree, phrase.isWhole_toTree, rfl⟩

end ExprLang
