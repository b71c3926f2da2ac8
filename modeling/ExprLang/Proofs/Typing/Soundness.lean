import ExprLang.Proofs.Reading.Grammar
import ExprLang.Proofs.Typing.Results

/-!
# Types of programs

Checking a statement adds a symbol at the name that it defines, reports at the places of the statement, and comes to a
well-typed item (`checkStatement_yields`); so the program of all statements is well typed (`checkAll_yields`).
Every source has a well-typed program (`Source.program_isTyped`).
-/

namespace ExprLang

/-- Whether the nodes of an expression stand at some places. -/
structure Expression.IsAt (places : Span → Prop) (expr : Expression) : Prop where
  tree : ∀ tree, expr.tree = .ok tree → Checker.IsTreeAt places tree
  root : ∀ root, (do expr.node (← expr.root)) = .ok root → places root.span
  span : places expr.span

/-- Whether the name and the expressions of a statement stand at some places. -/
def Statement.IsAt (places : Span → Prop) : Statement → Prop
  | letTyped name type value _ => places name ∧ type.IsAt places ∧ value.IsAt places
  | letPlain name value _ => places name ∧ value.IsAt places
  | var name type value _ _ => places name ∧ (∀ expr ∈ type, expr.IsAt places) ∧ ∀ expr ∈ value, expr.IsAt places
  | discarded value => value.IsAt places

variable {places : Span → Prop}

/-! ### Clauses -/

private theorem Phrase.IsValid.isTreeAt_toTree {phrase : Phrase} (h : phrase.IsValid)
    (hjoin : ∀ a b, places a → places b → places (a.join b))
    (hlexemes : ∀ lexeme ∈ phrase.lexemes, places lexeme.span) : Checker.IsTreeAt places phrase.toTree := by
  induction phrase using Phrase.induction_operands with
  | step phrase ih =>
    intro node hmem
    have hmem : node ∈ phrase.nodes := hmem
    rw [nodes_eq, List.mem_append, List.mem_singleton, List.mem_flatMap] at hmem
    rcases hmem with ⟨operand, hoperand, hmem⟩ | rfl
    · obtain ⟨hvalid, hwritten⟩ := h.of_mem_operands hoperand
      exact ih operand hoperand hvalid (fun lexeme hlexeme => hlexemes lexeme (hwritten lexeme hlexeme)) node hmem
    · exact h.span_of_join hjoin hlexemes

private theorem Phrase.IsValid.isAt_expression {phrase : Phrase} (h : phrase.IsValid)
    (hjoin : ∀ a b, places a → places b → places (a.join b))
    (hlexemes : ∀ lexeme ∈ phrase.lexemes, places lexeme.span) : phrase.expression.IsAt places where
  tree tree htree := by
    rw [tree_expression] at htree
    rw [← Except.ok.inj htree]
    exact h.isTreeAt_toTree hjoin hlexemes
  root root hroot := by
    rw [root_expression] at hroot
    have hroot : phrase.expression.node (phrase.expression.size - 1) = .ok root := hroot
    rw [node_root_expression] at hroot
    rw [← Except.ok.inj hroot]
    exact h.span_of_join hjoin hlexemes
  span := by
    rw [span_expression]
    exact h.span_of_join hjoin hlexemes

/-- The statement of a clause stands where its lexemes do. -/
theorem Clause.IsValid.isAt_toStatement {clause : Clause} (h : clause.IsValid)
    (hjoin : ∀ a b, places a → places b → places (a.join b))
    (hlexemes : ∀ lexeme ∈ clause.lexemes, places lexeme.span) (span : Span) :
    (clause.toStatement span).IsAt places := by
  have hphrase : ∀ phrase ∈ clause.phrases, phrase.expression.IsAt places := by
    intro phrase hmem
    obtain ⟨hvalid, hwritten⟩ := h.of_mem_phrases hmem
    exact hvalid.isAt_expression hjoin fun lexeme hlexeme => hlexemes lexeme (hwritten lexeme hlexeme)
  cases h with
  | @binding keyword name type value =>
    have hname := hlexemes name (List.mem_cons_of_mem _ List.mem_cons_self)
    have hvalue := hphrase value.phrase (by simp [phrases])
    cases type with
    | none => exact ⟨hname, hvalue⟩
    | some type => exact ⟨hname, hphrase type.phrase (by simp [phrases]), hvalue⟩
  | @typedVariable keyword name type value =>
    have hname := hlexemes name (List.mem_cons_of_mem _ List.mem_cons_self)
    refine ⟨hname, fun expr hmem => ?_, fun expr hmem => ?_⟩
    · rw [← Option.mem_some.1 hmem]
      exact hphrase type.phrase (by simp [phrases])
    · obtain ⟨part, hpart, rfl⟩ := Option.mem_map.1 hmem
      rw [Option.mem_def.1 hpart] at hphrase
      exact hphrase part.phrase (by simp [phrases])
  | @plainVariable keyword name value =>
    have hname := hlexemes name (List.mem_cons_of_mem _ List.mem_cons_self)
    refine ⟨hname, fun _ hmem => absurd hmem (Option.not_mem_none _), fun expr hmem => ?_⟩
    rw [← Option.mem_some.1 hmem]
    exact hphrase value.phrase (by simp [phrases])
  | @discarded value => exact hphrase value (by simp [phrases])

namespace Checker

variable {text : List Char} {state : CheckerState}

/-! ### Definitions -/

/-- A name is defined by a symbol of its type. -/
private theorem define_yields {name : Span} (hname : places name) (type : Ty) (mutable : Bool) :
    Yields places (define text name type mutable) state fun id after =>
      ∃ symbol, after.symbols[id.index]? = some symbol ∧ symbol.type = type := by
  rw [define]
  refine yields_ofExcept_bind fun spelling _ => yields_observe_bind (yields_observe_bind ?_)
  cases state.scope.add? spelling ⟨state.symbols.size⟩ with
  | some added =>
    refine ⟨⟨?_, fun hplaced => ?_, [], (List.append_nil _).symm, fun _ _ hmem => absurd hmem List.not_mem_nil⟩, ?_⟩
    · show state.symbols.toList <+: (state.symbols.push _).toList
      rw [Array.toList_push]
      exact List.prefix_append _ _
    · show ∀ symbol ∈ (state.symbols.push _).toList, places symbol.span
      rw [Array.toList_push, List.forall_mem_append, List.forall_mem_singleton]
      exact ⟨hplaced, hname⟩
    · exact ⟨⟨spelling, name, type, mutable⟩, Array.getElem?_push_size, rfl⟩
  | none =>
    show Yields places (report name (.alreadyDefined spelling) >>= _) state _
    refine (yields_report (fun _ => hname) _).bind fun _ after _ hsymbols => ?_
    cases state.scope.find? spelling with
    | none => exact yields_fail
    | some previous =>
      show Yields places (symbol previous >>= _) after _
      refine yields_symbol_bind fun found hfound => ?_
      refine (yields_report (fun hplaced => hplaced found (mem_of_getElem?_symbols hfound)) _).bind fun _ _ _ _ => ?_
      exact yields_fail

/-- A definition is well typed if its value has the type of its symbol. -/
private theorem definitionItem_yields {id : SymbolId} {type : Ty}
    (hid : ∃ symbol, state.symbols[id.index]? = some symbol ∧ symbol.type = type) {value : Option (Option Term)}
    (hvalue : ∀ inner ∈ value, ∀ term ∈ inner, term.IsTyped state.symbols ∧ term.type = type) :
    Yields places (definitionItem id value) state fun item after => item.IsTyped after.symbols := by
  obtain ⟨symbol, hsymbol, rfl⟩ := hid
  match value with
  | none => exact yields_pure ⟨symbol, hsymbol, fun _ hmem => absurd hmem (Option.not_mem_none _)⟩
  | some none => exact yields_fail
  | some (some term) =>
    exact yields_pure ⟨symbol, hsymbol, fun _ hmem => Option.mem_some.1 hmem ▸ hvalue _ rfl term rfl⟩

/-! ### Expressions -/

private theorem resolveType_yields {expr : Expression} (hexpr : expr.IsAt places) :
    Yields places (resolveType text expr) state fun _ _ => True := by
  rw [resolveType]
  refine yields_ofExcept_bind fun root hroot => ?_
  split
  · exact (yields_reject (Q := fun _ _ => False) (fun _ => hexpr.span) _).bind fun _ _ _ h => h.elim
  · refine yields_ofExcept_bind fun name _ => ?_
    cases Ty.ofName? name with
    | some type => exact yields_pure trivial
    | none => exact yields_reject (fun _ => hexpr.root root hroot) _

private theorem inferExpression_yields {expr : Expression} (hexpr : expr.IsAt places) (expected : Option Ty) :
    Yields places (inferExpression text expr expected) state
      fun term after => term.IsResult places after.symbols := by
  rw [inferExpression]
  exact yields_ofExcept_bind fun tree htree => infer_yields (hexpr.tree tree htree) expected state

/-- A value has the type that is asked for. -/
private theorem inferValue_yields {expr : Expression} (hexpr : expr.IsAt places) (type : Option Ty) :
    Yields places (inferValue text expr type) state fun term after =>
      term.IsResult places after.symbols ∧ ∀ asked ∈ type, term.type = asked := by
  cases type with
  | none =>
    exact (inferExpression_yields hexpr none).mono fun _ _ hterm =>
      ⟨hterm, fun _ hmem => absurd hmem (Option.not_mem_none _)⟩
  | some type =>
    rw [inferValue, inferAs]
    refine (inferExpression_yields hexpr (some type)).bind fun term after _ hterm => ?_
    split
    · exact (yields_reject (Q := fun _ _ => False) (fun _ => hterm.placed) _).bind fun _ _ _ h => h.elim
    · rename_i heq
      exact yields_pure ⟨hterm, fun asked hmem => (not_ne_iff.1 heq).trans (Option.mem_some.1 hmem)⟩

/-! ### Statements -/

private theorem letTyped_yields {name span : Span} {type value : Expression} (hname : places name)
    (htype : type.IsAt places) (hvalue : value.IsAt places) :
    Yields places (checkStatement text (.letTyped name type value span)) state
      fun item after => item.IsTyped after.symbols := by
  show Yields places (Stage.attempt (resolveType text type) >>= _) state _
  refine (resolveType_yields htype).attempt.bind fun type after _ _ => ?_
  refine (inferValue_yields hvalue type).attempt.bind fun term middle _ hterm => ?_
  cases type with
  | none => exact yields_fail
  | some type =>
    refine (define_yields hname type false).bind fun id last hlast hid => ?_
    refine definitionItem_yields hid fun inner hinner value hmem => ?_
    rw [← Option.mem_some.1 hinner] at hmem
    obtain ⟨hresult, hsame⟩ := hterm value hmem
    exact ⟨(hresult.mono hlast).typed, hsame type rfl⟩

private theorem var_yields {name span : Span} {type value : Option Expression} (hname : places name)
    (htype : ∀ expr ∈ type, expr.IsAt places) (hvalue : ∀ expr ∈ value, expr.IsAt places) {hparts} :
    Yields places (checkStatement text (.var name type value span hparts)) state
      fun item after => item.IsTyped after.symbols := by
  show Yields places (Option.mapM _ type >>= _) state _
  refine (yields_mapM fun expr hmem => resolveType_yields (htype expr hmem)).bind fun type after _ _ => ?_
  have hvalued : Yields places (value.mapM fun value => Stage.attempt (inferValue text value type)) after
      fun result last => ∀ inner ∈ result, ∀ term ∈ inner,
        term.IsResult places last.symbols ∧ ∀ asked ∈ type, term.type = asked :=
    yields_mapM fun expr hmem => (inferValue_yields (hvalue expr hmem) type).attempt
  refine hvalued.bind fun value middle _ hterm => ?_
  -- The type is the one that is asked for, or else that of the value.
  have hsame : ∀ known, (type <|> value.join.map Term.type) = some known →
      ∀ inner ∈ value, ∀ term ∈ inner, term.type = known := by
    rintro known hknown _ hinner term hmem
    obtain rfl := Option.mem_def.1 hinner
    obtain rfl := Option.mem_def.1 hmem
    cases type with
    | some asked =>
      rw [← Option.some.inj hknown]
      exact (hterm _ rfl term rfl).2 asked rfl
    | none => exact Option.some.inj hknown
  cases hknown : type <|> value.join.map Term.type with
  | none => exact yields_fail
  | some known =>
    refine (define_yields hname known true).bind fun id last hlast hid => ?_
    refine definitionItem_yields hid fun inner hinner term hmem => ?_
    exact ⟨((hterm inner hinner term hmem).1.mono hlast).typed, hsame known hknown inner hinner term hmem⟩

/-- A statement that is checked comes to a well-typed item. -/
private theorem checkStatement_yields {statement : Statement} (h : statement.IsAt places) :
    Yields places (checkStatement text statement) state fun item after => item.IsTyped after.symbols := by
  cases statement with
  | letTyped name type value span => exact letTyped_yields h.1 h.2.1 h.2.2
  | letPlain name value span =>
    show Yields places (inferExpression text value none >>= _) state _
    refine (inferExpression_yields h.2 none).bind fun term after _ hterm => ?_
    refine (define_yields h.1 term.type false).bind fun id last hlast hid => ?_
    obtain ⟨symbol, hsymbol, htype⟩ := hid
    refine yields_pure ⟨symbol, hsymbol, fun _ hmem => ?_⟩
    rw [← Option.mem_some.1 hmem]
    exact ⟨(hterm.mono hlast).typed, htype.symm⟩
  | var name type value span hparts => exact var_yields h.1 h.2.1 h.2.2
  | discarded expr =>
    show Yields places (inferExpression text expr none >>= _) state _
    refine (inferExpression_yields h none).bind fun term after _ hterm => ?_
    refine yields_ofExcept_bind fun effect _ => ?_
    cases effect with
    | true => exact yields_pure hterm.typed
    | false =>
      show Yields places (report expr.span .unusedValue >>= _) after _
      refine (yields_report (fun _ => h.span) _).bind fun _ last hlast _ => ?_
      exact yields_pure (hterm.mono hlast).typed

/-! ### Programs -/

private theorem checkStatements_yields {statements : List Statement}
    (h : ∀ statement ∈ statements, statement.IsAt places)
    {items : Array Item} (hitems : ∀ item ∈ items.toList, item.IsTyped state.symbols) :
    Yields places (checkStatements text statements items) state
      fun items after => ∀ item ∈ items.toList, item.IsTyped after.symbols := by
  induction statements generalizing items state with
  | nil => exact yields_pure hitems
  | cons statement statements ih =>
    obtain ⟨hfirst, hrest⟩ := List.forall_mem_cons.1 h
    rw [checkStatements]
    refine (checkStatement_yields hfirst).attempt.bind fun result after hafter hresult => ?_
    have hkept : ∀ item ∈ items.toList, item.IsTyped after.symbols := fun item hmem =>
      (hitems item hmem).mono hafter.symbols
    cases result with
    | none => exact ih hrest hkept
    | some item =>
      refine ih hrest ?_
      rw [Array.toList_push, List.forall_mem_append, List.forall_mem_singleton]
      exact ⟨hkept, hresult item rfl⟩

/-- The program of statements is well typed. -/
private theorem checkAll_yields {statements : List Statement} (h : ∀ statement ∈ statements, statement.IsAt places) :
    Yields places (checkAll text statements) state fun program _ => program.IsTyped := by
  rw [checkAll]
  refine (checkStatements_yields h fun _ hmem => absurd hmem List.not_mem_nil).bind fun items after _ hitems => ?_
  exact yields_observe_bind (yields_pure hitems)

end Checker

/-! ### Sources -/

namespace Source

/-- If a source is done with, its program is well typed, and what is reported stands at the places of the
statements. -/
theorem isTyped_of_program_eq {source : Source} {statements : List Statement} {reports after : Diagnostics}
    {program : Program} (h : ∀ statement ∈ statements, statement.IsAt places)
    (hprogram : source.program statements reports = (.done program, after)) :
    program.IsTyped ∧ ∃ more, after.toList = reports.toList ++ more ∧ ∀ report ∈ more, places report.span := by
  have hyields : Checker.Yields places (Checker.checkAll source.text statements) (.start reports) _ :=
    Checker.checkAll_yields h
  rw [Checker.Yields] at hyields
  rw [Source.program, Stage.run] at hprogram
  rcases hrun : Checker.checkAll source.text statements (.start reports) with ⟨result | _ | cause, last⟩
  · rw [hrun] at hyields hprogram
    obtain ⟨houtcome, rfl⟩ := Prod.mk.inj hprogram
    obtain rfl := Outcome.done.inj houtcome
    obtain ⟨more, hmore, hplaces⟩ := hyields.1.reports
    exact ⟨hyields.2, more, hmore, hplaces fun _ hmem => absurd hmem List.not_mem_nil⟩
  · rw [hrun] at hprogram
    cases (Prod.mk.inj hprogram).1
  · rw [hrun] at hprogram
    cases (Prod.mk.inj hprogram).1

/-- Every source has a program, and it is well typed. -/
theorem program_isTyped (name : String) (content : List Char) :
    ∃ statements program reports after,
      (ofContent name content).statements = (.done statements, reports) ∧
      (ofContent name content).program statements reports = (.done program, after) ∧ program.IsTyped := by
  obtain ⟨statements, program, reports, after, hstatements, hprogram, hclauses, -⟩ := exists_checked name content
  have hplaced : ∀ statement ∈ statements, statement.IsAt fun _ => True := by
    intro statement hmem
    obtain ⟨clause, span, rfl, hvalid, -⟩ := hclauses statement hmem
    exact hvalid.isAt_toStatement (fun _ _ _ _ => trivial) (fun _ _ => trivial) span
  exact ⟨statements, program, reports, after, hstatements, hprogram, (isTyped_of_program_eq hplaced hprogram).1⟩

end Source

end ExprLang
