import ExprLang.Proofs.Reading.Safety
import ExprLang.Proofs.Typing.Safety
import ExprLang.Typing.Statement

/-!
# Safety of programs

Statements of valid clauses are checked without a fault, and all symbols in the items of their program are there,
so the program can be printed (`Source.exists_program`).
-/

namespace ExprLang

/-- Whether all symbols in an item are among the first `count`. -/
def Item.IsBound (count : Nat) : Item → Prop
  | definition id value => id.index < count ∧ ∀ term ∈ value, term.IsBound count
  | expression value => value.IsBound count

private theorem Item.IsBound.mono {item : Item} {count more : Nat} (h : item.IsBound count) (hle : count ≤ more) :
    item.IsBound more := by
  cases item with
  | definition => exact ⟨Nat.lt_of_lt_of_le h.1 hle, fun term hmem => (h.2 term hmem).mono hle⟩
  | expression => exact Term.IsBound.mono h hle

theorem CheckerState.isSound_start (text : List Char) (reports : Diagnostics) :
    (start reports).IsSound text :=
  ⟨fun _ hmem => absurd hmem List.not_mem_nil, fun _ hmem => absurd hmem List.not_mem_nil⟩

namespace Checker

variable {text : List Char} {state : CheckerState} {phrase : Phrase}

/-! ### Definitions -/

/-- A name is added to the scope if it is not taken. -/
private theorem define_isSafe (h : state.IsSound text) {name : Span} (hname : ∃ part, sliceOf text name = .ok part)
    (type : Ty) (mutable : Bool) :
    IsSafe text (define text name type mutable) state fun id after => id.index < after.symbols.size := by
  rw [define]
  refine isSafe_slice_bind hname fun spelling => isSafe_observe_bind (isSafe_observe_bind ?_)
  cases hadd : state.scope.add? spelling ⟨state.symbols.size⟩ with
  | some added =>
    have hentries : added.entries = state.scope.entries ++ [(spelling, ⟨state.symbols.size⟩)] := by
      rw [Scope.add?] at hadd
      split at hadd
      · cases hadd
      · rw [← Option.some.inj hadd]
    -- The new symbol is the last one, and the new entry of the scope leads to it.
    have hsize : (state.symbols.push ⟨spelling, name, type, mutable⟩).size = state.symbols.size + 1 := Array.size_push _
    refine ⟨⟨⟨?_, ?_⟩, ?_, [], (List.append_nil _).symm, fun _ hmem => absurd hmem List.not_mem_nil⟩, ?_⟩
    · show ∀ entry ∈ added.entries, _
      rw [hentries, List.forall_mem_append, List.forall_mem_singleton, hsize]
      exact ⟨fun entry hmem => Nat.lt_succ_of_lt (h.scope entry hmem), Nat.lt_succ_self _⟩
    · rw [Array.toList_push, List.forall_mem_append, List.forall_mem_singleton]
      exact ⟨h.symbols, hname⟩
    · rw [hsize]
      exact Nat.le_succ _
    · show state.symbols.size < (state.symbols.push _).size
      rw [hsize]
      exact Nat.lt_succ_self _
  | none =>
    show IsSafe text (report name (.alreadyDefined spelling) >>= _) state _
    refine (isSafe_report h hname _).bind fun _ after hreported hsymbols => ?_
    -- The name is taken, by a symbol that is shown in a second report.
    cases hfound : state.scope.find? spelling with
    | none => exact isSafe_fail hreported.toIsSound
    | some previous =>
      have hprevious : previous.index < after.symbols.size := by
        rw [hsymbols]
        exact h.scope.index_lt_of_find? hfound
      show IsSafe text (symbol previous >>= _) after _
      refine isSafe_symbol_bind hprevious fun found hmem => ?_
      refine (isSafe_report hreported.toIsSound (hreported.symbols found hmem) _).bind fun _ _ hafter _ => ?_
      exact isSafe_fail hafter.toIsSound

/-! ### Expressions -/

private theorem exists_hasEffect (phrase : Phrase) : ∃ effect, phrase.expression.hasEffect = .ok effect := by
  rw [Expression.hasEffect, phrase.root_expression]
  show ∃ effect, (phrase.expression.node (phrase.expression.size - 1) >>= _) = _
  rw [phrase.node_root_expression]
  exact ⟨_, rfl⟩

private theorem resolveType_isSafe (h : state.IsSound text)
    (hspan : ∃ part, sliceOf text phrase.span = .ok part) :
    IsSafe text (resolveType text phrase.expression) state fun _ _ => True := by
  rw [resolveType]
  have hroot : (do phrase.expression.node (← phrase.expression.root)) = .ok phrase.root := by
    rw [phrase.root_expression]
    exact phrase.node_root_expression
  refine isSafe_ofExcept_bind hroot ?_
  split
  · refine (isSafe_reject (Q := fun _ _ => False) h ?_ .expectedTypeName).bind fun _ _ _ h => h.elim
    rwa [Phrase.span_expression]
  · refine isSafe_slice_bind hspan fun name => ?_
    cases Ty.ofName? name with
    | some type => exact isSafe_pure h trivial
    | none => exact isSafe_reject h hspan _

private theorem inferExpression_isSafe (h : state.IsSound text) (hvalid : phrase.IsValid)
    (hlegible : ∀ lexeme ∈ phrase.lexemes, lexeme.IsLegible text) (expected : Option Ty) :
    IsSafe text (inferExpression text phrase.expression expected) state
      fun term after => term.IsSound text after.symbols.size := by
  rw [inferExpression]
  refine isSafe_ofExcept_bind phrase.tree_expression ?_
  exact infer_isSafe hvalid hlegible state expected h

private theorem inferValue_isSafe (h : state.IsSound text) (hvalid : phrase.IsValid)
    (hlegible : ∀ lexeme ∈ phrase.lexemes, lexeme.IsLegible text) (type : Option Ty) :
    IsSafe text (inferValue text phrase.expression type) state
      fun term after => term.IsSound text after.symbols.size := by
  cases type with
  | none => exact inferExpression_isSafe h hvalid hlegible none
  | some type =>
    rw [inferValue, inferAs]
    refine (inferExpression_isSafe h hvalid hlegible (some type)).bind fun term after hafter hterm => ?_
    split
    · exact (isSafe_reject (Q := fun _ _ => False) hafter.toIsSound hterm.span _).bind fun _ _ _ h => h.elim
    · exact isSafe_pure hafter.toIsSound hterm

/-! ### Statements -/

private theorem isSafe_mapM {α β : Type} (h : state.IsSound text) {value : Option α} {checker : α → Checker β}
    {Q : β → CheckerState → Prop} (hchecker : ∀ inner ∈ value, IsSafe text (checker inner) state Q) :
    IsSafe text (value.mapM checker) state fun result after => ∀ inner ∈ result, Q inner after := by
  cases value with
  | none => exact isSafe_pure h (by simp)
  | some value =>
    refine (hchecker value rfl).bind fun result after hafter hresult => ?_
    exact isSafe_pure hafter.toIsSound fun _ hmem => Option.mem_some.1 hmem ▸ hresult

private theorem definitionItem_isSafe (h : state.IsSound text) {id : SymbolId} (hid : id.index < state.symbols.size)
    {value : Option (Option Term)} (hvalue : ∀ inner ∈ value, ∀ term ∈ inner, term.IsBound state.symbols.size) :
    IsSafe text (definitionItem id value) state fun item after => item.IsBound after.symbols.size := by
  match value with
  | none => exact isSafe_pure h ⟨hid, by simp⟩
  | some none => exact isSafe_fail h
  | some (some term) => exact isSafe_pure h ⟨hid, fun _ hmem => Option.mem_some.1 hmem ▸ hvalue _ rfl term rfl⟩

private theorem variable_isSafe (h : state.IsSound text) {name : Span} (hname : ∃ part, sliceOf text name = .ok part)
    {type value : Option Expression}
    (htype : ∀ expr ∈ type, ∃ phrase : Phrase, expr = phrase.expression ∧ ∃ part, sliceOf text phrase.span = .ok part)
    (hvalue : ∀ expr ∈ value, ∃ phrase : Phrase, expr = phrase.expression ∧ phrase.IsValid ∧
      ∀ lexeme ∈ phrase.lexemes, lexeme.IsLegible text) {span : Span} {hparts} :
    IsSafe text (checkStatement text (.var name type value span hparts)) state
      fun item after => item.IsBound after.symbols.size := by
  show IsSafe text (Option.mapM _ type >>= _) state _
  have htyped : IsSafe text (type.mapM (resolveType text)) state fun _ _ => True := by
    refine (isSafe_mapM (Q := fun _ _ => True) h fun expr hmem => ?_).mono fun _ _ _ => trivial
    obtain ⟨phrase, rfl, hspan⟩ := htype expr hmem
    exact resolveType_isSafe h hspan
  refine htyped.bind fun type after hafter _ => ?_
  -- The value is checked even if it fails, so that its name is defined with the type.
  have hvalued : IsSafe text (value.mapM fun value => Stage.attempt (inferValue text value type)) after
      fun result last => ∀ inner ∈ result, ∀ term ∈ inner, term.IsSound text last.symbols.size := by
    refine isSafe_mapM hafter.toIsSound fun expr hmem => ?_
    obtain ⟨phrase, rfl, hvalid, hlegible⟩ := hvalue expr hmem
    exact (inferValue_isSafe hafter.toIsSound hvalid hlegible type).attempt
  refine hvalued.bind fun value middle hmiddle hterm => ?_
  cases type <|> value.join.map Term.type with
  | none => exact isSafe_fail hmiddle.toIsSound
  | some type =>
    refine (define_isSafe hmiddle.toIsSound hname type true).bind fun id last hlast hid => ?_
    refine definitionItem_isSafe hlast.toIsSound hid fun inner hinner term hmem => ?_
    exact (hterm inner hinner term hmem).bound.mono hlast.size_le

/-- The statement of a valid clause whose lexemes are legible is checked without a fault. -/
theorem checkStatement_isSafe (h : state.IsSound text) {clause : Clause} (hvalid : clause.IsValid)
    (hlegible : ∀ lexeme ∈ clause.lexemes, lexeme.IsLegible text) (span : Span) :
    IsSafe text (checkStatement text (clause.toStatement span)) state
      fun item after => item.IsBound after.symbols.size := by
  have hphrase : ∀ phrase ∈ clause.phrases, phrase.IsValid ∧ (∀ lexeme ∈ phrase.lexemes, lexeme.IsLegible text) ∧
      ∃ part, sliceOf text phrase.span = .ok part := by
    intro phrase hmem
    obtain ⟨hvalid, hlexemes⟩ := hvalid.of_mem_phrases hmem
    have hlegible : ∀ lexeme ∈ phrase.lexemes, lexeme.IsLegible text := fun lexeme hmem =>
      hlegible lexeme (hlexemes lexeme hmem)
    exact ⟨hvalid, hlegible, hvalid.exists_sliceOf_span fun lexeme hmem => (hlegible lexeme hmem).imp fun _ h => h.1⟩
  have hlexeme : ∀ lexeme ∈ clause.lexemes, ∃ part, sliceOf text lexeme.span = .ok part :=
    fun lexeme hmem => (hlegible lexeme hmem).imp fun _ h => h.1
  cases hvalid with
  | @binding keyword name type value =>
    have hname := hlexeme name (List.mem_cons_of_mem _ List.mem_cons_self)
    obtain ⟨hvalue, hvalueLegible, -⟩ := hphrase value.phrase (by simp [Clause.phrases])
    cases type with
    | none =>
      show IsSafe text (inferExpression text value.phrase.expression none >>= _) state _
      refine (inferExpression_isSafe h hvalue hvalueLegible none).bind fun term after hafter hterm => ?_
      refine (define_isSafe hafter.toIsSound hname _ _).bind fun id last hlast hid => ?_
      refine isSafe_pure hlast.toIsSound ⟨hid, fun _ hmem => ?_⟩
      rw [← Option.mem_some.1 hmem]
      exact hterm.bound.mono hlast.size_le
    | some type =>
      obtain ⟨htype, -, htypeSpan⟩ := hphrase type.phrase (by simp [Clause.phrases])
      show IsSafe text (Stage.attempt (resolveType text type.phrase.expression) >>= _) state _
      refine (resolveType_isSafe h htypeSpan).attempt.bind fun type after hafter _ => ?_
      refine (inferValue_isSafe hafter.toIsSound hvalue hvalueLegible type).attempt.bind
        fun term middle hmiddle hterm => ?_
      cases type with
      | none => exact isSafe_fail hmiddle.toIsSound
      | some type =>
        refine (define_isSafe hmiddle.toIsSound hname type false).bind fun id last hlast hid => ?_
        refine definitionItem_isSafe hlast.toIsSound hid fun inner hinner value hmem => ?_
        rw [← Option.mem_some.1 hinner] at hmem
        exact (hterm value hmem).bound.mono hlast.size_le
  | @typedVariable keyword name type value =>
    have hname := hlexeme name (List.mem_cons_of_mem _ List.mem_cons_self)
    obtain ⟨-, -, htypeSpan⟩ := hphrase type.phrase (by cases value <;> simp [Clause.phrases])
    refine variable_isSafe h hname (fun expr hmem => ?_) fun expr hmem => ?_
    · exact ⟨type.phrase, (Option.mem_some.1 hmem).symm, htypeSpan⟩
    · obtain ⟨part, hpart, rfl⟩ := Option.mem_map.1 hmem
      obtain ⟨hvalue, hvalueLegible, -⟩ := hphrase part.phrase (by
        rw [Option.mem_def.1 hpart]
        simp [Clause.phrases])
      exact ⟨part.phrase, rfl, hvalue, hvalueLegible⟩
  | @plainVariable keyword name value =>
    have hname := hlexeme name (List.mem_cons_of_mem _ List.mem_cons_self)
    obtain ⟨hvalue, hvalueLegible, -⟩ := hphrase value.phrase (by simp [Clause.phrases])
    refine variable_isSafe h hname (fun _ hmem => absurd hmem (Option.not_mem_none _)) fun expr hmem => ?_
    exact ⟨value.phrase, (Option.mem_some.1 hmem).symm, hvalue, hvalueLegible⟩
  | @discarded value =>
    obtain ⟨hvalue, hvalueLegible, hspan⟩ := hphrase value (by simp [Clause.phrases])
    show IsSafe text (inferExpression text value.expression none >>= _) state _
    refine (inferExpression_isSafe h hvalue hvalueLegible none).bind fun term after hafter hterm => ?_
    obtain ⟨effect, heffect⟩ := exists_hasEffect value
    refine isSafe_ofExcept_bind heffect ?_
    cases effect with
    | true => exact isSafe_pure hafter.toIsSound hterm.bound
    | false =>
      show IsSafe text (report value.expression.span .unusedValue >>= _) after _
      rw [value.span_expression]
      refine (isSafe_report hafter.toIsSound hspan _).bind fun _ last hlast _ => ?_
      exact isSafe_pure hlast.toIsSound (hterm.bound.mono hlast.size_le)

/-! ### Programs -/

/-- Whether a statement is that of a valid clause whose lexemes are legible. -/
def IsCheckable (text : List Char) (statement : Statement) : Prop :=
  ∃ clause span, statement = Clause.toStatement span clause ∧ clause.IsValid ∧
    ∀ lexeme ∈ clause.lexemes, lexeme.IsLegible text

/-- Statements are all gone through, whether they fail or not. -/
private theorem checkStatements_meets {statements : List Statement}
    (hstatements : ∀ statement ∈ statements, IsCheckable text statement)
    {items : Array Item} (h : state.IsSound text) (hitems : ∀ item ∈ items.toList, item.IsBound state.symbols.size) :
    (checkStatements text statements items).Meets state
      (fun items after => state.IsAfter text after ∧ ∀ item ∈ items.toList, item.IsBound after.symbols.size)
      fun _ => False := by
  induction statements generalizing items state with
  | nil => exact ⟨h.isAfter, hitems⟩
  | cons statement statements ih =>
    obtain ⟨clause, span, rfl, hvalid, hlegible⟩ := hstatements _ List.mem_cons_self
    have hrest : ∀ statement ∈ statements, IsCheckable text statement := fun _ hmem =>
      hstatements _ (List.mem_cons_of_mem _ hmem)
    -- The items before this statement stay bound, since symbols are only added.
    have hkept : ∀ after, state.IsAfter text after → ∀ item ∈ items.toList, item.IsBound after.symbols.size :=
      fun after hafter item hmem => (hitems item hmem).mono hafter.size_le
    rw [checkStatements, Stage.meets_bind, Stage.meets_attempt]
    refine Stage.Meets.mono (checkStatement_isSafe h hvalid hlegible span) ?_ ?_
    · rintro item after ⟨hafter, hitem⟩
      have hpushed : ∀ item' ∈ (items.push item).toList, item'.IsBound after.symbols.size := by
        rw [Array.toList_push, List.forall_mem_append, List.forall_mem_singleton]
        exact ⟨hkept after hafter, hitem⟩
      refine Stage.Meets.mono (ih hrest hafter.toIsSound hpushed) ?_ fun _ h => h
      exact fun _ last hlast => ⟨hafter.trans hlast.1, hlast.2⟩
    · intro after hafter
      refine Stage.Meets.mono (ih hrest hafter.toIsSound (hkept after hafter)) ?_ fun _ h => h
      exact fun _ last hlast => ⟨hafter.trans hlast.1, hlast.2⟩

/-- Statements have a program, all of whose symbols are there. -/
private theorem checkAll_meets {statements : List Statement}
    (hstatements : ∀ statement ∈ statements, IsCheckable text statement) (h : state.IsSound text) :
    (checkAll text statements).Meets state
      (fun program after => state.IsAfter text after ∧ ∀ item ∈ program.items, item.IsBound program.symbols.size)
      fun _ => False := by
  rw [checkAll, Stage.meets_bind]
  have hnone : ∀ item ∈ (#[] : Array Item).toList, item.IsBound state.symbols.size := fun _ hmem =>
    absurd hmem List.not_mem_nil
  exact Stage.Meets.mono (checkStatements_meets hstatements h hnone) (fun _ _ h => h) fun _ h => h

end Checker

/-! ### Printing -/

private theorem exists_symbolAt {symbols : Array Symbol} {id : SymbolId} (h : id.index < symbols.size) :
    ∃ symbol, symbolAt symbols id = .ok symbol := by
  rw [symbolAt, Array.getElem?_eq_getElem h]
  exact ⟨_, rfl⟩

private theorem Term.IsBound.exists_render {symbols : Array Symbol} {term : Term} (h : term.IsBound symbols.size) :
    ∃ shown, term.render symbols = .ok shown := by
  induction term with
  | constant => exact ⟨_, rfl⟩
  | symbol id =>
    obtain ⟨symbol, hsymbol⟩ := exists_symbolAt h
    exact ⟨_, by rw [Term.render, hsymbol]; rfl⟩
  | unary _ operand _ _ ih =>
    obtain ⟨shown, hshown⟩ := ih h
    exact ⟨_, by rw [Term.render, hshown]; rfl⟩
  | binary _ left right _ _ ihLeft ihRight =>
    obtain ⟨shownLeft, hleft⟩ := ihLeft h.1
    obtain ⟨shownRight, hright⟩ := ihRight h.2
    exact ⟨_, by rw [Term.render, hleft, hright]; rfl⟩

private theorem Item.IsBound.exists_render {symbols : Array Symbol} {item : Item} (h : item.IsBound symbols.size) :
    ∃ shown, item.render symbols = .ok shown := by
  match item with
  | definition id none =>
    obtain ⟨symbol, hsymbol⟩ := exists_symbolAt h.1
    exact ⟨_, by rw [Item.render, hsymbol]; rfl⟩
  | definition id (some value) =>
    obtain ⟨symbol, hsymbol⟩ := exists_symbolAt h.1
    obtain ⟨shown, hshown⟩ := (h.2 value rfl).exists_render
    exact ⟨_, by rw [Item.render, hsymbol]; simp only [hshown]; rfl⟩
  | expression value =>
    obtain ⟨shown, hshown⟩ := Term.IsBound.exists_render h
    exact ⟨_, by rw [Item.render, hshown]; rfl⟩

theorem exists_mapM {α β : Type} {f : α → Except Fault β} {items : List α}
    (h : ∀ item ∈ items, ∃ value, f item = .ok value) : ∃ values, items.mapM f = .ok values := by
  induction items with
  | nil => exact ⟨[], rfl⟩
  | cons item items ih =>
    obtain ⟨value, hvalue⟩ := h item List.mem_cons_self
    obtain ⟨values, hvalues⟩ := ih fun item hmem => h item (List.mem_cons_of_mem _ hmem)
    exact ⟨value :: values, by rw [List.mapM_cons, hvalue, hvalues]; rfl⟩

private theorem Program.exists_render {program : Program}
    (h : ∀ item ∈ program.items, item.IsBound program.symbols.size) :
    ∃ shown, program.render = .ok shown := by
  obtain ⟨shown, hshown⟩ := exists_mapM fun item hmem => (h item hmem).exists_render
  exact ⟨_, by rw [Program.render, hshown]; rfl⟩

/-! ### Sources -/

/-- Checkable statements of a source have a program that can be printed, and what is reported about them stands at
parts of the text. -/
theorem Source.exists_program {source : Source} {statements : List Statement} {reports : Diagnostics}
    (hstatements : ∀ statement ∈ statements, Checker.IsCheckable source.text statement)
    (hreports : ∀ report ∈ reports.toList, ∃ part, sliceOf source.text report.span = .ok part) :
    ∃ program after, source.program statements reports = (.done program, after) ∧
      (∃ shown, program.render = .ok shown) ∧ (∃ more, after.toList = reports.toList ++ more) ∧
      ∀ report ∈ after.toList, ∃ part, sliceOf source.text report.span = .ok part := by
  obtain ⟨program, after, hrun, hafter, hitems⟩ :=
    (Checker.checkAll_meets hstatements (CheckerState.isSound_start source.text reports)).exists_done
  obtain ⟨more, hmore, hspans⟩ := hafter.kept
  refine ⟨program, after.diagnostics, ?_, Program.exists_render hitems, ⟨more, hmore⟩, ?_⟩
  · rw [Source.program, Stage.run, hrun]
  · rw [hmore]
    exact List.forall_mem_append.2 ⟨hreports, hspans⟩

/-- Every source is read and checked.  Its statements are those of valid clauses, and what is reported about them stands
at parts of the text. -/
theorem Source.exists_checked (name : String) (content : List Char) :
    ∃ statements program reports after,
      (ofContent name content).statements = (.done statements, reports) ∧
      (ofContent name content).program statements reports = (.done program, after) ∧
      (∀ statement ∈ statements, ∃ (clause : Clause) (span : Span), statement = clause.toStatement span ∧
        clause.IsValid ∧ ∀ lexeme ∈ clause.lexemes, lexeme ∈ (ofContent name content).lexemes.toList) ∧
      (∃ shown, program.render = .ok shown) ∧
      (∃ more, after.toList = (ofContent name content).lexicalDiagnostics.toList ++ more) ∧
      ∀ report ∈ after.toList, ∃ part, sliceOf (ofContent name content).text report.span = .ok part := by
  obtain ⟨statements, reports, hstatements, hclauses, ⟨more, hmore⟩, hreports⟩ :=
    exists_statements (areIn_lexemes name content)
  have hcheckable : ∀ statement ∈ statements, Checker.IsCheckable (ofContent name content).text statement := by
    intro statement hmem
    obtain ⟨clause, span, hstatement, hvalid, hlexemes⟩ := hclauses statement hmem
    exact ⟨clause, span, hstatement, hvalid, fun lexeme hmem => isLegible_of_mem name content (hlexemes lexeme hmem)⟩
  obtain ⟨program, after, hprogram, hrender, ⟨further, hfurther⟩, hafter⟩ := exists_program hcheckable hreports
  refine ⟨statements, program, reports, after, hstatements, hprogram, hclauses, hrender, ⟨more ++ further, ?_⟩, hafter⟩
  rw [hfurther, hmore, List.append_assoc]

end ExprLang
