import ExprLang.Proofs.Expression.Subtrees
import ExprLang.Proofs.Reading.Grammar
import ExprLang.Proofs.Typing.Programs

/-!
# The front end

Every text is read as statements and checked without a fault, the statements and the program can be printed, and
all that is reported stands at a place in the text (`Source.checks_without_fault`).
-/

namespace ExprLang

/-- The expressions of a statement. -/
def Statement.expressions : Statement → List Expression
  | letTyped _ type value _ => [type, value]
  | letPlain _ value _ => [value]
  | var _ type value _ _ => type.toList ++ value.toList
  | discarded value => [value]

/-- The expressions of the statement of a clause are its phrases. -/
theorem Clause.expressions_toStatement (clause : Clause) (span : Span) :
    (clause.toStatement span).expressions = clause.phrases.map Phrase.expression := by
  match clause with
  | binding _ _ none _ | binding _ _ (some _) _ => rfl
  | typedVariable _ _ _ none | typedVariable _ _ _ (some _) => rfl
  | plainVariable _ _ _ => rfl
  | discarded _ => rfl

/-- Whether an expression has a root, and all its nodes have their operands unless they are more than a list can
hold. -/
structure Expression.IsComplete (expr : Expression) : Prop where
  root : expr.root = .ok (expr.size - 1)
  operands : reserve expr.size = .ok () → ∀ index < expr.size, ∃ roots, expr.operands index = .ok roots

private theorem Phrase.isComplete_expression (phrase : Phrase) : phrase.expression.IsComplete :=
  ⟨phrase.root_expression, fun hroom _ hindex => phrase.exists_operands hroom hindex⟩

/-- Whether a span is a place in a text: it starts and stops between characters. -/
structure Span.IsIn (span : Span) (text : List Char) : Prop where
  start_le_stop : span.start ≤ span.stop
  stop_le_length : span.stop ≤ byteLength text
  start : IsBoundary text span.start
  stop : IsBoundary text span.stop

theorem Span.isIn_of_exists_sliceOf {span : Span} {text : List Char} (h : ∃ part, sliceOf text span = .ok part) :
    span.IsIn text := by
  obtain ⟨hstart, hstop⟩ := exists_sliceOf_iff.1 h
  exact ⟨span.start_le_stop, hstop.le_byteLength, hstart, hstop⟩

namespace Source

/-- Every text is taken apart into lexemes and read as statements that are checked, without a fault.  Each lexeme stands
for a part of the text, the statements and the program can be printed, and all that is reported on the way stands at a
place in the text. -/
theorem checks_without_fault (name : String) (content : List Char) :
    ∃ lexemes statements program lexical reports after,
      (ofContent name content).lex = (.done lexemes, lexical) ∧
      (ofContent name content).parse lexemes lexical = (.done statements, reports) ∧
      (ofContent name content).program statements reports = (.done program, after) ∧
      (∀ lexeme ∈ lexemes.toList, ∃ part, lexeme.textIn (ofContent name content).text = .ok part) ∧
      (∀ statement ∈ statements, (∃ shown, statement.render (ofContent name content).text = .ok shown) ∧
        ∀ expr ∈ statement.expressions, expr.IsComplete) ∧
      (∃ shown, program.render = .ok shown) ∧
      ∀ report ∈ lexical.toList ++ reports.toList ++ after.toList,
        report.span.IsIn (ofContent name content).text := by
  have htext := areIn_lexemes name content
  obtain ⟨statements, reports, hstatements, hclauses, ⟨more, hmore⟩, hreports⟩ := exists_statements htext
  have hcheckable : ∀ statement ∈ statements, Checker.IsCheckable (ofContent name content).text statement := by
    intro statement hmem
    obtain ⟨clause, span, hstatement, hvalid, hlexemes⟩ := hclauses statement hmem
    exact ⟨clause, span, hstatement, hvalid, fun lexeme hmem => isLegible_of_mem name content (hlexemes lexeme hmem)⟩
  obtain ⟨program, after, hprogram, hrender, ⟨further, hfurther⟩, hafter⟩ := exists_program hcheckable hreports
  rw [statements_eq_parse] at hstatements
  refine ⟨_, statements, program, _, reports, after, lex_eq_done _, hstatements, hprogram, htext,
    fun statement hmem => ?_, hrender, ?_⟩
  · obtain ⟨clause, span, rfl, hvalid, hlexemes⟩ := hclauses statement hmem
    refine ⟨hvalid.exists_render (fun lexeme hmem => htext lexeme (hlexemes lexeme hmem)) span, fun expr hexpr => ?_⟩
    rw [Clause.expressions_toStatement] at hexpr
    obtain ⟨phrase, -, rfl⟩ := List.mem_map.1 hexpr
    exact phrase.isComplete_expression
  · -- The reports of each stage are kept by the next one.
    intro report hmem
    refine Span.isIn_of_exists_sliceOf (hafter report ?_)
    rw [hfurther, hmore]
    rw [hfurther, hmore] at hmem
    simp only [List.mem_append] at hmem ⊢
    tauto

end Source

end ExprLang
