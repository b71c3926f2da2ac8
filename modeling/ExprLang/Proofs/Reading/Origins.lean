import ExprLang.Proofs.FrontEnd
import ExprLang.Proofs.Lexeme.Classification

/-!
# Where expressions come from

An expression is read from a source in a statement or without one (`Source.ReadsExpression`).  In either case it is the
expression of a valid phrase with lexemes of the source (`Source.ReadsExpression.exists_phrase`), and the lexemes of its
leaves are words and numbers (`Source.exists_isAtom`).
-/

namespace ExprLang

namespace Source

/-- Whether an expression is read from the lexemes of a source: in a statement, which is read together with all others
or on its own, or without a statement around it, whatever a reader has come across before. -/
inductive ReadsExpression (source : Source) : Expression → Prop
  | all {statements reports statement expr} (hread : source.statements = (.done statements, reports))
      (hmem : statement ∈ statements) (hexpr : expr ∈ statement.expressions) : source.ReadsExpression expr
  | statement {before after statement expr} (hlexemes : before.cursor.lexemes = source.lexemes)
      (hread : Reader.readStatement source.text before = (.done statement, after))
      (hexpr : expr ∈ statement.expressions) : source.ReadsExpression expr
  | alone {before after min expr} (hlexemes : before.cursor.lexemes = source.lexemes)
      (hread : Reader.readExpression source.text min before = (.done expr, after)) : source.ReadsExpression expr

variable {name : String} {content : List Char}

/-- An expression in the statement of a clause is that of a phrase of the clause. -/
private theorem exists_phrase_of_clause {lexemes : List Lexeme} {clause : Clause} {span : Span} {expr : Expression}
    (hvalid : clause.IsValid) (hlexemes : ∀ lexeme ∈ clause.lexemes, lexeme ∈ lexemes)
    (hexpr : expr ∈ (clause.toStatement span).expressions) :
    ∃ phrase : Phrase, phrase.IsValid ∧ (∀ lexeme ∈ phrase.lexemes, lexeme ∈ lexemes) ∧ expr = phrase.expression := by
  rw [Clause.expressions_toStatement] at hexpr
  obtain ⟨phrase, hphrase, rfl⟩ := List.mem_map.1 hexpr
  obtain ⟨hphraseValid, hwritten⟩ := hvalid.of_mem_phrases hphrase
  exact ⟨phrase, hphraseValid, fun lexeme hmem => hlexemes lexeme (hwritten lexeme hmem), rfl⟩

theorem ReadsExpression.exists_phrase {expr : Expression} (h : (ofContent name content).ReadsExpression expr) :
    ∃ phrase : Phrase, phrase.IsValid ∧
      (∀ lexeme ∈ phrase.lexemes, lexeme ∈ (ofContent name content).lexemes.toList) ∧ expr = phrase.expression := by
  have htext := areIn_lexemes name content
  cases h with
  | all hread hmem hexpr =>
    obtain ⟨others, reports, hothers, hclauses, -⟩ := exists_statements htext
    rw [hread] at hothers
    obtain rfl := Outcome.done.inj (Prod.mk.inj hothers).1
    obtain ⟨clause, span, rfl, hvalid, hlexemes⟩ := hclauses _ hmem
    exact exists_phrase_of_clause hvalid hlexemes hexpr
  | statement hlexemes hread hexpr =>
    rw [← hlexemes] at htext ⊢
    have hmeets := Reader.readStatement_meets htext
    rw [Stage.meets_of_done hread] at hmeets
    obtain ⟨clause, skipped, semicolon, rfl, hdone⟩ := hmeets
    refine exists_phrase_of_clause hdone.valid (fun lexeme hmem => ?_) hexpr
    exact hdone.moved.mem (List.mem_append_left _ (List.mem_append_left _ hmem))
  | @alone _ _ min _ hlexemes hread =>
    rw [← hlexemes] at htext ⊢
    have hmeets := Reader.readExpression_meets htext min
    rw [Stage.meets_of_done hread] at hmeets
    obtain ⟨phrase, hphrase, rfl, hbuilt⟩ := hmeets
    exact ⟨phrase, hphrase.valid, fun lexeme hmem => hbuilt.moved.mem hmem, rfl⟩

/-- The lexemes of leaves are words and numbers. -/
theorem exists_isAtom (name : String) (content : List Char) {lexeme : Lexeme}
    (h : lexeme ∈ (ofContent name content).lexemes.toList) {op : Operator} (hshape : op.shape = .leaf lexeme.tag) :
    ∃ part, sliceOf (ofContent name content).text lexeme.span = .ok part ∧ IsAtom lexeme.tag part := by
  obtain ⟨part, hspelled⟩ := exists_spelled_of_mem _ h
  refine ⟨part, sliceOf_of_mem_spelledLexemes name content hspelled, ?_⟩
  rcases mem_spelledLexemes hspelled with hplaced | ⟨rfl, rfl⟩
  · obtain ⟨_, _, -, -, -, hlexeme⟩ := exists_isLexeme_of_mem_placeChunks hplaced
    rcases Operator.eq_of_shape_leaf hshape with ⟨-, htag⟩ | ⟨-, htag⟩
    · rw [htag] at hlexeme ⊢
      cases hlexeme with
      | atom hatom => exact hatom
    · rw [htag] at hlexeme ⊢
      cases hlexeme with
      | atom hatom => exact hatom
  · rcases Operator.eq_of_shape_leaf hshape with ⟨-, htag⟩ | ⟨-, htag⟩ <;> cases htag

end Source

end ExprLang
