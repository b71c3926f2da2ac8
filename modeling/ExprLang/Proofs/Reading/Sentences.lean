import ExprLang.Proofs.Reading.Statements

/-!
# Every statement is read

The lexemes of a valid statement are read as that statement (`readStatement_meets_of_ahead`), and so are those
of valid statements that follow each other up to the end of the file (`readStatements_meets_of_ahead`).
-/

namespace ExprLang

private theorem Phrase.IsExpression.isOperand {phrase : Phrase} {min : Level} {tag : Tag} (h : phrase.IsExpression min)
    (hends : Operator.leading? false min tag = none) : phrase.IsOperand min tag :=
  h.valid.isOperand h.depth_le h.le_level hends

namespace Reader

variable {text : List Char} {before state : ReaderState} {passed rest : List Lexeme} {lexeme follower : Lexeme}
  {α : Type} {Q : α → ReaderState → Prop} {F : ReaderState → Prop}

/-! ### Parts of statements -/

private theorem expect_bind_meets_of_ahead (h : before.HasBuilt passed [] state)
    (hahead : state.cursor.ahead = lexeme :: rest) {tag : Tag} (htag : lexeme.tag = tag) (hend : tag ≠ .endOfFile)
    (expectation : Expectation) {next : Lexeme → Reader α}
    (hnext : ∀ after, before.HasBuilt (passed ++ [lexeme]) [] after → after.cursor.ahead = rest →
      (next lexeme).Meets after Q F) :
    (expect text tag expectation >>= next).Meets state Q F := by
  have hpeek := Cursor.peek_of_ahead hahead
  have hexpect : expect text tag expectation state
      = (.done state.cursor.peek, { state with cursor := state.cursor.advance }) := by
    rw [expect, Stage.bind_of_done (eat?_of_tag (by rwa [hpeek]))]
    rfl
  obtain ⟨hbuilt, hrest⟩ := advance_of_ahead h hahead (by rwa [htag])
  rw [Stage.meets_bind_of_done hexpect, hpeek]
  exact hnext _ hbuilt hrest

private theorem readExpression_bind_meets_of_ahead (h : before.HasBuilt passed [] state) (hnesting : before.nesting = 0)
    {phrase : Phrase} {min : Level} (hphrase : phrase.IsExpression min) (hmin : min ≤ .unary)
    (hends : Operator.leading? false min follower.tag = none)
    (hahead : state.cursor.ahead = phrase.lexemes ++ follower :: rest) {next : Expression → Reader α}
    (hnext : ∀ after, before.HasBuilt (passed ++ phrase.lexemes) [] after → after.cursor.ahead = follower :: rest →
      (next phrase.expression).Meets after Q fun _ => False) :
    (readExpression text min >>= next).Meets state Q fun _ => False := by
  rw [Stage.meets_bind]
  refine (readExpression_meets_of_ahead (hphrase.isOperand hends) hmin (h.nesting.trans hnesting) hahead).mono ?_
    fun _ h => h
  rintro _ after ⟨rfl, hbuilt⟩
  exact hnext after (h.trans hbuilt) (ahead_of_hasBuilt hbuilt hahead)

private theorem readAfter_bind_meets_of_ahead (h : before.HasBuilt passed [] state) (hnesting : before.nesting = 0)
    {part : Option Part} {sign : Mark} (hpart : ∀ inner ∈ part, inner.IsValid sign)
    (hends : Operator.leading? false .nested follower.tag = none) (hsign : follower.tag ≠ .mark sign)
    (hahead : state.cursor.ahead = part.elim [] Part.lexemes ++ follower :: rest)
    {next : Option Expression → Reader α}
    (hnext : ∀ after, before.HasBuilt (passed ++ part.elim [] Part.lexemes) [] after →
      after.cursor.ahead = follower :: rest →
      (next (part.map (·.phrase.expression))).Meets after Q fun _ => False) :
    (readAfter text sign >>= next).Meets state Q fun _ => False := by
  rw [Stage.meets_bind, readAfter]
  cases part with
  | none =>
    have htag : state.cursor.peek.tag ≠ .mark sign := by
      rwa [Cursor.peek_of_ahead hahead]
    rw [Stage.meets_bind_of_done (eat?_of_ne htag)]
    refine hnext state ?_ hahead
    rwa [Option.elim_none, List.append_nil]
  | some part =>
    obtain ⟨hmark, hphrase⟩ := hpart part rfl
    have htag : state.cursor.peek.tag = .mark sign := by
      rwa [Cursor.peek_of_ahead hahead]
    obtain ⟨hmiddle, hmiddleAhead⟩ := advance_of_ahead h hahead (by simp [hmark])
    rw [Stage.meets_bind_of_done (eat?_of_tag htag)]
    refine readExpression_bind_meets_of_ahead hmiddle hnesting hphrase (by decide) hends hmiddleAhead
      fun after hbuilt hafter => ?_
    rw [List.append_assoc] at hbuilt
    exact hnext after hbuilt hafter

private theorem expectTerminator_bind_meets_of_ahead (h : before.HasBuilt passed [] state)
    (hahead : state.cursor.ahead = lexeme :: rest) (htag : lexeme.tag = .mark .semi) (span : Span)
    {next : Span → Reader α}
    (hnext : ∀ after, before.HasBuilt (passed ++ [lexeme]) [] after → after.cursor.ahead = rest →
      (next (span.join lexeme.span)).Meets after Q fun _ => False) :
    (expectTerminator text span >>= next).Meets state Q fun _ => False := by
  have hpeek := Cursor.peek_of_ahead hahead
  have hpos := state.cursor.remaining_pos
  obtain ⟨limit, hlimit⟩ : ∃ fewer, state.cursor.remaining = fewer + 1 := Nat.exists_eq_add_one.2 hpos
  have hremaining : remaining state = (.done (limit + 1), state) := by
    rw [← hlimit]
    rfl
  have hskip : skipUnrecognized (limit + 1) state = (.done (), state) := by
    rw [skipUnrecognized, Stage.bind_of_done (isAt_eq _ _), hpeek, htag]
    rfl
  obtain ⟨hbuilt, hrest⟩ := advance_of_ahead h hahead (by simp [htag])
  rw [Stage.meets_bind, expectTerminator, Stage.meets_bind_of_done (isAt_eq _ _), Stage.meets_bind_of_done hremaining,
    Stage.meets_bind_of_done hskip, Stage.meets_bind_of_done (eat?_of_tag (by rwa [hpeek])), hpeek]
  exact hnext _ hbuilt hrest

/-! ### Statements -/

variable {keyword name semicolon : Lexeme}

/-- What a reader of a known statement does. -/
def ReadsSentence (before : ReaderState) (sentence : Sentence) (statement : Statement) (after : ReaderState) : Prop :=
  statement = sentence.toStatement ∧ before.HasBuilt sentence.lexemes [] after

private theorem leading?_of_semi (h : semicolon.tag = .mark .semi) (min : Level) :
    Operator.leading? false min semicolon.tag = none := by
  rw [h]
  exact Operator.leading?_eq_none_of_mem (by decide)

private theorem readBinding_meets_of_ahead {type : Option Part} {value : Part} (hname : name.tag = .name)
    (hkeyword : keyword.tag = .keyword .let_) (htype : ∀ part ∈ type, part.IsValid .colon) (hvalue : value.IsValid .eq)
    (hsemi : semicolon.tag = .mark .semi) (hnesting : state.nesting = 0)
    (hahead : state.cursor.ahead = (Clause.binding keyword name type value).lexemes ++ semicolon :: rest) :
    (readBinding text).Meets state (ReadsSentence state ⟨.binding keyword name type value, semicolon⟩)
      fun _ => False := by
  have hends : Operator.leading? false .nested value.mark.tag = none := by
    rw [hvalue.mark]
    exact Operator.leading?_eq
  have hcolon : value.mark.tag ≠ .mark .colon := by
    simp [hvalue.mark]
  have hlexemes : (Clause.binding keyword name type value).lexemes
      = [keyword] ++ [name] ++ type.elim [] Part.lexemes ++ [value.mark] ++ value.phrase.lexemes := by
    simp [Clause.lexemes, Part.lexemes]
  rw [hlexemes] at hahead
  simp only [List.append_assoc, List.singleton_append] at hahead
  rw [readBinding]
  refine bind_next_meets_of_ahead (.refl state) hahead (by simp [hkeyword]) fun _ hnext hahead => ?_
  refine expect_bind_meets_of_ahead hnext hahead hname (by simp) .bindingName fun _ hnamed hahead => ?_
  refine readAfter_bind_meets_of_ahead hnamed hnesting htype hends hcolon hahead fun _ htyped hahead => ?_
  refine expect_bind_meets_of_ahead htyped hahead hvalue.mark (by simp) .bindingValue fun _ hmarked hahead => ?_
  refine readExpression_bind_meets_of_ahead hmarked hnesting hvalue.expression (by decide)
    (leading?_of_semi hsemi _) hahead fun _ hvalued hahead => ?_
  rw [Phrase.span_expression]
  refine expectTerminator_bind_meets_of_ahead hvalued hahead hsemi _ fun after hread _ => ?_
  rw [List.nil_append, ← hlexemes] at hread
  cases type with
  | some type => exact ⟨rfl, hread⟩
  | none => exact ⟨rfl, hread⟩

private theorem readTypedVariable_meets_of_ahead {type : Part} {value : Option Part} (hname : name.tag = .name)
    (hkeyword : keyword.tag = .keyword .var) (htype : type.IsValid .colon) (hvalue : ∀ part ∈ value, part.IsValid .eq)
    (hsemi : semicolon.tag = .mark .semi) (hnesting : state.nesting = 0)
    (hahead : state.cursor.ahead = (Clause.typedVariable keyword name type value).lexemes ++ semicolon :: rest) :
    (readVariable text).Meets state (ReadsSentence state ⟨.typedVariable keyword name type value, semicolon⟩)
      fun _ => False := by
  have hlexemes : (Clause.typedVariable keyword name type value).lexemes
      = [keyword] ++ [name] ++ (some type).elim [] Part.lexemes ++ value.elim [] Part.lexemes := by
    simp [Clause.lexemes]
  have hlast : (value.map (·.phrase.expression) <|> (some type).map (·.phrase.expression))
      = some (value.getD type).phrase.expression := by
    cases value <;> rfl
  have htype : ∀ part ∈ some type, part.IsValid .colon := fun _ hmem => Option.mem_some.1 hmem ▸ htype
  -- What follows the type is the mark of the value or the semicolon.
  obtain ⟨follower, further, hfollower, hends, hcolon⟩ : ∃ follower further,
      value.elim [] Part.lexemes ++ semicolon :: rest = follower :: further ∧
      Operator.leading? false .nested follower.tag = none ∧ follower.tag ≠ .mark .colon := by
    cases value with
    | none => exact ⟨semicolon, rest, rfl, leading?_of_semi hsemi _, by simp [hsemi]⟩
    | some value =>
      refine ⟨value.mark, value.phrase.lexemes ++ semicolon :: rest, rfl, ?_, ?_⟩
      · rw [(hvalue value rfl).mark]
        exact Operator.leading?_eq
      · rw [(hvalue value rfl).mark]
        exact (by simp)
  have heq : semicolon.tag ≠ .mark .eq := by
    simp [hsemi]
  rw [hlexemes] at hahead
  simp only [List.append_assoc, List.singleton_append, hfollower] at hahead
  rw [readVariable]
  refine bind_next_meets_of_ahead (.refl state) hahead (by simp [hkeyword]) fun _ hnext hahead => ?_
  refine expect_bind_meets_of_ahead hnext hahead hname (by simp) .variableName fun _ hnamed hahead => ?_
  refine readAfter_bind_meets_of_ahead hnamed hnesting htype hends hcolon hahead fun _ htyped hahead => ?_
  rw [← hfollower] at hahead
  refine readAfter_bind_meets_of_ahead htyped hnesting hvalue (leading?_of_semi hsemi _) heq hahead
    fun _ hvalued hahead => ?_
  rw [hlast]
  show (expectTerminator text (keyword.span.join (value.getD type).phrase.expression.span) >>= _).Meets _ _ _
  rw [Phrase.span_expression]
  refine expectTerminator_bind_meets_of_ahead hvalued hahead hsemi _ fun after hread _ => ?_
  rw [List.nil_append, ← hlexemes] at hread
  exact ⟨rfl, hread⟩

private theorem readPlainVariable_meets_of_ahead {value : Part} (hname : name.tag = .name)
    (hkeyword : keyword.tag = .keyword .var) (hvalue : value.IsValid .eq) (hsemi : semicolon.tag = .mark .semi)
    (hnesting : state.nesting = 0)
    (hahead : state.cursor.ahead = (Clause.plainVariable keyword name value).lexemes ++ semicolon :: rest) :
    (readVariable text).Meets state (ReadsSentence state ⟨.plainVariable keyword name value, semicolon⟩)
      fun _ => False := by
  have hlexemes : (Clause.plainVariable keyword name value).lexemes
      = [keyword] ++ [name] ++ (none : Option Part).elim [] Part.lexemes ++ (some value).elim [] Part.lexemes := by
    simp [Clause.lexemes]
  have hends : Operator.leading? false .nested value.mark.tag = none := by
    rw [hvalue.mark]
    exact Operator.leading?_eq
  have hcolon : value.mark.tag ≠ .mark .colon := by
    simp [hvalue.mark]
  have heq : semicolon.tag ≠ .mark .eq := by
    simp [hsemi]
  have htype : ∀ part ∈ (none : Option Part), part.IsValid .colon := by simp
  have hvalue : ∀ part ∈ some value, part.IsValid .eq := fun _ hmem => Option.mem_some.1 hmem ▸ hvalue
  rw [hlexemes] at hahead
  simp only [List.append_assoc, List.singleton_append] at hahead
  rw [readVariable]
  refine bind_next_meets_of_ahead (.refl state) hahead (by simp [hkeyword]) fun _ hnext hahead => ?_
  refine expect_bind_meets_of_ahead hnext hahead hname (by simp) .variableName fun _ hnamed hahead => ?_
  refine readAfter_bind_meets_of_ahead hnamed hnesting htype hends hcolon hahead fun _ htyped hahead => ?_
  refine readAfter_bind_meets_of_ahead htyped hnesting hvalue (leading?_of_semi hsemi _) heq hahead
    fun _ hvalued hahead => ?_
  show (expectTerminator text (keyword.span.join value.phrase.expression.span) >>= _).Meets _ _ _
  rw [Phrase.span_expression]
  refine expectTerminator_bind_meets_of_ahead hvalued hahead hsemi _ fun after hread _ => ?_
  rw [List.nil_append, ← hlexemes] at hread
  exact ⟨rfl, hread⟩

private theorem readDiscarded_meets_of_ahead {value : Phrase} (hvalue : value.IsExpression .assignment)
    (hsemi : semicolon.tag = .mark .semi) (hnesting : state.nesting = 0)
    (hahead : state.cursor.ahead = (Clause.discarded value).lexemes ++ semicolon :: rest) :
    (readDiscarded text).Meets state (ReadsSentence state ⟨.discarded value, semicolon⟩) fun _ => False := by
  rw [readDiscarded]
  refine readExpression_bind_meets_of_ahead (.refl state) hnesting hvalue (by decide) (leading?_of_semi hsemi _) hahead
    fun _ hvalued hahead => ?_
  refine expectTerminator_bind_meets_of_ahead hvalued hahead hsemi _ fun after hread _ => ?_
  exact ⟨rfl, hread⟩

/-- A known statement is read with its semicolon. -/
private theorem readStatement_meets_of_ahead {sentence : Sentence} (hvalid : sentence.IsValid)
    (hnesting : state.nesting = 0) (hahead : state.cursor.ahead = sentence.lexemes ++ rest) :
    (readStatement text).Meets state (ReadsSentence state sentence) fun _ => False := by
  obtain ⟨clause, semicolon⟩ := sentence
  obtain ⟨hclause, hsemi⟩ := hvalid
  have hpeek : peek state = (.done state.cursor.peek, state) := rfl
  rw [Sentence.lexemes, List.append_assoc, List.singleton_append] at hahead
  rw [readStatement, Stage.meets_bind_of_done hpeek]
  cases hclause with
  | binding hkeyword hname htype hvalue =>
    rw [Cursor.peek_of_ahead hahead, hkeyword]
    exact readBinding_meets_of_ahead hname hkeyword htype hvalue hsemi hnesting hahead
  | typedVariable hkeyword hname htype hvalue =>
    rw [Cursor.peek_of_ahead hahead, hkeyword]
    exact readTypedVariable_meets_of_ahead hname hkeyword htype hvalue hsemi hnesting hahead
  | plainVariable hkeyword hname hvalue =>
    rw [Cursor.peek_of_ahead hahead, hkeyword]
    exact readPlainVariable_meets_of_ahead hname hkeyword hvalue hsemi hnesting hahead
  | discarded hvalue =>
    obtain ⟨first, more, hlexemes, -, hkeyword⟩ := hvalue.valid.exists_first_startsStatement
    have hfirst : state.cursor.peek = first := by
      rw [Cursor.peek_of_ahead (hahead.trans (by rw [Clause.lexemes, hlexemes]; rfl))]
    rw [hfirst]
    split
    · exact absurd ‹_› (hkeyword _)
    · exact absurd ‹_› (hkeyword _)
    · exact readDiscarded_meets_of_ahead hvalue hsemi hnesting hahead

/-- Known statements are read up to the end of the file, and nothing is reported. -/
theorem readStatements_meets_of_ahead (text : List Char) {sentences : List Sentence}
    (hvalid : ∀ sentence ∈ sentences, sentence.IsValid)
    (hnesting : state.nesting = 0) {last : Lexeme} (hlast : last.tag = .endOfFile)
    (hahead : state.cursor.ahead = sentences.flatMap Sentence.lexemes ++ [last]) {limit : Nat}
    (hlimit : state.cursor.remaining ≤ limit) (statements : Array Statement) :
    (readStatements text limit none statements).Meets state
      (fun result after => result.toList = statements.toList ++ sentences.map Sentence.toStatement ∧
        after.diagnostics = state.diagnostics)
      fun _ => False := by
  -- Each statement takes one round, and there is no run to report.
  induction sentences generalizing state limit statements with
  | nil =>
    have hpos := state.cursor.remaining_pos
    obtain ⟨limit, rfl⟩ : ∃ fewer, limit = fewer + 1 := Nat.exists_eq_add_one.2 (by omega)
    have hpeek : peek state = (.done last, state) := by
      rw [peek, Stage.observe, Cursor.peek_of_ahead hahead]
    rw [readStatements, Stage.meets_bind_of_done hpeek, if_pos hlast]
    exact ⟨by simp, rfl⟩
  | cons sentence sentences ih =>
    have hpos := state.cursor.remaining_pos
    obtain ⟨limit, rfl⟩ : ∃ fewer, limit = fewer + 1 := Nat.exists_eq_add_one.2 (by omega)
    rw [List.forall_mem_cons] at hvalid
    rw [List.flatMap_cons, List.append_assoc] at hahead
    obtain ⟨first, more, hlexemes, hstart⟩ := hvalid.1.exists_first
    have hpeek : peek state = (.done first, state) := by
      rw [peek, Stage.observe, Cursor.peek_of_ahead (hahead.trans (by rw [hlexemes]; rfl))]
    have hend : first.tag ≠ .endOfFile := fun h => by rw [h] at hstart; cases hstart
    have hknown : first.tag ≠ .unrecognized := fun h => by rw [h] at hstart; cases hstart
    rw [readStatements, Stage.meets_bind_of_done hpeek, if_neg hend, if_neg hknown, hstart]
    show (Stage.attempt (readStatement text) >>= _).Meets _ _ _
    rw [Stage.meets_bind, Stage.meets_attempt]
    refine (readStatement_meets_of_ahead hvalid.1 hnesting hahead).mono ?_ fun _ h => h.elim
    rintro _ middle ⟨rfl, hbuilt⟩
    have hremaining := hbuilt.moved.remaining
    rw [hlexemes, List.length_cons] at hremaining
    refine (ih hvalid.2 (hbuilt.nesting.trans hnesting) (ahead_of_hasBuilt hbuilt hahead) (by omega) _).mono ?_
      fun _ h => h
    rintro result after ⟨hresult, hdiagnostics⟩
    refine ⟨?_, hdiagnostics.trans hbuilt.diagnostics⟩
    rw [hresult]
    simp

end Reader

end ExprLang
