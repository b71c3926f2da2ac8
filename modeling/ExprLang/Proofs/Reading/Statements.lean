import ExprLang.Proofs.Reading.Clause
import ExprLang.Proofs.Reading.Completeness
import ExprLang.Reading.Statement

/-!
# What is read is a statement

Reading a statement never runs into a fault.  If it is done, it has moved over the lexemes of a valid clause and
of its semicolon, and the statement is that of the clause; a missing semicolon is reported
(`readStatement_meets`).  If it fails, nothing is left of the expression that was being built.
-/

namespace ExprLang

/-- The span of a clause with its semicolon, if there is one. -/
def Clause.spanWith (clause : Clause) (semicolon : Option Lexeme) : Span :=
  semicolon.elim clause.span fun semicolon => clause.span.join semicolon.span

/-- What is reported by a reader that stops at a cursor behind a clause, where `skipped` is not recognised: one
error there, at a lexeme that is recognised, if the semicolon is missing, unless there is something that has been
reported before. -/
def ExplainsEnd (cursor : Cursor) (skipped : List Lexeme) (semicolon : Option Lexeme)
    (reports : List Diagnostic) : Prop :=
  (reports = [] ∧ (semicolon.isSome = true ∨ skipped ≠ [])) ∨
  ∃ error, reports = [error] ∧ semicolon = none ∧ skipped = [] ∧ error.severity = .error ∧
    error.span = cursor.peek.span ∧ cursor.peek.tag ≠ .unrecognized

theorem ExplainsEnd.exists_lexeme {cursor : Cursor} {skipped : List Lexeme} {semicolon : Option Lexeme}
    {reports : List Diagnostic} (h : ExplainsEnd cursor skipped semicolon reports) :
    ∀ report ∈ reports, ∃ lexeme ∈ cursor.lexemes.toList, report.span = lexeme.span := by
  rcases h with ⟨rfl, -⟩ | ⟨error, rfl, -, -, -, hspan, -⟩
  · exact fun _ hmem => absurd hmem List.not_mem_nil
  · exact List.forall_mem_singleton.2 ⟨_, cursor.peek_mem, hspan⟩

/-- Whether a reader has read a clause and its semicolon, with lexemes between them that are not recognised. -/
structure ReaderState.HasRead (before : ReaderState) (clause : Clause) (skipped : List Lexeme)
    (semicolon : Option Lexeme) (after : ReaderState) : Prop where
  valid : clause.IsValid
  unrecognized : ∀ lexeme ∈ skipped, lexeme.tag = .unrecognized
  semi : ∀ lexeme ∈ semicolon, lexeme.tag = .mark .semi
  moved : before.cursor.Moved after.cursor (clause.lexemes ++ skipped ++ semicolon.toList)
  nodes : after.nodes = before.nodes
  depths : after.depths = before.depths
  nesting : after.nesting = before.nesting
  reports : ∃ reports, after.diagnostics.toList = before.diagnostics.toList ++ reports ∧
    ExplainsEnd after.cursor skipped semicolon reports

private theorem Phrase.IsOperand.isExpression {phrase : Phrase} {min : Level} {tag : Tag}
    (h : phrase.IsOperand min tag) :
    phrase.IsExpression min :=
  ⟨h.valid, h.le_level, h.depth_le⟩

namespace Reader

variable {text : List Char} {before state : ReaderState} {passed : List Lexeme} {α : Type}
  {Q : α → ReaderState → Prop}

/-! ### Parts of statements -/

private theorem expect_bind_meets (htext : before.cursor.lexemes.AreIn text) (h : before.HasBuilt passed [] state)
    (tag : Tag) (hend : tag ≠ .endOfFile) (expectation : Expectation) {next : Lexeme → Reader α}
    (hnext : ∀ (lexeme : Lexeme) (after : ReaderState), lexeme.tag = tag →
      before.HasBuilt (passed ++ [lexeme]) [] after → (next lexeme).Meets after Q before.HasStopped) :
    (expect text tag expectation >>= next).Meets state Q before.HasStopped := by
  by_cases htag : state.cursor.peek.tag = tag
  · have hexpect : expect text tag expectation state
        = (.done state.cursor.peek, { state with cursor := state.cursor.advance }) := by
      rw [expect, Stage.bind_of_done (eat?_of_tag htag)]
      rfl
    rw [Stage.meets_bind_of_done hexpect]
    exact hnext _ _ htag (h.advance (by rwa [htag]))
  · have hpeek : peek state = (.done state.cursor.peek, state) := rfl
    rw [Stage.meets_bind, expect, Stage.meets_bind_of_done (eat?_of_ne htag)]
    show (peek >>= _).Meets _ _ _
    rw [Stage.meets_bind_of_done hpeek]
    by_cases hknown : state.cursor.peek.tag = .unrecognized
    · rw [if_neg (not_not_intro hknown)]
      exact h.hasStopped ⟨hasFailed_of_unrecognized hknown, rfl, rfl⟩
    · obtain ⟨what, hfound⟩ := exists_found (areIn_of_hasBuilt htext h) state.cursor.peek_mem
      have hreport := report_eq state.cursor.peek.span (.expected expectation what) state
      rw [if_pos hknown, Stage.meets_bind, Stage.meets_of_done hfound, Stage.meets_bind_of_done hreport]
      exact h.hasStopped ⟨hasFailed_reported _ rfl fun h => absurd h hknown, rfl, rfl⟩

private theorem readExpression_bind_meets (htext : before.cursor.lexemes.AreIn text)
    (h : before.HasBuilt passed [] state) (min : Level) {next : Expression → Reader α}
    (hnext : ∀ (phrase : Phrase) (after : ReaderState), phrase.IsExpression min →
      before.HasBuilt (passed ++ phrase.lexemes) [] after → (next phrase.expression).Meets after Q before.HasStopped) :
    (readExpression text min >>= next).Meets state Q before.HasStopped := by
  rw [Stage.meets_bind]
  refine (readExpression_meets (areIn_of_hasBuilt htext h) min).mono ?_ ?_
  · rintro _ after ⟨phrase, hphrase, rfl, hbuilt⟩
    exact hnext phrase after hphrase.isExpression (h.trans hbuilt)
  · exact fun _ => h.hasStopped

/-- A type or a value is read if its mark is there. -/
private theorem readAfter_bind_meets (htext : before.cursor.lexemes.AreIn text) (h : before.HasBuilt passed [] state)
    (sign : Mark) {next : Option Expression → Reader α}
    (hnext : ∀ (part : Option Part) (after : ReaderState), (∀ inner ∈ part, inner.IsValid sign) →
      before.HasBuilt (passed ++ part.elim [] Part.lexemes) [] after →
      (next (part.map (·.phrase.expression))).Meets after Q before.HasStopped) :
    (readAfter text sign >>= next).Meets state Q before.HasStopped := by
  rw [Stage.meets_bind, readAfter]
  by_cases htag : state.cursor.peek.tag = .mark sign
  · rw [Stage.meets_bind_of_done (eat?_of_tag htag)]
    have hmark := h.advance (by simp [htag])
    refine readExpression_bind_meets htext hmark .nested fun phrase after hphrase hbuilt => ?_
    rw [List.append_assoc] at hbuilt
    exact hnext (some ⟨state.cursor.peek, phrase⟩) after (fun _ hmem => Option.mem_some.1 hmem ▸ ⟨htag, hphrase⟩) hbuilt
  · rw [Stage.meets_bind_of_done (eat?_of_ne htag)]
    refine hnext none state (by simp) ?_
    rwa [Option.elim_none, List.append_nil]

private theorem skipUnrecognized_meets {limit : Nat} (hlimit : state.cursor.remaining ≤ limit) :
    (skipUnrecognized limit).Meets state
      (fun _ after => ∃ skipped, (∀ lexeme ∈ skipped, lexeme.tag = .unrecognized) ∧
        (skipped = [] ↔ state.cursor.peek.tag ≠ .unrecognized) ∧ state.HasBuilt skipped [] after)
      fun _ => False := by
  induction limit generalizing state with
  | zero =>
    have := state.cursor.remaining_pos
    omega
  | succ limit ih =>
    rw [skipUnrecognized, Stage.meets_bind_of_done (isAt_eq _ _)]
    by_cases htag : state.cursor.peek.tag = .unrecognized
    · have hbuilt := state.hasBuilt_advance (by simp [htag])
      have hremaining := hbuilt.moved.remaining
      rw [List.length_singleton] at hremaining
      rw [if_pos (decide_eq_true htag), bind_next_meets]
      refine (ih (by omega)).mono ?_ fun _ h => h
      rintro _ after ⟨skipped, hskipped, -, hrest⟩
      refine ⟨state.cursor.peek :: skipped, List.forall_mem_cons.2 ⟨htag, hskipped⟩, ?_, hbuilt.trans hrest⟩
      simp [htag]
    · rw [if_neg (by rwa [decide_eq_true_eq])]
      exact ⟨[], by simp, by simp [htag], .refl state⟩

/-- The end of a clause is read with its semicolon, or its absence is reported. -/
private theorem expectTerminator_bind_meets (htext : before.cursor.lexemes.AreIn text) {clause : Clause}
    (hvalid : clause.IsValid) (h : before.HasBuilt clause.lexemes [] state) {next : Span → Reader α}
    (hnext : ∀ (skipped : List Lexeme) (semicolon : Option Lexeme) (after : ReaderState),
      before.HasRead clause skipped semicolon after →
      (next (clause.spanWith semicolon)).Meets after Q before.HasStopped) :
    (expectTerminator text clause.span >>= next).Meets state Q before.HasStopped := by
  have hremaining : remaining state = (.done state.cursor.remaining, state) := rfl
  rw [Stage.meets_bind, expectTerminator, Stage.meets_bind_of_done (isAt_eq _ _), Stage.meets_bind_of_done hremaining,
    Stage.meets_bind]
  refine (skipUnrecognized_meets (Nat.le_refl _)).mono ?_ fun _ h => h.elim
  rintro _ middle ⟨skipped, hskipped, hnone, hmiddle⟩
  have hfront := h.trans hmiddle
  by_cases htag : middle.cursor.peek.tag = .mark .semi
  · have hall := hfront.advance (by simp [htag])
    rw [Stage.meets_bind_of_done (eat?_of_tag htag)]
    refine hnext skipped (some middle.cursor.peek) _ ⟨hvalid, hskipped, ?_, hall.moved, hall.nodes_eq, hall.depths,
      hall.nesting, [], ?_, .inl ⟨rfl, .inl rfl⟩⟩
    · exact fun _ hmem => Option.mem_some.1 hmem ▸ htag
    · rw [hall.diagnostics, List.append_nil]
  · have hpeek : peek middle = (.done middle.cursor.peek, middle) := rfl
    rw [Stage.meets_bind_of_done (eat?_of_ne htag)]
    show (peek >>= _).Meets _ _ _
    rw [Stage.meets_bind_of_done hpeek]
    -- A missing semicolon is not reported after what has been reported as not recognised.
    by_cases hknown : state.cursor.peek.tag = .unrecognized
    · rw [decide_eq_true hknown]
      refine hnext skipped none middle ⟨hvalid, hskipped, by simp, ?_, hfront.nodes_eq, hfront.depths, hfront.nesting,
        [], ?_, .inl ⟨rfl, .inr ?_⟩⟩
      · rw [Option.toList_none, List.append_nil]
        exact hfront.moved
      · rw [hfront.diagnostics, List.append_nil]
      · exact fun hnil => hnone.1 hnil hknown
    · obtain rfl := hnone.2 hknown
      obtain ⟨what, hfound⟩ := exists_found (areIn_of_hasBuilt htext hfront) middle.cursor.peek_mem
      have hreport := report_eq middle.cursor.peek.span (.expectedTerminator what) middle
      rw [decide_eq_false hknown]
      show (found text middle.cursor.peek >>= _).Meets _ _ _
      rw [Stage.meets_bind_of_done hfound, Stage.meets_bind_of_done hreport]
      refine hnext [] none _ ⟨hvalid, by simp, by simp, ?_, hfront.nodes_eq, hfront.depths, hfront.nesting,
        [(StatementIssue.expectedTerminator what).diagnostic middle.cursor.peek.span], ?_,
        .inr ⟨_, rfl, rfl, rfl, rfl, rfl, ?_⟩⟩
      · rw [Option.toList_none, List.append_nil]
        exact hfront.moved
      · rw [reported, Diagnostics.toList_report, hfront.diagnostics]
      · -- Nothing is skipped, so the reader is still at the same lexeme.
        have hahead := hmiddle.moved.ahead
        rw [List.nil_append, Cursor.ahead_eq_peek_cons middle.cursor] at hahead
        rwa [Cursor.peek_of_ahead hahead] at hknown

/-! ### Statements -/

/-- What a reader of statements does. -/
def ReadsStatement (before : ReaderState) (statement : Statement) (after : ReaderState) : Prop :=
  ∃ clause skipped semicolon, statement = clause.toStatement (clause.spanWith semicolon) ∧
    before.HasRead clause skipped semicolon after

private theorem readBinding_meets (htext : state.cursor.lexemes.AreIn text)
    (hkeyword : state.cursor.peek.tag = .keyword .let_) :
    (readBinding text).Meets state (ReadsStatement state) state.HasStopped := by
  have hnext := state.hasBuilt_advance (by simp [hkeyword])
  rw [readBinding, bind_next_meets]
  refine expect_bind_meets htext hnext .name (by simp) .bindingName fun name named hname hnamed => ?_
  refine readAfter_bind_meets htext hnamed .colon fun type typed htype htyped => ?_
  refine expect_bind_meets htext htyped (.mark .eq) (by simp) .bindingValue fun mark marked hmark hmarked => ?_
  refine readExpression_bind_meets htext hmarked .nested fun value valued hvalue hvalued => ?_
  have hclause : (Clause.binding state.cursor.peek name type ⟨mark, value⟩).IsValid :=
    .binding hkeyword hname htype ⟨hmark, hvalue⟩
  have hlexemes : (Clause.binding state.cursor.peek name type ⟨mark, value⟩).lexemes
      = [state.cursor.peek] ++ [name] ++ type.elim [] Part.lexemes ++ [mark] ++ value.lexemes := by
    simp [Clause.lexemes, Part.lexemes]
  rw [← hlexemes] at hvalued
  rw [Phrase.span_expression]
  refine expectTerminator_bind_meets htext hclause hvalued fun skipped semicolon after hread => ?_
  cases type with
  | some type => exact ⟨_, skipped, semicolon, rfl, hread⟩
  | none => exact ⟨_, skipped, semicolon, rfl, hread⟩

private theorem readVariable_meets (htext : state.cursor.lexemes.AreIn text)
    (hkeyword : state.cursor.peek.tag = .keyword .var) :
    (readVariable text).Meets state (ReadsStatement state) state.HasStopped := by
  have hnext := state.hasBuilt_advance (by simp [hkeyword])
  rw [readVariable, bind_next_meets]
  refine expect_bind_meets htext hnext .name (by simp) .variableName fun name named hname hnamed => ?_
  refine readAfter_bind_meets htext hnamed .colon fun type typed htype htyped => ?_
  refine readAfter_bind_meets htext htyped .eq fun value valued hvalue hvalued => ?_
  cases type with
  | some type =>
    have hclause : (Clause.typedVariable state.cursor.peek name type value).IsValid :=
      .typedVariable hkeyword hname (htype type rfl) hvalue
    have hlexemes : (Clause.typedVariable state.cursor.peek name type value).lexemes
        = [state.cursor.peek] ++ [name] ++ type.lexemes ++ value.elim [] Part.lexemes := by
      simp [Clause.lexemes]
    have hlast : (value.map (·.phrase.expression) <|> (some type).map (·.phrase.expression))
        = some (value.getD type).phrase.expression := by
      cases value <;> rfl
    rw [Option.elim_some, ← hlexemes] at hvalued
    rw [hlast]
    show (expectTerminator text (state.cursor.peek.span.join (value.getD type).phrase.expression.span)
      >>= _).Meets _ _ _
    rw [Phrase.span_expression]
    refine expectTerminator_bind_meets htext hclause hvalued fun skipped semicolon after hread => ?_
    exact ⟨_, skipped, semicolon, rfl, hread⟩
  | none =>
    cases value with
    | some value =>
      have hclause : (Clause.plainVariable state.cursor.peek name value).IsValid :=
        .plainVariable hkeyword hname (hvalue value rfl)
      have hlexemes : (Clause.plainVariable state.cursor.peek name value).lexemes
          = [state.cursor.peek] ++ [name] ++ [] ++ value.lexemes := by
        simp [Clause.lexemes]
      rw [Option.elim_none, Option.elim_some, ← hlexemes] at hvalued
      show (expectTerminator text (state.cursor.peek.span.join value.phrase.expression.span) >>= _).Meets _ _ _
      rw [Phrase.span_expression]
      refine expectTerminator_bind_meets htext hclause hvalued fun skipped semicolon after hread => ?_
      exact ⟨_, skipped, semicolon, rfl, hread⟩
    | none =>
      have hpeek : peek valued = (.done valued.cursor.peek, valued) := rfl
      obtain ⟨what, hfound⟩ := exists_found (areIn_of_hasBuilt htext hvalued) valued.cursor.peek_mem
      have hreport := report_eq valued.cursor.peek.span (.expectedTypeOrValue what) valued
      show (peek >>= _).Meets _ _ _
      rw [Stage.meets_bind_of_done hpeek, Stage.meets_bind_of_done hfound, Stage.meets_bind_of_done hreport]
      exact hvalued.hasStopped ⟨hasFailed_reported _ rfl fun _ => trivial, rfl, rfl⟩

private theorem readDiscarded_meets (htext : state.cursor.lexemes.AreIn text) :
    (readDiscarded text).Meets state (ReadsStatement state) state.HasStopped := by
  rw [readDiscarded]
  refine readExpression_bind_meets htext (.refl state) .assignment fun value valued hvalue hvalued => ?_
  have hclause : (Clause.discarded value).IsValid := .discarded hvalue
  rw [Phrase.span_expression]
  refine expectTerminator_bind_meets htext hclause hvalued fun skipped semicolon after hread => ?_
  exact ⟨_, skipped, semicolon, rfl, hread⟩

/-- A statement is read, or the reader stops and explains why. -/
theorem readStatement_meets (htext : state.cursor.lexemes.AreIn text) :
    (readStatement text).Meets state (ReadsStatement state) state.HasStopped := by
  have hpeek : peek state = (.done state.cursor.peek, state) := rfl
  rw [readStatement, Stage.meets_bind_of_done hpeek]
  split
  · exact readBinding_meets htext ‹_›
  · exact readVariable_meets htext ‹_›
  · exact readDiscarded_meets htext

end Reader

end ExprLang
