import ExprLang.Proofs.Expression.PostOrder
import ExprLang.Proofs.Reading.Grammar

/-!
# Safety of reading

Whatever a source holds, its statements are read without a fault.  Each is the statement of a valid clause, written
with lexemes of the source, so it can be printed; and each report is about a part of the text
(`Source.exists_statements`).
-/

namespace ExprLang

/-! ### Printed statements -/

namespace Clause

variable {text : List Char} {clause : Clause}

/-- The expressions of a statement. -/
def phrases : Clause → List Phrase
  | binding _ _ type value => (type.toList ++ [value]).map (·.phrase)
  | typedVariable _ _ type value => (type :: value.toList).map (·.phrase)
  | plainVariable _ _ value => [value.phrase]
  | discarded value => [value]

private theorem mem_elim_lexemes {part : Part} {type : Option Part} (h : part ∈ type.toList) {lexeme : Lexeme}
    (hmem : lexeme ∈ part.phrase.lexemes) : lexeme ∈ type.elim [] Part.lexemes := by
  rw [Option.mem_toList.1 h]
  exact List.mem_cons_of_mem _ hmem

/-- The expressions of a valid clause are valid, and they are written with lexemes of it. -/
theorem IsValid.of_mem_phrases (h : clause.IsValid) {phrase : Phrase} (hmem : phrase ∈ clause.phrases) :
    phrase.IsValid ∧ ∀ lexeme ∈ phrase.lexemes, lexeme ∈ clause.lexemes := by
  cases h with
  | binding _ _ htype hvalue =>
    obtain ⟨part, hpart, rfl⟩ := List.mem_map.1 hmem
    rcases List.mem_append.1 hpart with hpart | hpart
    · refine ⟨(htype part (Option.mem_toList.1 hpart)).expression.valid, fun lexeme h => ?_⟩
      exact List.mem_cons_of_mem _ (List.mem_cons_of_mem _ (List.mem_append_left _ (mem_elim_lexemes hpart h)))
    · obtain rfl := List.mem_singleton.1 hpart
      refine ⟨hvalue.expression.valid, fun lexeme h => ?_⟩
      exact List.mem_cons_of_mem _ (List.mem_cons_of_mem _ (List.mem_append_right _ (List.mem_cons_of_mem _ h)))
  | typedVariable _ _ htype hvalue =>
    obtain ⟨part, hpart, rfl⟩ := List.mem_map.1 hmem
    rcases List.mem_cons.1 hpart with rfl | hpart
    · refine ⟨htype.expression.valid, fun lexeme h => ?_⟩
      exact List.mem_cons_of_mem _ (List.mem_cons_of_mem _ (List.mem_append_left _ (List.mem_cons_of_mem _ h)))
    · refine ⟨(hvalue part (Option.mem_toList.1 hpart)).expression.valid, fun lexeme h => ?_⟩
      exact List.mem_cons_of_mem _ (List.mem_cons_of_mem _ (List.mem_append_right _ (mem_elim_lexemes hpart h)))
  | plainVariable _ _ hvalue =>
    obtain rfl := List.mem_singleton.1 hmem
    refine ⟨hvalue.expression.valid, fun lexeme h => ?_⟩
    exact List.mem_cons_of_mem _ (List.mem_cons_of_mem _ (List.mem_cons_of_mem _ h))
  | discarded hvalue =>
    obtain rfl := List.mem_singleton.1 hmem
    exact ⟨hvalue.valid, fun lexeme h => h⟩

/-- The statement of a valid clause whose lexemes stand for parts of a text is printed. -/
theorem IsValid.exists_render (h : clause.IsValid)
    (htext : ∀ lexeme ∈ clause.lexemes, ∃ part, sliceOf text lexeme.span = .ok part) (span : Span) :
    ∃ shown, (clause.toStatement span).render text = .ok shown := by
  have hphrase : ∀ phrase ∈ clause.phrases, ∃ shown, phrase.expression.render text = .ok shown := by
    intro phrase hmem
    obtain ⟨hvalid, hlexemes⟩ := h.of_mem_phrases hmem
    exact hvalid.exists_render fun lexeme hmem => htext lexeme (hlexemes lexeme hmem)
  cases h with
  | @binding keyword name type value =>
    obtain ⟨named, hname⟩ := htext name (List.mem_cons_of_mem _ List.mem_cons_self)
    obtain ⟨shown, hvalue⟩ := hphrase value.phrase (by simp [phrases])
    cases type with
    | none => exact ⟨_, by rw [toStatement, Statement.render, hname, hvalue]; rfl⟩
    | some type =>
      obtain ⟨typed, htype⟩ := hphrase type.phrase (by simp [phrases])
      exact ⟨_, by rw [toStatement, Statement.render, hname, htype, hvalue]; rfl⟩
  | @typedVariable keyword name type value =>
    obtain ⟨named, hname⟩ := htext name (List.mem_cons_of_mem _ List.mem_cons_self)
    obtain ⟨typed, htype⟩ := hphrase type.phrase (by simp [phrases])
    cases value with
    | none => exact ⟨_, by rw [toStatement, Statement.render, hname, Statement.renderPart, htype]; rfl⟩
    | some value =>
      obtain ⟨shown, hvalue⟩ := hphrase value.phrase (by simp [phrases])
      have htypePart : Statement.renderPart text ": " (some type.phrase.expression) = .ok (": " ++ typed) := by
        rw [Statement.renderPart, htype]
        rfl
      have hvaluePart : Statement.renderPart text " = " (some value.phrase.expression) = .ok (" = " ++ shown) := by
        rw [Statement.renderPart, hvalue]
        rfl
      exact ⟨_, by rw [toStatement, Statement.render, hname, htypePart, Option.map_some, hvaluePart]; rfl⟩
  | @plainVariable keyword name value =>
    obtain ⟨named, hname⟩ := htext name (List.mem_cons_of_mem _ List.mem_cons_self)
    obtain ⟨shown, hvalue⟩ := hphrase value.phrase (by simp [phrases])
    have hvaluePart : Statement.renderPart text " = " (some value.phrase.expression) = .ok (" = " ++ shown) := by
      rw [Statement.renderPart, hvalue]
      rfl
    exact ⟨_, by rw [toStatement, Statement.render, hname, hvaluePart, Statement.renderPart]; rfl⟩
  | @discarded value =>
    obtain ⟨shown, hvalue⟩ := hphrase value (by simp [phrases])
    exact ⟨_, by rw [toStatement, Statement.render, hvalue]; rfl⟩

end Clause

/-! ### Rounds -/

/-- Whether everything that has been read since `start` are statements of valid clauses, and everything that has
been reported is about parts of the text. -/
structure ReadingState.IsSound (text : List Char) (start : Cursor) (reading : ReadingState) : Prop where
  lexemes : reading.state.cursor.lexemes = start.lexemes
  statements : ∀ statement ∈ reading.statements.toList, ∃ (clause : Clause) (span : Span),
    statement = clause.toStatement span ∧ clause.IsValid ∧ ∀ lexeme ∈ clause.lexemes, lexeme ∈ start.lexemes.toList
  reports : ∀ report ∈ reading.state.diagnostics.toList, ∃ part, sliceOf text report.span = .ok part

/-- One round reads a statement of a valid clause at most, and reports what is about parts of the text. -/
private theorem Round.isSound {text : List Char} {start : Cursor} {before after : ReadingState}
    (htext : start.lexemes.AreIn text) (hround : Round text before after) (h : before.IsSound text start) :
    after.IsSound text start := by
  obtain ⟨reports, hreports, hplaces⟩ := hround.exists_reports
  refine ⟨hround.lexemes.trans h.lexemes, ?_, ?_⟩
  · cases hround with
    | unrecognized => exact h.statements
    | stray => exact h.statements
    | report => exact h.statements
    | @statement statements state clause skipped semicolon after _ hread =>
      rw [Array.toList_push, List.forall_mem_append, List.forall_mem_singleton]
      refine ⟨h.statements, clause, _, rfl, hread.valid, fun lexeme hmem => ?_⟩
      rw [← h.lexemes]
      exact hread.moved.mem (List.mem_append_left _ (List.mem_append_left _ hmem))
    | failure => exact h.statements
  · rw [hreports, List.forall_mem_append]
    refine ⟨h.reports, fun report hmem => ?_⟩
    have hlexeme : ∀ lexeme ∈ before.state.cursor.lexemes.toList, ∃ part, sliceOf text lexeme.span = .ok part :=
      fun lexeme hmem => htext lexeme (h.lexemes ▸ hmem)
    have hplace := hplaces report hmem
    generalize report.span = span at hplace ⊢
    cases hplace with
    | run _ hslice => exact ⟨_, hslice⟩
    | lexeme hmem => exact hlexeme _ hmem
    | skipped hfirst _ hlast => exact exists_sliceOf_join (hlexeme _ hfirst) (hlexeme _ hlast)

private theorem isSound_of_rounds {text : List Char} {start : Cursor} {before after : ReadingState}
    (htext : start.lexemes.AreIn text) (hrounds : Relation.ReflTransGen (Round text) before after)
    (h : before.IsSound text start) : after.IsSound text start := by
  induction hrounds with
  | refl => exact h
  | tail _ hround ih => exact hround.isSound htext ih

/-- The statements of a source are read without a fault. -/
theorem Source.exists_statements {source : Source} (htext : source.lexemes.AreIn source.text) :
    ∃ statements reports, source.statements = (.done statements, reports) ∧
      (∀ statement ∈ statements, ∃ (clause : Clause) (span : Span), statement = clause.toStatement span ∧
        clause.IsValid ∧ ∀ lexeme ∈ clause.lexemes, lexeme ∈ source.lexemes.toList) ∧
      (∃ more, reports.toList = source.lexicalDiagnostics.toList ++ more) ∧
      ∀ report ∈ reports.toList, ∃ part, sliceOf source.text report.span = .ok part := by
  obtain ⟨cursor, statements, after, hlexemes, -, hstatements, -, hrounds⟩ := exists_rounds htext
  have hstart : ReadingState.IsSound source.text cursor ⟨none, #[], .start cursor source.lexicalDiagnostics⟩ := by
    refine ⟨rfl, fun _ hmem => absurd hmem List.not_mem_nil, fun report hmem => ?_⟩
    obtain ⟨-, lexeme, hlexeme, -, hspan⟩ := source.mem_lexicalDiagnostics hmem
    rw [hspan]
    exact htext lexeme hlexeme
  have hsound := isSound_of_rounds (by rwa [hlexemes]) hrounds hstart
  refine ⟨statements.toList, after.diagnostics, hstatements, ?_, diagnostics_of_rounds hrounds, hsound.reports⟩
  rw [← hlexemes]
  exact hsound.statements

end ExprLang
