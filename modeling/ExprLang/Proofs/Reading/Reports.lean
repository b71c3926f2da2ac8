import ExprLang.Proofs.Reading.Grammar

/-!
# Places of reports

Reading reports about single lexemes and about spans from one lexeme to another.  So if the lexemes other than the end
of the file stand at places that can be joined, all reports stand at such places, or at the end of the file, where
their span is empty (`Source.isPlaced_of_statements_eq`).
-/

namespace ExprLang

/-- Whether a report stands at one of some places or has an empty span. -/
def Diagnostic.IsPlaced (places : Span → Prop) (report : Diagnostic) : Prop :=
  report.span.start = report.span.stop ∨ places report.span

/-- Whether lexemes stand at some places, or have an empty span at the end of the file. -/
structure Lexemes.ArePlaced (places : Span → Prop) (lexemes : Lexemes) : Prop where
  place : ∀ lexeme ∈ lexemes.toList, lexeme.tag ≠ .endOfFile → places lexeme.span
  empty : ∀ lexeme ∈ lexemes.toList, lexeme.tag = .endOfFile → lexeme.span.start = lexeme.span.stop

/-- Whether the run and all reports stand at some places. -/
structure ReadingState.IsPlaced (places : Span → Prop) (start : Cursor) (reading : ReadingState) : Prop where
  lexemes : reading.state.cursor.lexemes = start.lexemes
  run : ∀ span ∈ reading.run, places span
  reports : ∀ report ∈ reading.state.diagnostics.toList, report.IsPlaced places

variable {places : Span → Prop} {text : List Char} {start : Cursor} {before after : ReadingState}

private theorem Lexemes.ArePlaced.isPlaced {lexemes : Lexemes} (h : lexemes.ArePlaced places) {lexeme : Lexeme}
    (hmem : lexeme ∈ lexemes.toList) : lexeme.span.start = lexeme.span.stop ∨ places lexeme.span := by
  by_cases hend : lexeme.tag = .endOfFile
  · exact .inl (h.empty lexeme hmem hend)
  · exact .inr (h.place lexeme hmem hend)

/-- One round reports at places. -/
private theorem Round.isPlaced (hlexemes : start.lexemes.ArePlaced places)
    (hjoin : ∀ a b, places a → places b → places (a.join b)) (hround : Round text before after)
    (h : before.IsPlaced places start) : after.IsPlaced places start := by
  rw [← h.lexemes] at hlexemes
  obtain ⟨reports, hreports, hplaces⟩ := hround.exists_reports
  refine ⟨hround.lexemes.trans h.lexemes,
    hround.forall_run (fun lexeme hmem hend _ => hlexemes.place lexeme hmem hend) hjoin h.run, ?_⟩
  rw [hreports, List.forall_mem_append]
  refine ⟨h.reports, fun report hmem => ?_⟩
  have hplace := hplaces report hmem
  rw [Diagnostic.IsPlaced]
  generalize report.span = span at hplace ⊢
  cases hplace with
  | run hrun => exact .inr (h.run _ hrun)
  | lexeme hmem => exact hlexemes.isPlaced hmem
  -- What is skipped does not reach over the end of the file.
  | skipped hfirst hnext hlast hend =>
    exact .inr (hjoin _ _ (hlexemes.place _ hfirst hnext) (hlexemes.place _ hlast hend))

private theorem isPlaced_of_rounds (hlexemes : start.lexemes.ArePlaced places)
    (hjoin : ∀ a b, places a → places b → places (a.join b))
    (hrounds : Relation.ReflTransGen (Round text) before after) (h : before.IsPlaced places start) :
    after.IsPlaced places start := by
  induction hrounds with
  | refl => exact h
  | tail _ hround ih => exact hround.isPlaced hlexemes hjoin ih

namespace Source

/-- The lexemes of a source stand at some places if those before the end of the file do. -/
theorem arePlaced_lexemes {source : Source} (h : ∀ lexeme ∈ source.lexemes.toList.dropLast, places lexeme.span) :
    source.lexemes.ArePlaced places := by
  have hcases : ∀ lexeme ∈ source.lexemes.toList,
      lexeme ∈ source.lexemes.toList.dropLast ∨ lexeme = closingLexeme source.text := by
    intro lexeme hmem
    rw [toList_lexemes, List.mem_append, List.mem_singleton] at hmem
    rwa [dropLast_lexemes]
  refine ⟨fun lexeme hmem hend => ?_, fun lexeme hmem hend => ?_⟩
  · rcases hcases lexeme hmem with hmem | rfl
    · exact h lexeme hmem
    · exact absurd rfl hend
  · rcases hcases lexeme hmem with hmem | rfl
    · exact absurd hend (source.tag_ne_endOfFile_of_mem hmem)
    · rfl

/-- All reports about the statements of a source stand at places if its lexemes do. -/
theorem isPlaced_of_statements_eq {source : Source} (htext : source.lexemes.AreIn source.text)
    (hjoin : ∀ a b, places a → places b → places (a.join b)) (hlexemes : source.lexemes.ArePlaced places)
    {statements : List Statement} {reports : Diagnostics} (h : source.statements = (.done statements, reports)) :
    ∀ report ∈ reports.toList, report.IsPlaced places := by
  obtain ⟨cursor, _, after, hsame, -, hstatements, -, hrounds⟩ := exists_rounds htext
  have hstart : ReadingState.IsPlaced places cursor ⟨none, #[], .start cursor source.lexicalDiagnostics⟩ := by
    refine ⟨rfl, fun _ hmem => absurd hmem (Option.not_mem_none _), fun report hmem => ?_⟩
    obtain ⟨-, lexeme, hlexeme, -, hspan⟩ := source.mem_lexicalDiagnostics hmem
    rw [Diagnostic.IsPlaced, hspan]
    exact hlexemes.isPlaced hlexeme
  have hafter := isPlaced_of_rounds (by rwa [hsame]) hjoin hrounds hstart
  rw [hstatements] at h
  obtain ⟨-, rfl⟩ := Prod.mk.inj h
  exact hafter.reports

end Source

end ExprLang
