import ExprLang.Command.Check
import ExprLang.Proofs.Lexeme.Ascii
import ExprLang.Proofs.Reading.Reports
import ExprLang.Proofs.Source.Rendering
import ExprLang.Proofs.Typing.Soundness

/-!
# Checking a source

Checking a source ends with a verdict if and only if each run of characters that is not recognised ends in a character
of one byte (`Source.checkSource_done_iff`).  A run that ends in a longer one is reported as an error, and this report
is one that cannot be rendered; all other reports can, whether they are about lexemes, statements or types.
-/

namespace ExprLang

namespace Source

/-- Whether each run of a source that is not recognised ends in a character of one byte. -/
def RunsEndInByte (source : Source) : Prop :=
  ∀ lexeme part, (lexeme, part) ∈ spelledLexemes source.text → lexeme.tag = .unrecognized →
    ∀ c ∈ part.getLast?, c.utf8Size = 1

variable {name : String} {content : List Char}

/-! ### Lexemes -/

/-- All lexemes before the end of the file are plain, if the runs are. -/
private theorem isPlain_of_mem (hruns : (ofContent name content).RunsEndInByte) {lexeme : Lexeme}
    (h : lexeme ∈ (ofContent name content).lexemes.toList.dropLast) :
    lexeme.span.IsPlain (ofContent name content).text := by
  rw [dropLast_lexemes] at h
  obtain ⟨⟨lexeme, part⟩, hmem, rfl⟩ := List.mem_map.1 h
  have hspelled := List.mem_append_left [(closingLexeme (ofContent name content).text, [])] hmem
  have hslice := sliceOf_of_mem_spelledLexemes name content hspelled
  have hchunk := mem_chunks_of_mem_placeChunks hmem
  rcases List.eq_nil_or_concat part with rfl | ⟨init, c, rfl⟩
  · exact absurd rfl (text_ne_nil_of_mem_chunks hchunk)
  · rw [List.concat_eq_append] at *
    refine Span.isPlain_of_sliceOf hslice ?_
    by_cases hknown : lexeme.tag = .unrecognized
    · exact hruns _ _ hspelled hknown c (List.getLast?_concat ..)
    · exact isAscii_of_mem_chunks hchunk hknown c (List.mem_append_right _ List.mem_cons_self)

/-- A run that ends in a longer character is reported, and the report cannot be rendered. -/
private theorem exists_report_of_not_runsEndInByte (hruns : ¬(ofContent name content).RunsEndInByte) :
    ∃ report ∈ (ofContent name content).lexicalDiagnostics.toList, report.severity = .error ∧
      (ofContent name content).render report = .error .slice := by
  rw [RunsEndInByte] at hruns
  push Not at hruns
  obtain ⟨lexeme, part, hmem, hknown, c, hlast, hsize⟩ := hruns
  obtain ⟨init, rfl⟩ := List.getLast?_eq_some_iff.1 hlast
  have hslice := sliceOf_of_mem_spelledLexemes name content hmem
  rw [toList_lexicalDiagnostics]
  refine ⟨⟨.error, lexeme.span, unrecognizedMessage _⟩, List.mem_filterMap.2 ⟨_, hmem, if_pos hknown⟩, rfl, ?_⟩
  have hin := Span.isIn_of_exists_sliceOf ⟨_, hslice⟩
  refine render_eq_error hin fun hboundary => ?_
  -- The span is not empty, since it holds the character.
  obtain ⟨front, rest, -, hstart, hstop⟩ := Span.sliceOf_eq_ok_iff.1 hslice
  rw [byteLength_append, byteLength_cons, byteLength_nil] at hstop
  have hpos := c.utf8Size_pos
  rcases hin.isBoundary_lastOffset_iff.1 hboundary with hempty | hboundary
  · omega
  · exact Span.not_isBoundary_of_sliceOf hslice hsize hboundary

/-! ### Reports -/

/-- What is plain, or empty, ends in a character of one byte. -/
private theorem endsInByte_of_isPlaced {text : List Char} {report : Diagnostic}
    (h : report.IsPlaced fun span => span.IsPlain text) : report.span.EndsInByte text :=
  h.imp_right Span.IsPlain.last

/-- If the runs end in characters of one byte, all reports do. -/
private theorem endsInByte_of_runsEndInByte (hruns : (ofContent name content).RunsEndInByte)
    {statements : List Statement} {program : Program} {reports after : Diagnostics}
    (hstatements : (ofContent name content).statements = (.done statements, reports))
    (hprogram : (ofContent name content).program statements reports = (.done program, after))
    (hclauses : ∀ statement ∈ statements, ∃ (clause : Clause) (span : Span), statement = clause.toStatement span ∧
      clause.IsValid ∧ ∀ lexeme ∈ clause.lexemes, lexeme ∈ (ofContent name content).lexemes.toList) :
    ∀ report ∈ after.toList, report.span.EndsInByte (ofContent name content).text := by
  have hplain : (ofContent name content).lexemes.ArePlaced fun span => span.IsPlain (ofContent name content).text :=
    arePlaced_lexemes fun _ => isPlain_of_mem hruns
  have hjoin : ∀ a b : Span, a.IsPlain (ofContent name content).text → b.IsPlain (ofContent name content).text →
      (a.join b).IsPlain (ofContent name content).text := fun _ _ => Span.IsPlain.join
  have hplaced : ∀ statement ∈ statements, statement.IsAt fun span => span.IsPlain (ofContent name content).text := by
    intro statement hmem
    obtain ⟨clause, span, rfl, hvalid, hlexemes⟩ := hclauses statement hmem
    refine hvalid.isAt_toStatement hjoin (fun lexeme hlexeme => ?_) span
    exact hplain.place lexeme (hlexemes lexeme hlexeme) (hvalid.isRecognized lexeme hlexeme).1
  obtain ⟨-, more, hafter, hmore⟩ := isTyped_of_program_eq hplaced hprogram
  intro report hmem
  rw [hafter, List.mem_append] at hmem
  rcases hmem with hmem | hmem
  · exact endsInByte_of_isPlaced
      (isPlaced_of_statements_eq (areIn_lexemes name content) hjoin hplain hstatements report hmem)
  · exact .inr (hmore report hmem).last

end Source

/-! ### Printing -/

namespace Printer

variable {source : Source} {options : Options} {printed : Printed}

/-- A list is printed if each of its items is. -/
private theorem exists_forM {α : Type} {items : List α} {stage : α → Printer Unit}
    (h : ∀ item ∈ items, ∀ printed, ∃ last, stage item printed = (.done (), last)) (printed : Printed) :
    ∃ last, items.forM stage printed = (.done (), last) := by
  induction items generalizing printed with
  | nil => exact ⟨printed, rfl⟩
  | cons item items ih =>
    obtain ⟨hitem, hitems⟩ := List.forall_mem_cons.1 h
    obtain ⟨middle, hmiddle⟩ := hitem printed
    obtain ⟨last, hlast⟩ := ih hitems middle
    refine ⟨last, ?_⟩
    show (stage item >>= fun _ => items.forM stage) printed = _
    rw [Stage.bind_of_done hmiddle, hlast]

private theorem exists_dumpLexemes {lexemes : Lexemes} (h : lexemes.AreIn source.text) (printed : Printed) :
    ∃ last, dumpLexemes source lexemes printed = (.done (), last) := by
  refine exists_forM (fun lexeme hmem printed => ?_) printed
  obtain ⟨part, hpart⟩ := h lexeme hmem
  exact ⟨_, by rw [Lexeme.textIn, hpart]; rfl⟩

private theorem exists_dumpStatements {statements : List Statement}
    (h : ∀ statement ∈ statements, ∃ shown, statement.render source.text = .ok shown) (printed : Printed) :
    ∃ last, dumpStatements source statements printed = (.done (), last) := by
  refine exists_forM (fun statement hmem printed => ?_) printed
  obtain ⟨shown, hshown⟩ := h statement hmem
  exact ⟨_, by rw [hshown]; rfl⟩

/-- Reports that can be rendered are printed. -/
private theorem exists_printDiagnostics (options : Options) {reports : Diagnostics}
    (h : ∀ report ∈ reports.toList, ∃ shown, source.render report = .ok shown) (printed : Printed) :
    ∃ last, printDiagnostics options source reports printed = (.done (), last) := by
  refine exists_forM (fun report hmem printed => ?_) printed
  obtain ⟨shown, hshown⟩ := h report hmem
  rw [hshown]
  split
  · exact ⟨_, rfl⟩
  · exact ⟨_, rfl⟩

/-- An error that cannot be rendered ends the printing of reports. -/
private theorem printDiagnostics_ne_done {reports : Diagnostics} {report : Diagnostic} (hmem : report ∈ reports.toList)
    (herror : report.severity = .error) {cause : Fault} (hrender : source.render report = .error cause)
    (printed last : Printed) : printDiagnostics options source reports printed ≠ (.done (), last) := by
  rw [printDiagnostics]
  generalize reports.toList = items at hmem
  induction items generalizing printed with
  | nil => exact absurd hmem List.not_mem_nil
  | cons item items ih =>
    intro hdone
    have hdone : ((if !(options.hideNotes && item.severity = .info) then
        Stage.ofExcept (source.render item) >>= printError else pure ()) >>= fun _ => items.forM _) printed =
        (.done (), last) := hdone
    rcases List.mem_cons.1 hmem with rfl | hmem
    · rw [hrender, herror, decide_eq_false (by decide), Bool.and_false] at hdone
      cases hdone
    · rw [Stage.bind_apply] at hdone
      split at hdone
      · exact ih _ hmem hdone
      · cases hdone
      · cases hdone

theorem exists_printSummary (source : Source) (reports : Diagnostics) (printed : Printed) :
    ∃ last, printSummary source reports printed = (.done (), last) := by
  unfold printSummary
  split
  · exact ⟨_, rfl⟩
  · exact ⟨_, rfl⟩

/-- Whatever is printed on request, what follows is done after it. -/
private theorem exists_of_onRequest {α : Type} {requested : Bool} {stage : Printer Unit} {next last : Printer α}
    (h : ∀ printed, ∃ after, stage printed = (.done (), after))
    (hnext : ∀ printed, ∃ middle, next printed = last middle) (printed : Printed) :
    ∃ middle, (if requested then stage >>= fun _ => next else next) printed = last middle := by
  cases requested with
  | false => exact hnext printed
  | true =>
    obtain ⟨after, hafter⟩ := h printed
    obtain ⟨middle, hmiddle⟩ := hnext after
    refine ⟨middle, ?_⟩
    rw [if_pos rfl, Stage.bind_of_done hafter, hmiddle]

/-- Checking a source comes to printing what is reported about it. -/
theorem exists_checkSource (options : Options) {statements : List Statement} {program : Program}
    {reports after : Diagnostics} (htext : source.lexemes.AreIn source.text)
    (hstatements : source.statements = (.done statements, reports))
    (hprogram : source.program statements reports = (.done program, after))
    (hshown : ∀ statement ∈ statements, ∃ shown, statement.render source.text = .ok shown)
    (hrender : ∃ shown, program.render = .ok shown) (printed : Printed) :
    ∃ middle, checkSource options source printed =
      (printDiagnostics options source after >>= fun _ =>
        printSummary source after >>= fun _ => pure after.hasErrors) middle := by
  obtain ⟨shown, hrender⟩ := hrender
  let reportLast := printDiagnostics options source after >>= fun _ =>
    printSummary source after >>= fun _ => pure after.hasErrors
  rw [Source.statements_eq_parse] at hstatements
  unfold checkSource
  rw [source.lex_eq_done]
  -- No stage is to be computed when they are told apart.
  generalize source.lexemes = lexemes at htext hstatements ⊢
  generalize source.parse = parse at hstatements ⊢
  generalize source.program = check at hprogram ⊢
  refine exists_of_onRequest (exists_dumpLexemes htext) (fun printed => ?_) printed
  rw [hstatements]
  refine exists_of_onRequest (exists_dumpStatements hshown) (fun printed => ?_) printed
  rw [hprogram]
  have hprint : ∀ printed, ∃ last, print shown printed = (.done (), last) := fun _ => ⟨_, rfl⟩
  have hlast : ∃ middle, (if options.dumpProgram then Stage.ofExcept program.render >>= fun shown => print shown >>=
      fun _ => reportLast else reportLast) printed = reportLast middle := by
    rw [hrender]
    exact exists_of_onRequest hprint (fun printed => ⟨printed, rfl⟩) printed
  exact hlast

end Printer

namespace Source

/-- Every source is read and checked.  A report about it is rendered if and only if its span is empty or ends in a
character of one byte; checking ends with a verdict if and only if each run that is not recognised does. -/
theorem checkSource_done_iff (name : String) (content : List Char) :
    ∃ statements program reports after,
      (ofContent name content).statements = (.done statements, reports) ∧
      (ofContent name content).program statements reports = (.done program, after) ∧
      (∀ report ∈ after.toList, (∃ shown, (ofContent name content).render report = .ok shown) ↔
        report.span.EndsInByte (ofContent name content).text) ∧
      ((∀ report ∈ after.toList, ∃ shown, (ofContent name content).render report = .ok shown) ↔
        (ofContent name content).RunsEndInByte) ∧
      ∀ options printed, (∃ hasErrors last,
        Printer.checkSource options (ofContent name content) printed = (.done hasErrors, last)) ↔
          (ofContent name content).RunsEndInByte := by
  obtain ⟨statements, program, reports, after, hstatements, hprogram, hclauses, hrender, ⟨more, hmore⟩, hplaces⟩ :=
    exists_checked name content
  have hrenders : ∀ report ∈ after.toList, (∃ shown, (ofContent name content).render report = .ok shown) ↔
      report.span.EndsInByte (ofContent name content).text := fun report hmem =>
    exists_render_iff (Span.isIn_of_exists_sliceOf (hplaces report hmem))
  have hall : (ofContent name content).RunsEndInByte →
      ∀ report ∈ after.toList, ∃ shown, (ofContent name content).render report = .ok shown := fun hruns report hmem =>
    (hrenders report hmem).2 (endsInByte_of_runsEndInByte hruns hstatements hprogram hclauses report hmem)
  have hnone : ¬(ofContent name content).RunsEndInByte → ∃ report ∈ after.toList, report.severity = .error ∧
      (ofContent name content).render report = .error .slice := by
    intro hruns
    obtain ⟨report, hmem, hreport⟩ := exists_report_of_not_runsEndInByte hruns
    exact ⟨report, hmore ▸ List.mem_append_left _ hmem, hreport⟩
  refine ⟨statements, program, reports, after, hstatements, hprogram, hrenders, ⟨fun hshown => ?_, hall⟩,
    fun options printed => ?_⟩
  · by_contra hruns
    obtain ⟨report, hmem, -, hfault⟩ := hnone hruns
    obtain ⟨shown, hshown⟩ := hshown report hmem
    rw [hfault] at hshown
    cases hshown
  · have htext := areIn_lexemes name content
    have hshown : ∀ statement ∈ statements, ∃ shown, statement.render (ofContent name content).text = .ok shown := by
      intro statement hmem
      obtain ⟨clause, span, rfl, hvalid, hlexemes⟩ := hclauses statement hmem
      exact hvalid.exists_render (fun lexeme hmem => htext lexeme (hlexemes lexeme hmem)) span
    obtain ⟨middle, hcheck⟩ := Printer.exists_checkSource options htext hstatements hprogram hshown hrender printed
    rw [hcheck, Stage.bind_apply]
    refine ⟨fun ⟨hasErrors, last, hdone⟩ => ?_, fun hruns => ?_⟩
    · by_contra hruns
      obtain ⟨report, hmem, herror, hfault⟩ := hnone hruns
      split at hdone
      · rename_i heq
        exact Printer.printDiagnostics_ne_done hmem herror hfault _ _ heq
      · cases hdone
      · cases hdone
    · obtain ⟨last, hlast⟩ := Printer.exists_printDiagnostics options (hall hruns) middle
      obtain ⟨last, hsummary⟩ := Printer.exists_printSummary (ofContent name content) after last
      rw [hlast]
      exact ⟨after.hasErrors, last, Stage.bind_of_done hsummary⟩

end Source

end ExprLang
