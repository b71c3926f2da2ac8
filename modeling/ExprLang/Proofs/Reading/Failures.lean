import ExprLang.Proofs.Lexeme.Coverage
import ExprLang.Proofs.Reading.Grammar

/-!
# Errors of failures

A statement is given up with one error, at the lexeme where the reader stops, or with none if that lexeme is not
recognised.  So the errors stand in the order of the source, although those at lexemes that no statement begins with
are put off: between two rounds no error starts behind the run that waits to be reported (`ReadingState.IsInOrder`).
The main statement is `Source.errors_are_in_order`.
-/

namespace ExprLang

/-! ### Errors among reports -/

/-- The errors among some reports. -/
def errorsIn (reports : List Diagnostic) : List Diagnostic :=
  reports.filter (·.severity = .error)

/-- Whether no error among some reports starts before an earlier one. -/
def AreInOrder (reports : List Diagnostic) : Prop :=
  (errorsIn reports).Pairwise fun error later => error.span.start ≤ later.span.start

variable {reports more : List Diagnostic} {cursor : Cursor}

private theorem errorsIn_append (reports more : List Diagnostic) :
    errorsIn (reports ++ more) = errorsIn reports ++ errorsIn more :=
  List.filter_append ..

private theorem mem_errorsIn {report : Diagnostic} :
    report ∈ errorsIn reports ↔ report ∈ reports ∧ report.severity = .error := by
  rw [errorsIn, List.mem_filter, decide_eq_true_eq]

private theorem errorsIn_cons {error : Diagnostic} (h : error.severity = .error) (reports : List Diagnostic) :
    errorsIn (error :: reports) = error :: errorsIn reports :=
  List.filter_cons_of_pos (decide_eq_true h)

private theorem errorsIn_eq_nil (h : ∀ report ∈ reports, report.severity ≠ .error) : errorsIn reports = [] :=
  List.eq_nil_iff_forall_not_mem.2 fun report hmem => h report (mem_errorsIn.1 hmem).1 (mem_errorsIn.1 hmem).2

private theorem AreInOrder.append {frontier : Nat} (h : AreInOrder reports) (hmore : AreInOrder more)
    (hle : ∀ error ∈ errorsIn reports, error.span.start ≤ frontier)
    (hge : ∀ error ∈ errorsIn more, frontier ≤ error.span.start) : AreInOrder (reports ++ more) := by
  rw [AreInOrder, errorsIn_append, List.pairwise_append]
  exact ⟨h, hmore, fun error herror later hlater => Nat.le_trans (hle error herror) (hge later hlater)⟩

/-- Whether the only error among some reports is one at a cursor, if there is any. -/
def HasErrorAt (cursor : Cursor) (reports : List Diagnostic) : Prop :=
  errorsIn reports = [] ∨ ∃ error, errorsIn reports = [error] ∧ error.span = cursor.peek.span

private theorem HasErrorAt.length_le (h : HasErrorAt cursor reports) : (errorsIn reports).length ≤ 1 := by
  rcases h with hnil | ⟨error, herror, -⟩
  · rw [hnil]
    exact Nat.zero_le 1
  · rw [herror, List.length_singleton]

private theorem HasErrorAt.areInOrder (h : HasErrorAt cursor reports) : AreInOrder reports := by
  rcases h with hnil | ⟨error, herror, -⟩
  · rw [AreInOrder, hnil]
    exact .nil
  · rw [AreInOrder, herror]
    exact List.pairwise_singleton ..

private theorem HasErrorAt.start_eq (h : HasErrorAt cursor reports) :
    ∀ error ∈ errorsIn reports, error.span.start = cursor.peek.span.start := by
  rcases h with hnil | ⟨error, herror, hspan⟩
  · rw [hnil]
    exact fun _ hmem => absurd hmem List.not_mem_nil
  · rw [herror, List.forall_mem_singleton, hspan]

/-- A failure is explained by one error, unless it is at a lexeme that is not recognised. -/
private theorem ExplainsFailure.hasErrorAt (h : ExplainsFailure cursor reports) : HasErrorAt cursor reports ∧
    ((errorsIn reports).length = 1 ∨ cursor.peek.tag = .unrecognized) := by
  rcases h with ⟨htag, rfl⟩ | ⟨error, notes, rfl, herror, hspan, hnotes, -⟩
  · exact ⟨.inl rfl, .inr htag⟩
  · have hnone : errorsIn notes = [] := errorsIn_eq_nil fun note hnote => by
      rw [(hnotes note hnote).1]
      simp
    have hone : errorsIn (error :: notes) = [error] := by rw [errorsIn_cons herror, hnone]
    exact ⟨.inr ⟨error, hone, hspan⟩, .inl (by rw [hone, List.length_singleton])⟩

private theorem ExplainsEnd.hasErrorAt {skipped : List Lexeme} {semicolon : Option Lexeme}
    (h : ExplainsEnd cursor skipped semicolon reports) : HasErrorAt cursor reports := by
  rcases h with ⟨rfl, -⟩ | ⟨error, rfl, -, -, herror, hspan, -⟩
  · exact .inl rfl
  · exact .inr ⟨error, errorsIn_cons herror [], hspan⟩

/-! ### Places of lexemes -/

/-- Whether some lexemes start one after the other. -/
def Lexemes.AreAscending (lexemes : Lexemes) : Prop :=
  lexemes.toList.Pairwise fun a b => a.span.start ≤ b.span.start

/-- The next lexeme does not start before the one that was the next. -/
private theorem Cursor.Moved.start_le {before after : Cursor} {passed : List Lexeme} (h : before.Moved after passed)
    (hlexemes : before.lexemes.AreAscending) : before.peek.span.start ≤ after.peek.span.start := by
  have hahead : before.ahead.Pairwise fun a b => a.span.start ≤ b.span.start := hlexemes.sublist (List.drop_sublist _ _)
  have hmem : after.peek ∈ before.ahead := by
    rw [h.ahead, after.ahead_eq_peek_cons]
    exact List.mem_append_right _ List.mem_cons_self
  rw [before.ahead_eq_peek_cons] at hahead hmem
  rcases List.mem_cons.1 hmem with heq | hmem
  · rw [heq]
  · exact (List.pairwise_cons.1 hahead).1 _ hmem

private theorem Source.areAscending_lexemes (name : String) (content : List Char) :
    (ofContent name content).lexemes.AreAscending :=
  (pairwise_lexemes name content).imp fun h => Nat.le_of_lt h.1

/-! ### Rounds -/

/-- Where the next error starts at the earliest: at the run that waits to be reported, or at the next lexeme. -/
def ReadingState.frontier (reading : ReadingState) : Nat :=
  reading.run.elim reading.state.cursor.peek.span.start (·.start)

/-- Whether what has been reported since `start` is in order, and the next error goes on with it. -/
structure ReadingState.IsInOrder (start : ReaderState) (reading : ReadingState) : Prop where
  lexemes : reading.state.cursor.lexemes = start.cursor.lexemes
  run : reading.frontier ≤ reading.state.cursor.peek.span.start
  reports : ∃ reports, reading.state.diagnostics.toList = start.diagnostics.toList ++ reports ∧ AreInOrder reports ∧
    ∀ error ∈ errorsIn reports, error.span.start ≤ reading.frontier

section

variable {text : List Char} {start : ReaderState} {before after : ReadingState}

/-- Further errors behind the frontier keep the order. -/
private theorem ReadingState.IsInOrder.of_reports (h : before.IsInOrder start)
    (hlexemes : after.state.cursor.lexemes = before.state.cursor.lexemes)
    (hreports : after.state.diagnostics.toList = before.state.diagnostics.toList ++ more) (horder : AreInOrder more)
    (hmore : ∀ error ∈ errorsIn more, before.frontier ≤ error.span.start ∧ error.span.start ≤ after.frontier)
    (hfrontier : before.frontier ≤ after.frontier) (hrun : after.frontier ≤ after.state.cursor.peek.span.start) :
    after.IsInOrder start := by
  obtain ⟨reports, hbefore, hreportsOrder, hle⟩ := h.reports
  refine ⟨hlexemes.trans h.lexemes, hrun, reports ++ more, ?_, ?_, ?_⟩
  · rw [hreports, hbefore, List.append_assoc]
  · exact hreportsOrder.append horder hle fun error herror => (hmore error herror).1
  · rw [errorsIn_append, List.forall_mem_append]
    exact ⟨fun error herror => Nat.le_trans (hle error herror) hfrontier, fun error herror => (hmore error herror).2⟩

/-- One round keeps the order. -/
private theorem Round.isInOrder (hlexemes : start.cursor.lexemes.AreAscending) (hround : Round text before after)
    (h : before.IsInOrder start) : after.IsInOrder start := by
  rw [← h.lexemes] at hlexemes
  have hsame := hround.lexemes
  have hnone : before.state.diagnostics.toList = before.state.diagnostics.toList ++ [] := (List.append_nil _).symm
  have hnil : ∀ {P : Diagnostic → Prop}, ∀ error ∈ errorsIn [], P error := fun _ hmem => absurd hmem List.not_mem_nil
  cases hround with
  | @unrecognized run statements state htag =>
    have hend : state.cursor.peek.tag ≠ .endOfFile := by simp [htag]
    have hnext := (Cursor.moved_advance hend).start_le hlexemes
    refine h.of_reports hsame hnone .nil hnil ?_ ?_
    · cases run with
      | none => exact hnext
      | some run => exact Nat.le_refl _
    · cases run with
      | none => exact Nat.le_refl _
      | some run => exact Nat.le_trans h.run hnext
  -- The run still starts where it did, or begins at this lexeme.
  | @stray run statements state hend =>
    have hnext := (Cursor.moved_advance hend).start_le hlexemes
    have hfrontier : (run.elim state.cursor.peek.span (·.join state.cursor.peek.span)).start
        = ReadingState.frontier ⟨run, statements, state⟩ := by
      cases run with
      | none => rfl
      | some run => exact Nat.min_eq_left h.run
    refine h.of_reports hsame hnone .nil hnil ?_ ?_
    · exact Nat.le_of_eq hfrontier.symm
    · exact Nat.le_trans (Nat.le_of_eq hfrontier) (Nat.le_trans h.run hnext)
  | @report run statements state part =>
    refine h.of_reports hsame (Diagnostics.toList_report _ _) (List.pairwise_singleton ..) ?_ h.run (Nat.le_refl _)
    exact List.forall_mem_singleton.2 ⟨Nat.le_refl _, h.run⟩
  | @statement statements state clause skipped semicolon after _ hread =>
    obtain ⟨reports, hreports, hexplains⟩ := hread.reports
    have hmoved := hread.moved.start_le hlexemes
    have herror := hexplains.hasErrorAt
    refine h.of_reports hsame hreports herror.areInOrder (fun error hmem => ?_) hmoved (Nat.le_refl _)
    rw [herror.start_eq error hmem]
    exact ⟨hmoved, Nat.le_refl _⟩
  -- What is skipped is no error, so the only one is where the reader stopped.
  | @failure statements state stopped after _ hstopped hskipped =>
    obtain ⟨_, hmoved⟩ := hstopped.moved
    obtain ⟨_, hfurther, -⟩ := hskipped.moved
    obtain ⟨reports, hreports, hexplains⟩ := hstopped.reports
    have hle := hmoved.start_le hlexemes
    have hle' := hfurther.start_le (by rwa [hmoved.lexemes])
    have herror := hexplains.hasErrorAt.1
    have hstart := herror.start_eq
    obtain ⟨more, hmore, hsameErrors⟩ : ∃ more, after.diagnostics.toList = state.diagnostics.toList ++ more ∧
        errorsIn more = errorsIn reports := by
      rcases hskipped.reports with heq | ⟨last, -, heq, -⟩
      · exact ⟨reports, by rw [heq, hreports], rfl⟩
      · refine ⟨reports ++ [_], by rw [heq, Diagnostics.toList_report, hreports, List.append_assoc], ?_⟩
        rw [errorsIn_append]
        exact List.append_nil _
    rw [← hsameErrors] at hstart
    refine h.of_reports hsame hmore ?_ (fun error hmem => ?_) (Nat.le_trans hle hle') (Nat.le_refl _)
    · rw [AreInOrder, hsameErrors]
      exact herror.areInOrder
    · rw [hstart error hmem]
      exact ⟨hle, hle'⟩

private theorem isInOrder_of_rounds (hlexemes : start.cursor.lexemes.AreAscending)
    (hrounds : Relation.ReflTransGen (Round text) before after) (h : before.IsInOrder start) :
    after.IsInOrder start := by
  induction hrounds with
  | refl => exact h
  | tail _ hround ih => exact hround.isInOrder hlexemes ih

end

/-! ### Sources -/

namespace Source

variable {name : String} {content : List Char} {state : ReaderState}

/-- The reports of reading all statements are in order. -/
private theorem readAll_isInOrder (hlexemes : state.cursor.lexemes = (ofContent name content).lexemes) :
    ∃ (statements : List Statement) (after : ReaderState) (reports : List Diagnostic),
      Reader.readAll (ofContent name content).text state = (.done statements, after) ∧
      after.diagnostics.toList = state.diagnostics.toList ++ reports ∧ AreInOrder reports := by
  have htext := areIn_lexemes name content
  have hascending := areAscending_lexemes name content
  rw [← hlexemes] at htext hascending
  obtain ⟨_, after, hdone, -, statements, rfl, hrounds⟩ := (Reader.readAll_meets htext).exists_done
  have hstart : ReadingState.IsInOrder state ⟨none, #[], state⟩ :=
    ⟨rfl, Nat.le_refl _, [], (List.append_nil _).symm, .nil, fun _ hmem => absurd hmem List.not_mem_nil⟩
  obtain ⟨reports, hreports, horder, -⟩ := (isInOrder_of_rounds hascending hrounds hstart).reports
  exact ⟨_, after, reports, hdone, hreports, horder⟩

/-- From any lexeme of a source on, reading a statement reports at most one error, and gives up only with one error or
at a lexeme that is not recognised; and no error of reading all statements starts before an earlier one, from the
first lexeme on or from any other. -/
theorem errors_are_in_order (hlexemes : state.cursor.lexemes = (ofContent name content).lexemes) :
    (∃ (outcome : Outcome Statement) (after : ReaderState) (reports : List Diagnostic),
      Reader.readStatement (ofContent name content).text state = (outcome, after) ∧
      after.diagnostics.toList = state.diagnostics.toList ++ reports ∧ (errorsIn reports).length ≤ 1 ∧
      ((∃ statement, outcome = .done statement) ∨
        outcome = .failed ∧ ((errorsIn reports).length = 1 ∨ after.cursor.peek.tag = .unrecognized))) ∧
    (∃ (statements : List Statement) (after : ReaderState) (reports : List Diagnostic),
      Reader.readAll (ofContent name content).text state = (.done statements, after) ∧
      after.diagnostics.toList = state.diagnostics.toList ++ reports ∧ AreInOrder reports) ∧
    ∃ reports, (ofContent name content).statements.2.toList
      = (ofContent name content).lexicalDiagnostics.toList ++ reports ∧ AreInOrder reports := by
  have htext := areIn_lexemes name content
  rw [← hlexemes] at htext
  refine ⟨?_, readAll_isInOrder hlexemes, ?_⟩
  · rcases (Reader.readStatement_meets htext).cases with
      ⟨statement, after, hread, clause, skipped, semicolon, -, hhasRead⟩ | ⟨after, hread, hstopped⟩
    · obtain ⟨reports, hreports, hexplains⟩ := hhasRead.reports
      exact ⟨_, after, reports, hread, hreports, hexplains.hasErrorAt.length_le, .inl ⟨statement, rfl⟩⟩
    · obtain ⟨reports, hreports, hexplains⟩ := hstopped.reports
      obtain ⟨herror, hone⟩ := hexplains.hasErrorAt
      exact ⟨_, after, reports, hread, hreports, herror.length_le, .inr ⟨rfl, hone⟩⟩
  · obtain ⟨cursor, hcursor, hsame, -⟩ := (ofContent name content).exists_cursor
    have hstart : (ReaderState.start cursor (ofContent name content).lexicalDiagnostics).cursor.lexemes = _ := hsame
    obtain ⟨statements, after, reports, hread, hreports, horder⟩ := readAll_isInOrder hstart
    refine ⟨reports, ?_, horder⟩
    rw [statements_eq hcursor, hread]
    exact hreports

/-- The parenthesis in `)(;)` is between two others that no statement begins with. -/
private def strays : Source :=
  ofContent "" [')', '(', ';', ')']

/-- A reader at the parenthesis between the others. -/
private def strayState : ReaderState :=
  .start ⟨strays.lexemes, strays.isClosed_lexemes, 1, by cbv⟩ .none

/-- The statement is given up with one error, which stands between those for the other parentheses. -/
theorem errors_are_in_order_strays :
    (∃ after, Reader.readStatement strays.text strayState = (.failed, after) ∧
      (errorsIn after.diagnostics.toList).length = 1) ∧
    AreInOrder strays.statements.2.toList ∧ (errorsIn strays.statements.2.toList).map (·.span.start) = [0, 2, 3] := by
  have hlexemes : strayState.cursor.lexemes = strays.lexemes := rfl
  obtain ⟨⟨outcome, after, reports, hread, hreports, -, houtcome⟩, -, all, hall, horder⟩ := errors_are_in_order hlexemes
  have hread : Reader.readStatement strays.text strayState = (outcome, after) := hread
  have hfailed : (Reader.readStatement strays.text strayState).1 = .failed := by decide +kernel
  have htag : (Reader.readStatement strays.text strayState).2.cursor.peek.tag = .mark .semi := by decide +kernel
  have hlexical : strays.lexicalDiagnostics.toList = [] := by decide +kernel
  rw [hread] at hfailed htag
  refine ⟨⟨after, hfailed ▸ hread, ?_⟩, ?_, by decide +kernel⟩
  · rcases houtcome with ⟨statement, hdone⟩ | ⟨-, hone | hunrecognized⟩
    · exact absurd (hfailed.symm.trans hdone) (by simp)
    · rw [hreports]
      exact hone
    · exact absurd (htag.symm.trans hunrecognized) (by simp)
  · have hall : strays.statements.2.toList = strays.lexicalDiagnostics.toList ++ all := hall
    rw [hall, hlexical, List.nil_append]
    exact horder

end Source

end ExprLang
