import ExprLang.Proofs.Lexeme.Coverage
import ExprLang.Proofs.Reading.Grammar

/-!
# Repeated reports

What is not recognised has been reported before the statements are read, and most readers do not report it again.
Three problems are reported all the same (`StatementIssue.IsBlind`).  When one of them is reported, the reader gives
the statement up and moves on, so no lexeme is reported more than twice (`Source.exists_errorsAt_unrecognized`).
-/

namespace ExprLang

/-! ### Errors at a span -/

/-- The errors at a span among some reports. -/
def errorsAt (span : Span) (reports : List Diagnostic) : List Diagnostic :=
  reports.filter fun report => report.severity = .error ∧ report.span = span

variable {span : Span} {reports more : List Diagnostic} {report : Diagnostic}

private theorem errorsAt_append (span : Span) (reports more : List Diagnostic) :
    errorsAt span (reports ++ more) = errorsAt span reports ++ errorsAt span more :=
  List.filter_append ..

private theorem errorsAt_eq_nil (h : ∀ report ∈ reports, report.severity = .error → report.span ≠ span) :
    errorsAt span reports = [] := by
  rw [errorsAt, List.filter_eq_nil_iff]
  intro report hmem hreport
  rw [decide_eq_true_eq] at hreport
  exact h report hmem hreport.1 hreport.2

private theorem errorsAt_cons_self (herror : report.severity = .error) (reports : List Diagnostic) :
    errorsAt report.span (report :: reports) = report :: errorsAt report.span reports :=
  List.filter_cons_of_pos (decide_eq_true ⟨herror, rfl⟩)

private theorem errorsAt_cons_of_ne (hspan : report.span ≠ span) (reports : List Diagnostic) :
    errorsAt span (report :: reports) = errorsAt span reports :=
  List.filter_cons_of_neg fun h => hspan (of_decide_eq_true h).2

private theorem errorsAt_eq_singleton (hspans : (reports.map (·.span)).Nodup) (hmem : report ∈ reports)
    (herror : report.severity = .error) : errorsAt report.span reports = [report] := by
  obtain ⟨front, back, rfl⟩ := List.append_of_mem hmem
  rw [List.map_append, List.map_cons, List.nodup_append, List.nodup_cons] at hspans
  obtain ⟨-, ⟨hback, -⟩, hfront⟩ := hspans
  have hnone : errorsAt report.span front = [] := errorsAt_eq_nil fun other hother _ hspan =>
    hfront _ (List.mem_map_of_mem hother) _ List.mem_cons_self hspan
  have hnone' : errorsAt report.span back = [] := errorsAt_eq_nil fun other hother _ hspan =>
    hback (hspan ▸ List.mem_map_of_mem hother)
  rw [errorsAt_append, hnone, errorsAt_cons_self herror, hnone', List.nil_append]

/-! ### Lexemes -/

/-- Whether no two of some lexemes start at the same place. -/
def Lexemes.AreApart (lexemes : Lexemes) : Prop :=
  (lexemes.toList.map (·.span.start)).Nodup

variable {lexemes : Lexemes} {lexeme other : Lexeme}

private theorem Lexemes.AreApart.eq_of_start_eq (h : lexemes.AreApart) (hmem : lexeme ∈ lexemes.toList)
    (hother : other ∈ lexemes.toList) (hstart : lexeme.span.start = other.span.start) : lexeme = other :=
  List.inj_on_of_nodup_map h hmem hother hstart

/-- What a cursor has moved over is not ahead of it any more. -/
private theorem Cursor.Moved.not_mem_ahead {before after : Cursor} {passed : List Lexeme}
    (h : before.Moved after passed)
    (hapart : before.lexemes.AreApart) (hmem : lexeme ∈ passed) : lexeme ∉ after.ahead := by
  have hnodup : before.ahead.Nodup := (List.Nodup.of_map _ hapart).sublist (List.drop_sublist _ _)
  rw [h.ahead] at hnodup
  exact fun hahead => (List.nodup_append.1 hnodup).2.2 lexeme hmem lexeme hahead rfl

/-! ### Rounds -/

/-- Whether there is at most one error at a lexeme among some reports, which is one of the problems that are reported
all the same, and the cursor has moved over the lexeme since. -/
def IsRepeatedOnce (cursor : Cursor) (lexeme : Lexeme) (reports : List Diagnostic) : Prop :=
  errorsAt lexeme.span reports = [] ∨ lexeme ∉ cursor.ahead ∧
    ∃ issue : StatementIssue, issue.IsBlind ∧ errorsAt lexeme.span reports = [issue.diagnostic lexeme.span]

private theorem IsRepeatedOnce.moved {before after : Cursor} {passed : List Lexeme}
    (h : IsRepeatedOnce before lexeme reports)
    (hmoved : before.Moved after passed) : IsRepeatedOnce after lexeme reports := by
  refine h.imp id fun ⟨hpassed, hissue⟩ => ⟨fun hahead => hpassed ?_, hissue⟩
  rw [hmoved.ahead]
  exact List.mem_append_right _ hahead

private theorem IsRepeatedOnce.append {cursor : Cursor} (h : IsRepeatedOnce cursor lexeme reports)
    (hmore : errorsAt lexeme.span more = []) : IsRepeatedOnce cursor lexeme (reports ++ more) := by
  rwa [IsRepeatedOnce, errorsAt_append, hmore, List.append_nil]

/-- Whether a lexeme has been reported once at most since there were only the reports `earlier`, and will not be
reported with the run. -/
structure ReadingState.Repeats (lexeme : Lexeme) (start : Cursor) (earlier : Diagnostics) (reading : ReadingState) :
    Prop where
  lexemes : reading.state.cursor.lexemes = start.lexemes
  run : ∀ span ∈ reading.run, span.start ≠ lexeme.span.start
  reports : ∃ more, reading.state.diagnostics.toList = earlier.toList ++ more ∧
    IsRepeatedOnce reading.state.cursor lexeme more

variable {text : List Char} {start : Cursor} {earlier : Diagnostics} {before after : ReadingState}

/-- A reader that is given up and moves on reports nothing at a lexeme that is not recognised, or one of the problems
that are reported all the same. -/
private theorem IsRepeatedOnce.failure {before stopped after : ReaderState} (hapart : before.cursor.lexemes.AreApart)
    (hmem : lexeme ∈ before.cursor.lexemes.toList) (htag : lexeme.tag = .unrecognized)
    (h : IsRepeatedOnce before.cursor lexeme reports) (hstopped : before.HasStopped stopped)
    (hskipped : stopped.HasSkipped after) (hmore : ExplainsFailure stopped.cursor more) :
    IsRepeatedOnce after.cursor lexeme (reports ++ more) := by
  obtain ⟨passed, hmoved⟩ := hstopped.moved
  obtain ⟨further, hfurther, hnil⟩ := hskipped.moved
  rcases hmore with ⟨-, rfl⟩ | ⟨error, notes, rfl, herror, hspan, hnotes, hblind⟩
  · rw [List.append_nil]
    exact h.moved (hmoved.trans hfurther)
  have hpeek : stopped.cursor.peek ∈ before.cursor.lexemes.toList := hmoved.lexemes ▸ stopped.cursor.peek_mem
  have hnone : errorsAt lexeme.span notes = [] := errorsAt_eq_nil fun note hnote herror => by
    rw [(hnotes note hnote).1] at herror
    cases herror
  by_cases hsame : stopped.cursor.peek = lexeme
  · -- The lexeme was still ahead, and it is passed now.
    subst hsame
    have hahead : stopped.cursor.ahead = further ++ after.cursor.ahead := hfurther.ahead
    have hpassed : stopped.cursor.peek ∈ further := by
      rw [Cursor.ahead_eq_peek_cons] at hahead
      rcases List.cons_eq_append_iff.1 hahead with ⟨rfl, -⟩ | ⟨rest, rfl, -⟩
      · rw [hnil rfl] at htag
        cases htag
      · exact List.mem_cons_self
    have hbefore : stopped.cursor.peek ∈ before.cursor.ahead := by
      rw [hmoved.ahead, Cursor.ahead_eq_peek_cons stopped.cursor]
      exact List.mem_append_right _ List.mem_cons_self
    have hclean : errorsAt stopped.cursor.peek.span reports = [] := h.resolve_right fun h => h.1 hbefore
    obtain ⟨issue, hissue, rfl⟩ := hblind htag
    refine .inr ⟨(hmoved.trans hfurther).not_mem_ahead hapart (List.mem_append_right _ hpassed), issue, hissue, ?_⟩
    rw [errorsAt_append, hclean, List.nil_append]
    exact (errorsAt_cons_self herror notes).trans (congrArg _ hnone)
  · refine (h.moved (hmoved.trans hfurther)).append ?_
    have hother : error.span ≠ lexeme.span := fun heq => hsame <|
      hapart.eq_of_start_eq hpeek hmem (by rw [← hspan, heq])
    rw [errorsAt_cons_of_ne hother, hnone]

/-- One round reports no lexeme twice that is not recognised. -/
private theorem Round.repeats (hapart : start.lexemes.AreApart) (hmem : lexeme ∈ start.lexemes.toList)
    (htag : lexeme.tag = .unrecognized) (hround : Round text before after) (h : before.Repeats lexeme start earlier) :
    after.Repeats lexeme start earlier := by
  obtain ⟨hlexemes, hrun, more, hmore, honce⟩ := h
  rw [← hlexemes] at hapart hmem
  have hknown : ∀ other ∈ before.state.cursor.lexemes.toList, other.tag ≠ .unrecognized →
      other.span.start ≠ lexeme.span.start := fun other hother hknown hstart =>
    hknown (hapart.eq_of_start_eq hother hmem hstart ▸ htag)
  have hjoin : ∀ a b : Span, a.start ≠ lexeme.span.start → b.start ≠ lexeme.span.start →
      (a.join b).start ≠ lexeme.span.start := by
    intro a b ha hb
    rcases Nat.le_total a.start b.start with hle | hle
    · exact (Nat.min_eq_left hle).trans_ne ha
    · exact (Nat.min_eq_right hle).trans_ne hb
  refine ⟨hround.lexemes.trans hlexemes,
    hround.forall_run (fun other hother _ => hknown other hother) hjoin hrun, ?_⟩
  cases hround with
  | unrecognized hpeek => exact ⟨more, hmore, honce.moved (Cursor.moved_advance (by simp [hpeek]))⟩
  | stray hend => exact ⟨more, hmore, honce.moved (Cursor.moved_advance hend)⟩
  | @report run _ state part =>
    refine ⟨more ++ [(StatementIssue.expectedStatement part).diagnostic run], ?_, honce.append ?_⟩
    · rw [← List.append_assoc, ← hmore]
      exact Diagnostics.toList_report _ _
    · exact errorsAt_eq_nil (List.forall_mem_singleton.2 fun _ hspan => hrun run rfl (congrArg Span.start hspan))
  | @statement _ _ _ _ _ after _ hread =>
    obtain ⟨reports, hreports, hexplains⟩ := hread.reports
    refine ⟨more ++ reports, by rw [hreports, hmore, List.append_assoc], (honce.moved hread.moved).append ?_⟩
    rcases hexplains with ⟨rfl, -⟩ | ⟨error, rfl, -, -, -, hspan, hpeek⟩
    · rfl
    · refine errorsAt_eq_nil (List.forall_mem_singleton.2 fun _ heq => ?_)
      refine hknown _ (hread.moved.lexemes ▸ after.cursor.peek_mem) hpeek ?_
      rw [← hspan, heq]
  | @failure _ _ stopped _ _ hstopped hskipped =>
    obtain ⟨reports, hreports, hexplains⟩ := hstopped.reports
    have hfailed := honce.failure hapart hmem htag hstopped hskipped hexplains
    rcases hskipped.reports with heq | ⟨last, -, heq, -⟩
    · exact ⟨more ++ reports, by rw [heq, hreports, hmore, List.append_assoc], hfailed⟩
    · -- What is skipped is told in a note.
      refine ⟨more ++ reports ++ [StatementIssue.skipped.diagnostic (stopped.cursor.peek.span.join last.span)], ?_,
        hfailed.append (errorsAt_eq_nil ?_)⟩
      · rw [heq, Diagnostics.toList_report, hreports, hmore, List.append_assoc, List.append_assoc, List.append_assoc]
      · exact List.forall_mem_singleton.2 fun herror => by cases herror

private theorem repeats_of_rounds (hapart : start.lexemes.AreApart) (hmem : lexeme ∈ start.lexemes.toList)
    (htag : lexeme.tag = .unrecognized) (hrounds : Relation.ReflTransGen (Round text) before after)
    (h : before.Repeats lexeme start earlier) : after.Repeats lexeme start earlier := by
  induction hrounds with
  | refl => exact h
  | tail _ hround ih => exact hround.repeats hapart hmem htag ih

/-! ### Sources -/

namespace Source

private theorem areApart_lexemes (name : String) (content : List Char) : (ofContent name content).lexemes.AreApart := by
  rw [Lexemes.AreApart, List.Nodup, List.pairwise_map]
  exact (pairwise_lexemes name content).imp fun h => Nat.ne_of_lt h.1

/-- A lexeme that is not recognised is reported once before the statements are read. -/
private theorem errorsAt_lexicalDiagnostics (name : String) (content : List Char)
    (hmem : lexeme ∈ (ofContent name content).lexemes.toList) (htag : lexeme.tag = .unrecognized) :
    ∃ part, sliceOf (ofContent name content).text lexeme.span = .ok part ∧
      errorsAt lexeme.span (ofContent name content).lexicalDiagnostics.toList
        = [⟨.error, lexeme.span, unrecognizedMessage part⟩] := by
  obtain ⟨part, hspelled⟩ := exists_spelled_of_mem _ hmem
  have hreport : ⟨.error, lexeme.span, unrecognizedMessage part⟩
      ∈ (ofContent name content).lexicalDiagnostics.toList := by
    rw [toList_lexicalDiagnostics]
    exact List.mem_filterMap.2 ⟨_, hspelled, if_pos htag⟩
  refine ⟨part, sliceOf_of_mem_spelledLexemes name content hspelled, errorsAt_eq_singleton ?_ hreport rfl⟩
  -- The spans are those of some of the lexemes.
  have hspans := congrArg (List.map Prod.snd) (ofContent name content).lexicalDiagnostics_eq
  rw [List.map_map, List.map_map] at hspans
  have hnodup : ((ofContent name content).lexemes.toList.map (·.span)).Nodup := by
    refine List.Nodup.of_map Span.start ?_
    rw [List.map_map]
    exact areApart_lexemes name content
  have hsublist : List.Sublist ((ofContent name content).lexicalDiagnostics.toList.map (·.span))
      ((ofContent name content).lexemes.toList.map (·.span)) := hspans ▸ List.filter_sublist.map _
  exact hnodup.sublist hsublist

/-- A lexeme that is not recognised carries the error that says so, and one more at most: that of a missing closer, of a
missing type and value of a variable, or of too deep an expression. -/
theorem exists_errorsAt_unrecognized (name : String) (content : List Char) :
    ∃ statements reports, (ofContent name content).statements = (.done statements, reports) ∧
      ∀ lexeme ∈ (ofContent name content).lexemes.toList, lexeme.tag = .unrecognized →
        ∃ part, sliceOf (ofContent name content).text lexeme.span = .ok part ∧
          (errorsAt lexeme.span reports.toList = [⟨.error, lexeme.span, unrecognizedMessage part⟩] ∨
            ∃ issue : StatementIssue, issue.IsBlind ∧ errorsAt lexeme.span reports.toList
              = [⟨.error, lexeme.span, unrecognizedMessage part⟩, issue.diagnostic lexeme.span]) := by
  obtain ⟨cursor, statements, after, hlexemes, -, hstatements, -, hrounds⟩ := exists_rounds (areIn_lexemes name content)
  refine ⟨statements.toList, after.diagnostics, hstatements, fun lexeme hmem htag => ?_⟩
  have hstart : ReadingState.Repeats lexeme cursor (ofContent name content).lexicalDiagnostics
      ⟨none, #[], .start cursor (ofContent name content).lexicalDiagnostics⟩ :=
    ⟨rfl, fun _ hmem => absurd hmem (Option.not_mem_none _), [], (List.append_nil _).symm, .inl rfl⟩
  obtain ⟨-, -, more, hmore, honce⟩ :=
    repeats_of_rounds (hlexemes ▸ areApart_lexemes name content) (hlexemes ▸ hmem) htag hrounds hstart
  obtain ⟨part, hpart, hlexical⟩ := errorsAt_lexicalDiagnostics name content hmem htag
  have hmore : after.diagnostics.toList = _ ++ more := hmore
  refine ⟨part, hpart, ?_⟩
  rw [hmore, errorsAt_append, hlexical]
  rcases honce with hnone | ⟨-, issue, hissue, hone⟩
  · exact .inl (by rw [hnone, List.append_nil])
  · exact .inr ⟨issue, hissue, by rw [hone, List.singleton_append]⟩

/-- What is not recognised in `(1 @;` is reported again where the closer is missing. -/
example : errorsAt { start := 3, stop := 4 } (ofContent "" ['(', '1', ' ', '@', ';']).statements.2.toList
    = [⟨.error, { start := 3, stop := 4 }, unrecognizedMessage ['@']⟩,
      (StatementIssue.expectedCloser .rparen (.lexeme ['@'])).diagnostic { start := 3, stop := 4 }] := by
  decide +kernel

end Source

end ExprLang
