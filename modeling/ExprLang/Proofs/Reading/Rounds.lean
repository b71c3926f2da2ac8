import Mathlib.Logic.Relation
import ExprLang.Proofs.Reading.Statements
import ExprLang.Proofs.Text.Boundaries

/-!
# Rounds

Reading all statements goes in rounds.  What one round can do is said once (`Round`); the whole reading is a
chain of rounds up to the end of the file (`readStatements_meets`), so that an invariant of one round is one of
the whole.
-/

namespace ExprLang

/-- Whether a reader has skipped the rest of a statement, which it reports if there is any. -/
structure ReaderState.HasSkipped (before after : ReaderState) : Prop where
  moved : ∃ passed, before.cursor.Moved after.cursor passed ∧ (passed = [] → before.cursor.peek.tag = .endOfFile)
  nodes : after.nodes = before.nodes
  depths : after.depths = before.depths
  nesting : after.nesting = before.nesting
  reports : after.diagnostics = before.diagnostics ∨ ∃ last ∈ before.cursor.lexemes.toList,
    after.diagnostics
      = before.diagnostics.report (StatementIssue.skipped.diagnostic (before.cursor.peek.span.join last.span)) ∧
    before.cursor.peek.tag ≠ .endOfFile ∧ last.tag ≠ .endOfFile

/-- What there is between two rounds: a run that has not been reported, and the statements so far. -/
structure ReadingState where
  run : Option Span
  statements : Array Statement
  state : ReaderState

/-- One round of reading statements. -/
inductive Round (text : List Char) : ReadingState → ReadingState → Prop
  /-- A lexeme that is not recognised is passed. -/
  | unrecognized {run statements state} (htag : state.cursor.peek.tag = .unrecognized) :
      Round text ⟨run, statements, state⟩ ⟨run, statements, { state with cursor := state.cursor.advance }⟩
  /-- A lexeme that no statement begins with joins the run. -/
  | stray {run statements state} (hend : state.cursor.peek.tag ≠ .endOfFile)
      (hknown : state.cursor.peek.tag ≠ .unrecognized) (hstart : state.cursor.peek.tag.startsStatement = false) :
      Round text ⟨run, statements, state⟩
        ⟨some (run.elim state.cursor.peek.span (·.join state.cursor.peek.span)), statements,
          { state with cursor := state.cursor.advance }⟩
  /-- The run is reported at the end of the file or before a statement. -/
  | report {run statements state part} (hslice : sliceOf text run = .ok part)
      (hnext : state.cursor.peek.tag = .endOfFile ∨ state.cursor.peek.tag.startsStatement = true) :
      Round text ⟨some run, statements, state⟩
        ⟨none, statements, Reader.reported state run (.expectedStatement part)⟩
  /-- A statement is read. -/
  | statement {statements state clause skipped semicolon after}
      (hstart : state.cursor.peek.tag.startsStatement = true) (hread : state.HasRead clause skipped semicolon after) :
      Round text ⟨none, statements, state⟩
        ⟨none, statements.push (clause.toStatement (clause.spanWith semicolon)), after⟩
  /-- A statement is given up, and the rest of it is skipped. -/
  | failure {statements state stopped after} (hstart : state.cursor.peek.tag.startsStatement = true)
      (hstopped : state.HasStopped stopped) (hskipped : stopped.HasSkipped after) :
      Round text ⟨none, statements, state⟩ ⟨none, statements, after⟩

/-! ### What a round does -/

/-- Where a round reports: at the run, at a lexeme, or from one lexeme before the end of the file to another. -/
inductive ReadingState.ReportsAt (text : List Char) (before : ReadingState) : Span → Prop
  | run {span part} (hrun : span ∈ before.run) (hslice : sliceOf text span = .ok part) : before.ReportsAt text span
  | lexeme {lexeme} (hmem : lexeme ∈ before.state.cursor.lexemes.toList) : before.ReportsAt text lexeme.span
  | skipped {first last} (hfirst : first ∈ before.state.cursor.lexemes.toList) (hnext : first.tag ≠ .endOfFile)
      (hlast : last ∈ before.state.cursor.lexemes.toList) (hend : last.tag ≠ .endOfFile) :
      before.ReportsAt text (first.span.join last.span)

namespace Round

variable {text : List Char} {before after : ReadingState}

theorem lexemes (hround : Round text before after) :
    after.state.cursor.lexemes = before.state.cursor.lexemes := by
  cases hround with
  | unrecognized => exact Cursor.lexemes_advance _
  | stray => exact Cursor.lexemes_advance _
  | report => rfl
  | statement _ hread => exact hread.moved.lexemes
  | failure _ hstopped hskipped =>
    obtain ⟨_, hmoved⟩ := hstopped.moved
    obtain ⟨_, hfurther, -⟩ := hskipped.moved
    exact (hmoved.trans hfurther).lexemes

/-- A round adds reports to those before. -/
theorem exists_reports (hround : Round text before after) :
    ∃ reports, after.state.diagnostics.toList = before.state.diagnostics.toList ++ reports ∧
      ∀ report ∈ reports, before.ReportsAt text report.span := by
  have hlexeme : ∀ {cursor : Cursor} {reports : List Diagnostic},
      cursor.lexemes = before.state.cursor.lexemes →
      (∀ report ∈ reports, ∃ lexeme ∈ cursor.lexemes.toList, report.span = lexeme.span) →
      ∀ report ∈ reports, before.ReportsAt text report.span := by
    intro cursor reports hsame hreports report hmem
    obtain ⟨lexeme, hlexeme, hspan⟩ := hreports report hmem
    rw [hspan]
    exact .lexeme (hsame ▸ hlexeme)
  cases hround with
  | unrecognized => exact ⟨[], (List.append_nil _).symm, fun _ hmem => absurd hmem List.not_mem_nil⟩
  | stray => exact ⟨[], (List.append_nil _).symm, fun _ hmem => absurd hmem List.not_mem_nil⟩
  | report hslice =>
    exact ⟨_, Diagnostics.toList_report _ _, List.forall_mem_singleton.2 (.run (Option.mem_some.2 rfl) hslice)⟩
  | statement _ hread =>
    obtain ⟨reports, hreports, hexplains⟩ := hread.reports
    exact ⟨reports, hreports, hlexeme hread.moved.lexemes hexplains.exists_lexeme⟩
  -- The reports are those of the reader that stopped, and that of what is skipped.
  | @failure _ _ stopped _ _ hstopped hskipped =>
    obtain ⟨_, hmoved⟩ := hstopped.moved
    obtain ⟨reports, hreports, hexplains⟩ := hstopped.reports
    have hstoppedReports := hlexeme hmoved.lexemes hexplains.exists_lexeme
    rcases hskipped.reports with heq | ⟨last, hlast, heq, hnext, hend⟩
    · exact ⟨reports, by rw [heq, hreports], hstoppedReports⟩
    · refine ⟨reports ++ [_], by rw [heq, Diagnostics.toList_report, hreports, List.append_assoc], ?_⟩
      rw [List.forall_mem_append, List.forall_mem_singleton]
      have hpeek := stopped.cursor.peek_mem
      rw [hmoved.lexemes] at hpeek hlast
      exact ⟨hstoppedReports, .skipped hpeek hnext hlast hend⟩

/-- What holds of the places of lexemes, and with two places of what joins them, holds of the run. -/
theorem forall_run {places : Span → Prop} (hround : Round text before after)
    (hlexemes : ∀ lexeme ∈ before.state.cursor.lexemes.toList, lexeme.tag ≠ .endOfFile →
      lexeme.tag ≠ .unrecognized → places lexeme.span)
    (hjoin : ∀ a b, places a → places b → places (a.join b)) (h : ∀ span ∈ before.run, places span) :
    ∀ span ∈ after.run, places span := by
  cases hround with
  | unrecognized => exact h
  | @stray run _ state hend hknown =>
    have hpeek := hlexemes _ state.cursor.peek_mem hend hknown
    intro span hspan
    rw [← Option.mem_some.1 hspan]
    cases run with
    | none => exact hpeek
    | some run => exact hjoin _ _ (h run rfl) hpeek
  | report => exact fun _ hmem => absurd hmem (Option.not_mem_none _)
  | statement => exact fun _ hmem => absurd hmem (Option.not_mem_none _)
  | failure => exact fun _ hmem => absurd hmem (Option.not_mem_none _)

end Round

namespace Reader

variable {text : List Char} {state : ReaderState}

/-! ### Recovery -/

/-- A statement is skipped to its end. -/
private theorem skipStatement_meets {limit : Nat} (hlimit : state.cursor.remaining ≤ limit) (last : Option Span) :
    (skipStatement limit last).Meets state
      (fun result after => ∃ passed, state.HasBuilt passed [] after ∧
        (passed = [] → state.cursor.peek.tag = .endOfFile ∧ result = last) ∧
        (passed ≠ [] → state.cursor.peek.tag ≠ .endOfFile ∧
          ∃ lexeme ∈ passed, lexeme.tag ≠ .endOfFile ∧ result = some lexeme.span))
      fun _ => False := by
  induction limit generalizing state last with
  | zero =>
    have := state.cursor.remaining_pos
    omega
  | succ limit ih =>
    have hpeek : peek state = (.done state.cursor.peek, state) := rfl
    rw [skipStatement, Stage.meets_bind_of_done hpeek]
    by_cases hend : state.cursor.peek.tag = .endOfFile
    · rw [if_pos hend]
      exact ⟨[], .refl state, fun _ => ⟨hend, rfl⟩, fun h => absurd rfl h⟩
    · have hbuilt := state.hasBuilt_advance hend
      have hremaining := hbuilt.moved.remaining
      rw [List.length_singleton] at hremaining
      rw [if_neg hend]
      show (next >>= _).Meets _ _ _
      rw [bind_next_meets]
      by_cases hsemi : state.cursor.peek.tag = .mark .semi
      · rw [if_pos hsemi]
        exact ⟨[state.cursor.peek], hbuilt, by simp,
          fun _ => ⟨hend, state.cursor.peek, List.mem_singleton_self _, hend, rfl⟩⟩
      · rw [if_neg hsemi]
        refine (ih (by omega) (some state.cursor.peek.span)).mono ?_ fun _ h => h
        rintro result after ⟨passed, hrest, hnil, hcons⟩
        refine ⟨state.cursor.peek :: passed, hbuilt.trans hrest, by simp, fun _ => ⟨hend, ?_⟩⟩
        by_cases hpassed : passed = []
        · exact ⟨state.cursor.peek, List.mem_cons_self, hend, (hnil hpassed).2⟩
        · obtain ⟨-, lexeme, hmem, htag, hresult⟩ := hcons hpassed
          exact ⟨lexeme, List.mem_cons_of_mem _ hmem, htag, hresult⟩

theorem synchronize_meets : synchronize.Meets state (fun _ after => state.HasSkipped after) fun _ => False := by
  have hpeek : peek state = (.done state.cursor.peek, state) := rfl
  have hremaining : remaining state = (.done state.cursor.remaining, state) := rfl
  rw [synchronize, Stage.meets_bind_of_done hpeek, Stage.meets_bind_of_done hremaining, Stage.meets_bind]
  refine (skipStatement_meets (Nat.le_refl _) none).mono ?_ fun _ h => h
  rintro result after ⟨passed, hbuilt, hnil, hcons⟩
  by_cases hpassed : passed = []
  · obtain ⟨hend, rfl⟩ := hnil hpassed
    exact ⟨⟨passed, hbuilt.moved, fun _ => hend⟩, hbuilt.nodes_eq, hbuilt.depths, hbuilt.nesting,
      .inl hbuilt.diagnostics⟩
  · obtain ⟨hend, last, hmem, htag, rfl⟩ := hcons hpassed
    have hreport := report_eq (state.cursor.peek.span.join last.span) .skipped after
    show (report _ _).Meets _ _ _
    rw [Stage.meets_of_done hreport]
    refine ⟨⟨passed, hbuilt.moved, fun h => absurd h hpassed⟩, hbuilt.nodes_eq, hbuilt.depths, hbuilt.nesting, .inr ?_⟩
    exact ⟨last, hbuilt.moved.mem hmem, by rw [reported, hbuilt.diagnostics], hend, htag⟩

/-! ### All statements -/

private theorem reportRun_bind_meets {run : Option Span} (hrun : ∀ span ∈ run, ∃ part, sliceOf text span = .ok part)
    (statements : Array Statement) (hnext : state.cursor.peek.tag = .endOfFile ∨
      state.cursor.peek.tag.startsStatement = true) {α : Type} {next : Unit → Reader α}
    {Q : α → ReaderState → Prop} {F : ReaderState → Prop}
    (hQ : ∀ after : ReaderState, after.cursor = state.cursor →
      Relation.ReflTransGen (Round text) ⟨run, statements, state⟩ ⟨none, statements, after⟩ →
      (next ()).Meets after Q F) :
    (reportRun text run >>= next).Meets state Q F := by
  rw [Stage.meets_bind]
  -- A run gives one more round, in which it is reported.
  cases run with
  | none => exact hQ state rfl .refl
  | some span =>
    obtain ⟨part, hpart⟩ := hrun span rfl
    have hreport := report_eq span (.expectedStatement part) state
    rw [reportRun, hpart]
    show (report _ _).Meets _ _ _
    rw [Stage.meets_of_done hreport]
    exact hQ _ rfl (.single (.report hpart hnext))

theorem remaining_lt_of_hasRead {clause : Clause} {skipped : List Lexeme} {semicolon : Option Lexeme}
    {after : ReaderState} (h : state.HasRead clause skipped semicolon after) :
    after.cursor.remaining < state.cursor.remaining := by
  have hremaining := h.moved.remaining
  have hpos := List.length_pos_iff.2 clause.lexemes_ne_nil
  rw [List.length_append, List.length_append] at hremaining
  omega

/-- When a statement is given up, at least one lexeme is passed. -/
theorem remaining_lt_of_hasSkipped {stopped after : ReaderState} (hend : state.cursor.peek.tag ≠ .endOfFile)
    (hstopped : state.HasStopped stopped) (hskipped : stopped.HasSkipped after) :
    after.cursor.remaining < state.cursor.remaining := by
  obtain ⟨passed, hmoved⟩ := hstopped.moved
  obtain ⟨further, hfurther, hnil⟩ := hskipped.moved
  have hremaining := (hmoved.trans hfurther).remaining
  -- If nothing was passed, the reader would still be at the lexeme that begins the statement.
  have hlength : 0 < (passed ++ further).length := by
    refine List.length_pos_iff.2 fun h => hend ?_
    obtain ⟨rfl, rfl⟩ := List.append_eq_nil_iff.1 h
    have hahead := hmoved.ahead
    rw [List.nil_append, Cursor.ahead_eq_peek_cons, Cursor.ahead_eq_peek_cons] at hahead
    rw [(List.cons.inj hahead).1]
    exact hnil rfl
  omega

/-- Trying to read a statement is one round. -/
private theorem attempt_bind_meets (htext : state.cursor.lexemes.AreIn text)
    (hstart : state.cursor.peek.tag.startsStatement = true) (statements : Array Statement) {α : Type}
    {next : Array Statement → Reader α} {Q : α → ReaderState → Prop} {F : ReaderState → Prop}
    (hnext : ∀ (result : Array Statement) (after : ReaderState), after.cursor.lexemes.AreIn text →
      after.cursor.remaining < state.cursor.remaining →
      Round text ⟨none, statements, state⟩ ⟨none, result, after⟩ → (next result).Meets after Q F) :
    (Stage.attempt (readStatement text) >>= fun
      | some statement => next (statements.push statement)
      | none => synchronize >>= fun _ => next statements).Meets state Q F := by
  rw [Stage.meets_bind, Stage.meets_attempt]
  refine (readStatement_meets htext).mono ?_ ?_
  · rintro _ after ⟨clause, skipped, semicolon, rfl, hread⟩
    refine hnext _ after ?_ (remaining_lt_of_hasRead hread) (.statement hstart hread)
    rwa [hread.moved.lexemes]
  · intro stopped hstopped
    show (synchronize >>= _).Meets _ _ _
    rw [Stage.meets_bind]
    refine synchronize_meets.mono ?_ fun _ h => h.elim
    intro _ after hskipped
    have hend : state.cursor.peek.tag ≠ .endOfFile := fun hend => by
      rw [hend] at hstart
      cases hstart
    refine hnext _ after ?_ (remaining_lt_of_hasSkipped hend hstopped hskipped) (.failure hstart hstopped hskipped)
    obtain ⟨_, hmoved⟩ := hstopped.moved
    obtain ⟨_, hfurther, -⟩ := hskipped.moved
    rwa [(hmoved.trans hfurther).lexemes]

/-- Reading all statements is a chain of rounds up to the end of the file. -/
theorem readStatements_meets (htext : state.cursor.lexemes.AreIn text) {run : Option Span}
    (hrun : ∀ span ∈ run, ∃ part, sliceOf text span = .ok part) {limit : Nat}
    (hlimit : state.cursor.remaining ≤ limit) (statements : Array Statement) :
    (readStatements text limit run statements).Meets state
      (fun result after => after.cursor.peek.tag = .endOfFile ∧
        Relation.ReflTransGen (Round text) ⟨run, statements, state⟩ ⟨none, result, after⟩)
      fun _ => False := by
  -- The rounds match the cases of the loop; all but the report of a run move the cursor.
  induction limit generalizing state run statements with
  | zero =>
    have := state.cursor.remaining_pos
    omega
  | succ limit ih =>
    have hpeek : peek state = (.done state.cursor.peek, state) := rfl
    rw [readStatements, Stage.meets_bind_of_done hpeek]
    by_cases hend : state.cursor.peek.tag = .endOfFile
    · rw [if_pos hend]
      refine reportRun_bind_meets hrun statements (.inl hend) fun after hcursor hrounds => ?_
      exact ⟨by rwa [hcursor], hrounds⟩
    have hbuilt := state.hasBuilt_advance hend
    have hremaining := hbuilt.moved.remaining
    rw [List.length_singleton] at hremaining
    rw [if_neg hend]
    by_cases hknown : state.cursor.peek.tag = .unrecognized
    · rw [if_pos hknown, bind_next_meets]
      refine (ih (areIn_of_hasBuilt htext hbuilt) hrun (by omega) statements).mono ?_ fun _ h => h
      rintro result after ⟨hafter, hrounds⟩
      exact ⟨hafter, .head (.unrecognized hknown) hrounds⟩
    rw [if_neg hknown]
    cases hstart : state.cursor.peek.tag.startsStatement with
    | false =>
      have hpart := htext _ state.cursor.peek_mem
      -- The run is extended, and still a part of the text.
      have hjoined : ∀ span ∈ some (run.elim state.cursor.peek.span (·.join state.cursor.peek.span)),
          ∃ part, sliceOf text span = .ok part := by
        intro span hmem
        rw [← Option.mem_some.1 hmem]
        cases run with
        | none => exact hpart
        | some run => exact exists_sliceOf_join (hrun run rfl) hpart
      have hrest := ih (areIn_of_hasBuilt htext hbuilt) hjoined (by omega) statements
      show (next >>= _).Meets _ _ _
      rw [bind_next_meets]
      cases run <;> exact hrest.mono (fun _ _ h => ⟨h.1, .head (.stray hend hknown hstart) h.2⟩) fun _ h => h
    | true =>
      show (reportRun text run >>= _).Meets _ _ _
      refine reportRun_bind_meets hrun statements (.inr hstart) fun reported hcursor hreported => ?_
      refine attempt_bind_meets (by rwa [hcursor]) (by rwa [hcursor]) statements
        fun result middle hmiddle hless hround => ?_
      have hnone : ∀ span ∈ (none : Option Span), ∃ part, sliceOf text span = .ok part := by simp
      rw [hcursor] at hless
      refine (ih hmiddle hnone (by omega) result).mono ?_ fun _ h => h
      rintro final after ⟨hafter, hrounds⟩
      exact ⟨hafter, hreported.trans (.head hround hrounds)⟩

/-- All statements of closed lexemes are read. -/
theorem readAll_meets (htext : state.cursor.lexemes.AreIn text) :
    (readAll text).Meets state
      (fun result after => after.cursor.peek.tag = .endOfFile ∧
        ∃ statements, result = statements.toList ∧
          Relation.ReflTransGen (Round text) ⟨none, #[], state⟩ ⟨none, statements, after⟩)
      fun _ => False := by
  have hremaining : remaining state = (.done state.cursor.remaining, state) := rfl
  have hnone : ∀ span ∈ (none : Option Span), ∃ part, sliceOf text span = .ok part := by simp
  rw [readAll, Stage.meets_bind_of_done hremaining, Stage.meets_bind]
  refine (readStatements_meets htext hnone (Nat.le_refl _) #[]).mono ?_ fun _ h => h
  rintro statements after ⟨hafter, hrounds⟩
  exact ⟨hafter, statements, rfl, hrounds⟩

end Reader

end ExprLang
