import ExprLang.Proofs.Comparison.Expressions
import ExprLang.Proofs.Reading.Rounds

/-!
# Statements side by side

Readers in step read corresponding statements, or both fail.  Only the semicolon at the end of a statement may take them
beyond what they have in common, and what is skipped after a failure ends with that semicolon as well, so the readers
reach the same place in both cases (`Comparison.bind_readStatement_matches`).
-/

namespace ExprLang

/-- Whether a reader may go on to read statements, at most `limit` lexemes of a text. -/
structure ReaderState.IsReady (text : List Char) (limit : Nat) (state : ReaderState) : Prop where
  text : state.cursor.lexemes.AreIn text
  remaining_le : state.cursor.remaining ≤ limit
  nodes : state.nodes = #[]
  depths : state.depths = []
  nesting : state.nesting = 0

namespace ReaderState.IsReady

variable {state stopped after : ReaderState} {text : List Char} {limit : Nat}

private theorem advance (h : state.IsReady text (limit + 1)) (hend : state.cursor.peek.tag ≠ .endOfFile) :
    { state with cursor := state.cursor.advance }.IsReady text limit := by
  have hmoved := Cursor.moved_advance hend
  have hremaining := hmoved.remaining
  have := h.remaining_le
  rw [List.length_singleton] at hremaining
  refine ⟨?_, by dsimp only; omega, h.nodes, h.depths, h.nesting⟩
  rw [hmoved.lexemes]
  exact h.text

private theorem of_hasRead (h : state.IsReady text (limit + 1)) {clause : Clause} {skipped : List Lexeme}
    {semicolon : Option Lexeme} (hread : state.HasRead clause skipped semicolon after) : after.IsReady text limit := by
  have hless := Reader.remaining_lt_of_hasRead hread
  have := h.remaining_le
  refine ⟨?_, by omega, hread.nodes.trans h.nodes, hread.depths.trans h.depths, hread.nesting.trans h.nesting⟩
  rw [hread.moved.lexemes]
  exact h.text

private theorem of_hasSkipped (h : state.IsReady text (limit + 1)) (hend : state.cursor.peek.tag ≠ .endOfFile)
    (hstopped : state.HasStopped stopped) (hskipped : stopped.HasSkipped after) : after.IsReady text limit := by
  have hless := Reader.remaining_lt_of_hasSkipped hend hstopped hskipped
  have := h.remaining_le
  obtain ⟨_, hmoved⟩ := hstopped.moved
  obtain ⟨_, hfurther, -⟩ := hskipped.moved
  refine ⟨?_, by omega, (hskipped.nodes.trans hstopped.nodes).trans h.nodes,
    (hskipped.depths.trans hstopped.depths).trans h.depths,
    (hskipped.nesting.trans hstopped.nesting).trans h.nesting⟩
  rw [(hmoved.trans hfurther).lexemes]
  exact h.text

end ReaderState.IsReady

namespace Comparison

variable (C : Comparison)

/-- Whether two statements correspond. -/
inductive RelatesStatement : Statement → Statement → Prop
  | letTyped {name name' type type' value value' span span'} (hname : C.lexemeSpans name name')
      (htype : C.RelatesExpression type type') (hvalue : C.RelatesExpression value value')
      (hspan : C.spans span span') :
      RelatesStatement (.letTyped name type value span) (.letTyped name' type' value' span')
  | letPlain {name name' value value' span span'} (hname : C.lexemeSpans name name')
      (hvalue : C.RelatesExpression value value') (hspan : C.spans span span') :
      RelatesStatement (.letPlain name value span) (.letPlain name' value' span')
  | var {name name' type type' value value' span span' hparts hparts'} (hname : C.lexemeSpans name name')
      (htype : Option.Rel C.RelatesExpression type type') (hvalue : Option.Rel C.RelatesExpression value value')
      (hspan : C.spans span span') :
      RelatesStatement (.var name type value span hparts) (.var name' type' value' span' hparts')
  | discarded {value value'} (hvalue : C.RelatesExpression value value') :
      RelatesStatement (.discarded value) (.discarded value')

/-- Whether two readers are in step, or have moved over the last semicolon of what they have in common. -/
abbrev Reached : ReaderState → ReaderState → Prop :=
  C.Relates fun l k => C.RelatesAhead l k ∨ C.beyond = some (l, k)

variable {C} {state other : ReaderState} {α β : Type} {Q : α → ReaderState → β → ReaderState → Prop}
  {F : ReaderState → ReaderState → Prop} {text text' : List Char}

private theorem InStep.reached (h : C.InStep state other) : C.Reached state other :=
  { h with ahead := .inl h.ahead }

/-- Readers in step move over the next lexeme together, and thereby reach what lies beyond if it is the last one. -/
private theorem InStep.reached_advance (h : C.InStep state other) (hend : state.cursor.peek.tag ≠ .endOfFile) :
    C.Reached { state with cursor := state.cursor.advance } { other with cursor := other.cursor.advance } := by
  have hend' : other.cursor.peek.tag ≠ .endOfFile := by
    rwa [← (InStep.peek h).tag]
  have hahead := h.ahead
  rw [(Cursor.moved_advance hend).ahead, (Cursor.moved_advance hend').ahead] at hahead
  exact ⟨hahead.tail_or_beyond hend, h.nodes, h.depths, h.nesting, h.reports⟩

/-! ### Parts of statements -/

private theorem bind_expect_matches (h : C.InStep state other) {tag : Tag} (hend : tag ≠ .endOfFile)
    (hsemi : tag ≠ .mark .semi) (expectation : Expectation) {first : Lexeme → Reader α} {second : Lexeme → Reader β}
    (hnext : ∀ lexeme lexeme' after last, C.RelatesLexeme lexeme lexeme' → C.InStep after last →
      (first lexeme).Matches after (second lexeme') last Q C.InStep) :
    (Reader.expect text tag expectation >>= first).Matches state (Reader.expect text' tag expectation >>= second) other
      Q C.InStep := by
  refine Stage.Matches.bind (R := fun lexeme after lexeme' last => C.RelatesLexeme lexeme lexeme' ∧
    C.InStep after last) ?_ fun lexeme after lexeme' last h => hnext lexeme lexeme' after last h.1 h.2
  refine bind_eat?_matches (InStep.within h) hend hsemi ?_ ?_
  · exact fun lexeme lexeme' after last hlexeme hafter => Stage.matches_pure ⟨hlexeme, hafter.toRelates⟩
  · have htag := (InStep.peek h).tag
    refine Stage.matches_observe_bind.2 ?_
    simp only [htag]
    split
    · exact bind_found_matches htag fun found found' => .failed (InStep.reported h _ _ (by rfl))
    · exact Stage.matches_fail h

private theorem bind_readExpression_matches (h : C.InStep state other) (min : Level) {first : Expression → Reader α}
    {second : Expression → Reader β}
    (hnext : ∀ expr expr' after last, C.RelatesExpression expr expr' → C.InStep after last →
      (first expr).Matches after (second expr') last Q C.InStep) :
    (Reader.readExpression text min >>= first).Matches state (Reader.readExpression text' min >>= second) other Q
      C.InStep := by
  have hwithin := InStep.within h
  obtain ⟨n, m, hn, hm⟩ := hwithin.exists_succ
  rw [hn, hm] at hwithin
  refine (readExpression_matches hwithin min).bind fun expr after expr' last hafter => ?_
  exact hnext expr expr' after last hafter.1 hafter.2.toRelates

private theorem bind_readAfter_matches (h : C.InStep state other) {mark : Mark} (hsemi : mark ≠ .semi)
    {first : Option Expression → Reader α} {second : Option Expression → Reader β}
    (hnext : ∀ expr expr' after last, Option.Rel C.RelatesExpression expr expr' → C.InStep after last →
      (first expr).Matches after (second expr') last Q C.InStep) :
    (Reader.readAfter text mark >>= first).Matches state (Reader.readAfter text' mark >>= second) other Q C.InStep := by
  refine Stage.Matches.bind (R := fun expr after expr' last => Option.Rel C.RelatesExpression expr expr' ∧
    C.InStep after last) ?_ fun expr after expr' last h => hnext expr expr' after last h.1 h.2
  refine bind_eat?_matches (InStep.within h) (by simp) (by simpa using hsemi) (fun _ _ after last _ hafter => ?_) ?_
  · refine bind_readExpression_matches hafter.toRelates .nested fun expr expr' after last hexpr hafter => ?_
    exact Stage.matches_pure ⟨.some hexpr, hafter⟩
  · exact Stage.matches_pure ⟨.none, h⟩

private theorem skipUnrecognized_matches {n m : Nat} (h : C.Within n m state other) :
    (Reader.skipUnrecognized n).Matches state (Reader.skipUnrecognized m) other
      (fun _ after _ last => C.InStep after last) F := by
  induction n generalizing m state other with
  | zero =>
    obtain ⟨_, _, hzero, -⟩ := h.exists_succ
    cases hzero
  | succ n ih =>
    obtain ⟨_, m, -, rfl⟩ := h.exists_succ
    have htag := (InStep.peek h.toRelates).tag
    refine Stage.matches_observe_bind.2 ?_
    rw [InStep.isAt h.toRelates]
    split
    · rename_i hat
      have hknown : state.cursor.peek.tag = .unrecognized := htag.trans (of_decide_eq_true hat)
      exact bind_next_matches h (by simp [hknown]) (by simp [hknown]) fun _ _ after last _ hafter => ih hafter
    · exact Stage.matches_pure h.toRelates

/-- Both readers find the semicolon at the end of a statement, or none does. -/
private theorem bind_expectTerminator_matches (h : C.InStep state other) {span span' : Span}
    (hspan : C.spans span span') {first : Span → Reader α} {second : Span → Reader β}
    (hnext : ∀ span span' after last, C.spans span span' → C.Reached after last →
      (first span).Matches after (second span') last Q F) :
    (Reader.expectTerminator text span >>= first).Matches state (Reader.expectTerminator text' span' >>= second) other
      Q F := by
  refine Stage.Matches.bind (R := fun span after span' last => C.spans span span' ∧ C.Reached after last) ?_
    fun span after span' last h => hnext span span' after last h.1 h.2
  refine Stage.matches_observe_bind.2 (Stage.matches_observe_bind.2 ?_)
  rw [InStep.isAt h]
  refine (skipUnrecognized_matches (InStep.within h)).bind fun _ skipped _ skipped' hskipped => ?_
  have hpeek := InStep.peek hskipped
  by_cases hsemi : skipped.cursor.peek.tag = .mark .semi
  · rw [Stage.Matches, Stage.bind_of_done (Reader.eat?_of_tag hsemi),
      Stage.bind_of_done (Reader.eat?_of_tag (hpeek.tag.symm.trans hsemi))]
    have hjoin := C.spans_join hspan hpeek.spans
    exact .done ⟨hjoin, InStep.reached_advance hskipped (by simp [hsemi])⟩
  · rw [Stage.Matches, Stage.bind_of_done (Reader.eat?_of_ne hsemi),
      Stage.bind_of_done (Reader.eat?_of_ne fun heq => hsemi (hpeek.tag.trans heq))]
    refine Stage.matches_observe_bind.2 ?_
    split
    · exact bind_found_matches hpeek.tag fun found found' =>
        .done ⟨hspan, InStep.reached (InStep.reported hskipped _ _ (by rfl))⟩
    · exact Stage.matches_pure ⟨hspan, InStep.reached hskipped⟩

/-! ### Statements -/

private theorem readBinding_matches (h : C.InStep state other) (hkeyword : state.cursor.peek.tag = .keyword .let_) :
    (Reader.readBinding text).Matches state (Reader.readBinding text') other
      (fun statement after statement' last => C.RelatesStatement statement statement' ∧ C.Reached after last)
      C.InStep := by
  have hwithin := InStep.within h
  obtain ⟨n, m, hn, hm⟩ := hwithin.exists_succ
  rw [hn, hm] at hwithin
  unfold Reader.readBinding
  refine bind_next_matches hwithin (by simp [hkeyword]) (by simp [hkeyword]) fun keyword keyword' _ _ hkeyword h => ?_
  refine bind_expect_matches h.toRelates (by simp) (by simp) _ fun name name' _ _ hname h => ?_
  refine bind_readAfter_matches h (by simp) fun type type' _ _ htype h => ?_
  refine bind_expect_matches h (by simp) (by simp) _ fun _ _ _ _ _ h => ?_
  refine bind_readExpression_matches h .nested fun value value' _ _ hvalue h => ?_
  have hspan := C.spans_join hkeyword.spans hvalue.span
  refine bind_expectTerminator_matches h hspan fun span span' _ _ hspan h => ?_
  cases htype with
  | some htype => exact Stage.matches_pure ⟨.letTyped hname.span htype hvalue hspan, h⟩
  | none => exact Stage.matches_pure ⟨.letPlain hname.span hvalue hspan, h⟩

private theorem readVariable_matches (h : C.InStep state other) (hkeyword : state.cursor.peek.tag = .keyword .var) :
    (Reader.readVariable text).Matches state (Reader.readVariable text') other
      (fun statement after statement' last => C.RelatesStatement statement statement' ∧ C.Reached after last)
      C.InStep := by
  have hwithin := InStep.within h
  obtain ⟨n, m, hn, hm⟩ := hwithin.exists_succ
  rw [hn, hm] at hwithin
  unfold Reader.readVariable
  refine bind_next_matches hwithin (by simp [hkeyword]) (by simp [hkeyword]) fun keyword keyword' _ _ hkeyword h => ?_
  refine bind_expect_matches h.toRelates (by simp) (by simp) _ fun name name' _ _ hname h => ?_
  refine bind_readAfter_matches h (by simp) fun type type' _ _ htype h => ?_
  refine bind_readAfter_matches h (by simp) fun value value' _ _ hvalue h => ?_
  have hlast : ∀ {last last' : Expression}, C.RelatesExpression last last' →
      C.spans (keyword.span.join last.span) (keyword'.span.join last'.span) := fun hlast =>
    C.spans_join hkeyword.spans hlast.span
  cases hvalue with
  | some hvalue =>
    refine bind_expectTerminator_matches h (hlast hvalue) fun span span' _ _ hspan h => ?_
    cases htype with
    | some htype => exact .done ⟨.var hname.span (.some htype) (.some hvalue) hspan, h⟩
    | none => exact .done ⟨.var hname.span .none (.some hvalue) hspan, h⟩
  | none =>
    cases htype with
    | some htype =>
      refine bind_expectTerminator_matches h (hlast htype) fun span span' _ _ hspan h => ?_
      exact .done ⟨.var hname.span (.some htype) .none hspan, h⟩
    | none =>
      refine Stage.matches_observe_bind.2 (bind_found_matches (InStep.peek h).tag fun found found' => ?_)
      exact .failed (InStep.reported h _ _ (by rfl))

private theorem readDiscarded_matches (h : C.InStep state other) :
    (Reader.readDiscarded text).Matches state (Reader.readDiscarded text') other
      (fun statement after statement' last => C.RelatesStatement statement statement' ∧ C.Reached after last)
      C.InStep := by
  unfold Reader.readDiscarded
  refine bind_readExpression_matches h .assignment fun value value' _ _ hvalue h => ?_
  refine bind_expectTerminator_matches h hvalue.span fun _ _ _ _ _ h => ?_
  exact Stage.matches_pure ⟨.discarded hvalue, h⟩

/-- Readers in step read corresponding statements, or both fail. -/
private theorem readStatement_matches (h : C.InStep state other) :
    (Reader.readStatement text).Matches state (Reader.readStatement text') other
      (fun statement after statement' last => C.RelatesStatement statement statement' ∧ C.Reached after last)
      C.InStep := by
  unfold Reader.readStatement
  refine Stage.matches_observe_bind.2 ?_
  rw [← (InStep.peek h).tag]
  split
  · exact readBinding_matches h ‹_›
  · exact readVariable_matches h ‹_›
  · exact readDiscarded_matches h

/-! ### Recovery -/

/-- What is skipped ends with the same semicolon for both readers, or with the end of the file. -/
private theorem skipStatement_matches {n m : Nat} (h : C.Within n m state other) {last last' : Option Span}
    (hlast : last.isSome = last'.isSome) :
    (Reader.skipStatement n last).Matches state (Reader.skipStatement m last') other
      (fun result after result' last => result.isSome = result'.isSome ∧ C.Reached after last) F := by
  induction n generalizing m state other last last' with
  | zero =>
    obtain ⟨_, _, hzero, -⟩ := h.exists_succ
    cases hzero
  | succ n ih =>
    obtain ⟨_, m, -, rfl⟩ := h.exists_succ
    have htag := (InStep.peek h.toRelates).tag
    unfold Reader.skipStatement
    refine Stage.matches_observe_bind.2 ?_
    rw [← htag]
    by_cases hend : state.cursor.peek.tag = .endOfFile
    · rw [if_pos hend, if_pos hend]
      exact Stage.matches_pure ⟨hlast, InStep.reached h.toRelates⟩
    · rw [if_neg hend, if_neg hend]
      by_cases hsemi : state.cursor.peek.tag = .mark .semi
      · simp only [if_pos hsemi]
        exact .done ⟨rfl, InStep.reached_advance h.toRelates hend⟩
      · simp only [if_neg hsemi]
        exact bind_next_matches h hend hsemi fun _ _ _ _ _ hafter => ih hafter rfl

private theorem synchronize_matches (h : C.InStep state other) :
    Reader.synchronize.Matches state Reader.synchronize other (fun _ after _ last => C.Reached after last) F := by
  unfold Reader.synchronize
  refine Stage.matches_observe_bind.2 (Stage.matches_observe_bind.2 ?_)
  refine (skipStatement_matches (InStep.within h) rfl).bind ?_
  rintro result after result' last ⟨hsome, hafter⟩
  match result, result', hsome with
  | none, none, _ => exact Stage.matches_pure hafter
  | some _, some _, _ => exact .done { hafter with reports := C.reports_report _ _ hafter.reports rfl }

/-! ### All statements -/

variable (C) in
/-- Whether readers stay related if each reports a run of lexemes, or none. -/
def RelatesRun (run run' : Option Span) : Prop :=
  run.isSome = run'.isSome ∨ ∀ first second, C.reports first second

private theorem bind_reportRun_matches (h : C.reports state.diagnostics other.diagnostics) {run run' : Option Span}
    (hrun : C.RelatesRun run run') {first : Unit → Reader α} {second : Unit → Reader β}
    (hnext : ∀ reports reports', C.reports reports reports' →
      (first ()).Matches { state with diagnostics := reports } (second ()) { other with diagnostics := reports' } Q F) :
    (Reader.reportRun text run >>= first).Matches state (Reader.reportRun text' run' >>= second) other Q F := by
  refine Stage.Matches.bind (R := fun _ after _ last => ∃ reports reports', C.reports reports reports' ∧
    after = { state with diagnostics := reports } ∧ last = { other with diagnostics := reports' }) ?_ ?_
  · match run, run', hrun with
    | none, none, _ => exact .done ⟨_, _, h, rfl, rfl⟩
    | some _, some _, _ =>
      exact Stage.matches_ofExcept_bind fun _ _ => .done ⟨_, _, C.reports_report _ _ h (by rfl), rfl, rfl⟩
    | some span, none, .inr hany =>
      show (Stage.ofExcept (sliceOf text span) >>= fun part => Reader.report span (.expectedStatement part)).Matches
        state (Stage.ofExcept (.ok ()) >>= fun _ => (pure () : Reader Unit)) other _ _
      exact Stage.matches_ofExcept_bind fun _ _ => .done ⟨_, _, hany _ _, rfl, rfl⟩
    | none, some span, .inr hany =>
      show (Stage.ofExcept (.ok ()) >>= fun _ => (pure () : Reader Unit)).Matches state
        (Stage.ofExcept (sliceOf text' span) >>= fun part => Reader.report span (.expectedStatement part)) other _ _
      exact Stage.matches_ofExcept_bind fun _ _ => .done ⟨_, _, hany _ _, rfl, rfl⟩
  · rintro _ _ _ _ ⟨reports, reports', hreports, rfl, rfl⟩
    exact hnext reports reports' hreports

variable (C) in
/-- Whether two readers may go on to read statements. -/
structure Proceeds (text text' : List Char) (n m : Nat) (state other : ReaderState) : Prop
    extends C.Reached state other where
  left : state.IsReady text n
  right : other.IsReady text' m

variable {n m : Nat} {statements statements' : Array Statement}

/-- Readers that are ready may proceed if their lexemes and reports correspond. -/
theorem Proceeds.of_isReady (hleft : state.IsReady text n) (hright : other.IsReady text' m)
    (hahead : C.RelatesAhead state.cursor.ahead other.cursor.ahead)
    (hreports : C.reports state.diagnostics other.diagnostics) : C.Proceeds text text' n m state other where
  ahead := .inl hahead
  nodes := by
    rw [hleft.nodes, hright.nodes]
    exact .nil
  depths := hleft.depths.trans hright.depths.symm
  nesting := hleft.nesting.trans hright.nesting.symm
  reports := hreports
  left := hleft
  right := hright

private theorem Proceeds.advance (h : C.Proceeds text text' (n + 1) (m + 1) state other) (hstep : C.InStep state other)
    (hend : state.cursor.peek.tag ≠ .endOfFile) :
    C.Proceeds text text' n m { state with cursor := state.cursor.advance }
      { other with cursor := other.cursor.advance } :=
  ⟨InStep.reached_advance hstep hend, h.left.advance hend, h.right.advance ((InStep.peek hstep).tag ▸ hend)⟩

variable {S : Array Statement → Array Statement → Prop}

/-- Readers in step read corresponding statements, or give up a statement and reach the same place. -/
private theorem bind_readStatement_matches (h : C.Proceeds text text' (n + 1) (m + 1) state other)
    (hstep : C.InStep state other) (hstart : state.cursor.peek.tag.startsStatement = true)
    (hpush : ∀ {statement statement'}, C.RelatesStatement statement statement' →
      S (statements.push statement) (statements'.push statement'))
    (hsame : S statements statements') {first : Array Statement → Reader α} {second : Array Statement → Reader β}
    (hnext : ∀ result result' after last, S result result' → C.Proceeds text text' n m after last →
      (first result).Matches after (second result') last Q F) :
    (Stage.attempt (Reader.readStatement text) >>= fun
      | some statement => first (statements.push statement)
      | none => Reader.synchronize >>= fun _ => first statements).Matches state
    (Stage.attempt (Reader.readStatement text') >>= fun
      | some statement => second (statements'.push statement)
      | none => Reader.synchronize >>= fun _ => second statements') other Q F := by
  have hread := (readStatement_matches hstep).and_meets (Reader.readStatement_meets h.left.text)
    (Reader.readStatement_meets h.right.text)
  refine hread.attempt_bind ?_ ?_
  · rintro statement after statement' last ⟨⟨hstatement, hafter⟩, ⟨_, _, _, -, hleft⟩, ⟨_, _, _, -, hright⟩⟩
    exact hnext _ _ after last (hpush hstatement) ⟨hafter, h.left.of_hasRead hleft, h.right.of_hasRead hright⟩
  · rintro stopped stopped' ⟨hstopped, hleft, hright⟩
    have hend : state.cursor.peek.tag ≠ .endOfFile := fun hend => by
      rw [hend] at hstart
      cases hstart
    have hsynchronize := (synchronize_matches (F := fun _ _ => False) hstopped).and_meets Reader.synchronize_meets
      Reader.synchronize_meets
    refine Stage.Matches.bind (hsynchronize.mono (fun _ _ _ _ h => h) fun _ _ h => h.1.elim) ?_
    rintro _ after _ last ⟨hafter, hskipped, hskipped'⟩
    refine hnext _ _ after last hsame ⟨hafter, h.left.of_hasSkipped hend hleft hskipped, ?_⟩
    exact h.right.of_hasSkipped ((InStep.peek hstep).tag ▸ hend) hright hskipped'

/-- Readers that go on match if they do so beyond what they have in common, and at the end of the file. -/
theorem readStatements_matches {Q : Array Statement → ReaderState → Array Statement → ReaderState → Prop}
    (hpush : ∀ {statements statements' statement statement'}, S statements statements' →
      C.RelatesStatement statement statement' → S (statements.push statement) (statements'.push statement'))
    (hend : ∀ {statements statements' after last}, C.beyond = none → S statements statements' →
      C.reports after.diagnostics last.diagnostics → Q statements after statements' last)
    (hbeyond : ∀ {n m state other run run' statements statements'},
      C.beyond = some (state.cursor.ahead, other.cursor.ahead) → C.Proceeds text text' n m state other →
      C.RelatesRun run run' → S statements statements' →
      (Reader.readStatements text n run statements).Matches state (Reader.readStatements text' m run' statements') other
        Q F)
    (h : C.Proceeds text text' n m state other) {run run' : Option Span} (hrun : C.RelatesRun run run')
    (hsame : S statements statements') :
    (Reader.readStatements text n run statements).Matches state (Reader.readStatements text' m run' statements') other
      Q F := by
  -- The limit of the first reader goes down; that of the second is large enough because this reader is ready, too.
  induction n generalizing m state other run run' statements statements' with
  | zero =>
    have := state.cursor.remaining_pos
    have := h.left.remaining_le
    omega
  | succ n ih =>
    rcases h.ahead with hahead | hpast
    · obtain ⟨m, rfl⟩ : ∃ fewer, m = fewer + 1 := by
        have := other.cursor.remaining_pos
        have := h.right.remaining_le
        exact ⟨m - 1, by omega⟩
      have hstep : C.InStep state other := { h with ahead := hahead }
      unfold Reader.readStatements
      refine Stage.matches_observe_bind.2 ?_
      simp only [← (InStep.peek hstep).tag]
      by_cases htag : state.cursor.peek.tag = .endOfFile
      · rw [if_pos htag, if_pos htag]
        refine bind_reportRun_matches h.reports hrun fun _ _ hreports => .done (hend ?_ hsame hreports)
        rw [Cursor.ahead_eq_peek_cons, Cursor.ahead_eq_peek_cons] at hahead
        exact hahead.beyond_eq_none htag
      rw [if_neg htag, if_neg htag]
      have hadvance := h.advance hstep htag
      by_cases hknown : state.cursor.peek.tag = .unrecognized
      · rw [if_pos hknown, if_pos hknown]
        exact ih hadvance hrun hsame
      rw [if_neg hknown, if_neg hknown]
      cases hstart : state.cursor.peek.tag.startsStatement with
      | false => exact ih hadvance (.inl rfl) hsame
      | true =>
        refine bind_reportRun_matches h.reports hrun fun reports reports' hreports => ?_
        have hreported : C.Proceeds text text' (n + 1) (m + 1) { state with diagnostics := reports }
            { other with diagnostics := reports' } :=
          ⟨⟨h.ahead, h.nodes, h.depths, h.nesting, hreports⟩, { h.left with }, { h.right with }⟩
        refine bind_readStatement_matches hreported { hstep with reports := hreports } hstart (hpush hsame) hsame ?_
        exact fun result result' after last hresult hafter => ih hafter (.inl rfl) hresult
    · exact hbeyond hpast h hrun hsame

end Comparison

end ExprLang
