import ExprLang.Proofs.Reading.Passive
import ExprLang.Proofs.Reading.Precedence

/-!
# What a reader leaves behind

Whatever a reader does, it only moves forward and adds to what has been reported, and it does so without a look at
what has been reported before (`Reader.IsSteady`).  An expression or a statement that is read, or given up, leaves
nothing else behind, so what comes next depends on the place of the cursor alone
(`Source.calls_leave_no_trace`).
-/

namespace ExprLang

namespace Diagnostics

variable {diagnostics : Diagnostics}

/-- Further reports after some diagnostics. -/
def followedBy (diagnostics : Diagnostics) (reports : List Diagnostic) : Diagnostics :=
  reports.foldl report diagnostics

private theorem followedBy_append (reports more : List Diagnostic) :
    diagnostics.followedBy (reports ++ more) = (diagnostics.followedBy reports).followedBy more :=
  List.foldl_append

end Diagnostics

/-- The same state with other diagnostics. -/
def ReaderState.withDiagnostics (state : ReaderState) (diagnostics : Diagnostics) : ReaderState :=
  { state with diagnostics }

namespace Reader

/-- Whether a reader moves forward and adds to the reports, in a way that does not depend on the reports before. -/
def IsSteady {α : Type} (reader : Reader α) : Prop :=
  ∀ state : ReaderState, ∃ (outcome : Outcome α) (after : ReaderState) (passed : List Lexeme)
    (reports : List Diagnostic), state.cursor.Moved after.cursor passed ∧ ∀ earlier : Diagnostics,
      reader (state.withDiagnostics earlier) = (outcome, after.withDiagnostics (earlier.followedBy reports))

/-! ### Ways of putting readers together -/

section

variable {α β : Type} {reader first : Reader α} {next : α → Reader β}

theorem IsSteady.moved (h : reader.IsSteady) (state : ReaderState) :
    ∃ passed, state.cursor.Moved (reader state).2.cursor passed := by
  obtain ⟨outcome, after, passed, reports, hmoved, hrun⟩ := h state
  have hstate : reader state = _ := hrun state.diagnostics
  rw [hstate]
  exact ⟨passed, hmoved⟩

/-- A reader that ends where it is, and reports nothing, is steady. -/
private theorem isSteady_of_still (outcome : ReaderState → Outcome α) (change : ReaderState → ReaderState)
    (hcursor : ∀ state, (change state).cursor = state.cursor)
    (hrun : ∀ state earlier, reader (state.withDiagnostics earlier)
      = (outcome state, (change state).withDiagnostics earlier)) : reader.IsSteady :=
  fun state => ⟨outcome state, change state, [], [], by rw [hcursor]; exact .refl _, hrun state⟩

theorem isSteady_pure (value : α) : IsSteady (pure value : Reader α) :=
  isSteady_of_still (fun _ => .done value) id (fun _ => rfl) fun _ _ => rfl

private theorem isSteady_raise (cause : Fault) : IsSteady (Stage.raise cause : Reader α) :=
  isSteady_of_still (fun _ => .fault cause) id (fun _ => rfl) fun _ _ => rfl

/-- What is observed does not depend on what has been reported. -/
theorem isSteady_observe {f : ReaderState → α} (h : ∀ state earlier, f (state.withDiagnostics earlier) = f state) :
    IsSteady (Stage.observe f) :=
  isSteady_of_still (fun state => .done (f state)) id (fun _ => rfl) fun state earlier => by
    rw [Stage.observe, h]
    rfl

theorem IsSteady.bind (h : first.IsSteady) (hnext : ∀ value, (next value).IsSteady) :
    (first >>= next).IsSteady := by
  intro state
  obtain ⟨outcome, middle, passed, reports, hmoved, hrun⟩ := h state
  cases outcome with
  | done value =>
    obtain ⟨outcome, after, further, more, hfurther, hafter⟩ := hnext value middle
    refine ⟨outcome, after, _, reports ++ more, hmoved.trans hfurther, fun earlier => ?_⟩
    rw [Stage.bind_of_done (hrun earlier), hafter, Diagnostics.followedBy_append]
  | failed => exact ⟨.failed, middle, passed, reports, hmoved, fun earlier => by rw [Stage.bind_apply, hrun]⟩
  | fault cause => exact ⟨.fault cause, middle, passed, reports, hmoved, fun earlier => by rw [Stage.bind_apply, hrun]⟩

/-- What is changed around a reader and put back has nothing to do with the cursor and the reports. -/
private theorem IsSteady.around {save : ReaderState → β} {enter : ReaderState → ReaderState}
    {leave : β → ReaderState → ReaderState} (h : reader.IsSteady)
    (hsave : ∀ state earlier, save (state.withDiagnostics earlier) = save state)
    (henter : ∀ state earlier, enter (state.withDiagnostics earlier) = (enter state).withDiagnostics earlier)
    (hleave : ∀ saved state earlier,
      leave saved (state.withDiagnostics earlier) = (leave saved state).withDiagnostics earlier)
    (hcursor : ∀ state, (enter state).cursor = state.cursor)
    (hcursor' : ∀ saved state, (leave saved state).cursor = state.cursor) :
    IsSteady (Stage.around save enter leave reader) := by
  intro state
  obtain ⟨outcome, after, passed, reports, hmoved, hrun⟩ := h (enter state)
  refine ⟨outcome, leave (save state) after, passed, reports, ?_, fun earlier => ?_⟩
  · rwa [hcursor', ← hcursor state]
  · rw [Stage.around, henter, hrun, hsave]
    simp only [hleave]

end

/-! ### Steps -/

variable {text : List Char} {α : Type}

/-- At the end of the file the cursor stays where it is. -/
private theorem isSteady_next : next.IsSteady := by
  intro state
  obtain ⟨passed, hmoved⟩ : ∃ passed, state.cursor.Moved state.cursor.advance passed := by
    by_cases hend : state.cursor.peek.tag = .endOfFile
    · rw [Cursor.advance_of_endOfFile hend]
      exact ⟨[], .refl _⟩
    · exact ⟨_, Cursor.moved_advance hend⟩
  exact ⟨.done state.cursor.peek, { state with cursor := state.cursor.advance }, passed, [], hmoved, fun _ => rfl⟩

/-- Whether a reader moves over the next lexeme first. -/
def BeginsWithNext (reader : Reader α) : Prop :=
  ∃ rest : Lexeme → Reader α, (∀ lexeme, (rest lexeme).IsSteady) ∧ reader = next >>= rest

private theorem BeginsWithNext.isSteady {reader : Reader α} (h : reader.BeginsWithNext) : reader.IsSteady := by
  obtain ⟨rest, hrest, rfl⟩ := h
  exact isSteady_next.bind hrest

/-- Steps that build nothing are steady, and so is what they are put together to. -/
theorem IsPassive.isSteady {reader : Reader α} (h : reader.IsPassive) : reader.IsSteady := by
  induction h with
  | pure value => exact isSteady_pure value
  | fail => exact isSteady_of_still (fun _ => .failed) id (fun _ => rfl) fun _ _ => rfl
  | raise cause => exact isSteady_raise cause
  | observe h => exact isSteady_observe h
  | next => exact isSteady_next
  | report span issue => exact fun state => ⟨.done (), state, [], [issue.diagnostic span], .refl _, fun _ => rfl⟩
  | bind _ _ ih ihFollowing => exact ih.bind ihFollowing

/-! ### Expressions -/

private theorem isSteady_pushNode (op : Operator) (arity : Nat) (span : Span) : (pushNode op arity span).IsSteady := by
  refine (isSteady_observe fun _ _ => rfl).bind fun depths => ?_
  cases takeDepths arity 0 depths with
  | none => exact isSteady_raise .underflow
  | some taken =>
    obtain ⟨deepest, left⟩ := taken
    have hchange : IsSteady (Stage.change fun state : ReaderState => { state with depths := left }) :=
      isSteady_of_still (fun _ => .done ()) (fun state => { state with depths := left }) (fun _ => rfl) fun _ _ => rfl
    refine hchange.bind fun _ => ?_
    split
    · exact isPassive_tooDeep.isSteady
    · exact isSteady_of_still (fun _ => .done ()) (fun state => { state with
        depths := (deepest + 1) :: state.depths
        nodes := state.nodes.push { operator := op, arity, span } }) (fun _ => rfl) fun _ _ => rfl

section

variable {operand : Level → ReadingContext → Reader Unit} (hoperand : ∀ level context, (operand level context).IsSteady)
include hoperand

private theorem isSteady_readOperands (opener : Lexeme) (limit count : Nat) :
    (readOperands operand opener limit count).IsSteady := by
  induction limit generalizing count with
  | zero => exact isSteady_pure count
  | succ limit ih =>
    refine (hoperand _ _).bind fun _ => (isPassive_eat? _).isSteady.bind fun comma => ?_
    cases comma with
    | some _ => exact ih (count + 1)
    | none => exact isSteady_pure (count + 1)

/-- An operator is read from its leading lexeme on; only the span of what it goes on with may be looked up before. -/
theorem build_begins (op : Operator) : (build text operand op).BeginsWithNext ∨ op.shape.isOpening = false ∧
    ∃ rest : Span → Reader Unit, (∀ span, (rest span).BeginsWithNext) ∧ build text operand op = lastSpan >>= rest := by
  have hoperands : ∀ opener {next : Nat → Reader Unit}, (∀ count, (next count).IsSteady) →
      (remaining >>= fun limit => readOperands operand opener limit 0 >>= next).IsSteady := fun opener _ hnext =>
    isPassive_remaining.isSteady.bind fun _ => (isSteady_readOperands hoperand opener _ 0).bind hnext
  have hclose : ∀ {closer opener} {span : Lexeme → Span} {arity : Nat}, (expectCloser text closer opener >>=
      fun closing => pushNode op arity (span closing)).IsSteady :=
    (isPassive_expectCloser _ _).isSteady.bind fun _ => isSteady_pushNode _ _ _
  rw [build]
  split
  case h_1 => exact .inl ⟨_, fun _ => isSteady_pushNode _ _ _, rfl⟩
  case h_2 =>
    refine .inl ⟨_, fun _ => (hoperand _ _).bind fun _ => ?_, rfl⟩
    exact isPassive_lastSpan.isSteady.bind fun _ => isSteady_pushNode _ _ _
  case h_3 => exact .inl ⟨_, fun _ => isPassive_lastSpan.isSteady.bind fun _ => isSteady_pushNode _ _ _, rfl⟩
  case h_4 => exact .inl ⟨_, fun _ => (hoperand _ _).bind fun _ => hclose, rfl⟩
  case h_5 hshape =>
    refine .inr ⟨by rw [hshape]; rfl, _, fun _ => ⟨_, fun _ => ?_, rfl⟩, rfl⟩
    cases op.level.tighter? with
    | none => exact isSteady_raise _
    | some level => exact (hoperand _ _).bind fun _ => isPassive_lastSpan.isSteady.bind fun _ => isSteady_pushNode _ _ _
  case h_6 =>
    refine .inl ⟨_, fun opener => (isPassive_isAt _).isSteady.bind fun closed => ?_, rfl⟩
    cases closed with
    | true => exact (isSteady_pure 0).bind fun _ => hclose
    | false => exact hoperands opener fun _ => hclose
  case h_7 hshape =>
    exact .inr ⟨by rw [hshape]; rfl, _, fun _ => ⟨_, fun opener => hoperands opener fun _ => hclose, rfl⟩, rfl⟩

private theorem isSteady_build (op : Operator) : (build text operand op).IsSteady := by
  have hbegins : (build text operand op).BeginsWithNext ∨ _ := build_begins hoperand op
  rcases hbegins with h | ⟨-, rest, hrest, heq⟩
  · exact h.isSteady
  · rw [heq]
    exact isPassive_lastSpan.isSteady.bind fun span => (hrest span).isSteady

theorem isSteady_extend (min : Level) (limit : Nat) : (extend text operand min limit).IsSteady := by
  induction limit with
  | zero => exact isSteady_pure ()
  | succ limit ih =>
    refine isPassive_peek.isSteady.bind fun lexeme => ?_
    cases Operator.leading? false min lexeme.tag with
    | some op => exact (isSteady_build hoperand op).bind fun _ => ih
    | none => exact isSteady_pure ()

private theorem isSteady_scan (min : Level) (context : ReadingContext) : (scan text operand min context).IsSteady := by
  refine isPassive_peek.isSteady.bind fun lexeme => ?_
  cases Operator.leading? true min lexeme.tag with
  | some op =>
    refine (isSteady_build hoperand op).bind fun _ => ?_
    exact isPassive_remaining.isSteady.bind fun _ => isSteady_extend hoperand min _
  | none => exact ((isPassive_reportMissing context).bind fun _ => .fail).isSteady

end

theorem isSteady_readOperand (room : Nat) (min : Level) (context : ReadingContext) :
    (readOperand text room min context).IsSteady := by
  induction room generalizing min context with
  | zero => exact isPassive_tooDeep.isSteady
  | succ room ih =>
    exact (isSteady_scan ih min context).around (fun _ _ => rfl) (fun _ _ => rfl) (fun _ _ _ => rfl) (fun _ => rfl)
      fun _ _ => rfl

private theorem isSteady_readExpression (min : Level) : (readExpression text min).IsSteady := by
  refine IsSteady.around ?_ (fun _ _ => rfl) (fun _ _ => rfl) (fun _ _ _ => rfl) (fun _ => rfl) fun _ _ => rfl
  refine (isSteady_observe fun _ _ => rfl).bind fun nesting => ?_
  exact (isSteady_readOperand _ min .start).bind fun _ => isSteady_observe fun _ _ => rfl

/-! ### Statements -/

private theorem isSteady_readAfter (mark : Mark) : (readAfter text mark).IsSteady := by
  refine (isPassive_eat? _).isSteady.bind fun sign => ?_
  cases sign with
  | some _ => exact (isSteady_readExpression _).bind fun _ => isSteady_pure _
  | none => exact isSteady_pure none

theorem beginsWithNext_readBinding : (readBinding text).BeginsWithNext := by
  refine ⟨_, fun _ => ?_, rfl⟩
  refine (isPassive_expect _ _).isSteady.bind fun _ => (isSteady_readAfter _).bind fun type => ?_
  refine (isPassive_expect _ _).isSteady.bind fun _ => (isSteady_readExpression _).bind fun _ => ?_
  refine (isPassive_expectTerminator _).isSteady.bind fun _ => ?_
  cases type with
  | some type => exact isSteady_pure _
  | none => exact isSteady_pure _

theorem beginsWithNext_readVariable : (readVariable text).BeginsWithNext := by
  refine ⟨_, fun _ => ?_, rfl⟩
  refine (isPassive_expect _ _).isSteady.bind fun _ => (isSteady_readAfter _).bind fun type => ?_
  refine (isSteady_readAfter _).bind fun value => ?_
  cases value <|> type with
  | some last => exact ((isPassive_expectTerminator _).bind fun _ => isPassive_ofExcept _).isSteady
  | none =>
    exact isPassive_peek.isSteady.bind fun lexeme => IsPassive.isSteady <|
      (isPassive_found lexeme).bind fun _ => .bind (.report _ _) fun _ => .fail

private theorem isSteady_readDiscarded : (readDiscarded text).IsSteady :=
  (isSteady_readExpression _).bind fun _ => (isPassive_expectTerminator _).isSteady.bind fun _ => isSteady_pure _

private theorem isSteady_readStatement : (readStatement text).IsSteady := by
  refine isPassive_peek.isSteady.bind fun lexeme => ?_
  split
  · exact beginsWithNext_readBinding.isSteady
  · exact beginsWithNext_readVariable.isSteady
  · exact isSteady_readDiscarded

/-! ### Calls -/

/-- The readers that are called on their own. -/
inductive IsCall (text : List Char) : {α : Type} → Reader α → Prop
  | expression (min : Level) : IsCall text (readExpression text min)
  | statement : IsCall text (readStatement text)

private theorem IsCall.isSteady {reader : Reader α} (h : reader.IsCall text) : reader.IsSteady := by
  cases h with
  | expression min => exact isSteady_readExpression min
  | statement => exact isSteady_readStatement

/-- A call is done or fails, and puts everything back that it has used to build expressions. -/
private theorem IsCall.meets {reader : Reader α} (h : reader.IsCall text) {state : ReaderState}
    (htext : state.cursor.lexemes.AreIn text) :
    reader.Meets state
      (fun _ after => after.nodes = state.nodes ∧ after.depths = state.depths ∧ after.nesting = state.nesting)
      fun after => after.nodes = state.nodes ∧ after.depths = state.depths ∧ after.nesting = state.nesting := by
  have hfailed : ∀ after, state.HasStopped after →
      after.nodes = state.nodes ∧ after.depths = state.depths ∧ after.nesting = state.nesting :=
    fun _ hstopped => ⟨hstopped.nodes, hstopped.depths, hstopped.nesting⟩
  cases h with
  | expression min =>
    refine (readExpression_meets htext min).mono ?_ hfailed
    rintro _ after ⟨phrase, -, -, hbuilt⟩
    exact ⟨hbuilt.nodes_eq, hbuilt.depths, hbuilt.nesting⟩
  | statement =>
    refine (readStatement_meets htext).mono ?_ hfailed
    rintro _ after ⟨clause, skipped, semicolon, -, hread⟩
    exact ⟨hread.nodes, hread.depths, hread.nesting⟩

/-- However a call ends, it ends in no fault and has put everything back. -/
private theorem IsCall.restores {reader : Reader α} (h : reader.IsCall text) {state after : ReaderState}
    {outcome : Outcome α} (htext : state.cursor.lexemes.AreIn text) (hread : reader state = (outcome, after)) :
    (∀ cause, outcome ≠ .fault cause) ∧ after.nodes = state.nodes ∧ after.depths = state.depths ∧
      after.nesting = state.nesting := by
  rcases (h.meets htext).cases with ⟨value, last, hlast, hsame⟩ | ⟨last, hlast, hsame⟩
  all_goals
    obtain ⟨rfl, rfl⟩ := Prod.mk.inj (hread.symm.trans hlast)
    exact ⟨fun cause => by simp, hsame⟩

end Reader

/-- Whether a reader is building nothing. -/
structure ReaderState.IsIdle (state : ReaderState) : Prop where
  nodes : state.nodes = #[]
  depths : state.depths = []
  nesting : state.nesting = 0

private theorem Cursor.Moved.position {before after : Cursor} {passed : List Lexeme} (h : before.Moved after passed) :
    after.position = before.position + passed.length := by
  have hremaining := h.remaining
  have hbefore := before.position_lt
  have hafter := after.position_lt
  rw [Cursor.remaining, Cursor.remaining, h.lexemes] at hremaining
  rw [h.lexemes] at hafter
  omega

/-- All that tells idle readers of the same lexemes apart is where they are and what has been reported. -/
private theorem ReaderState.IsIdle.eq_withDiagnostics {first second : ReaderState} (hfirst : first.IsIdle)
    (hsecond : second.IsIdle) (hlexemes : second.cursor.lexemes = first.cursor.lexemes)
    (hposition : second.cursor.position = first.cursor.position) :
    second = first.withDiagnostics second.diagnostics := by
  obtain ⟨⟨lexemes, _, position, _⟩, reports, nodes, depths, nesting⟩ := first
  obtain ⟨⟨lexemes', _, position', _⟩, reports', nodes', depths', nesting'⟩ := second
  obtain ⟨rfl, rfl, rfl⟩ := hfirst
  obtain ⟨rfl, rfl, rfl⟩ := hsecond
  obtain rfl : lexemes' = lexemes := hlexemes
  obtain rfl : position' = position := hposition
  rfl

namespace Source

variable {name : String} {content : List Char} {state : ReaderState}

/-- Between two calls a reader is idle. -/
private theorem ReachesReader.isIdle (h : (ofContent name content).ReachesReader state) : state.IsIdle := by
  have hcall : ∀ {α : Type} {reader : Reader α} {before after outcome},
      reader.IsCall (ofContent name content).text → (ofContent name content).ReachesReader before → before.IsIdle →
      reader before = (outcome, after) → after.IsIdle := by
    intro α reader before after outcome hcall hbefore hidle hread
    have htext := areIn_lexemes name content
    rw [← hbefore.lexemes] at htext
    obtain ⟨-, hnodes, hdepths, hnesting⟩ := hcall.restores htext hread
    exact ⟨hnodes.trans hidle.nodes, hdepths.trans hidle.depths, hnesting.trans hidle.nesting⟩
  induction h with
  | start => exact ⟨rfl, rfl, rfl⟩
  | expression hbefore hread ih => exact hcall (.expression _) hbefore ih hread
  | statement hbefore hread ih => exact hcall .statement hbefore ih hread

/-- Whatever has been called before, a call of a reader is done or fails, leaves the reader idle and has not moved it
back; and another reader that has come to the same place in whatever way comes by the same call to the same result, to
the same place and to the same further reports. -/
theorem calls_leave_no_trace {α : Type} {reader : Reader α} (hcall : reader.IsCall (ofContent name content).text)
    (hreaches : (ofContent name content).ReachesReader state) :
    ∃ (outcome : Outcome α) (after : ReaderState) (reports : List Diagnostic),
      (∀ cause, outcome ≠ .fault cause) ∧ after.IsIdle ∧
      after.cursor.lexemes = state.cursor.lexemes ∧ state.cursor.position ≤ after.cursor.position ∧
      ∀ other : ReaderState, (ofContent name content).ReachesReader other →
        other.cursor.position = state.cursor.position →
        reader other = (outcome, after.withDiagnostics (other.diagnostics.followedBy reports)) := by
  obtain ⟨outcome, after, passed, reports, hmoved, hrun⟩ := hcall.isSteady state
  have hidle := hreaches.isIdle
  have htext := areIn_lexemes name content
  rw [← hreaches.lexemes] at htext
  have hread : reader state = _ := hrun state.diagnostics
  obtain ⟨hfault, hnodes, hdepths, hnesting⟩ := hcall.restores htext hread
  refine ⟨outcome, after, reports, hfault, ?_, hmoved.lexemes, ?_, fun other hother hposition => ?_⟩
  · exact ⟨hnodes.trans hidle.nodes, hdepths.trans hidle.depths, hnesting.trans hidle.nesting⟩
  · rw [hmoved.position]
    exact Nat.le_add_right _ _
  · rw [hidle.eq_withDiagnostics hother.isIdle (by rw [hother.lexemes, hreaches.lexemes]) hposition]
    exact hrun other.diagnostics

/-- The parenthesis of `(a!b;` is not closed. -/
private def unclosed : Source :=
  ofContent "" ['(', 'a', '!', 'b', ';']

/-- The statement `!b;` there. -/
private def negation : Statement :=
  .discarded ⟨#[⟨.name, 0, ⟨3, 4, Nat.le_add_right 3 1⟩⟩, ⟨.unary .not, 1, ⟨2, 4, Nat.le_add_right 2 2⟩⟩]⟩

/-- Whether two expressions have been given up at the negation, or only one, the same statement is read there. -/
theorem calls_leave_no_trace_negation : ∃ (first second after : ReaderState) (reports : List Diagnostic),
    unclosed.ReachesReader first ∧ unclosed.ReachesReader second ∧
    first.diagnostics.toList.length = 2 ∧ second.diagnostics.toList.length = 3 ∧
    first.cursor.position = 2 ∧ second.cursor.position = 2 ∧ after.IsIdle ∧ after.cursor.position = 5 ∧
    Reader.readStatement unclosed.text first
      = (.done negation, after.withDiagnostics (first.diagnostics.followedBy reports)) ∧
    Reader.readStatement unclosed.text second
      = (.done negation, after.withDiagnostics (second.diagnostics.followedBy reports)) := by
  let start : ReaderState := .start ⟨unclosed.lexemes, unclosed.isClosed_lexemes, 0, by cbv⟩ .none
  have hstart : unclosed.ReachesReader start := .start .none (dif_pos unclosed.isClosed_lexemes)
  let first := (Reader.readExpression unclosed.text .primary start).2
  let second := (Reader.readExpression unclosed.text .primary first).2
  have hfirst : unclosed.ReachesReader first := .expression hstart rfl
  have hsecond : unclosed.ReachesReader second := .expression hfirst rfl
  have hplace : first.cursor.position = 2 := by decide +kernel
  have hplace' : second.cursor.position = 2 := by decide +kernel
  obtain ⟨outcome, after, reports, -, hidle, -, -, hrun⟩ := calls_leave_no_trace .statement hfirst
  have hread : Reader.readStatement unclosed.text first = _ := hrun first hfirst rfl
  have hread' : Reader.readStatement unclosed.text second = _ := hrun second hsecond (hplace'.trans hplace.symm)
  have hdone : (Reader.readStatement unclosed.text first).1 = .done negation := by decide +kernel
  have hend : (Reader.readStatement unclosed.text first).2.cursor.position = 5 := by decide +kernel
  rw [hread] at hdone hend
  obtain rfl : outcome = .done negation := hdone
  exact ⟨first, second, after, reports, hfirst, hsecond, by decide +kernel, by decide +kernel, hplace, hplace', hidle,
    hend, hread, hread'⟩

end Source

end ExprLang
