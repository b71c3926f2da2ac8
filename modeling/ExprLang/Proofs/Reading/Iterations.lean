import ExprLang.Proofs.Reading.Independence

/-!
# Iterations

Reading all statements repeats one round until the end of the file is reached (`Reader.readRound`), and an expression is
scanned by building one operator after the other (`Reader.Scans`).  Every round and every operator takes at least
the lexeme where it begins (`Reader.TakesNext`), so both come to an end before the lexemes do; the bounds on the
numbers of repetitions in the readers are never what ends them.  The main statement is `Source.reading_progresses`.
-/

namespace ExprLang

namespace Reader

variable {text : List Char} {α β : Type} {state : ReaderState} {operand : Level → ReadingContext → Reader Unit}

/-! ### Readers that take the next lexeme -/

/-- Whether a reader passes at least the next lexeme, however it ends. -/
def TakesNext (reader : Reader α) (state : ReaderState) : Prop :=
  ∃ further, state.cursor.Moved (reader state).2.cursor (state.cursor.peek :: further)

private theorem BeginsWithNext.takesNext {reader : Reader α} (h : reader.BeginsWithNext)
    (hend : state.cursor.peek.tag ≠ .endOfFile) : reader.TakesNext state := by
  obtain ⟨rest, hrest, rfl⟩ := h
  obtain ⟨further, hmoved⟩ := (hrest state.cursor.peek).moved { state with cursor := state.cursor.advance }
  exact ⟨further, (Cursor.moved_advance hend).trans hmoved⟩

private theorem TakesNext.bind {first : Reader α} {next : α → Reader β} (h : first.TakesNext state)
    (hnext : ∀ value, (next value).IsSteady) : TakesNext (first >>= next) state := by
  obtain ⟨further, hmoved⟩ := h
  rw [TakesNext, Stage.bind_apply]
  generalize first state = result at hmoved ⊢
  obtain ⟨outcome, middle⟩ := result
  cases outcome with
  | done value =>
    obtain ⟨more, hmore⟩ := (hnext value).moved middle
    exact ⟨further ++ more, hmoved.trans hmore⟩
  | failed => exact ⟨further, hmoved⟩
  | fault => exact ⟨further, hmoved⟩

private theorem TakesNext.exists_moved {reader : Reader α} {outcome : Outcome α} {after : ReaderState}
    (h : reader.TakesNext state) (hrun : reader state = (outcome, after)) :
    ∃ further, state.cursor.Moved after.cursor (state.cursor.peek :: further) := by
  rwa [TakesNext, hrun] at h

private theorem takesNext_peek_bind {next : Lexeme → Reader α} :
    (peek >>= next).TakesNext state ↔ (next state.cursor.peek).TakesNext state := Iff.rfl

/-- Every operator takes its leading lexeme. -/
private theorem build_takesNext (hoperand : ∀ level context, (operand level context).IsSteady) {op : Operator}
    (hleading : op.shape.leading = state.cursor.peek.tag)
    (hlast : op.shape.isOpening = false → ∃ span, lastSpan state = (.done span, state)) :
    (build text operand op).TakesNext state := by
  have hend : state.cursor.peek.tag ≠ .endOfFile := by
    rw [← hleading]
    exact op.leading_ne.1
  have hbegins : (build text operand op).BeginsWithNext ∨ _ := build_begins hoperand op
  rcases hbegins with hnext | ⟨hopening, rest, hrest, heq⟩
  · exact hnext.takesNext hend
  · obtain ⟨span, hspan⟩ := hlast hopening
    obtain ⟨further, hmoved⟩ := (hrest span).takesNext hend
    exact ⟨further, by rwa [heq, Stage.bind_of_done hspan]⟩

/-- An expression takes its first lexeme if an operator begins there. -/
private theorem readExpression_takesNext {min : Level} {op : Operator}
    (hfound : Operator.leading? true min state.cursor.peek.tag = some op) (hnesting : state.nesting < maxDepth) :
    (readExpression text min).TakesNext state := by
  obtain ⟨-, hopening, hleading⟩ := Operator.leading?_eq_some_iff.1 hfound
  obtain ⟨room, hroom⟩ : ∃ room, maxDepth - state.nesting = room + 1 := ⟨maxDepth - state.nesting - 1, by omega⟩
  have hsteady : ∀ level context, (readOperand text room level context).IsSteady := isSteady_readOperand room
  -- The state in which the first operand is read differs in nothing that the cursor depends on.
  let inner : ReaderState := { state with nodes := #[], depths := [], nesting := state.nesting + 1 }
  have hscan : (scan text (readOperand text room) min .start).TakesNext inner := by
    have hfound : Operator.leading? true min inner.cursor.peek.tag = some op := hfound
    rw [scan, takesNext_peek_bind, hfound]
    refine TakesNext.bind (build_takesNext hsteady hleading fun h => ?_) fun _ => ?_
    · rw [hopening] at h
      cases h
    · exact isPassive_remaining.isSteady.bind fun limit => isSteady_extend hsteady min limit
  have hread : (readOperand text (maxDepth - state.nesting) min .start).TakesNext
      { state with nodes := #[], depths := [] } := by
    rw [hroom]
    exact hscan
  exact hread.bind fun _ => isSteady_observe fun _ _ => rfl

/-- An expression begins with the first lexeme of a statement that is no keyword. -/
private theorem exists_leading?_of_startsStatement {tag : Tag} (hstart : tag.startsStatement = true)
    (hkeyword : ∀ keyword, tag ≠ .keyword keyword) : ∃ op, Operator.leading? true .assignment tag = some op := by
  have hexpression : tag.startsExpression = true := by
    rwa [Tag.startsStatement] at hstart
    exact hkeyword
  obtain ⟨op, -, hop⟩ := List.any_eq_true.1 hexpression
  rw [Bool.and_eq_true, decide_eq_true_eq] at hop
  exact ⟨op, Operator.leading?_eq_some_iff.2 ⟨Nat.zero_le _, hop⟩⟩

/-- An attempt to read a statement takes the lexeme that the statement begins with, even if it is given up. -/
private theorem readStatement_takesNext (hstart : state.cursor.peek.tag.startsStatement = true)
    (hnesting : state.nesting < maxDepth) : (readStatement text).TakesNext state := by
  have hend : state.cursor.peek.tag ≠ .endOfFile := fun hend => by
    rw [hend] at hstart
    cases hstart
  rw [readStatement, takesNext_peek_bind]
  split
  · exact beginsWithNext_readBinding.takesNext hend
  · exact beginsWithNext_readVariable.takesNext hend
  · rename_i hlet hvar
    obtain ⟨op, hfound⟩ := exists_leading?_of_startsStatement hstart fun keyword htag => by
      cases keyword with
      | let_ => exact hlet htag
      | var => exact hvar htag
    exact (readExpression_takesNext hfound hnesting).bind fun _ => (isPassive_expectTerminator _).isSteady.bind fun _ =>
      isSteady_pure _

/-! ### Operators of an expression -/

/-- Whether so many operators are built one after the other: the first begins an expression, and each further one goes
on with what has been read so far. -/
inductive Scans (text : List Char) (operand : Level → ReadingContext → Reader Unit) (min : Level)
    (state : ReaderState) : Nat → ReaderState → Prop
  | start : Scans text operand min state 0 state
  | operator {count before op after} (h : Scans text operand min state count before)
      (hfound : Operator.leading? (count == 0) min before.cursor.peek.tag = some op)
      (hbuild : build text operand op before = (.done (), after)) : Scans text operand min state (count + 1) after

/-- How a scan ends: after at least one operator, where no operator goes on; or where an operator could not be built,
or where no operator begins an expression. -/
inductive ScanEnds (text : List Char) (operand : Level → ReadingContext → Reader Unit) (min : Level)
    (state : ReaderState) : Outcome Unit → ReaderState → Prop
  | done {count after} (h : Scans text operand min state (count + 1) after)
      (hends : Operator.leading? false min after.cursor.peek.tag = none) :
      ScanEnds text operand min state (.done ()) after
  | failed {count before op after} (h : Scans text operand min state count before)
      (hfound : Operator.leading? (count == 0) min before.cursor.peek.tag = some op)
      (hbuild : build text operand op before = (.failed, after)) : ScanEnds text operand min state .failed after
  | missing {after} (hnone : Operator.leading? true min state.cursor.peek.tag = none) :
      ScanEnds text operand min state .failed after

section

variable {min : Level} {count : Nat} {before after : ReaderState} {op : Operator}

/-- The operators that have been built make up one phrase. -/
private theorem Scans.exists_phrase (hread : ReadsOperands text operand) (htext : state.cursor.lexemes.AreIn text)
    (h : Scans text operand min state (count + 1) after) :
    ∃ phrase : Phrase, phrase.IsBuilt after.cursor.peek.tag ∧ state.HasBuilt phrase.lexemes [phrase] after := by
  generalize htotal : count + 1 = total at h
  induction h generalizing count with
  | start => cases htotal
  | @operator done before op after h hfound hbuild ih =>
    obtain ⟨-, hopening, hleading⟩ := Operator.leading?_eq_some_iff.1 hfound
    cases done with
    | zero =>
      cases h
      have hmeets := build_meets_of_isOpening hread htext hopening hleading
      rw [Stage.meets_of_done hbuild] at hmeets
      obtain ⟨phrase, -, hphrase, hbuilt⟩ := hmeets
      exact ⟨phrase, hphrase, hbuilt⟩
    | succ done =>
      obtain ⟨left, hleft, hbefore⟩ := ih rfl
      have hmeets := build_meets_of_not_isOpening hread htext hleft hbefore hopening hleading
      rw [Stage.meets_of_done hbuild] at hmeets
      obtain ⟨⟨phrase, -, hphrase, hbuilt⟩, -⟩ := hmeets
      exact ⟨phrase, hphrase, hbuilt⟩

/-- The next operator takes its leading lexeme, and does not run into a fault. -/
private theorem Scans.next (hoperand : ∀ level context, (operand level context).IsSteady)
    (hread : ReadsOperands text operand) (htext : state.cursor.lexemes.AreIn text)
    (h : Scans text operand min state count before)
    (hfound : Operator.leading? (count == 0) min before.cursor.peek.tag = some op) :
    (build text operand op).TakesNext before ∧
      (build text operand op).Meets before (fun _ _ => True) fun _ => True := by
  obtain ⟨-, hopening, hleading⟩ := Operator.leading?_eq_some_iff.1 hfound
  cases count with
  | zero =>
    cases h
    refine ⟨build_takesNext hoperand hleading fun hnot => absurd (hopening.symm.trans hnot) (by simp), ?_⟩
    exact (build_meets_of_isOpening hread htext hopening hleading).mono (fun _ _ _ => trivial) fun _ _ => trivial
  | succ count =>
    obtain ⟨left, hleft, hbefore⟩ := h.exists_phrase hread htext
    refine ⟨build_takesNext hoperand hleading fun _ => ⟨_, lastSpan_of_hasBuilt [] hbefore⟩, ?_⟩
    exact (build_meets_of_not_isOpening hread htext hleft hbefore hopening hleading).mono
      (fun _ _ _ => trivial) fun _ _ => trivial

/-- There are no more operators than lexemes that have been passed. -/
private theorem Scans.exists_moved (hoperand : ∀ level context, (operand level context).IsSteady)
    (hread : ReadsOperands text operand) (htext : state.cursor.lexemes.AreIn text)
    (h : Scans text operand min state count after) :
    ∃ passed, state.cursor.Moved after.cursor passed ∧ count ≤ passed.length := by
  induction h with
  | start => exact ⟨[], .refl _, Nat.zero_le _⟩
  | @operator count before op after h hfound hbuild ih =>
    obtain ⟨passed, hmoved, hle⟩ := ih
    obtain ⟨further, hfurther⟩ := (h.next hoperand hread htext hfound).1.exists_moved hbuild
    refine ⟨_, hmoved.trans hfurther, ?_⟩
    rw [List.length_append, List.length_cons]
    omega

/-- What has been scanned goes on until no operator does. -/
private theorem extend_ends (hoperand : ∀ level context, (operand level context).IsSteady)
    (hread : ReadsOperands text operand) (htext : state.cursor.lexemes.AreIn text)
    (h : Scans text operand min state (count + 1) before) {limit : Nat} (hlimit : before.cursor.remaining ≤ limit) :
    (extend text operand min limit).Meets before (fun _ => ScanEnds text operand min state (.done ()))
      (ScanEnds text operand min state .failed) := by
  induction limit generalizing count before with
  | zero =>
    have := before.cursor.remaining_pos
    omega
  | succ limit ih =>
    have hpeek : peek before = (.done before.cursor.peek, before) := rfl
    rw [extend, Stage.meets_bind_of_done hpeek]
    cases hfound : Operator.leading? false min before.cursor.peek.tag with
    | none => exact .done h hfound
    | some op =>
      obtain ⟨htakes, hmeets⟩ := h.next hoperand hread htext hfound
      show (build text operand op >>= _).Meets _ _ _
      rw [Stage.meets_bind]
      rcases hmeets.cases with ⟨_, after, hbuild, -⟩ | ⟨after, hbuild, -⟩
      · obtain ⟨further, hmoved⟩ := htakes.exists_moved hbuild
        have hremaining := hmoved.remaining
        rw [List.length_cons] at hremaining
        rw [Stage.meets_of_done hbuild]
        exact ih (.operator h hfound hbuild) (by omega)
      · exact .of_failed hbuild (.failed h hfound hbuild)

/-- A scan is a chain of operators. -/
private theorem scan_ends (hoperand : ∀ level context, (operand level context).IsSteady)
    (hread : ReadsOperands text operand) (htext : state.cursor.lexemes.AreIn text) {context : ReadingContext}
    (hcontext : context.IsIn state.cursor.lexemes) :
    (scan text operand min context).Meets state (fun _ => ScanEnds text operand min state (.done ()))
      (ScanEnds text operand min state .failed) := by
  have hpeek : peek state = (.done state.cursor.peek, state) := rfl
  have hstart : Scans text operand min state 0 state := .start
  rw [scan, Stage.meets_bind_of_done hpeek]
  cases hfound : Operator.leading? true min state.cursor.peek.tag with
  | none => exact (reportMissing_meets htext hcontext).mono (fun _ _ h => h) fun _ _ => .missing hfound
  | some op =>
    show (build text operand op >>= _).Meets _ _ _
    rw [Stage.meets_bind]
    rcases (hstart.next hoperand hread htext hfound).2.cases with ⟨_, after, hbuild, -⟩ | ⟨after, hbuild, -⟩
    · rw [Stage.meets_of_done hbuild, bind_remaining_meets]
      exact extend_ends hoperand hread htext (.operator hstart hfound hbuild) (Nat.le_refl _)
    · exact .of_failed hbuild (.failed hstart hfound hbuild)

end

/-- Whether a scan comes to an end, each of its operators taking the lexeme where it begins. -/
structure ScanProgresses (text : List Char) (operand : Level → ReadingContext → Reader Unit) (min : Level)
    (context : ReadingContext) (state : ReaderState) : Prop where
  operator : ∀ count before op, Scans text operand min state count before →
    Operator.leading? (count == 0) min before.cursor.peek.tag = some op → (build text operand op).TakesNext before
  moved : ∀ count after, Scans text operand min state count after →
    ∃ passed, state.cursor.Moved after.cursor passed ∧ count ≤ passed.length
  ends : ∃ outcome after, scan text operand min context state = (outcome, after) ∧
    ScanEnds text operand min state outcome after

private theorem scan_progresses (hoperand : ∀ level context, (operand level context).IsSteady)
    (hread : ReadsOperands text operand) (htext : state.cursor.lexemes.AreIn text) (min : Level)
    {context : ReadingContext} (hcontext : context.IsIn state.cursor.lexemes) :
    ScanProgresses text operand min context state where
  operator _ _ _ h hfound := (h.next hoperand hread htext hfound).1
  moved _ _ h := h.exists_moved hoperand hread htext
  ends := by
    rcases (scan_ends hoperand hread htext hcontext).cases with ⟨_, after, hscan, hends⟩ | ⟨after, hscan, hends⟩
    · exact ⟨_, after, hscan, hends⟩
    · exact ⟨_, after, hscan, hends⟩

/-! ### Rounds -/

/-- One round of reading all statements, before the end of the file.  What comes of it is the run that is to be reported
before the next statement, and the statements so far. -/
def readRound (text : List Char) (run : Option Span) (statements : Array Statement) :
    Reader (Option Span × Array Statement) := do
  let lexeme ← peek
  if lexeme.tag = .unrecognized then
    let _ ← next
    return (run, statements)
  else if !lexeme.tag.startsStatement then
    let _ ← next
    return (some (match run with | some run => run.join lexeme.span | none => lexeme.span), statements)
  else
    reportRun text run
    match ← Stage.attempt (readStatement text) with
    | some statement => return (none, statements.push statement)
    | none =>
      synchronize
      return (none, statements)

variable {run : Option Span} {statements : Array Statement}

/-- All statements are read by reading them in rounds. -/
private theorem readStatements_succ (limit : Nat) (hend : state.cursor.peek.tag ≠ .endOfFile) :
    readStatements text (limit + 1) run statements state
      = (readRound text run statements >>= fun result => readStatements text limit result.1 result.2) state := by
  have hpeek : peek state = (.done state.cursor.peek, state) := rfl
  rw [readStatements, readRound, bind_assoc, Stage.bind_of_done hpeek, Stage.bind_of_done hpeek, if_neg hend]
  by_cases hknown : state.cursor.peek.tag = .unrecognized
  · rw [if_pos hknown, if_pos hknown]
    rfl
  rw [if_neg hknown, if_neg hknown]
  cases state.cursor.peek.tag.startsStatement with
  | false => rfl
  | true =>
    show (reportRun text run >>= _) state = ((reportRun text run >>= _) >>= _) state
    rw [bind_assoc]
    refine congrFun (congrArg _ (funext fun _ => ?_)) state
    rw [bind_assoc]
    refine congrArg _ (funext fun result => ?_)
    cases result with
    | some statement => rfl
    | none =>
      rw [bind_assoc]
      rfl

private theorem exists_reportRun (hrun : ∀ span ∈ run, ∃ part, sliceOf text span = .ok part) (state : ReaderState) :
    ∃ diagnostics, reportRun text run state = (.done (), state.withDiagnostics diagnostics) := by
  cases run with
  | none => exact ⟨state.diagnostics, rfl⟩
  | some span =>
    obtain ⟨part, hpart⟩ := hrun span rfl
    refine ⟨state.diagnostics.report ((StatementIssue.expectedStatement part).diagnostic span), ?_⟩
    rw [reportRun, hpart]
    rfl

end Reader

/-- Whether a round may begin: the run that waits to be reported is a part of the text, and no operand is being
read. -/
structure ReadingState.IsReady (text : List Char) (reading : ReadingState) : Prop where
  lexemes : reading.state.cursor.lexemes.AreIn text
  run : ∀ span ∈ reading.run, ∃ part, sliceOf text span = .ok part
  nesting : reading.state.nesting = 0

/-- Whether the next round is done and takes the next lexeme, and no other one unless a statement begins there.  If a
statement begins there, the attempt to read it takes that lexeme by itself. -/
structure ReadingState.Progresses (text : List Char) (reading : ReadingState) : Prop where
  round : ∃ run statements after further,
    Reader.readRound text reading.run reading.statements reading.state = (.done (run, statements), after) ∧
    reading.state.cursor.Moved after.cursor (reading.state.cursor.peek :: further) ∧
    (reading.state.cursor.peek.tag.startsStatement = false → further = [])
  attempt : reading.state.cursor.peek.tag.startsStatement = true → ∀ earlier,
    (Reader.readStatement text).TakesNext (reading.state.withDiagnostics earlier)

section

variable {text : List Char} {run : Option Span} {statements : Array Statement} {state : ReaderState}

/-- A round that has passed one lexeme without a statement leaves the reader ready. -/
private theorem ReadingState.IsReady.advance {reading : ReadingState} (h : reading.IsReady text)
    (hrun : ∀ span ∈ run, ∃ part, sliceOf text span = .ok part) :
    ReadingState.IsReady text ⟨run, statements, { reading.state with cursor := reading.state.cursor.advance }⟩ where
  lexemes := by
    show reading.state.cursor.advance.lexemes.AreIn text
    rw [Cursor.lexemes_advance]
    exact h.lexemes
  run := hrun
  nesting := h.nesting

/-- One round takes the next lexeme. -/
private theorem Reader.readRound_meets (h : ReadingState.IsReady text ⟨run, statements, state⟩)
    (hend : state.cursor.peek.tag ≠ .endOfFile) :
    (readRound text run statements).Meets state
      (fun result after => ReadingState.IsReady text ⟨result.1, result.2, after⟩ ∧
        ∃ further, state.cursor.Moved after.cursor (state.cursor.peek :: further) ∧
          (state.cursor.peek.tag.startsStatement = false → further = []))
      fun _ => False := by
  have hpeek : peek state = (.done state.cursor.peek, state) := rfl
  have hmoved := Cursor.moved_advance hend
  have hpart := h.lexemes _ state.cursor.peek_mem
  rw [readRound, Stage.meets_bind_of_done hpeek]
  by_cases hknown : state.cursor.peek.tag = .unrecognized
  · rw [if_pos hknown, bind_next_meets]
    exact ⟨h.advance h.run, [], hmoved, fun _ => rfl⟩
  rw [if_neg hknown]
  cases hstart : state.cursor.peek.tag.startsStatement with
  | false =>
    show (next >>= _).Meets _ _ _
    rw [bind_next_meets]
    refine ⟨h.advance fun span hspan => ?_, [], hmoved, fun _ => rfl⟩
    rw [← Option.mem_some.1 hspan]
    cases run with
    | none => exact hpart
    | some run => exact exists_sliceOf_join (h.run run rfl) hpart
  | true =>
    obtain ⟨diagnostics, hreport⟩ := exists_reportRun h.run state
    have hnesting : (state.withDiagnostics diagnostics).nesting < maxDepth :=
      Nat.lt_of_le_of_lt (Nat.le_of_eq h.nesting) (by decide)
    have htakes : (readStatement text).TakesNext (state.withDiagnostics diagnostics) :=
      readStatement_takesNext hstart hnesting
    have htext : (state.withDiagnostics diagnostics).cursor.lexemes.AreIn text := h.lexemes
    show (reportRun text run >>= _).Meets _ _ _
    rw [Stage.meets_bind_of_done hreport, Stage.meets_bind, Stage.meets_attempt]
    -- A statement that is given up has taken its first lexeme before the rest of it is skipped.
    rcases (readStatement_meets htext).cases with
      ⟨statement, after, hread, clause, skipped, semicolon, -, hhasRead⟩ | ⟨stopped, hread, hstopped⟩
    · obtain ⟨further, hfurther⟩ := htakes.exists_moved hread
      refine .of_done hread ⟨⟨?_, by simp, hhasRead.nesting.trans h.nesting⟩, further, hfurther, by simp⟩
      rw [hfurther.lexemes]
      exact htext
    · obtain ⟨further, hfurther⟩ := htakes.exists_moved hread
      refine .of_failed hread ?_
      show (synchronize >>= _).Meets _ _ _
      rw [Stage.meets_bind]
      refine synchronize_meets.mono ?_ fun _ h => h
      intro _ after hskipped
      obtain ⟨more, hmore, -⟩ := hskipped.moved
      have hall := hfurther.trans hmore
      refine ⟨⟨?_, by simp, ?_⟩, _, hall, by simp⟩
      · rw [hall.lexemes]
        exact htext
      · rw [hskipped.nesting, hstopped.nesting]
        exact h.nesting

private theorem ReadingState.IsReady.progresses {reading : ReadingState} (h : reading.IsReady text)
    (hend : reading.state.cursor.peek.tag ≠ .endOfFile) : reading.Progresses text where
  round := by
    obtain ⟨⟨run, statements⟩, after, hround, -, further, hmoved, hone⟩ := (Reader.readRound_meets h hend).exists_done
    exact ⟨run, statements, after, further, hround, hmoved, hone⟩
  attempt hstart earlier :=
    Reader.readStatement_takesNext hstart (Nat.lt_of_le_of_lt (Nat.le_of_eq h.nesting) (by decide))

end

namespace Source

variable {name : String} {content : List Char} {count : Nat} {reading : ReadingState}

/-- What there is after so many rounds of reading the statements of a source. -/
inductive Iterates (source : Source) : Nat → ReadingState → Prop
  | start {cursor} (hcursor : source.lexemes.cursor = .ok cursor) :
      source.Iterates 0 ⟨none, #[], .start cursor source.lexicalDiagnostics⟩
  | round {count reading run statements after} (h : source.Iterates count reading)
      (hend : reading.state.cursor.peek.tag ≠ .endOfFile)
      (hround : Reader.readRound source.text reading.run reading.statements reading.state
        = (.done (run, statements), after)) : source.Iterates (count + 1) ⟨run, statements, after⟩

/-- There are no more rounds than lexemes that have been passed. -/
private theorem Iterates.isReady (h : (ofContent name content).Iterates count reading) :
    reading.IsReady (ofContent name content).text ∧
      count + reading.state.cursor.remaining ≤ (ofContent name content).lexemes.size := by
  induction h with
  | start hcursor =>
    obtain ⟨cursor, hexists, hlexemes, hahead⟩ := (ofContent name content).exists_cursor
    rw [hcursor, Except.ok.injEq] at hexists
    subst hexists
    refine ⟨⟨?_, by simp, rfl⟩, ?_⟩
    · show Lexemes.AreIn _ _
      rw [ReaderState.start, hlexemes]
      exact areIn_lexemes name content
    · rw [Nat.zero_add, ReaderState.start, Cursor.remaining_eq_length, hahead]
      exact Nat.le_refl _
  | round h hend hround ih =>
    obtain ⟨hready, hle⟩ := ih
    have hmeets := Reader.readRound_meets hready hend
    rw [Stage.meets_of_done hround] at hmeets
    obtain ⟨hafter, further, hmoved, -⟩ := hmeets
    have hremaining := hmoved.remaining
    rw [List.length_cons] at hremaining
    exact ⟨hafter, by dsimp only; omega⟩

/-- Reading goes on in rounds up to the end of the file. -/
private theorem Iterates.exists_end (h : (ofContent name content).Iterates count reading) {limit : Nat}
    (hlimit : reading.state.cursor.remaining ≤ limit) :
    ∃ total last, (ofContent name content).Iterates total last ∧ last.state.cursor.peek.tag = .endOfFile ∧
      Reader.readStatements (ofContent name content).text limit reading.run reading.statements reading.state
        = (.done last.statements, (Reader.reportRun (ofContent name content).text last.run last.state).2) := by
  induction limit generalizing count reading with
  | zero =>
    have := reading.state.cursor.remaining_pos
    omega
  | succ limit ih =>
    obtain ⟨hready, -⟩ := h.isReady
    by_cases hend : reading.state.cursor.peek.tag = .endOfFile
    · obtain ⟨diagnostics, hreport⟩ := Reader.exists_reportRun hready.run reading.state
      have hpeek : Reader.peek reading.state = (.done reading.state.cursor.peek, reading.state) := rfl
      refine ⟨count, reading, h, hend, ?_⟩
      rw [Reader.readStatements, Stage.bind_of_done hpeek, if_pos hend, Stage.bind_of_done hreport, hreport]
      rfl
    · obtain ⟨⟨run, statements⟩, after, hround, -, further, hmoved, -⟩ :=
        (Reader.readRound_meets hready hend).exists_done
      have hremaining := hmoved.remaining
      rw [List.length_cons] at hremaining
      obtain ⟨total, last, hlast, hlastEnd, hread⟩ := ih (.round h hend hround) (by dsimp only; omega)
      refine ⟨total, last, hlast, hlastEnd, ?_⟩
      rw [Reader.readStatements_succ limit hend, Stage.bind_of_done hround]
      exact hread

/-- Every round before the end of the file takes at least one lexeme, and so does every operator of an expression, with
operands of any depth and wherever the expression begins; so all statements are read in fewer rounds than there are
lexemes, and what is left is the end of the file. -/
theorem reading_progresses (name : String) (content : List Char) :
    (∀ count reading, (ofContent name content).Iterates count reading →
      reading.state.cursor.peek.tag ≠ .endOfFile → reading.Progresses (ofContent name content).text) ∧
    (∀ (state : ReaderState) (room : Nat) (min : Level) (context : ReadingContext),
      state.cursor.lexemes = (ofContent name content).lexemes → context.IsIn (ofContent name content).lexemes →
      Reader.ScanProgresses (ofContent name content).text (Reader.readOperand (ofContent name content).text room) min
        context state) ∧
    ∃ count reading, (ofContent name content).Iterates count reading ∧
      reading.state.cursor.peek.tag = .endOfFile ∧ count < (ofContent name content).lexemes.size ∧
      (ofContent name content).statements = (.done reading.statements.toList,
        (Reader.reportRun (ofContent name content).text reading.run reading.state).2.diagnostics) := by
  have htext := areIn_lexemes name content
  refine ⟨fun count reading h hend => h.isReady.1.progresses hend, ?_, ?_⟩
  · intro state room min context hlexemes hcontext
    rw [← hlexemes] at htext hcontext
    exact Reader.scan_progresses (Reader.isSteady_readOperand room) (Reader.readOperand_meets _ room) htext min hcontext
  · obtain ⟨cursor, hcursor, -⟩ := (ofContent name content).exists_cursor
    obtain ⟨count, reading, h, hend, hread⟩ := (Iterates.start hcursor).exists_end (Nat.le_refl _)
    have hle := h.isReady.2
    have hpos := reading.state.cursor.remaining_pos
    exact ⟨count, reading, h, hend, by omega, statements_of_readStatements_eq hcursor hread⟩

/-- Of `a+(;)b;` only the last statement can be read. -/
private def halfRead : Source :=
  ofContent "" ['a', '+', '(', ';', ')', 'b', ';']

/-- The reader of operands in its first expression. -/
private def halfReadOperand : Level → ReadingContext → Reader Unit :=
  Reader.readOperand halfRead.text 255

/-- The first round goes on, and so does the first sum although its second operand is missing. -/
theorem reading_progresses_half : ∃ (start : ReadingState) (middle : ReaderState),
    halfRead.Iterates 0 start ∧ start.Progresses halfRead.text ∧
    Reader.Scans halfRead.text halfReadOperand .assignment start.state 1 middle ∧
    (Reader.build halfRead.text halfReadOperand (.binary .add)).TakesNext middle ∧
    (Reader.build halfRead.text halfReadOperand (.binary .add) middle).1 = .failed ∧
    ∃ count reading, halfRead.Iterates count reading ∧ reading.state.cursor.peek.tag = .endOfFile ∧ count < 8 ∧
      reading.statements.toList = [.discarded ⟨#[⟨.name, 0, ⟨5, 6, by decide⟩⟩]⟩] := by
  let start : ReaderState := .start ⟨halfRead.lexemes, halfRead.isClosed_lexemes, 0, by cbv⟩ halfRead.lexicalDiagnostics
  have hstart : halfRead.Iterates 0 ⟨none, #[], start⟩ := .start (dif_pos halfRead.isClosed_lexemes)
  let middle := (Reader.build halfRead.text halfReadOperand .name start).2
  obtain ⟨hrounds, hscans, count, reading, hiterates, hend, hless, hstatements⟩ :=
    reading_progresses "" ['a', '+', '(', ';', ')', 'b', ';']
  have hprogresses := hrounds 0 _ hstart (by decide +kernel)
  have hscan := hscans start 255 .assignment .start rfl trivial
  have hbuild : Reader.build halfRead.text halfReadOperand .name start = (.done (), middle) := by
    have hdone : (Reader.build halfRead.text halfReadOperand .name start).1 = .done () := by decide +kernel
    rw [← hdone]
  have hmiddle : Reader.Scans halfRead.text halfReadOperand .assignment start 1 middle :=
    .operator .start (by decide +kernel) hbuild
  have hall : halfRead.statements.1 = .done reading.statements.toList := congrArg Prod.fst hstatements
  have hknown : halfRead.statements.1 = .done [.discarded ⟨#[⟨.name, 0, ⟨5, 6, by decide⟩⟩]⟩] := by decide +kernel
  refine ⟨_, middle, hstart, hprogresses, hmiddle, hscan.operator 1 middle (.binary .add) hmiddle (by decide +kernel),
    by decide +kernel, count, reading, hiterates, hend, ?_, Outcome.done.inj (hall.symm.trans hknown)⟩
  have hsize : halfRead.lexemes.size = 8 := by cbv
  rwa [← hsize]

end Source

end ExprLang
