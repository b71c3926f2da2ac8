import ExprLang.Proofs.Reading.Phrase
import ExprLang.Proofs.Stages
import ExprLang.Reading.Expression

/-!
# Progress of a reader

A reader that is done has moved over lexemes, has reported nothing and has put phrases on its stack
(`ReaderState.HasBuilt`).  A reader that fails has moved as well, and has reported one error at the lexeme where
it stopped, unless that lexeme has been reported before (`ReaderState.HasFailed`).  A few problems are reported even
then (`StatementIssue.IsBlind`).
-/

namespace ExprLang

/-! ### Cursors -/

/-- Whether a cursor has moved over some lexemes. -/
structure Cursor.Moved (before after : Cursor) (passed : List Lexeme) : Prop where
  lexemes : after.lexemes = before.lexemes
  ahead : before.ahead = passed ++ after.ahead

namespace Cursor

variable {cursor before middle after : Cursor} {passed further : List Lexeme}

private theorem ahead_ne_nil (cursor : Cursor) : cursor.ahead ≠ [] := by
  rw [ahead_eq_peek_cons]
  exact List.cons_ne_nil _ _

theorem peek_of_ahead {lexeme : Lexeme} {rest : List Lexeme} (h : cursor.ahead = lexeme :: rest) :
    cursor.peek = lexeme := by
  rw [ahead_eq_peek_cons] at h
  exact (List.cons.inj h).1

theorem peek_mem (cursor : Cursor) : cursor.peek ∈ cursor.lexemes.toList := by
  have h : cursor.peek ∈ cursor.ahead := by
    rw [ahead_eq_peek_cons]
    exact List.mem_cons_self
  exact List.mem_of_mem_drop h

theorem remaining_eq_length (cursor : Cursor) : cursor.remaining = cursor.ahead.length := by
  rw [remaining, ahead, List.length_drop]
  rfl

theorem remaining_pos (cursor : Cursor) : 0 < cursor.remaining := by
  rw [remaining_eq_length]
  exact List.length_pos_iff.2 cursor.ahead_ne_nil

theorem lexemes_advance (cursor : Cursor) : cursor.advance.lexemes = cursor.lexemes := by
  unfold advance
  split <;> rfl

theorem Moved.refl (cursor : Cursor) : cursor.Moved cursor [] := ⟨rfl, rfl⟩

theorem Moved.trans (h : before.Moved middle passed) (h' : middle.Moved after further) :
    before.Moved after (passed ++ further) :=
  ⟨h'.lexemes.trans h.lexemes, by rw [h.ahead, h'.ahead, List.append_assoc]⟩

theorem moved_advance (h : cursor.peek.tag ≠ .endOfFile) : cursor.Moved cursor.advance [cursor.peek] := by
  refine ⟨cursor.lexemes_advance, ?_⟩
  rw [ahead_eq_peek_cons, ahead, lexemes_advance, position_advance h]
  rfl

theorem Moved.mem (h : before.Moved after passed) {lexeme : Lexeme} (hmem : lexeme ∈ passed) :
    lexeme ∈ before.lexemes.toList := by
  have : lexeme ∈ before.ahead := by
    rw [h.ahead]
    exact List.mem_append_left _ hmem
  exact List.mem_of_mem_drop this

theorem Moved.remaining (h : before.Moved after passed) :
    before.remaining = passed.length + after.remaining := by
  rw [remaining_eq_length, remaining_eq_length, h.ahead, List.length_append]

/-- A cursor that has moved over the beginning of what was ahead has the rest ahead. -/
theorem Moved.ahead_eq (h : before.Moved after passed) (hahead : before.ahead = passed ++ further) :
    after.ahead = further :=
  List.append_cancel_left (h.ahead.symm.trans hahead)

end Cursor

/-! ### What has been built -/

/-- Whether a reader has moved over lexemes and has built phrases, which are no operands yet. -/
structure ReaderState.HasBuilt (before : ReaderState) (passed : List Lexeme) (phrases : List Phrase)
    (after : ReaderState) : Prop where
  moved : before.cursor.Moved after.cursor passed
  diagnostics : after.diagnostics = before.diagnostics
  nodes : after.nodes.toList = before.nodes.toList ++ phrases.flatMap Phrase.nodes
  depths : after.depths = (phrases.map Phrase.depth).reverse ++ before.depths
  nesting : after.nesting = before.nesting

/-- Whether a problem is reported at a lexeme without a look at whether that is recognised. -/
def StatementIssue.IsBlind : StatementIssue → Prop
  | expectedTypeOrValue _ | expectedCloser _ _ | nestsTooDeeply => True
  | _ => False

/-- What is reported by a reader that stops at a cursor: one error there, with notes on other lexemes, or
nothing if the lexeme is not recognised, which has been reported before.  Some problems are reported all the same. -/
def ExplainsFailure (cursor : Cursor) (reports : List Diagnostic) : Prop :=
  (cursor.peek.tag = .unrecognized ∧ reports = []) ∨
  ∃ error notes, reports = error :: notes ∧ error.severity = .error ∧ error.span = cursor.peek.span ∧
    (∀ note ∈ notes, note.severity = .info ∧ ∃ lexeme ∈ cursor.lexemes.toList, note.span = lexeme.span) ∧
    (cursor.peek.tag = .unrecognized →
      ∃ issue : StatementIssue, issue.IsBlind ∧ error = issue.diagnostic cursor.peek.span)

theorem ExplainsFailure.exists_lexeme {cursor : Cursor} {reports : List Diagnostic}
    (h : ExplainsFailure cursor reports) :
    ∀ report ∈ reports, ∃ lexeme ∈ cursor.lexemes.toList, report.span = lexeme.span := by
  rcases h with ⟨-, rfl⟩ | ⟨error, notes, rfl, -, hspan, hnotes, -⟩
  · exact fun _ hmem => absurd hmem List.not_mem_nil
  · rw [List.forall_mem_cons]
    exact ⟨⟨_, cursor.peek_mem, hspan⟩, fun note hnote => (hnotes note hnote).2⟩

/-- Whether a reader has failed. -/
structure ReaderState.HasFailed (before after : ReaderState) : Prop where
  moved : ∃ passed, before.cursor.Moved after.cursor passed
  nesting : after.nesting = before.nesting
  reports : ∃ reports, after.diagnostics.toList = before.diagnostics.toList ++ reports ∧
    ExplainsFailure after.cursor reports

/-- Whether a reader has failed and has given up the expression that it was building. -/
structure ReaderState.HasStopped (before after : ReaderState) : Prop extends before.HasFailed after where
  nodes : after.nodes = before.nodes
  depths : after.depths = before.depths

namespace ReaderState

variable {before middle state after : ReaderState} {passed further : List Lexeme} {phrases more : List Phrase}

theorem HasBuilt.refl (state : ReaderState) : state.HasBuilt [] [] state :=
  ⟨.refl _, rfl, by simp, rfl, rfl⟩

theorem HasBuilt.trans (h : before.HasBuilt passed phrases middle) (h' : middle.HasBuilt further more after) :
    before.HasBuilt (passed ++ further) (phrases ++ more) after where
  moved := h.moved.trans h'.moved
  diagnostics := h'.diagnostics.trans h.diagnostics
  nodes := by rw [h'.nodes, h.nodes, List.flatMap_append, List.append_assoc]
  depths := by rw [h'.depths, h.depths, List.map_append, List.reverse_append, List.append_assoc]
  nesting := h'.nesting.trans h.nesting

theorem hasBuilt_advance (h : state.cursor.peek.tag ≠ .endOfFile) :
    state.HasBuilt [state.cursor.peek] [] { state with cursor := state.cursor.advance } :=
  ⟨Cursor.moved_advance h, rfl, by simp, rfl, rfl⟩

theorem HasBuilt.advance (h : before.HasBuilt passed phrases state) (hend : state.cursor.peek.tag ≠ .endOfFile) :
    before.HasBuilt (passed ++ [state.cursor.peek]) phrases { state with cursor := state.cursor.advance } := by
  have := h.trans (hasBuilt_advance hend)
  rwa [List.append_nil] at this

/-- What fails after something has been built has failed from the start. -/
theorem HasBuilt.hasFailed (h : before.HasBuilt passed phrases middle) (h' : middle.HasFailed after) :
    before.HasFailed after := by
  obtain ⟨further, hmoved⟩ := h'.moved
  obtain ⟨reports, hreports, hexplains⟩ := h'.reports
  refine ⟨⟨_, h.moved.trans hmoved⟩, h'.nesting.trans h.nesting, reports, ?_, hexplains⟩
  rw [hreports, h.diagnostics]

theorem HasBuilt.nodes_eq (h : before.HasBuilt passed [] after) : after.nodes = before.nodes := by
  have := h.nodes
  rw [List.flatMap_nil, List.append_nil] at this
  exact Array.toList_inj.1 this

theorem HasBuilt.hasStopped (h : before.HasBuilt passed [] middle) (h' : middle.HasStopped after) :
    before.HasStopped after :=
  ⟨h.hasFailed h'.toHasFailed, h'.nodes.trans h.nodes_eq, h'.depths.trans h.depths⟩

end ReaderState

end ExprLang
