import ExprLang.Count
import ExprLang.Lexeme.Basic

/-!
# Cursors

A cursor is a reading position in closed lexemes.  It never passes the end: at the end of the file it stays
where it is, so there is always a lexeme to look at.
-/

namespace ExprLang

/-- A position in closed lexemes. -/
structure Cursor where
  lexemes : Lexemes
  closed : lexemes.isClosed = true
  position : Nat
  position_lt : position < lexemes.size

private theorem Lexemes.size_pos {lexemes : Lexemes} (h : lexemes.isClosed = true) : 0 < lexemes.size := by
  unfold isClosed last? at h
  rcases Nat.eq_zero_or_pos lexemes.entries.size with h0 | hpos
  · rw [Array.size_eq_zero_iff.1 h0] at h
    simp at h
  · exact hpos

/-- The cursor at the first of some lexemes, which must be closed. -/
def Lexemes.cursor (lexemes : Lexemes) : Except Fault Cursor :=
  if h : lexemes.isClosed then
    .ok { lexemes, closed := h, position := 0, position_lt := size_pos h }
  else
    .error .unclosedLexemes

namespace Cursor

/-- The lexeme at the position. -/
def peek (cursor : Cursor) : Lexeme :=
  have h : cursor.position < cursor.lexemes.entries.size := cursor.position_lt
  cursor.lexemes.entries[cursor.position]

/-- Whether the lexeme at the position has a tag. -/
def isAt (cursor : Cursor) (tag : Tag) : Bool :=
  cursor.peek.tag = tag

private theorem succ_position_lt (cursor : Cursor) (h : cursor.peek.tag ≠ .endOfFile) :
    cursor.position + 1 < cursor.lexemes.size := by
  have hlt := cursor.position_lt
  rcases Nat.lt_or_ge (cursor.position + 1) cursor.lexemes.size with hnext | hlast
  · exact hnext
  · refine absurd ?_ h
    have hclosed := cursor.closed
    have hback : cursor.lexemes.entries.back? = some cursor.peek := by
      rw [Array.back?_eq_getElem?, show cursor.lexemes.entries.size - 1 = cursor.position by
        unfold Lexemes.size at *; omega]
      exact Array.getElem?_eq_getElem hlt
    simpa [Lexemes.isClosed, Lexemes.last?, hback] using hclosed

/-- Moves to the next lexeme; the end of the file is never passed. -/
def advance (cursor : Cursor) : Cursor :=
  if h : cursor.peek.tag = .endOfFile then cursor
  else { cursor with position := cursor.position + 1, position_lt := cursor.succ_position_lt h }

/-- The number of lexemes from the position on. -/
def remaining (cursor : Cursor) : Nat :=
  cursor.lexemes.size - cursor.position

/-- The lexemes from the position on. -/
def ahead (cursor : Cursor) : List Lexeme :=
  cursor.lexemes.toList.drop cursor.position

theorem ahead_eq_peek_cons (cursor : Cursor) :
    cursor.ahead = cursor.peek :: cursor.lexemes.toList.drop (cursor.position + 1) := by
  have h : cursor.position < cursor.lexemes.toList.length := cursor.position_lt
  rw [ahead, List.drop_eq_getElem_cons h]
  rfl

theorem advance_of_endOfFile {cursor : Cursor} (h : cursor.peek.tag = .endOfFile) :
    cursor.advance = cursor := by
  simp [advance, h]

theorem position_advance {cursor : Cursor} (h : cursor.peek.tag ≠ .endOfFile) :
    cursor.advance.position = cursor.position + 1 := by
  simp [advance, h]

end Cursor

end ExprLang
