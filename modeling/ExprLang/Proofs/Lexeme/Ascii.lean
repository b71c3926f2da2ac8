import ExprLang.Proofs.Lexeme.Placing
import Mathlib.Data.List.TakeWhile

/-!
# Characters of lexemes

Marks, words and numbers are written with characters of one byte (`isAscii_of_mem_chunks`), so only a run that is not
recognised can end in a longer one.  A span over a lexeme is plain, that is, it ends in a character of one byte, exactly
if the lexeme does (`Span.isPlain_of_sliceOf`, `Span.not_isBoundary_of_sliceOf`), and spans that are joined stay plain
(`Span.IsPlain.join`).
-/

namespace ExprLang

/-- Whether all characters of a text are one byte long. -/
def IsAscii (text : List Char) : Prop :=
  ∀ c ∈ text, c.utf8Size = 1

/-! ### Classes of characters -/

private theorem utf8Size_of_isWordChar {c : Char} (h : isWordChar c = true) : c.utf8Size = 1 := by
  rw [Char.utf8Size_eq_one_iff, UInt32.le_iff_toNat_le]
  show c.toNat ≤ 127
  rw [isWordChar, Bool.or_eq_true] at h
  rcases h with h | h
  · delta Char.isAlphanum Char.isAlpha Char.isUpper Char.isLower Char.isDigit at h
    simp only [Bool.or_eq_true, Bool.and_eq_true, decide_eq_true_eq, ge_iff_le, UInt32.le_iff_toNat_le] at h
    rcases h with (⟨-, h⟩ | ⟨-, h⟩) | ⟨-, h⟩
    · exact Nat.le_trans h (by decide)
    · exact Nat.le_trans h (by decide)
    · exact Nat.le_trans h (by decide)
  · rw [of_decide_eq_true h]
    decide

theorem isWordChar_of_isWordStart {c : Char} (h : isWordStart c = true) : isWordChar c = true := by
  simp only [isWordStart, isWordChar, Char.isAlphanum, Bool.or_eq_true] at h ⊢
  exact h.imp_left .inl

theorem isWordChar_of_isDigitOrGap {c : Char} (h : isDigitOrGap c = true) : isWordChar c = true := by
  simp only [isDigitOrGap, isWordChar, Char.isAlphanum, Bool.or_eq_true] at h ⊢
  exact h.imp_left .inr

/-! ### Words and numbers -/

section

variable {text part rest : List Char}

private theorem isAscii_nil : IsAscii [] := fun _ hmem => absurd hmem List.not_mem_nil

private theorem IsAscii.append (h : IsAscii text) (h' : IsAscii part) : IsAscii (text ++ part) :=
  List.forall_mem_append.2 ⟨h, h'⟩

private theorem isAscii_of_splitWord? (h : splitWord? text = some (part, rest)) : IsAscii part := by
  unfold splitWord? at h
  split at h
  · cases h
  · split at h
    · rename_i hstart
      obtain ⟨rfl, -⟩ := Prod.mk.inj (Option.some.inj h)
      refine List.forall_mem_cons.2 ⟨utf8Size_of_isWordChar (isWordChar_of_isWordStart hstart), fun c hmem => ?_⟩
      exact utf8Size_of_isWordChar (List.mem_takeWhile_imp hmem)
    · cases h

private theorem isAscii_of_splitDigits? (h : splitDigits? text = some (part, rest)) : IsAscii part := by
  have hdigit : ∀ {c : Char}, isDigitOrGap c = true → c.utf8Size = 1 := fun h =>
    utf8Size_of_isWordChar (isWordChar_of_isDigitOrGap h)
  unfold splitDigits? at h
  split at h
  · cases h
  · split at h
    · rename_i hstart
      obtain ⟨rfl, -⟩ := Prod.mk.inj (Option.some.inj h)
      refine List.forall_mem_cons.2 ⟨hdigit ?_, fun c hmem => hdigit (List.mem_takeWhile_imp hmem)⟩
      rw [isDigitOrGap, hstart, Bool.true_or]
    · cases h

private theorem isAscii_splitFraction (text : List Char) : IsAscii (splitFraction text).1 := by
  unfold splitFraction
  split
  · split
    · rename_i hdigits
      exact List.forall_mem_cons.2 ⟨by decide, isAscii_of_splitDigits? hdigits⟩
    · exact isAscii_nil
  · exact isAscii_nil

private theorem isAscii_splitSign (text : List Char) : IsAscii (splitSign text).1 := by
  unfold splitSign
  split
  · exact List.forall_mem_singleton.2 (by decide)
  · exact List.forall_mem_singleton.2 (by decide)
  · exact isAscii_nil

private theorem isAscii_splitExponent (text : List Char) : IsAscii (splitExponent text).1 := by
  unfold splitExponent
  split
  · exact isAscii_nil
  · split
    · rename_i hmark
      split
      · rename_i hdigits
        refine IsAscii.append (List.forall_mem_cons.2 ⟨?_, isAscii_splitSign _⟩) (isAscii_of_splitDigits? hdigits)
        rcases hmark with rfl | rfl
        · decide
        · decide
      · exact isAscii_nil
    · exact isAscii_nil

private theorem isAscii_of_splitDecimal? (h : splitDecimal? text = some (part, rest)) : IsAscii part := by
  obtain ⟨⟨whole, after⟩, hwhole, h⟩ := Option.map_eq_some_iff.1 h
  obtain ⟨rfl, -⟩ := Prod.mk.inj h
  exact ((isAscii_of_splitDigits? hwhole).append (isAscii_splitFraction _)).append (isAscii_splitExponent _)

private theorem isAscii_of_splitAtom? {tag : Tag} (h : splitAtom? text = some (tag, part, rest)) : IsAscii part := by
  unfold splitAtom? at h
  split at h
  · rename_i hword
    obtain ⟨-, h⟩ := Prod.mk.inj (Option.some.inj h)
    obtain ⟨rfl, -⟩ := Prod.mk.inj h
    exact isAscii_of_splitWord? hword
  · obtain ⟨⟨number, after⟩, hnumber, h⟩ := Option.map_eq_some_iff.1 h
    obtain ⟨-, h⟩ := Prod.mk.inj h
    obtain ⟨rfl, -⟩ := Prod.mk.inj h
    exact isAscii_of_splitDecimal? hnumber

end

private theorem Mark.isAscii_spelling (mark : Mark) : IsAscii mark.spelling := by
  have hall : mark.spelling.all (fun c => c.utf8Size == 1) = true := by
    cases mark <;> decide
  intro c hmem
  exact of_decide_eq_true (List.all_eq_true.1 hall c hmem)

/-! ### Lexemes -/

/-- What is recognised is written with characters of one byte. -/
theorem isAscii_of_mem_chunks {text part : List Char} {tag : Tag} (h : .lexeme tag part ∈ chunks text)
    (hknown : tag ≠ .unrecognized) : IsAscii part := by
  refine forall_mem_chunks (P := fun chunk => ∀ tag part, chunk = .lexeme tag part → tag ≠ .unrecognized →
    IsAscii part) ?_ text _ h tag part rfl hknown
  intro c rest tag part hchunk hknown
  rcases firstChunk_cases c rest with ⟨_, h⟩ | ⟨mark, h⟩ | ⟨tag', part', after, h, hatom⟩ | ⟨_, h⟩
  · rw [h] at hchunk
    cases hchunk
  · rw [h] at hchunk
    cases hchunk
    exact mark.isAscii_spelling
  · rw [h] at hchunk
    cases hchunk
    exact isAscii_of_splitAtom? hatom
  · rw [h] at hchunk
    cases hchunk
    exact absurd rfl hknown

theorem text_ne_nil_of_mem_chunks {text : List Char} {chunk : Chunk} (h : chunk ∈ chunks text) : chunk.text ≠ [] :=
  forall_mem_chunks (P := fun chunk => chunk.text ≠ []) firstChunk_text_ne_nil text chunk h

/-! ### Spans -/

/-- Whether a span holds characters of a text, the last of them one byte long. -/
structure Span.IsPlain (span : Span) (text : List Char) : Prop where
  start_lt_stop : span.start < span.stop
  last : IsBoundary text (span.stop - 1)

namespace Span

variable {text : List Char} {span a b : Span} {init : List Char} {c : Char}

theorem IsPlain.join (ha : a.IsPlain text) (hb : b.IsPlain text) : (a.join b).IsPlain text := by
  have hstartA := ha.start_lt_stop
  have hstartB := hb.start_lt_stop
  refine ⟨by show min a.start b.start < max a.stop b.stop; omega, ?_⟩
  show IsBoundary text (max a.stop b.stop - 1)
  rcases Nat.le_total a.stop b.stop with h | h
  · rw [Nat.max_eq_right h]
    exact hb.last
  · rw [Nat.max_eq_left h]
    exact ha.last

theorem sliceOf_eq_ok_iff {part : List Char} : sliceOf text span = .ok part ↔
    ∃ front rest, text = front ++ part ++ rest ∧ byteLength front = span.start ∧
      byteLength front + byteLength part = span.stop := by
  rw [← sliceBytes?_eq_some_iff, sliceOf, sliceBetween]
  cases sliceBytes? span.start span.stop text <;> simp

theorem isPlain_of_sliceOf (h : sliceOf text span = .ok (init ++ [c])) (hc : c.utf8Size = 1) : span.IsPlain text := by
  obtain ⟨front, rest, rfl, hstart, hstop⟩ := sliceOf_eq_ok_iff.1 h
  rw [byteLength_append, byteLength_cons, byteLength_nil] at hstop
  refine ⟨by omega, front ++ init, [c] ++ rest, by simp, ?_⟩
  rw [byteLength_append]
  omega

/-- One byte before the end of a longer character is inside it. -/
theorem not_isBoundary_of_sliceOf (h : sliceOf text span = .ok (init ++ [c])) (hc : c.utf8Size ≠ 1) :
    ¬IsBoundary text (span.stop - 1) := by
  rintro ⟨before, after, htext, hlength⟩
  obtain ⟨front, rest, rfl, hstart, hstop⟩ := sliceOf_eq_ok_iff.1 h
  have hpos := c.utf8Size_pos
  rw [byteLength_append, byteLength_cons, byteLength_nil] at hstop
  have htext : (front ++ init) ++ (c :: rest) = before ++ after := by
    rw [← htext]
    simp
  rcases List.append_eq_append_iff.1 htext with ⟨middle, rfl, hmiddle⟩ | ⟨middle, hmiddle, -⟩
  · cases middle with
    | nil =>
      rw [List.append_nil, byteLength_append] at hlength
      omega
    | cons d middle =>
      obtain ⟨rfl, -⟩ := List.cons.inj hmiddle
      rw [byteLength_append, byteLength_append, byteLength_cons] at hlength
      omega
  · have := congrArg byteLength hmiddle
    rw [byteLength_append, byteLength_append] at this
    omega

end Span

end ExprLang
