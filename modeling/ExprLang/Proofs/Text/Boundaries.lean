import ExprLang.Source.Basic

/-!
# Boundaries

A byte offset is a boundary of a text if it lies between two characters or at an end.  What stands between two
boundaries can be cut out, and nothing else can (`exists_sliceOf_iff`).
-/

namespace ExprLang

/-- Whether an offset lies between two characters of a text or at one of its ends. -/
def IsBoundary (text : List Char) (offset : Nat) : Prop :=
  ∃ front rest, text = front ++ rest ∧ byteLength front = offset

variable {text : List Char} {offset : Nat} {a b : Span}

theorem IsBoundary.le_byteLength (h : IsBoundary text offset) : offset ≤ byteLength text := by
  obtain ⟨front, rest, rfl, rfl⟩ := h
  rw [byteLength_append]
  omega

theorem eq_nil_of_byteLength_eq_zero (h : byteLength text = 0) : text = [] := by
  cases text with
  | nil => rfl
  | cons c text =>
    have := c.utf8Size_pos
    rw [byteLength_cons] at h
    omega

/-- A text can be cut out if it starts and stops at boundaries. -/
theorem exists_sliceOf_iff {span : Span} :
    (∃ part, sliceOf text span = .ok part) ↔ IsBoundary text span.start ∧ IsBoundary text span.stop := by
  have hslice : ∀ part, sliceOf text span = .ok part ↔ sliceBytes? span.start span.stop text = some part := by
    intro part
    rw [sliceOf, sliceBetween]
    cases sliceBytes? span.start span.stop text <;> simp
  simp only [hslice, sliceBytes?_eq_some_iff]
  constructor
  · rintro ⟨part, front, rest, rfl, hfront, hpart⟩
    refine ⟨⟨front, part ++ rest, List.append_assoc .., hfront⟩, front ++ part, rest, rfl, ?_⟩
    rw [byteLength_append, hpart]
  · rintro ⟨⟨front, rest, rfl, hfront⟩, front', rest', htext, hfront'⟩
    have hle := span.start_le_stop
    rcases List.append_eq_append_iff.1 htext with ⟨part, rfl, rfl⟩ | ⟨part, rfl, rfl⟩
    · rw [byteLength_append] at hfront'
      exact ⟨part, front, rest', (List.append_assoc ..).symm, hfront, by omega⟩
    · rw [byteLength_append] at hfront
      obtain rfl : part = [] := eq_nil_of_byteLength_eq_zero (by omega)
      exact ⟨[], front', rest, by simp, by simp at hfront; omega, by simp; omega⟩

/-- What covers two parts of a text is a part of it. -/
theorem exists_sliceOf_join (ha : ∃ part, sliceOf text a = .ok part) (hb : ∃ part, sliceOf text b = .ok part) :
    ∃ part, sliceOf text (a.join b) = .ok part := by
  rw [exists_sliceOf_iff] at ha hb ⊢
  constructor
  · show IsBoundary text (min a.start b.start)
    rcases Nat.le_total a.start b.start with h | h
    · rw [Nat.min_eq_left h]
      exact ha.1
    · rw [Nat.min_eq_right h]
      exact hb.1
  · show IsBoundary text (max a.stop b.stop)
    rcases Nat.le_total a.stop b.stop with h | h
    · rw [Nat.max_eq_right h]
      exact hb.2
    · rw [Nat.max_eq_left h]
      exact ha.2

end ExprLang
