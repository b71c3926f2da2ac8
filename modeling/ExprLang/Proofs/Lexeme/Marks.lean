import Mathlib.Data.List.Nodup
import ExprLang.Lexeme.Tag

/-!
# Marks at the front of a text

The mark that is found at the front of a text is the longest one there (`Mark.leading?_eq_some_iff`).  Each character
that a mark begins with is a mark itself, so the first character tells whether there is one
(`Mark.leading?_cons_eq_none_iff`).
-/

namespace ExprLang

namespace Mark

variable {c : Char} {text rest : List Char}

/-- Whether a mark begins with a character. -/
def isStart (c : Char) : Bool :=
  all.any fun mark => mark.spelling.head? == some c

private theorem spelling_injective : Function.Injective spelling := by
  have hnodup : (all.map spelling).Nodup := by decide +kernel
  intro a b h
  exact List.inj_on_of_nodup_map hnodup a.mem_all b.mem_all h

private theorem exists_leading? {mark : Mark} (h : mark.spelling <+: text) :
    ∃ found, leading? text = some found := by
  apply Option.isSome_iff_exists.1
  rw [leading?, List.find?_isSome]
  exact ⟨mark, mark.mem_all, List.isPrefixOf_iff_prefix.2 h⟩

theorem isPrefix_of_leading? {mark : Mark} (h : leading? text = some mark) : mark.spelling <+: text :=
  List.isPrefixOf_iff_prefix.1 (List.find?_some (p := fun mark : Mark => mark.spelling.isPrefixOf text) h)

/-- No mark at the front of a text is longer than the one that is found. -/
private theorem length_le_of_leading? {mark : Mark} (h : leading? text = some mark) (other : Mark)
    (hother : other.spelling <+: text) : other.spelling.length ≤ mark.spelling.length := by
  obtain ⟨-, before, after, hall, hbefore⟩ := List.find?_eq_some_iff_append.1 h
  -- No mark stands after one that it begins.
  have hsorted : all.Pairwise fun a b => ¬a.spelling <+: b.spelling := by decide +kernel
  rw [hall, List.pairwise_append, List.pairwise_cons] at hsorted
  have hmem := other.mem_all
  rw [hall, List.mem_append, List.mem_cons] at hmem
  rcases hmem with hmem | rfl | hmem
  · have hnot := hbefore other hmem
    simp [List.isPrefixOf_iff_prefix.2 hother] at hnot
  · exact Nat.le_refl _
  · by_contra hlong
    apply hsorted.2.1.1 other hmem
    exact List.prefix_of_prefix_length_le (isPrefix_of_leading? h) hother (by omega)

/-- The mark at the front of a text is the longest one there. -/
theorem leading?_eq_some_iff {mark : Mark} : leading? text = some mark ↔
    mark.spelling <+: text ∧ ∀ other : Mark, other.spelling <+: text → other.spelling.length ≤ mark.spelling.length := by
  constructor
  · intro h
    exact ⟨isPrefix_of_leading? h, length_le_of_leading? h⟩
  · rintro ⟨hfront, hlongest⟩
    obtain ⟨found, hfound⟩ := exists_leading? hfront
    have hfoundFront := isPrefix_of_leading? hfound
    have hle := hlongest found hfoundFront
    have hge := length_le_of_leading? hfound mark hfront
    -- Two fronts of the same length are the same.
    have hspelling : found.spelling = mark.spelling :=
      (List.prefix_of_prefix_length_le hfoundFront hfront hle).eq_of_length (by omega)
    rw [hfound, spelling_injective hspelling]

theorem isStart_iff : isStart c = true ↔ ∃ mark : Mark, mark.spelling.head? = some c := by
  simp [isStart, mem_all]

/-- Each first character of a mark is a mark. -/
theorem exists_spelling_singleton (h : isStart c = true) : ∃ mark : Mark, mark.spelling = [c] := by
  have hall : ∀ mark ∈ all, ∃ single ∈ all, single.spelling = mark.spelling.take 1 := by decide +kernel
  obtain ⟨mark, hmark⟩ := isStart_iff.1 h
  obtain ⟨tail, htail⟩ := List.head?_eq_some_iff.1 hmark
  obtain ⟨single, -, hsingle⟩ := hall mark mark.mem_all
  rw [htail] at hsingle
  exact ⟨single, hsingle⟩

private theorem isStart_of_isPrefix {mark : Mark} (h : mark.spelling <+: c :: rest) : isStart c = true := by
  obtain ⟨d, spelling, hspelling⟩ := List.exists_cons_of_ne_nil mark.spelling_ne_nil
  rw [hspelling, List.cons_prefix_cons] at h
  apply isStart_iff.2
  exact ⟨mark, by rw [hspelling, h.1]; rfl⟩

theorem leading?_cons_eq_none_iff : leading? (c :: rest) = none ↔ isStart c = false := by
  constructor
  · intro h
    by_contra hstart
    obtain ⟨mark, hmark⟩ := exists_spelling_singleton (Bool.of_not_eq_false hstart)
    have hfront : mark.spelling <+: c :: rest := by simp [hmark]
    obtain ⟨found, hfound⟩ := exists_leading? hfront
    rw [h] at hfound
    cases hfound
  · intro h
    cases hfound : leading? (c :: rest) with
    | none => rfl
    | some mark =>
      have hstart := isStart_of_isPrefix (isPrefix_of_leading? hfound)
      rw [h] at hstart
      cases hstart

end Mark

end ExprLang
