import ExprLang.Proofs.Lexeme.Classification
import ExprLang.Proofs.Lexeme.Lines

/-!
# Lexemes by themselves

A lexeme is read the same way when a blank follows it, whatever stood around it before (`firstChunk_of_isLexeme`).  So
the lexemes of a source with single spaces between them are lexemes of the same tags and characters again, and the
messages about them are the same (`Source.tagsAndTexts_spaced`).
-/

namespace ExprLang

open Lexical

variable {b c : Char} {tag : Tag} {part rest more : List Char}

/-! ### Blanks and lexemes -/

private theorem Mark.not_isBlank_of_mem_spelling (mark : Mark) : ∀ c ∈ mark.spelling, isBlank c = false := by
  have hall : mark.spelling.all (!isBlank ·) = true := by
    cases mark <;> decide
  intro c hmem
  simpa using List.all_eq_true.1 hall c hmem

private theorem not_isBlank_of_isWordChar (h : isWordChar c = true) : isBlank c = false := by
  by_contra hblank
  have hseparated : IsSeparated [c] := .blank (mem_blanks_iff.2 (Bool.of_not_eq_false hblank))
  have hnot := (hseparated.not_isWordChar c rfl).1
  rw [h] at hnot
  cases hnot

private theorem not_isBlank_of_isMantissaChar (h : isMantissaChar c = true) : isBlank c = false := by
  simp only [isMantissaChar, Bool.or_eq_true, decide_eq_true_eq] at h
  rcases h with ((h | rfl) | rfl) | rfl
  · exact not_isBlank_of_isWordChar (isWordChar_of_isDigitOrGap h)
  · decide
  · decide
  · decide

private theorem DecimalText.not_isBlank_of_mem_spelling (decimal : DecimalText) :
    ∀ c ∈ decimal.spelling, isBlank c = false := by
  rw [spelling, List.forall_mem_append]
  constructor
  · intro c hc
    exact not_isBlank_of_isMantissaChar (decimal.isMantissaChar_of_mem_front hc)
  · rw [exponentSpelling]
    split
    · simp
    · rename_i exponent hexponent
      rw [List.forall_mem_cons, ExponentText.tail, List.forall_mem_append]
      refine ⟨?_, ?_, ?_⟩
      · have hmark : exponent.mark = 'e' ∨ exponent.mark = 'E' := by
          simpa [isExponentMark] using exponent.mark_isExponentMark
        rcases hmark with h | h <;> rw [h] <;> decide
      · intro c hc
        have hall : (Sign.spelling exponent.sign).all (!isBlank ·) = true := by
          rcases exponent.sign with _ | _ | _ <;> rfl
        simpa using List.all_eq_true.1 hall c hc
      · intro c hc
        exact not_isBlank_of_isWordChar (isWordChar_of_isDigitOrGap (exponent.run.isDigitOrGap_of_mem hc))

private theorem IsAtom.not_isBlank_of_mem (h : IsAtom tag part) : ∀ c ∈ part, isBlank c = false := by
  rcases h.cases_tag with ⟨-, hword⟩ | ⟨-, hdecimal⟩
  · obtain ⟨c, tail, rfl, hstart, htail⟩ := mem_words_iff.1 hword
    rw [List.forall_mem_cons]
    refine ⟨not_isBlank_of_isWordChar (isWordChar_of_isWordStart hstart), fun d hd => ?_⟩
    exact not_isBlank_of_isWordChar (htail d hd)
  · obtain ⟨decimal, -, rfl⟩ := mem_decimals_iff.1 hdecimal
    exact decimal.not_isBlank_of_mem_spelling

/-- A word or a number does not begin with a separator. -/
private theorem IsAtom.exists_cons (h : IsAtom tag part) : ∃ c tail, part = c :: tail ∧ isSeparator c = false := by
  have hstart : ∃ c tail, part = c :: tail ∧ isWordChar c = true := by
    rcases h.cases_tag with ⟨-, hword⟩ | ⟨-, hdecimal⟩
    · obtain ⟨c, tail, rfl, hstart, -⟩ := mem_words_iff.1 hword
      exact ⟨c, tail, rfl, isWordChar_of_isWordStart hstart⟩
    · obtain ⟨decimal, hsign, rfl⟩ := mem_decimals_iff.1 hdecimal
      rw [DecimalText.spelling, DecimalText.front, hsign]
      exact ⟨decimal.whole.first, _, rfl, by simp [isWordChar, Char.isAlphanum, decimal.whole.first_isDigit]⟩
  obtain ⟨c, tail, rfl, hchar⟩ := hstart
  refine ⟨c, tail, rfl, ?_⟩
  by_contra hseparator
  have hseparated : IsSeparated (c :: tail) := isSeparated_iff.2 (Bool.of_not_eq_false hseparator)
  have hnot := (hseparated.not_isWordChar c rfl).1
  rw [hchar] at hnot
  cases hnot

/-! ### Lexemes before a blank -/

private theorem Mark.leading?_spelling_append (mark : Mark) (hblank : isBlank b = true) :
    leading? (mark.spelling ++ b :: more) = some mark := by
  apply leading?_eq_some_iff.2
  refine ⟨List.prefix_append .., fun other hother => ?_⟩
  by_contra hlong
  -- A longer mark would hold the blank.
  have hshort : mark.spelling ++ [b] <+: mark.spelling ++ b :: more := ⟨more, by simp⟩
  have hprefix : mark.spelling ++ [b] <+: other.spelling := by
    apply List.prefix_of_prefix_length_le hshort hother
    simp only [List.length_append, List.length_singleton]
    omega
  have hmem : b ∈ other.spelling := hprefix.subset (by simp)
  have hnot := other.not_isBlank_of_mem_spelling b hmem
  rw [hblank] at hnot
  cases hnot

private theorem firstChunk_of_not_isSeparator (h : isSeparator c = false) : firstChunk c rest = atomChunk c rest := by
  have hstart : Mark.isStart c = false := by
    rw [isSeparator, Bool.or_eq_false_iff] at h
    exact h.2
  have hslash : ¬(c = '/' ∧ rest.head? = some '/') := by
    rintro ⟨rfl, -⟩
    exact absurd hstart (by decide)
  have hblank : ¬isBlank c = true := by
    rw [isSeparator, Bool.or_eq_false_iff] at h
    simp [h.1]
  rw [firstChunk, if_neg hblank, if_neg hslash, Mark.leading?_cons_eq_none_iff.2 hstart]

private theorem atomChunk_of_isAtom {tail : List Char} (h : IsAtom tag (c :: tail)) (hrest : IsSeparated rest) :
    atomChunk c (tail ++ rest) = (.lexeme tag (c :: tail), rest) := by
  have hsplit := h.splitAtom?_append hrest
  rw [List.cons_append] at hsplit
  rw [atomChunk, hsplit]
  exact if_pos (isSeparated_iff.1 hrest)

/-- What is neither a word nor a number is still neither when a blank follows it. -/
private theorem atomChunk_of_not_isAtom {tail : List Char} (hblank : isBlank b = true)
    (hpart : ∀ d ∈ c :: tail, isSeparator d = false) (hatom : ∀ tag, ¬IsAtom tag (c :: tail)) :
    atomChunk c (tail ++ b :: more) = (.lexeme .unrecognized (c :: tail), b :: more) := by
  have hseparator : isSeparator b = true := by
    rw [isSeparator, hblank, Bool.true_or]
  have hchunk : unrecognizedChunk c (tail ++ b :: more) = (.lexeme .unrecognized (c :: tail), b :: more) := by
    have htail : ∀ d ∈ tail, (!isSeparator d) = true := fun d hd => by simp [hpart d (List.mem_cons_of_mem _ hd)]
    have hrest : ∀ d ∈ (b :: more).head?, (!isSeparator d) = false := fun d hd => by
      obtain rfl : b = d := Option.some.inj hd
      simp [hseparator]
    rw [unrecognizedChunk, takeWhile_append_of_head htail hrest, dropWhile_append_of_head htail hrest]
  rw [atomChunk]
  split
  · rename_i tag atom after hsplit
    split
    · rename_i hends
      exfalso
      have hfound := isAtom_of_splitAtom? hsplit
      have happend : atom ++ after = (c :: tail) ++ b :: more := (splitAtom?_append hsplit).1
      rcases List.append_eq_append_iff.1 happend with ⟨middle, hmiddle, hafter⟩ | ⟨middle, hmiddle, hrest⟩
      · -- The atom ends inside of the run, so it ends at its end, as there is no separator in it.
        cases middle with
        | nil =>
          rw [List.append_nil] at hmiddle
          exact hatom tag (hmiddle ▸ hfound)
        | cons d middle =>
          have hd := hpart d (by simp [hmiddle])
          rw [hafter, List.cons_append] at hends
          have hends : isSeparator d = true := hends
          rw [hd] at hends
          cases hends
      · -- The atom goes on to the blank, which is in no atom.
        cases middle with
        | nil =>
          rw [List.append_nil] at hmiddle
          exact hatom tag (hmiddle ▸ hfound)
        | cons d middle =>
          obtain ⟨rfl, -⟩ := List.cons.inj hrest
          have hnot := hfound.not_isBlank_of_mem b (by simp [hmiddle])
          rw [hblank] at hnot
          cases hnot
    · exact hchunk
  · exact hchunk

/-- A lexeme is read the same way when it is followed by a blank. -/
private theorem firstChunk_of_isLexeme (h : IsLexeme tag part rest) (htag : tag ≠ .endOfFile)
    (hblank : isBlank b = true) (more : List Char) :
    ∃ c tail, part = c :: tail ∧ firstChunk c (tail ++ b :: more) = (.lexeme tag part, b :: more) := by
  have hseparated : IsSeparated (b :: more) := .blank (mem_blanks_iff.2 hblank)
  cases h with
  | mark mark hlongest =>
    obtain ⟨c, tail, hspelling⟩ := List.exists_cons_of_ne_nil mark.spelling_ne_nil
    have hc : ¬isBlank c = true := by
      simp [mark.not_isBlank_of_mem_spelling c (by simp [hspelling])]
    have hslashes : ¬(c = '/' ∧ (tail ++ b :: more).head? = some '/') := by
      have hall : ∀ mark ∈ Mark.all, mark.spelling.take 2 ≠ ['/', '/'] := by decide +kernel
      have hmark := hall mark mark.mem_all
      rintro ⟨rfl, hhead⟩
      cases tail with
      | nil =>
        obtain rfl : b = '/' := Option.some.inj hhead
        exact absurd hblank (by decide)
      | cons d tail =>
        obtain rfl : d = '/' := Option.some.inj hhead
        rw [hspelling] at hmark
        exact hmark rfl
    have hleading : Mark.leading? (mark.spelling ++ b :: more) = some mark := mark.leading?_spelling_append hblank
    refine ⟨c, tail, hspelling, ?_⟩
    rw [hspelling, List.cons_append] at hleading
    rw [firstChunk, if_neg hc, if_neg hslashes, hleading, ← List.cons_append, ← hspelling]
    simp
  | atom hatom hrest =>
    obtain ⟨c, tail, rfl, hc⟩ := hatom.exists_cons
    refine ⟨c, tail, rfl, ?_⟩
    rw [firstChunk_of_not_isSeparator hc]
    exact atomChunk_of_isAtom hatom hseparated
  | unrecognized hnil hpart hword hdecimal hrest =>
    obtain ⟨c, tail, rfl⟩ := List.exists_cons_of_ne_nil hnil
    have hseparator : ∀ d ∈ c :: tail, isSeparator d = false := by
      intro d hd
      obtain ⟨hnotBlank, hnotMark⟩ := hpart d hd
      rw [← Bool.not_eq_true, isSeparator_iff, not_or, not_exists]
      exact ⟨hnotBlank, hnotMark⟩
    refine ⟨c, tail, rfl, ?_⟩
    rw [firstChunk_of_not_isSeparator (hseparator c List.mem_cons_self)]
    apply atomChunk_of_not_isAtom hblank hseparator
    intro tag hatom
    rcases hatom.cases_tag with ⟨-, h⟩ | ⟨-, h⟩
    · exact hword h
    · exact hdecimal h
  | endOfFile => exact absurd rfl htag

/-! ### Lexemes with spaces between them -/

/-- The tags and the characters of the lexemes among chunks. -/
def tagsAndParts (chunks : List Chunk) : List (Tag × List Char) :=
  (placeChunks 0 chunks).map fun (lexeme, part) => (lexeme.tag, part)

/-- Tags and characters do not depend on the place. -/
private theorem tagsAndParts_eq (offset : Nat) (chunks : List Chunk) :
    tagsAndParts chunks = (placeChunks offset chunks).map fun (lexeme, part) => (lexeme.tag, part) := by
  rw [tagsAndParts, ← Nat.zero_add offset, placeChunks_add, List.map_map]
  rfl

private theorem tagsAndParts_lexeme (chunks : List Chunk) :
    tagsAndParts (.lexeme tag part :: chunks) = (tag, part) :: tagsAndParts chunks := by
  rw [tagsAndParts, placeChunks, List.map_cons, ← tagsAndParts_eq]

private theorem tagsAndParts_blank (hblank : isBlank b = true) :
    tagsAndParts (chunks (b :: more)) = tagsAndParts (chunks more) := by
  rw [tagsAndParts, placeChunks_blank hblank, ← tagsAndParts_eq]

/-- A lexeme and a blank in front of a text are a lexeme more. -/
private theorem tagsAndParts_append (h : IsLexeme tag part rest) (htag : tag ≠ .endOfFile) (hblank : isBlank b = true) :
    tagsAndParts (chunks (part ++ b :: more)) = (tag, part) :: tagsAndParts (chunks more) := by
  obtain ⟨c, tail, rfl, hchunk⟩ := firstChunk_of_isLexeme h htag hblank more
  rw [List.cons_append, chunks, hchunk, tagsAndParts_lexeme, tagsAndParts_blank hblank]

/-- Lexemes with single spaces between them are read as they are. -/
private theorem tagsAndParts_intercalate {lexemes : List (Tag × List Char)}
    (h : ∀ tag part, (tag, part) ∈ lexemes → tag ≠ .endOfFile ∧ ∃ rest, IsLexeme tag part rest) :
    tagsAndParts (chunks ([' '].intercalate (lexemes.map (·.2)) ++ ['\n'])) = lexemes := by
  induction lexemes with
  | nil =>
    rw [List.map_nil, List.intercalate_nil, List.nil_append, tagsAndParts_blank (by decide), chunks]
    rfl
  | cons first lexemes ih =>
    obtain ⟨tag, part⟩ := first
    obtain ⟨htag, rest, hlexeme⟩ := h tag part List.mem_cons_self
    have ih := ih fun tag part hmem => h tag part (List.mem_cons_of_mem _ hmem)
    cases lexemes with
    | nil =>
      rw [List.map_cons, List.map_nil, List.intercalate_singleton, tagsAndParts_append hlexeme htag (by decide), chunks]
      rfl
    | cons second lexemes =>
      rw [List.map_cons, List.map_cons, List.intercalate_cons_cons, List.append_assoc, List.append_assoc,
        List.singleton_append, tagsAndParts_append hlexeme htag (by decide), ← List.map_cons, ih]

namespace Source

variable (name name' : String) (content : List Char)

theorem tagsAndTexts_eq :
    (ofContent name content).tagsAndTexts
      = .ok (tagsAndParts (chunks (ofContent name content).text) ++ [(.endOfFile, [])]) := by
  rw [tagsAndTexts_eq_ok, spelledLexemes, List.map_append]
  rfl

/-- What is reported about lexemes depends on their tags and characters only, but for the places. -/
theorem map_lexicalDiagnostics {α : Type} {f : Diagnostic → α} {g : List Char → α}
    (h : ∀ span part, f { severity := .error, span, message := unrecognizedMessage part } = g part)
    {tagged : List (Tag × List Char)} (htagged : (ofContent name content).tagsAndTexts = .ok tagged) :
    (ofContent name content).lexicalDiagnostics.toList.map f = tagged.filterMap fun (tag, part) =>
      if tag = .unrecognized then some (g part) else none := by
  rw [tagsAndTexts_eq_ok] at htagged
  obtain rfl := Except.ok.inj htagged
  rw [toList_lexicalDiagnostics, List.map_filterMap, List.filterMap_map]
  congr 1
  funext spelled
  obtain ⟨lexeme, part⟩ := spelled
  show (lexicalDiagnostic? lexeme part).map _ = if lexeme.tag = .unrecognized then _ else _
  rw [lexicalDiagnostic?]
  split
  · exact congrArg some (h lexeme.span part)
  · rfl

/-- The characters of lexemes but the end of the file, with single spaces between them. -/
def spaced (tagged : List (Tag × List Char)) : List Char :=
  [' '].intercalate ((tagged.filter (·.1 ≠ .endOfFile)).map (·.2))

/-- Reading the lexemes of a source again, with single spaces between them, gives the same lexemes and messages. -/
theorem tagsAndTexts_spaced :
    ∃ tagged, (ofContent name content).tagsAndTexts = .ok tagged ∧
      (ofContent name' (spaced tagged)).tagsAndTexts = .ok tagged ∧
      (ofContent name' (spaced tagged)).lexicalDiagnostics.toList.map (·.message)
        = (ofContent name content).lexicalDiagnostics.toList.map (·.message) := by
  have hmem : ∀ tag part, (tag, part) ∈ tagsAndParts (chunks (ofContent name content).text) →
      tag ≠ .endOfFile ∧ ∃ rest, IsLexeme tag part rest := by
    intro tag part h
    obtain ⟨⟨lexeme, _⟩, hplaced, hspelled⟩ := List.mem_map.1 h
    obtain ⟨rfl, rfl⟩ := Prod.mk.inj hspelled
    obtain ⟨_, rest, -, -, -, hlexeme⟩ := exists_isLexeme_of_mem_placeChunks hplaced
    exact ⟨(tag_of_mem_chunks (mem_chunks_of_mem_placeChunks hplaced)).1, rest, hlexeme⟩
  have htagged := tagsAndTexts_eq name content
  have hfilter : (tagsAndParts (chunks (ofContent name content).text) ++ [(Tag.endOfFile, [])]).filter
      (·.1 ≠ Tag.endOfFile) = tagsAndParts (chunks (ofContent name content).text) := by
    rw [List.filter_append, List.filter_eq_self.2 fun pair hpair => ?_]
    · simp
    · simpa using (hmem pair.1 pair.2 hpair).1
  generalize hlexemes : tagsAndParts (chunks (ofContent name content).text) = lexemes at *
  have hagain : (ofContent name' (spaced (lexemes ++ [(Tag.endOfFile, [])]))).tagsAndTexts
      = .ok (lexemes ++ [(Tag.endOfFile, [])]) := by
    rw [tagsAndTexts_eq, spaced, hfilter]
    congr 2
    exact tagsAndParts_intercalate hmem
  have hmessage : ∀ (span : Span) (part : List Char),
      Diagnostic.message ⟨.error, span, unrecognizedMessage part⟩ = unrecognizedMessage part := fun _ _ => rfl
  refine ⟨_, htagged, hagain, ?_⟩
  rw [map_lexicalDiagnostics _ _ hmessage hagain, map_lexicalDiagnostics _ _ hmessage htagged]

end Source

end ExprLang
