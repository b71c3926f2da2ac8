import ExprLang.Proofs.Lexeme.Ascii
import ExprLang.Proofs.Lexeme.Languages

/-!
# The classes of lexemes

What a lexeme looks like is said for each tag by the lexical grammar and by what may follow it (`IsLexeme`): marks are
as long as possible, words and numbers end where something else begins, and what is not recognised is neither a word nor
a number and goes on up to the next separator.  All lexemes of a source look like that
(`Source.exists_isLexeme_of_mem_lexemes`).
-/

namespace ExprLang

open Lexical

variable {c : Char} {text part rest : List Char}

/-! ### Separators -/

/-- Whether a text is over or begins with what stands between words: a blank, a mark or a comment. -/
inductive IsSeparated : List Char → Prop
  | nil : IsSeparated []
  | blank {first : Char} {tail : List Char} (h : first ∈ blanks) : IsSeparated (first :: tail)
  | mark (mark : Mark) (tail : List Char) : IsSeparated (mark.spelling ++ tail)
  | comment (tail : List Char) : IsSeparated ('/' :: '/' :: tail)

theorem isSeparated_iff : IsSeparated text ↔ endsLexeme text = true := by
  constructor
  · intro h
    cases h with
    | nil => rfl
    | blank h => simp [endsLexeme, isSeparator, mem_blanks_iff.1 h]
    | mark mark tail =>
      obtain ⟨c, spelling, hspelling⟩ := List.exists_cons_of_ne_nil mark.spelling_ne_nil
      have hstart : Mark.isStart c = true := Mark.isStart_iff.2 ⟨mark, by rw [hspelling]; rfl⟩
      simp [hspelling, endsLexeme, isSeparator, hstart]
    | comment tail => rfl
  · intro h
    cases text with
    | nil => exact .nil
    | cons c rest =>
      have h : isSeparator c = true := h
      rw [isSeparator, Bool.or_eq_true] at h
      rcases h with h | h
      · exact .blank (mem_blanks_iff.2 h)
      · obtain ⟨mark, hmark⟩ := Mark.exists_spelling_singleton h
        have hfront := IsSeparated.mark mark rest
        rwa [hmark] at hfront

theorem isSeparator_iff :
    isSeparator c = true ↔ c ∈ blanks ∨ ∃ mark : Mark, mark.spelling.head? = some c := by
  rw [isSeparator, Bool.or_eq_true, mem_blanks_iff, Mark.isStart_iff]

private theorem Mark.head?_spelling_all (mark : Mark) :
    mark.spelling.head?.all (fun c => !isWordChar c && c != '.') = true := by
  cases mark <;> decide

/-- What stands between words does not go on with a word or a number. -/
theorem IsSeparated.not_isWordChar (h : IsSeparated rest) : ∀ c ∈ rest.head?, isWordChar c = false ∧ c ≠ '.' := by
  intro c hc
  have hc : rest.head? = some c := hc
  have hends : rest.head?.all isSeparator = true := isSeparated_iff.1 h
  rw [hc] at hends
  rcases isSeparator_iff.1 hends with hblank | ⟨mark, hmark⟩
  · simp only [blanks, Set.mem_insert_iff, Set.mem_singleton_iff] at hblank
    rcases hblank with rfl | rfl | rfl | rfl <;> decide
  · have hall := mark.head?_spelling_all
    rw [hmark] at hall
    simpa using hall

/-! ### Words and numbers at the front of a text -/

theorem takeWhile_append_of_head {p : Char → Bool} {front : List Char} (hfront : ∀ c ∈ front, p c = true)
    (hrest : ∀ c ∈ rest.head?, p c = false) : (front ++ rest).takeWhile p = front := by
  rw [List.takeWhile_append_of_pos hfront]
  cases rest with
  | nil => simp
  | cons c rest => simp [hrest c rfl]

theorem dropWhile_append_of_head {p : Char → Bool} {front : List Char} (hfront : ∀ c ∈ front, p c = true)
    (hrest : ∀ c ∈ rest.head?, p c = false) : (front ++ rest).dropWhile p = rest := by
  rw [List.dropWhile_append_of_pos hfront]
  cases rest with
  | nil => simp
  | cons c rest => simp [hrest c rfl]

private theorem splitWord?_append_of_head (h : part ∈ words) (hrest : ∀ c ∈ rest.head?, isWordChar c = false) :
    splitWord? (part ++ rest) = some (part, rest) := by
  obtain ⟨c, tail, rfl, hstart, htail⟩ := mem_words_iff.1 h
  rw [List.cons_append, splitWord?, if_pos hstart, takeWhile_append_of_head htail hrest,
    dropWhile_append_of_head htail hrest]

private theorem mem_words_of_splitWord? (h : splitWord? text = some (part, rest)) : part ∈ words := by
  cases text with
  | nil => cases h
  | cons c text =>
    rw [splitWord?] at h
    split at h
    · rename_i hstart
      obtain ⟨rfl, -⟩ := Prod.mk.inj (Option.some.inj h)
      apply mem_words_iff.2
      exact ⟨c, _, rfl, hstart, fun d hd => List.mem_takeWhile_imp hd⟩
    · cases h

private theorem splitDigits?_append_of_head (run : DigitRun) (hrest : ∀ c ∈ rest.head?, isDigitOrGap c = false) :
    splitDigits? (run.spelling ++ rest) = some (run.spelling, rest) := by
  rw [DigitRun.spelling, List.cons_append, splitDigits?, if_pos run.first_isDigit,
    takeWhile_append_of_head run.rest_isDigitOrGap hrest, dropWhile_append_of_head run.rest_isDigitOrGap hrest]

private theorem splitFraction_of_head (hrest : ∀ c ∈ rest.head?, c ≠ '.') : splitFraction rest = ([], rest) := by
  unfold splitFraction
  split
  · exact absurd rfl (hrest '.' rfl)
  · rfl

private theorem splitSign_spelling_append (sign : Option Sign) (run : DigitRun) :
    splitSign (Sign.spelling sign ++ run.spelling ++ rest) = (Sign.spelling sign, run.spelling ++ rest) := by
  cases sign with
  | some sign => cases sign <;> rfl
  | none =>
    -- The first digit is not a sign.
    have hplus : run.first ≠ '+' := fun h => absurd run.first_isDigit (by rw [h]; decide)
    have hminus : run.first ≠ '-' := fun h => absurd run.first_isDigit (by rw [h]; decide)
    show splitSign (run.first :: (run.rest ++ rest)) = _
    unfold splitSign
    split
    · rename_i heq
      exact absurd (List.cons.inj heq).1 hplus
    · rename_i heq
      exact absurd (List.cons.inj heq).1 hminus
    · rfl

namespace DecimalText

variable (decimal : DecimalText)

/-- An exponent does not go on with the digits before it. -/
private theorem head_exponentSpelling_append (hrest : ∀ c ∈ rest.head?, isDigitOrGap c = false ∧ c ≠ '.') :
    ∀ c ∈ (decimal.exponentSpelling ++ rest).head?, isDigitOrGap c = false ∧ c ≠ '.' := by
  rw [exponentSpelling]
  split
  · exact hrest
  · rename_i exponent hexponent
    intro c hc
    obtain rfl : exponent.mark = c := Option.some.inj hc
    have hmark := exponent.mark_isExponentMark
    simp only [isExponentMark, Bool.or_eq_true, decide_eq_true_eq] at hmark
    rcases hmark with h | h <;> simp only [h] <;> decide

/-- A fraction does not go on with the digits before it. -/
private theorem head_fractionSpelling_append (hrest : ∀ c ∈ rest.head?, isDigitOrGap c = false) :
    ∀ c ∈ (decimal.fractionSpelling ++ rest).head?, isDigitOrGap c = false := by
  rw [fractionSpelling]
  split
  · exact hrest
  · intro c hc
    obtain rfl : '.' = c := Option.some.inj hc
    decide

private theorem splitFraction_append_of_head (hrest : ∀ c ∈ rest.head?, isDigitOrGap c = false ∧ c ≠ '.') :
    splitFraction (decimal.fractionSpelling ++ rest) = (decimal.fractionSpelling, rest) := by
  rw [fractionSpelling]
  split
  · exact splitFraction_of_head fun c hc => (hrest c hc).2
  · rename_i run hrun
    rw [List.cons_append, splitFraction, splitDigits?_append_of_head run fun c hc => (hrest c hc).1]

private theorem splitExponent_append_of_head (hrest : ∀ c ∈ rest.head?, isWordChar c = false) :
    splitExponent (decimal.exponentSpelling ++ rest) = (decimal.exponentSpelling, rest) := by
  have hdigits : ∀ c ∈ rest.head?, isDigitOrGap c = false := by
    intro c hc
    by_contra h
    have hword := isWordChar_of_isDigitOrGap (Bool.of_not_eq_false h)
    rw [hrest c hc] at hword
    cases hword
  rw [exponentSpelling]
  split
  · cases rest with
    | nil => rfl
    | cons c rest =>
      have hmark : ¬(c = 'e' ∨ c = 'E') := by
        rintro (rfl | rfl)
        · exact absurd (hrest 'e' rfl) (by decide)
        · exact absurd (hrest 'E' rfl) (by decide)
      rw [List.nil_append, splitExponent, if_neg hmark]
  · rename_i exponent hexponent
    have hmark : exponent.mark = 'e' ∨ exponent.mark = 'E' := by
      simpa [isExponentMark] using exponent.mark_isExponentMark
    rw [List.cons_append, splitExponent, if_pos hmark, ExponentText.tail, splitSign_spelling_append,
      splitDigits?_append_of_head exponent.run hdigits]
    rfl

/-- A number is read up to where something else begins. -/
private theorem splitDecimal?_spelling_append (hsign : decimal.sign = none) (hrest : IsSeparated rest) :
    splitDecimal? (decimal.spelling ++ rest) = some (decimal.spelling, rest) := by
  have hword : ∀ c ∈ rest.head?, isWordChar c = false := fun c hc => (hrest.not_isWordChar c hc).1
  have hdigits : ∀ c ∈ rest.head?, isDigitOrGap c = false ∧ c ≠ '.' := by
    intro c hc
    refine ⟨?_, (hrest.not_isWordChar c hc).2⟩
    by_contra h
    have hchar := isWordChar_of_isDigitOrGap (Bool.of_not_eq_false h)
    rw [hword c hc] at hchar
    cases hchar
  have hexponent := decimal.head_exponentSpelling_append hdigits
  have hfraction := decimal.head_fractionSpelling_append fun c hc => (hexponent c hc).1
  have hspelling : decimal.spelling
      = decimal.whole.spelling ++ decimal.fractionSpelling ++ decimal.exponentSpelling := by
    rw [spelling, front, hsign]
    rfl
  rw [hspelling, List.append_assoc, List.append_assoc, splitDecimal?, splitDigits?_append_of_head _ hfraction,
    Option.map_some]
  simp only [splitFraction_append_of_head decimal hexponent, splitExponent_append_of_head decimal hword,
    List.append_assoc]

end DecimalText

private theorem splitDecimal?_append_of_mem (h : part ∈ decimals) (hrest : IsSeparated rest) :
    splitDecimal? (part ++ rest) = some (part, rest) := by
  obtain ⟨decimal, hsign, rfl⟩ := mem_decimals_iff.1 h
  exact decimal.splitDecimal?_spelling_append hsign hrest

private theorem mem_decimals_of_splitDecimal? (h : splitDecimal? text = some (part, rest)) : part ∈ decimals := by
  apply mem_decimals_iff.2
  exact exists_decimalText h

/-! ### Atoms -/

/-- A word or a number, with its tag. -/
inductive IsAtom : Tag → List Char → Prop
  | keyword (keyword : Keyword) : IsAtom (.keyword keyword) keyword.spelling
  | name {word : List Char} (h : word ∈ words) (hkeyword : ∀ keyword : Keyword, word ≠ keyword.spelling) :
      IsAtom .name word
  | decimal {number : List Char} (h : number ∈ decimals) : IsAtom .decimal number

private theorem Keyword.spelling_mem_words (keyword : Keyword) : keyword.spelling ∈ words := by
  apply mem_words_iff.2
  cases keyword
  · exact ⟨'l', ['e', 't'], rfl, rfl, List.all_eq_true.1 (by decide)⟩
  · exact ⟨'v', ['a', 'r'], rfl, rfl, List.all_eq_true.1 (by decide)⟩

theorem IsAtom.cases_tag {tag : Tag} (h : IsAtom tag part) :
    tag = wordTag part ∧ part ∈ words ∨ tag = .decimal ∧ part ∈ decimals := by
  cases h with
  | keyword keyword => exact .inl ⟨by cases keyword <;> rfl, keyword.spelling_mem_words⟩
  | name h hkeyword =>
    have hnone : Keyword.ofWord? part = none := by
      apply List.find?_eq_none.2
      intro keyword _ hspelling
      exact hkeyword keyword (eq_of_beq hspelling).symm
    exact .inl ⟨by rw [wordTag, hnone], h⟩
  | decimal h => exact .inr ⟨rfl, h⟩

private theorem isAtom_wordTag (h : part ∈ words) : IsAtom (wordTag part) part := by
  cases hkeyword : Keyword.ofWord? part with
  | some keyword =>
    obtain rfl : keyword.spelling = part := by simpa [Keyword.ofWord?] using List.find?_some hkeyword
    rw [wordTag, hkeyword]
    exact .keyword keyword
  | none =>
    rw [wordTag, hkeyword]
    refine .name h fun keyword hpart => ?_
    have hnot := List.find?_eq_none.1 hkeyword keyword (by cases keyword <;> decide)
    exact hnot (by simp [hpart])

theorem isAtom_of_splitAtom? {tag : Tag} (h : splitAtom? text = some (tag, part, rest)) : IsAtom tag part := by
  rw [splitAtom?] at h
  split at h
  · rename_i hword
    simp only [Option.some.injEq, Prod.mk.injEq] at h
    obtain ⟨rfl, rfl, -⟩ := h
    apply isAtom_wordTag
    exact mem_words_of_splitWord? hword
  · obtain ⟨⟨number, after⟩, hnumber, h⟩ := Option.map_eq_some_iff.1 h
    simp only [Prod.mk.injEq] at h
    obtain ⟨rfl, rfl, -⟩ := h
    apply IsAtom.decimal
    exact mem_decimals_of_splitDecimal? hnumber

private theorem splitWord?_append_of_mem_decimals (h : part ∈ decimals) : splitWord? (part ++ rest) = none := by
  obtain ⟨decimal, hsign, rfl⟩ := mem_decimals_iff.1 h
  have hfirst : isWordStart decimal.whole.first = false := by
    have hletter := notMem_letters_of_mem_digits (mem_digits_iff.2 decimal.whole.first_isDigit)
    rwa [mem_letters_iff, Bool.not_eq_true] at hletter
  rw [DecimalText.spelling, DecimalText.front, hsign]
  show splitWord? (decimal.whole.first :: _) = none
  rw [splitWord?, hfirst]
  rfl

/-- A word or a number is read up to where something else begins. -/
theorem IsAtom.splitAtom?_append {tag : Tag} (h : IsAtom tag part) (hrest : IsSeparated rest) :
    splitAtom? (part ++ rest) = some (tag, part, rest) := by
  rcases h.cases_tag with ⟨rfl, hword⟩ | ⟨rfl, hdecimal⟩
  · rw [splitAtom?, splitWord?_append_of_head hword fun c hc => (hrest.not_isWordChar c hc).1]
  · rw [splitAtom?, splitWord?_append_of_mem_decimals hdecimal, splitDecimal?_append_of_mem hdecimal hrest]
    rfl

/-! ### Lexemes -/

/-- The lexical grammar: how the lexemes of a tag are spelled, and what comes after them. -/
inductive IsLexeme : Tag → (part rest : List Char) → Prop
  /-- A mark is as long as possible. -/
  | mark (mark : Mark) {rest : List Char} (h : ∀ other : Mark,
      other.spelling <+: mark.spelling ++ rest → other.spelling.length ≤ mark.spelling.length) :
      IsLexeme (.mark mark) mark.spelling rest
  | atom {tag : Tag} {part rest : List Char} (h : IsAtom tag part) (hrest : IsSeparated rest) : IsLexeme tag part rest
  /-- What is not recognised goes on up to where something else begins. -/
  | unrecognized {part rest : List Char} (hnil : part ≠ [])
      (h : ∀ c ∈ part, c ∉ blanks ∧ ∀ mark : Mark, mark.spelling.head? ≠ some c) (hword : part ∉ words)
      (hdecimal : part ∉ decimals) (hrest : IsSeparated rest) : IsLexeme .unrecognized part rest
  | endOfFile : IsLexeme .endOfFile [] ['\n']

private theorem isLexeme_of_leading? {mark : Mark} (h : Mark.leading? text = some mark) :
    IsLexeme (.mark mark) mark.spelling (text.drop mark.spelling.length) := by
  obtain ⟨⟨rest, rfl⟩, hlongest⟩ := Mark.leading?_eq_some_iff.1 h
  rw [List.drop_left]
  exact .mark mark hlongest

/-- What is not recognised is neither a word nor a number, as these are read first. -/
private theorem isLexeme_unrecognizedChunk (hstart : isSeparator c = false) (h : ∀ tag part after,
    splitAtom? (c :: rest) = some (tag, part, after) → endsLexeme after = false) :
    IsLexeme .unrecognized (c :: rest.takeWhile (!isSeparator ·)) (rest.dropWhile (!isSeparator ·)) := by
  have hrest : IsSeparated (rest.dropWhile (!isSeparator ·)) := by
    apply isSeparated_iff.2
    cases hdrop : rest.dropWhile (!isSeparator ·) with
    | nil => rfl
    | cons d after =>
      have hd := List.head_dropWhile_not (p := (!isSeparator ·)) (l := rest) (by simp [hdrop])
      simpa [hdrop, endsLexeme] using hd
  have hatom : ∀ tag, ¬IsAtom tag (c :: rest.takeWhile (!isSeparator ·)) := by
    intro tag hatom
    have hsplit := hatom.splitAtom?_append hrest
    rw [List.cons_append, List.takeWhile_append_dropWhile] at hsplit
    have hends := h _ _ _ hsplit
    rw [isSeparated_iff.1 hrest] at hends
    cases hends
  refine .unrecognized (List.cons_ne_nil _ _) ?_ (fun hword => ?_) (fun hdecimal => ?_) hrest
  · intro d hd
    have hd : isSeparator d = false := by
      rcases List.mem_cons.1 hd with rfl | hd
      · exact hstart
      · simpa using List.mem_takeWhile_imp hd
    rw [← Bool.not_eq_true, isSeparator_iff, not_or, not_exists] at hd
    exact hd
  · exact hatom _ (isAtom_wordTag hword)
  · exact hatom _ (.decimal hdecimal)

private theorem isLexeme_of_atomChunk {tag : Tag} {after : List Char} (hstart : isSeparator c = false)
    (h : atomChunk c rest = (.lexeme tag part, after)) : IsLexeme tag part after := by
  rw [atomChunk] at h
  split at h
  · rename_i hatom
    split at h
    · rename_i hends
      simp only [Prod.mk.injEq, Chunk.lexeme.injEq] at h
      obtain ⟨⟨rfl, rfl⟩, rfl⟩ := h
      exact .atom (isAtom_of_splitAtom? hatom) (isSeparated_iff.2 hends)
    · rename_i hends
      simp only [unrecognizedChunk, Prod.mk.injEq, Chunk.lexeme.injEq] at h
      obtain ⟨⟨rfl, rfl⟩, rfl⟩ := h
      apply isLexeme_unrecognizedChunk hstart
      intro tag part after hother
      rw [hatom] at hother
      cases hother
      exact Bool.of_not_eq_true hends
  · rename_i hatom
    simp only [unrecognizedChunk, Prod.mk.injEq, Chunk.lexeme.injEq] at h
    obtain ⟨⟨rfl, rfl⟩, rfl⟩ := h
    apply isLexeme_unrecognizedChunk hstart
    intro tag part after hother
    rw [hatom] at hother
    cases hother

/-- A chunk that is a lexeme is one by the lexical grammar. -/
private theorem isLexeme_of_firstChunk {tag : Tag} {after : List Char}
    (h : firstChunk c rest = (.lexeme tag part, after)) :
    IsLexeme tag part after := by
  rw [firstChunk] at h
  split at h
  · cases h
  · rename_i hblank
    split at h
    · cases h
    · split at h
      · rename_i hmark
        simp only [Prod.mk.injEq, Chunk.lexeme.injEq] at h
        obtain ⟨⟨rfl, rfl⟩, rfl⟩ := h
        exact isLexeme_of_leading? hmark
      · rename_i hmark
        refine isLexeme_of_atomChunk ?_ h
        rw [isSeparator, Mark.leading?_cons_eq_none_iff.1 hmark, Bool.or_false]
        exact Bool.of_not_eq_true hblank

/-- A placed lexeme is the first chunk of the text from its place on. -/
private theorem exists_firstChunk_of_mem_placeChunks {front : List Char} {lexeme : Lexeme}
    (h : (lexeme, part) ∈ placeChunks (byteLength front) (chunks text)) :
    ∃ before c rest after, front ++ text = before ++ c :: rest ∧ byteLength before = lexeme.span.start ∧
      byteLength before + byteLength part = lexeme.span.stop ∧ firstChunk c rest = (.lexeme lexeme.tag part, after) := by
  fun_induction chunks text generalizing front with
  | case1 => exact absurd h List.not_mem_nil
  | case2 c rest ih =>
    -- The characters before a chunk are those of the chunks before it.
    have hnext : (lexeme, part) ∈ placeChunks (byteLength (front ++ (firstChunk c rest).1.text))
        (chunks (firstChunk c rest).2) → ∃ before c' rest' after, front ++ c :: rest = before ++ c' :: rest' ∧
        byteLength before = lexeme.span.start ∧ byteLength before + byteLength part = lexeme.span.stop ∧
        firstChunk c' rest' = (.lexeme lexeme.tag part, after) := by
      intro hmem
      obtain ⟨before, c', rest', after, htext, hplace⟩ := ih hmem
      rw [List.append_assoc, firstChunk_append] at htext
      exact ⟨before, c', rest', after, htext, hplace⟩
    rw [byteLength_append] at hnext
    rcases hchunk : firstChunk c rest with ⟨chunk, after⟩
    rw [hchunk] at h hnext
    cases chunk with
    | layout blanks => exact hnext h
    | lexeme tag text =>
      rw [placeChunks, List.mem_cons] at h
      rcases h with h | h
      · obtain ⟨rfl, rfl⟩ := Prod.mk.inj h
        exact ⟨front, c, rest, after, rfl, rfl, rfl, hchunk⟩
      · exact hnext h

/-- The lexemes of a text are those of the lexical grammar. -/
theorem exists_isLexeme_of_mem_placeChunks {lexeme : Lexeme} (h : (lexeme, part) ∈ placeChunks 0 (chunks text)) :
    ∃ front rest, text = front ++ part ++ rest ∧ byteLength front = lexeme.span.start ∧
      byteLength front + byteLength part = lexeme.span.stop ∧ IsLexeme lexeme.tag part rest := by
  have h : (lexeme, part) ∈ placeChunks (byteLength []) (chunks text) := h
  obtain ⟨front, c, tail, rest, htext, hstart, hstop, hfirst⟩ := exists_firstChunk_of_mem_placeChunks h
  have hpart : part ++ rest = c :: tail := by
    rw [← firstChunk_append c tail, hfirst]
    rfl
  refine ⟨front, rest, ?_, hstart, hstop, isLexeme_of_firstChunk hfirst⟩
  rw [List.append_assoc, hpart, ← htext, List.nil_append]

namespace Source

/-- The lexemes of a source are those of the lexical grammar. -/
theorem exists_isLexeme_of_mem_lexemes (name : String) (content : List Char) {lexeme : Lexeme}
    (h : lexeme ∈ (ofContent name content).lexemes.toList) :
    ∃ front part rest, (ofContent name content).text = front ++ part ++ rest ∧
      byteLength front = lexeme.span.start ∧ byteLength front + byteLength part = lexeme.span.stop ∧
      IsLexeme lexeme.tag part rest := by
  obtain ⟨part, hspelled⟩ := exists_spelled_of_mem _ h
  rcases mem_spelledLexemes hspelled with hplaced | ⟨rfl, rfl⟩
  · obtain ⟨front, rest, hplace⟩ := exists_isLexeme_of_mem_placeChunks hplaced
    exact ⟨front, part, rest, hplace⟩
  · rw [closingLexeme_text]
    exact ⟨content, [], ['\n'], by simp [ofContent], rfl, rfl, .endOfFile⟩

theorem exists_isLexeme_of_mem_lexemes_brokenNumber :
    ⟨.unrecognized, ⟨4, 6, by decide⟩⟩ ∈ (ofContent "f" "a<<=1e+5abc 7.".toList).lexemes.toList ∧
      ∃ front part rest, (ofContent "f" "a<<=1e+5abc 7.".toList).text = front ++ part ++ rest ∧
        byteLength front = 4 ∧ byteLength front + byteLength part = 6 ∧ IsLexeme .unrecognized part rest := by
  have h : ⟨.unrecognized, ⟨4, 6, by decide⟩⟩ ∈ (ofContent "f" "a<<=1e+5abc 7.".toList).lexemes.toList := by
    decide +kernel
  exact ⟨h, exists_isLexeme_of_mem_lexemes "f" "a<<=1e+5abc 7.".toList h⟩

end Source

end ExprLang
