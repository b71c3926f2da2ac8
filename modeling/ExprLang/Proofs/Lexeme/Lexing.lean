import ExprLang.Proofs.Lexeme.Chunks
import ExprLang.Proofs.Stages

/-!
# What lexers do

A lexer that stands before a part of a text moves on over the front of that part, and each of its steps does to the
positions what the description by chunks does to the characters.  One round takes off one chunk (`lexNext_cons`), so the
rounds take off all of them, and no position, slice or span goes wrong on the way (`Source.lex_eq`).
-/

namespace ExprLang

/-! ### Places before parts of a text -/

/-- The byte offset at which the rest of a text begins. -/
def offsetOf (text rest : List Char) : Nat :=
  byteLength text - byteLength rest

section Places

variable {text front rest : List Char}

private theorem offsetOf_append (front rest : List Char) : offsetOf (front ++ rest) rest = byteLength front := by
  rw [offsetOf, byteLength_append, Nat.add_sub_cancel]

/-- What stands in front of the rest of a text reaches up to it. -/
private theorem offsetOf_add (h : front ++ rest <:+ text) :
    offsetOf text (front ++ rest) + byteLength front = offsetOf text rest := by
  obtain ⟨before, rfl⟩ := h
  rw [offsetOf_append, ← List.append_assoc, offsetOf_append, byteLength_append]

private theorem offsetOf_le (h : front ++ rest <:+ text) : offsetOf text (front ++ rest) ≤ offsetOf text rest := by
  rw [← offsetOf_add h]
  exact Nat.le_add_right ..

private theorem offsetOf_cons_add {c : Char} (h : c :: rest <:+ text) :
    offsetOf text (c :: rest) + c.utf8Size = offsetOf text rest := by
  have h : [c] ++ rest <:+ text := h
  have hadd := offsetOf_add h
  rwa [byteLength_cons, byteLength_nil, Nat.add_zero] at hadd

private theorem between_offsetOf (h : front ++ rest <:+ text) :
    Span.between (offsetOf text (front ++ rest)) (offsetOf text rest)
      = .ok { start := offsetOf text (front ++ rest), stop := offsetOf text (front ++ rest) + byteLength front } := by
  simp only [Span.between, dif_pos (offsetOf_le h), offsetOf_add h]

end Places

/-- A lexer that stands before the rest of a text. -/
def LexerState.before (state : LexerState) (text rest : List Char) : LexerState :=
  { state with position := offsetOf text rest }

/-- A lexer with further lexemes and the reports about them. -/
def LexerState.extend (state : LexerState) (spelled : List (Lexeme × List Char)) : LexerState where
  position := state.position
  lexemes := ⟨state.lexemes.entries ++ (spelled.map (·.1)).toArray⟩
  diagnostics := ⟨state.diagnostics.entries
    ++ (spelled.filterMap fun (lexeme, part) => lexicalDiagnostic? lexeme part).toArray⟩

namespace LexerState

private theorem extend_append (state : LexerState) (first second : List (Lexeme × List Char)) :
    (state.extend first).extend second = state.extend (first ++ second) := by
  simp [extend]

private theorem extend_lexeme (state : LexerState) (offset : Nat) {tag : Tag} (htag : tag ≠ .unrecognized)
    (part : List Char) :
    state.extend (placeChunks offset [.lexeme tag part]) = { state with
      lexemes := state.lexemes.push ⟨tag, offset, offset + byteLength part, Nat.le_add_right ..⟩ } := by
  have hreport (span : Span) : lexicalDiagnostic? { tag, span } part = none := if_neg htag
  simp only [extend, placeChunks, List.map_cons, List.map_nil, Array.append_singleton, List.filterMap_cons, hreport,
    List.filterMap_nil, Array.append_empty, Lexemes.push]

private theorem extend_unrecognized (state : LexerState) (offset : Nat) (part : List Char) :
    state.extend (placeChunks offset [.lexeme .unrecognized part]) = { state with
      lexemes := state.lexemes.push ⟨.unrecognized, offset, offset + byteLength part, Nat.le_add_right ..⟩
      diagnostics := state.diagnostics.report {
        severity := .error
        span := ⟨offset, offset + byteLength part, Nat.le_add_right ..⟩
        message := unrecognizedMessage part } } := by
  have hreport (span : Span) : lexicalDiagnostic? { tag := .unrecognized, span } part
      = some { severity := .error, span, message := unrecognizedMessage part } := if_pos rfl
  simp only [extend, placeChunks, List.map_cons, List.map_nil, Array.append_singleton, List.filterMap_cons, hreport,
    List.filterMap_nil, Lexemes.push, Diagnostics.report]

private theorem extend_nil (state : LexerState) : state.extend [] = state := by
  simp [extend]

end LexerState

namespace IndexedText

variable {indexed : IndexedText} {front rest : List Char}

private theorem after_offsetOf (h : rest <:+ indexed.text) : indexed.after (offsetOf indexed.text rest) = .ok rest := by
  obtain ⟨before, htext⟩ := h
  rw [after_eq_ok_iff]
  exact ⟨before, htext.symm, by rw [← htext, offsetOf_append]⟩

private theorem slice_offsetOf (h : front ++ rest <:+ indexed.text) :
    indexed.slice (offsetOf indexed.text (front ++ rest)) (offsetOf indexed.text rest) = .ok front := by
  have hlength : offsetOf indexed.text rest - offsetOf indexed.text (front ++ rest) = byteLength front := by
    rw [← offsetOf_add h, Nat.add_sub_cancel_left]
  have hsplit : splitBytes? (byteLength front) (front ++ rest) = some (front.reverse, rest) :=
    splitBytes?_eq_some_iff.2 ⟨by rw [List.reverse_reverse], byteLength_reverse front⟩
  rw [slice, if_pos (offsetOf_le h), after_offsetOf h, hlength]
  simp only [bind, Except.bind, hsplit, List.reverse_reverse]
  rfl

/-- The characters with a property are passed over. -/
private theorem skipWhile_offsetOf {p : List Char → Bool} {q : Char → Bool} (hpq : ∀ c tail, p (c :: tail) = q c)
    (h : rest <:+ indexed.text) : indexed.skipWhile p (offsetOf indexed.text rest)
      = .ok (offsetOf indexed.text (rest.dropWhile q)) := by
  induction rest with
  | nil =>
    rw [skipWhile]
    split
    · rename_i hafter
      cases (after_offsetOf h).symm.trans hafter
    · rfl
    · rename_i hafter
      cases (after_offsetOf h).symm.trans hafter
  | cons c rest ih =>
    rw [skipWhile]
    split
    · rename_i hafter
      cases (after_offsetOf h).symm.trans hafter
    · rename_i hafter
      cases (after_offsetOf h).symm.trans hafter
    · rename_i hafter
      cases (after_offsetOf h).symm.trans hafter
      rw [hpq, List.dropWhile_cons]
      split
      · rw [offsetOf_cons_add h]
        exact ih ((List.suffix_cons c rest).trans h)
      · rfl

end IndexedText

/-! ### Moving over characters -/

namespace Lexer

variable {indexed : IndexedText} {state : LexerState} {c : Char} {front rest after : List Char} {p q : Char → Bool}

private theorem position_before :
    position (state.before indexed.text rest) = (.done (offsetOf indexed.text rest), state.before indexed.text rest) :=
  rfl

private theorem moveTo_before (position : Nat) (h : position = offsetOf indexed.text after) :
    moveTo position (state.before indexed.text rest) = (.done (), state.before indexed.text after) := by
  rw [h]
  rfl

private theorem ahead_before (h : rest <:+ indexed.text) :
    ahead indexed (state.before indexed.text rest) = (.done rest, state.before indexed.text rest) := by
  rw [ahead, Stage.bind_of_done position_before, IndexedText.after_offsetOf h]
  rfl

private theorem passed_before (h : front ++ rest <:+ indexed.text) :
    passed indexed (offsetOf indexed.text (front ++ rest)) (state.before indexed.text rest)
      = (.done front, state.before indexed.text rest) := by
  rw [passed, Stage.bind_of_done position_before, IndexedText.slice_offsetOf h]
  rfl

private theorem skipWhile_before {p : List Char → Bool} (hpq : ∀ c tail, p (c :: tail) = q c)
    (h : rest <:+ indexed.text) :
    skipWhile indexed p (state.before indexed.text rest)
      = (.done (), state.before indexed.text (rest.dropWhile q)) := by
  rw [skipWhile, Stage.bind_of_done position_before, IndexedText.skipWhile_offsetOf hpq h]
  rfl

private theorem eatChar_cons (h : c :: rest <:+ indexed.text) (hc : p c = true) :
    eatChar indexed p (state.before indexed.text (c :: rest)) = (.done true, state.before indexed.text rest) := by
  rw [eatChar, Stage.bind_of_done (ahead_before h)]
  simp only [hc, if_true]
  rw [Stage.bind_of_done position_before, offsetOf_cons_add h]
  rfl

private theorem eatChar_of_none (h : rest <:+ indexed.text) (hc : ∀ c ∈ rest.head?, p c = false) :
    eatChar indexed p (state.before indexed.text rest) = (.done false, state.before indexed.text rest) := by
  rw [eatChar, Stage.bind_of_done (ahead_before h)]
  cases rest with
  | nil => rfl
  | cons c rest =>
    simp only [hc c rfl, Bool.false_eq_true, if_false]
    rfl

/-! ### Words and numbers -/

/-- A lexeme that a lexer has moved over is added. -/
private theorem push_before (tag : Tag) (h : front ++ rest <:+ indexed.text) :
    push tag (offsetOf indexed.text (front ++ rest)) (state.before indexed.text rest)
      = (.done (), { state.before indexed.text rest with lexemes := state.lexemes.push {
          tag := tag
          span := {
            start := offsetOf indexed.text (front ++ rest)
            stop := offsetOf indexed.text (front ++ rest) + byteLength front } } }) := by
  rw [push, Stage.bind_of_done position_before, between_offsetOf h]
  rfl

private theorem push_extend (state : LexerState) {tag : Tag} (htag : tag ≠ .unrecognized)
    (h : front ++ rest <:+ indexed.text) :
    push tag (offsetOf indexed.text (front ++ rest)) (state.before indexed.text rest)
      = (.done (), (state.extend (placeChunks (offsetOf indexed.text (front ++ rest)) [.lexeme tag front])).before
          indexed.text rest) := by
  rw [push_before tag h, LexerState.extend_lexeme _ _ htag]
  rfl

private theorem eatDigits_of_some (h : rest <:+ indexed.text) (hdigits : splitDigits? rest = some (front, after)) :
    eatDigits indexed (state.before indexed.text rest) = (.done true, state.before indexed.text after) := by
  cases rest with
  | nil => cases hdigits
  | cons c rest =>
    rw [splitDigits?] at hdigits
    split at hdigits
    · rename_i hc
      obtain ⟨-, rfl⟩ := Prod.mk.inj (Option.some.inj hdigits)
      rw [eatDigits, Stage.bind_of_done (eatChar_cons h hc), if_pos rfl,
        Stage.bind_of_done (skipWhile_before (fun _ _ => rfl) ((List.suffix_cons c rest).trans h))]
      rfl
    · cases hdigits

private theorem eatDigits_of_none (h : rest <:+ indexed.text) (hdigits : splitDigits? rest = none) :
    eatDigits indexed (state.before indexed.text rest) = (.done false, state.before indexed.text rest) := by
  rw [eatDigits, Stage.bind_of_done (eatChar_of_none h fun c hc => ?_)]
  · rfl
  · cases rest with
    | nil => cases hc
    | cons d rest =>
      obtain rfl := Option.some.inj hc
      rw [splitDigits?] at hdigits
      split at hdigits
      · cases hdigits
      · rename_i hc
        exact Bool.of_not_eq_true hc

/-- A fraction that breaks off is left where it is. -/
private theorem eatFraction_before (h : rest <:+ indexed.text) :
    eatFraction indexed (state.before indexed.text rest)
      = (.done (), state.before indexed.text (splitFraction rest).2) := by
  rw [eatFraction, Stage.bind_of_done position_before]
  unfold splitFraction
  split
  · rename_i tail
    have htail : tail <:+ indexed.text := (List.suffix_cons '.' tail).trans h
    rw [Stage.bind_of_done (eatChar_cons h rfl), if_pos rfl]
    cases hdigits : splitDigits? tail with
    | some pair =>
      rw [Stage.bind_of_done (eatDigits_of_some htail hdigits)]
      rfl
    | none =>
      rw [Stage.bind_of_done (eatDigits_of_none htail hdigits)]
      exact moveTo_before _ rfl
  · rename_i hpoint
    rw [Stage.bind_of_done (eatChar_of_none h fun c hc => ?_)]
    · rfl
    · rw [decide_eq_false_iff_not]
      rintro rfl
      obtain ⟨tail, rfl⟩ := List.head?_eq_some_iff.1 hc
      exact hpoint tail rfl

private theorem eatSign_before (h : rest <:+ indexed.text) :
    ∃ eaten, eatChar indexed isSign (state.before indexed.text rest)
      = (.done eaten, state.before indexed.text (splitSign rest).2) := by
  unfold splitSign
  split
  · exact ⟨true, eatChar_cons h rfl⟩
  · exact ⟨true, eatChar_cons h rfl⟩
  · rename_i hplus hminus
    refine ⟨false, eatChar_of_none h fun c hc => ?_⟩
    obtain ⟨tail, rfl⟩ := List.head?_eq_some_iff.1 hc
    rw [isSign, Bool.or_eq_false_iff, decide_eq_false_iff_not, decide_eq_false_iff_not]
    exact ⟨fun hc => hplus tail (by rw [hc]), fun hc => hminus tail (by rw [hc])⟩

/-- An exponent that breaks off is left where it is. -/
private theorem eatExponent_before (h : rest <:+ indexed.text) :
    eatExponent indexed (state.before indexed.text rest)
      = (.done (), state.before indexed.text (splitExponent rest).2) := by
  rw [eatExponent, Stage.bind_of_done position_before]
  unfold splitExponent
  split
  · rw [Stage.bind_of_done (eatChar_of_none h (by simp))]
    rfl
  · rename_i c tail
    have htail : tail <:+ indexed.text := (List.suffix_cons c tail).trans h
    split
    · rename_i hc
      obtain ⟨eaten, heaten⟩ := eatSign_before htail
      have hsign : (splitSign tail).2 <:+ indexed.text := (splitSign_suffix tail).trans htail
      rw [Stage.bind_of_done (eatChar_cons h (by simpa [isExponentStart] using hc)), if_pos rfl,
        Stage.bind_of_done heaten]
      cases hdigits : splitDigits? (splitSign tail).2 with
      | some pair =>
        rw [Stage.bind_of_done (eatDigits_of_some hsign hdigits)]
        rfl
      | none =>
        rw [Stage.bind_of_done (eatDigits_of_none hsign hdigits)]
        exact moveTo_before _ rfl
    · rename_i hc
      rw [Stage.bind_of_done (eatChar_of_none h (by simpa [isExponentStart] using hc))]
      rfl

/-- A number is taken off. -/
private theorem lexDecimal_of_some (h : rest <:+ indexed.text) (hnumber : splitDecimal? rest = some (front, after)) :
    lexDecimal indexed (state.before indexed.text rest)
      = (.done true, (state.extend (placeChunks (offsetOf indexed.text rest) [.lexeme .decimal front])).before
          indexed.text after) := by
  obtain ⟨⟨whole, tail⟩, hwhole, hparts⟩ := Option.map_eq_some_iff.1 hnumber
  obtain ⟨rfl, -⟩ := splitDecimal?_append hnumber
  obtain rfl : (splitExponent (splitFraction tail).2).2 = after := (Prod.mk.inj hparts).2
  have hsign : ∀ c ∈ (front ++ (splitExponent (splitFraction tail).2).2).head?, isSign c = false := by
    intro c hc
    obtain ⟨more, hmore⟩ := List.head?_eq_some_iff.1 hc
    rw [hmore, splitDigits?] at hwhole
    split at hwhole
    · rename_i hdigit
      rw [isSign, Bool.or_eq_false_iff, decide_eq_false_iff_not, decide_eq_false_iff_not]
      constructor <;> rintro rfl <;> cases hdigit
    · cases hwhole
  have htail : tail <:+ indexed.text := (splitDigits?_suffix hwhole).trans h
  have hfraction : (splitFraction tail).2 <:+ indexed.text := (splitFraction_suffix tail).trans htail
  rw [lexDecimal, Stage.bind_of_done position_before, Stage.bind_of_done (eatChar_of_none h hsign),
    Stage.bind_of_done (eatDigits_of_some h hwhole), if_pos rfl, Stage.bind_of_done (eatFraction_before htail),
    Stage.bind_of_done (eatExponent_before hfraction), Stage.bind_of_done (push_extend _ (by simp) h)]
  rfl

/-- Where no number is, and no sign either, nothing is taken off. -/
private theorem lexDecimal_of_none (h : rest <:+ indexed.text) (hsign : ∀ c ∈ rest.head?, isSign c = false)
    (hnumber : splitDecimal? rest = none) :
    lexDecimal indexed (state.before indexed.text rest) = (.done false, state.before indexed.text rest) := by
  rw [splitDecimal?, Option.map_eq_none_iff] at hnumber
  rw [lexDecimal, Stage.bind_of_done position_before, Stage.bind_of_done (eatChar_of_none h hsign),
    Stage.bind_of_done (eatDigits_of_none h hnumber), if_neg Bool.false_ne_true,
    Stage.bind_of_done (moveTo_before _ rfl)]
  rfl

/-- A word is taken off. -/
private theorem lexWord_of_some (h : rest <:+ indexed.text) (hword : splitWord? rest = some (front, after)) :
    lexWord indexed (state.before indexed.text rest)
      = (.done true, (state.extend (placeChunks (offsetOf indexed.text rest) [.lexeme (wordTag front) front])).before
          indexed.text after) := by
  obtain ⟨happend, -⟩ := splitWord?_append hword
  have hpart : front ++ after <:+ indexed.text := by rwa [happend]
  cases rest with
  | nil => cases hword
  | cons c rest =>
    rw [splitWord?] at hword
    split at hword
    · rename_i hc
      obtain ⟨-, rfl⟩ := Prod.mk.inj (Option.some.inj hword)
      rw [lexWord, Stage.bind_of_done position_before, Stage.bind_of_done (eatChar_cons h hc), if_pos rfl,
        Stage.bind_of_done (skipWhile_before (q := isWordChar) (fun _ _ => rfl) ((List.suffix_cons c rest).trans h)),
        ← happend,
        Stage.bind_of_done (passed_before hpart), Stage.bind_of_done (push_extend _ (wordTag_ne_unrecognized _) hpart)]
      rfl
    · cases hword

private theorem lexWord_of_none (h : rest <:+ indexed.text) (hword : splitWord? rest = none) :
    lexWord indexed (state.before indexed.text rest) = (.done false, state.before indexed.text rest) := by
  rw [lexWord, Stage.bind_of_done position_before, Stage.bind_of_done (eatChar_of_none h fun c hc => ?_)]
  · rfl
  · obtain ⟨tail, rfl⟩ := List.head?_eq_some_iff.1 hc
    rw [splitWord?] at hword
    split at hword
    · cases hword
    · rename_i hc
      exact Bool.of_not_eq_true hc

private theorem lexAtom_of_some {tag : Tag} (h : rest <:+ indexed.text)
    (hatom : splitAtom? rest = some (tag, front, after)) :
    lexAtom indexed (state.before indexed.text rest)
      = (.done true, (state.extend (placeChunks (offsetOf indexed.text rest) [.lexeme tag front])).before
          indexed.text after) := by
  unfold splitAtom? at hatom
  split at hatom
  · rename_i hword
    cases hatom
    rw [lexAtom, Stage.bind_of_done (lexWord_of_some h hword)]
    rfl
  · rename_i hword
    obtain ⟨⟨number, tail⟩, hnumber, hatom⟩ := Option.map_eq_some_iff.1 hatom
    cases hatom
    rw [lexAtom, Stage.bind_of_done (lexWord_of_none h hword), if_neg Bool.false_ne_true]
    exact lexDecimal_of_some h hnumber

private theorem lexAtom_of_none (h : rest <:+ indexed.text) (hsign : ∀ c ∈ rest.head?, isSign c = false)
    (hatom : splitAtom? rest = none) :
    lexAtom indexed (state.before indexed.text rest) = (.done false, state.before indexed.text rest) := by
  unfold splitAtom? at hatom
  split at hatom
  · cases hatom
  · rename_i hword
    rw [lexAtom, Stage.bind_of_done (lexWord_of_none h hword), if_neg Bool.false_ne_true]
    exact lexDecimal_of_none h hsign (Option.map_eq_none_iff.1 hatom)

/-! ### What is not recognised -/

private theorem isAtSeparator_cons (c : Char) (rest : List Char) : isAtSeparator (c :: rest) = isSeparator c := by
  have hmark : (Mark.leading? (c :: rest)).isSome = Mark.isStart c := by
    rw [← Bool.not_inj_iff, Option.not_isSome, Bool.eq_iff_iff, Option.isNone_iff_eq_none,
      Mark.leading?_cons_eq_none_iff, Bool.not_eq_true']
  rw [isAtSeparator, hmark, isSeparator]
  -- A comment begins with a mark.
  by_cases hcomment : startsComment (c :: rest) = true
  · obtain ⟨tail, htail⟩ := List.isPrefixOf_iff_prefix.1 hcomment
    obtain ⟨rfl, -⟩ := List.cons.inj htail
    have hstart : Mark.isStart '/' = true := by decide
    rw [hstart, Bool.or_true, Bool.or_true]
  · rw [Bool.of_not_eq_true hcomment, Bool.or_false]

private theorem isAtSeparator_eq (rest : List Char) : isAtSeparator rest = endsLexeme rest := by
  cases rest with
  | nil => rfl
  | cons c rest => exact isAtSeparator_cons c rest

/-- Where no mark is, no sign is. -/
private theorem isSign_of_leading?_eq_none (h : Mark.leading? (c :: rest) = none) : isSign c = false := by
  have hstart := Mark.leading?_cons_eq_none_iff.1 h
  rw [isSign, Bool.or_eq_false_iff, decide_eq_false_iff_not, decide_eq_false_iff_not]
  constructor <;> rintro rfl <;> revert hstart <;> decide

/-- What is not recognised is taken off and reported. -/
private theorem lexUnrecognized_cons (h : c :: rest <:+ indexed.text) :
    lexUnrecognized indexed (state.before indexed.text (c :: rest))
      = (.done (), (state.extend
          (placeChunks (offsetOf indexed.text (c :: rest)) [(unrecognizedChunk c rest).1])).before indexed.text
            (unrecognizedChunk c rest).2) := by
  have hparts : c :: rest = (c :: rest.takeWhile (!isSeparator ·)) ++ rest.dropWhile (!isSeparator ·) := by simp
  have hpart : (c :: rest.takeWhile (!isSeparator ·)) ++ rest.dropWhile (!isSeparator ·) <:+ indexed.text := by
    rwa [← hparts]
  have hseparator : ∀ c tail, (!isAtSeparator (c :: tail)) = !isSeparator c := by simp [isAtSeparator_cons]
  rw [lexUnrecognized, Stage.bind_of_done position_before, Stage.bind_of_done (eatChar_cons h rfl),
    Stage.bind_of_done (skipWhile_before hseparator ((List.suffix_cons c rest).trans h)), unrecognizedChunk, hparts,
    Stage.bind_of_done (passed_before hpart), Stage.bind_of_done (push_before .unrecognized hpart),
    LexerState.extend_unrecognized]
  show (Stage.ofExcept (Span.between _ (offsetOf indexed.text (rest.dropWhile (!isSeparator ·)))) >>= _) _ = _
  rw [between_offsetOf hpart]
  rfl

/-! ### Rounds -/

/-- A word or a number can be taken back. -/
private theorem takeBack_extend {tag : Tag} (htag : tag ≠ .unrecognized) :
    takeBack ((state.extend (placeChunks (offsetOf indexed.text rest) [.lexeme tag front])).before indexed.text after)
      = (.done (), state.before indexed.text rest) := by
  rw [LexerState.extend_lexeme _ _ htag, takeBack]
  simp [LexerState.before, Stage.bind_apply, Stage.observe, Lexemes.last?, Lexemes.push, Lexemes.pop, Stage.change]

private theorem lexRun_cons (h : c :: rest <:+ indexed.text) (hsign : isSign c = false) :
    lexRun indexed (state.before indexed.text (c :: rest))
      = (.done (), (state.extend (placeChunks (offsetOf indexed.text (c :: rest)) [(atomChunk c rest).1])).before
          indexed.text (atomChunk c rest).2) := by
  rw [lexRun]
  unfold atomChunk
  split
  · rename_i tag part after hatom
    have hafter : after <:+ indexed.text := (splitAtom?_suffix hatom).trans h
    rw [Stage.bind_of_done (lexAtom_of_some h hatom), if_pos rfl, Stage.bind_of_done (ahead_before hafter),
      isAtSeparator_eq]
    split
    · rfl
    · rw [Stage.bind_of_done (takeBack_extend (tag_ne_unrecognized_of_splitAtom? hatom))]
      exact lexUnrecognized_cons h
  · rename_i hatom
    have hsign : ∀ d ∈ (c :: rest).head?, isSign d = false := by
      rintro d hd
      rwa [← Option.some.inj hd]
    rw [Stage.bind_of_done (lexAtom_of_none h hsign hatom), if_neg Bool.false_ne_true]
    exact lexUnrecognized_cons h

private theorem skipBlanks_cons (h : c :: rest <:+ indexed.text) (hc : isBlank c = true) :
    skipBlanks indexed (state.before indexed.text (c :: rest))
      = (.done true, state.before indexed.text (rest.dropWhile isBlank)) := by
  have hdrop : (c :: rest).dropWhile isBlank = rest.dropWhile isBlank := List.dropWhile_cons_of_pos hc
  have hparts : (c :: rest.takeWhile isBlank) ++ rest.dropWhile isBlank <:+ indexed.text := by simpa using h
  have hmoved : offsetOf indexed.text (rest.dropWhile isBlank) ≠ offsetOf indexed.text (c :: rest) := by
    have hadd := offsetOf_add hparts
    have hpos := c.utf8Size_pos
    rw [List.cons_append, List.takeWhile_append_dropWhile, byteLength_cons] at hadd
    omega
  rw [skipBlanks, Stage.bind_of_done position_before,
    Stage.bind_of_done (skipWhile_before (q := isBlank) (fun _ _ => rfl) h), hdrop, Stage.bind_of_done position_before,
    decide_eq_true hmoved]
  rfl

private theorem skipBlanks_of_none (h : rest <:+ indexed.text) (hblank : ∀ c ∈ rest.head?, isBlank c = false) :
    skipBlanks indexed (state.before indexed.text rest) = (.done false, state.before indexed.text rest) := by
  have hdrop : rest.dropWhile isBlank = rest := by
    cases rest with
    | nil => rfl
    | cons c rest => exact List.dropWhile_cons_of_neg (by simp [hblank c rfl])
  rw [skipBlanks, Stage.bind_of_done position_before,
    Stage.bind_of_done (skipWhile_before (q := isBlank) (fun _ _ => rfl) h), hdrop, Stage.bind_of_done position_before]
  simp
  rfl

private theorem startsComment_cons : startsComment (c :: rest) = true ↔ c = '/' ∧ rest.head? = some '/' := by
  rw [startsComment, List.isPrefixOf_iff_prefix, List.cons_prefix_cons, eq_comm]
  cases rest <;> simp [eq_comm]

private theorem skipComment_cons (h : c :: rest <:+ indexed.text) (hcomment : c = '/' ∧ rest.head? = some '/') :
    skipComment indexed (state.before indexed.text (c :: rest))
      = (.done true, state.before indexed.text (rest.dropWhile (· ≠ '\n'))) := by
  have hdrop : (c :: rest).dropWhile (· ≠ '\n') = rest.dropWhile (· ≠ '\n') := by
    rw [hcomment.1]
    rfl
  rw [skipComment, Stage.bind_of_done (ahead_before h), if_pos (startsComment_cons.2 hcomment),
    Stage.bind_of_done (skipWhile_before (q := (· ≠ '\n')) (fun _ _ => rfl) h), hdrop]
  rfl

private theorem skipComment_of_none (h : rest <:+ indexed.text) (hcomment : startsComment rest ≠ true) :
    skipComment indexed (state.before indexed.text rest) = (.done false, state.before indexed.text rest) := by
  rw [skipComment, Stage.bind_of_done (ahead_before h), if_neg hcomment]
  rfl

private theorem lexMark_of_some {mark : Mark} (h : rest <:+ indexed.text) (hmark : Mark.leading? rest = some mark) :
    lexMark indexed (state.before indexed.text rest)
      = (.done true, (state.extend
          (placeChunks (offsetOf indexed.text rest) [.lexeme (.mark mark) mark.spelling])).before indexed.text
            (rest.drop mark.spelling.length)) := by
  have hparts := List.prefix_iff_eq_append.1 (Mark.isPrefix_of_leading? hmark)
  have hpart : mark.spelling ++ rest.drop mark.spelling.length <:+ indexed.text := by rwa [hparts]
  have hadd := offsetOf_add hpart
  have htag : Tag.mark mark ≠ .unrecognized := by simp
  have hpush := push_extend state htag hpart
  rw [hparts] at hadd hpush
  rw [lexMark, Stage.bind_of_done (ahead_before h), hmark]
  show (position >>= _) _ = _
  rw [Stage.bind_of_done position_before, Stage.bind_of_done (moveTo_before _ hadd), Stage.bind_of_done hpush]
  rfl

private theorem lexMark_of_none (h : rest <:+ indexed.text) (hmark : Mark.leading? rest = none) :
    lexMark indexed (state.before indexed.text rest) = (.done false, state.before indexed.text rest) := by
  rw [lexMark, Stage.bind_of_done (ahead_before h), hmark]
  rfl

private theorem lexEnd_cons (h : c :: rest <:+ indexed.text) :
    lexEnd indexed (state.before indexed.text (c :: rest)) = (.done false, state.before indexed.text (c :: rest)) := by
  have hlt : offsetOf indexed.text (c :: rest) < indexed.length := by
    have hpos := c.utf8Size_pos
    obtain ⟨before, htext⟩ := h
    rw [IndexedText.length_eq_byteLength, ← htext, offsetOf_append, byteLength_append, byteLength_cons]
    omega
  rw [lexEnd, Stage.bind_of_done position_before, if_pos hlt]
  rfl

/-- The end of the text is the end of the file. -/
private theorem lexEnd_nil : lexEnd indexed (state.before indexed.text [])
    = (.done true, (state.extend [(closingLexeme indexed.text, [])]).before indexed.text []) := by
  have hend : offsetOf indexed.text [] = indexed.length := by
    rw [IndexedText.length_eq_byteLength, offsetOf, byteLength_nil, Nat.sub_zero]
  rw [lexEnd, Stage.bind_of_done position_before, hend, if_neg (Nat.lt_irrefl _)]
  simp [LexerState.before, LexerState.extend, closingLexeme, lexicalDiagnostic?, IndexedText.length_eq_byteLength,
    Stage.bind_apply, Stage.pure_apply, Stage.change, Lexemes.push]

/-- One round takes one chunk off. -/
private theorem lexNext_cons (h : c :: rest <:+ indexed.text) :
    lexNext indexed (state.before indexed.text (c :: rest))
      = (.done true, (state.extend (placeChunks (offsetOf indexed.text (c :: rest)) [(firstChunk c rest).1])).before
          indexed.text (firstChunk c rest).2) := by
  have hlayout : ∀ text, state.extend (placeChunks (offsetOf indexed.text (c :: rest)) [.layout text]) = state :=
    fun _ => state.extend_nil
  rw [lexNext]
  unfold firstChunk
  split
  · rename_i hblank
    rw [Stage.bind_of_done (skipBlanks_cons h hblank), hlayout]
    rfl
  · rename_i hblank
    have hblank : ∀ d ∈ (c :: rest).head?, isBlank d = false := by
      rintro d hd
      rw [← Option.some.inj hd]
      exact Bool.of_not_eq_true hblank
    rw [Stage.bind_of_done (skipBlanks_of_none h hblank), if_neg Bool.false_ne_true]
    split
    · rename_i hcomment
      rw [Stage.bind_of_done (skipComment_cons h hcomment), hlayout]
      rfl
    · rename_i hcomment
      rw [Stage.bind_of_done (skipComment_of_none h fun hstarts => hcomment (startsComment_cons.1 hstarts)),
        if_neg Bool.false_ne_true]
      split
      · rename_i mark hmark
        rw [Stage.bind_of_done (lexMark_of_some h hmark)]
        rfl
      · rename_i hmark
        rw [Stage.bind_of_done (lexMark_of_none h hmark), if_neg Bool.false_ne_true, Stage.bind_of_done (lexEnd_cons h),
          if_neg Bool.false_ne_true, Stage.bind_of_done (lexRun_cons h (isSign_of_leading?_eq_none hmark))]
        rfl

private theorem lexNext_nil : lexNext indexed (state.before indexed.text [])
    = (.done false, (state.extend [(closingLexeme indexed.text, [])]).before indexed.text []) := by
  have hend : [] <:+ indexed.text := List.nil_suffix
  rw [lexNext, Stage.bind_of_done (skipBlanks_of_none hend (by simp)), if_neg Bool.false_ne_true,
    Stage.bind_of_done (skipComment_of_none hend Bool.false_ne_true), if_neg Bool.false_ne_true,
    Stage.bind_of_done (lexMark_of_none hend (by decide)), if_neg Bool.false_ne_true, Stage.bind_of_done lexEnd_nil]
  rfl

/-- Enough rounds take all chunks off, and then the end of the file. -/
private theorem rounds_before {limit : Nat} (h : rest <:+ indexed.text) (hlimit : rest.length < limit) :
    rounds indexed limit (state.before indexed.text rest)
      = (.done (), (state.extend (placeChunks (offsetOf indexed.text rest) (chunks rest)
          ++ [(closingLexeme indexed.text, [])])).before indexed.text []) := by
  induction limit generalizing rest state with
  | zero => omega
  | succ limit ih =>
    cases rest with
    | nil =>
      rw [rounds, Stage.bind_of_done lexNext_nil, chunks, placeChunks, List.nil_append]
      rfl
    | cons c rest =>
      have happend := firstChunk_append c rest
      have hlength := length_firstChunk_lt c rest
      have hparts : (firstChunk c rest).1.text ++ (firstChunk c rest).2 <:+ indexed.text := by rwa [happend]
      have hoffset := offsetOf_add hparts
      rw [happend] at hoffset
      rw [rounds, Stage.bind_of_done (lexNext_cons h), if_pos rfl,
        ih ((List.suffix_append _ _).trans hparts) (by omega), LexerState.extend_append, chunks, ← List.append_assoc,
        ← hoffset, ← placeChunks_cons]

end Lexer

private theorem length_le_byteLength (text : List Char) : text.length ≤ byteLength text := by
  induction text with
  | nil => exact Nat.le_refl _
  | cons c text ih =>
    have hpos := c.utf8Size_pos
    rw [List.length_cons, byteLength_cons]
    omega

namespace Source

variable (source : Source)

/-- More rounds than bytes leave nothing of a source. -/
private theorem rounds_start {limit : Nat} (h : byteLength source.text < limit) :
    Lexer.rounds (.ofText source.text) limit .start
      = (.done (), (LexerState.start.extend (spelledLexemes source.text)).before source.text []) := by
  have hlength := length_le_byteLength source.text
  have hstart : LexerState.start.before source.text source.text = .start := by
    rw [LexerState.before, offsetOf, Nat.sub_self]
    rfl
  have hrounds : Lexer.rounds (.ofText source.text) limit (LexerState.start.before source.text source.text)
      = (.done (), (LexerState.start.extend (placeChunks (offsetOf source.text source.text) (chunks source.text)
          ++ [(closingLexeme source.text, [])])).before source.text []) :=
    Lexer.rounds_before (List.suffix_refl source.text) (Nat.lt_of_le_of_lt hlength h)
  rw [hstart, offsetOf, Nat.sub_self] at hrounds
  exact hrounds

/-- The lexer of a source is done with the lexemes among its chunks, and reports those that are not recognised. -/
private theorem lex_eq : source.lex = (.done (.ofList ((spelledLexemes source.text).map (·.1))),
    ⟨((spelledLexemes source.text).filterMap fun (lexeme, part) => lexicalDiagnostic? lexeme part).toArray⟩) := by
  have hlimit : byteLength source.text < (IndexedText.ofText source.text).length + 1 := by
    rw [IndexedText.length_eq_byteLength]
    exact Nat.lt_succ_self _
  rw [lex, Lexer.lexAll, Stage.run, Stage.bind_of_done (source.rounds_start hlimit)]
  simp [Stage.observe, LexerState.before, LexerState.extend, LexerState.start, Lexemes.none, Lexemes.ofList,
    Diagnostics.none]

theorem lexemes_eq : source.lexemes = .ofList ((spelledLexemes source.text).map (·.1)) := by
  rw [lexemes, lex_eq]

theorem exists_spelled_of_mem {lexeme : Lexeme} (h : lexeme ∈ source.lexemes.toList) :
    ∃ part, (lexeme, part) ∈ spelledLexemes source.text := by
  rw [lexemes_eq] at h
  obtain ⟨⟨_, part⟩, hspelled, rfl⟩ := List.mem_map.1 h
  exact ⟨part, hspelled⟩

theorem toList_lexicalDiagnostics : source.lexicalDiagnostics.toList
    = (spelledLexemes source.text).filterMap fun (lexeme, part) => lexicalDiagnostic? lexeme part := by
  rw [lexicalDiagnostics, lex_eq]
  rfl

/-- The lexer of a source is done, without a fault. -/
theorem lex_eq_done : source.lex = (.done source.lexemes, source.lexicalDiagnostics) := by
  rw [lexemes, lexicalDiagnostics, lex_eq]

/-- How many rounds the lexer may take does not matter, if they are more than the bytes of the text. -/
theorem exists_rounds_eq {limit : Nat} (h : byteLength source.text < limit) :
    ∃ last, Lexer.rounds (.ofText source.text) limit .start = (.done (), last) ∧ last.lexemes = source.lexemes ∧
      last.diagnostics = source.lexicalDiagnostics := by
  refine ⟨_, source.rounds_start h, ?_, ?_⟩
  · rw [lexemes_eq]
    simp [LexerState.before, LexerState.extend, LexerState.start, Lexemes.none, Lexemes.ofList]
  · rw [lexicalDiagnostics, lex_eq]
    simp [LexerState.before, LexerState.extend, LexerState.start, Diagnostics.none]

end Source

end ExprLang
