import ExprLang.Proofs.Lexeme.Placing

/-!
# Lexemes of lines

A newline ends every lexeme and every comment, so a text is taken apart line by line: the lexemes of `a`, a newline and
`b` are those of `a` and then those of `b`, which stand further to the right (`placeChunks_append_newline`), and so are
the reports about them (`Source.lexing_append_newline`).
-/

namespace ExprLang

/-! ### Shifted places -/

/-- The span that stands `n` bytes further to the right. -/
def Span.shift (n : Nat) (span : Span) : Span where
  start := span.start + n
  stop := span.stop + n
  start_le_stop := Nat.add_le_add_right span.start_le_stop n

/-- The lexeme that stands `n` bytes further to the right. -/
def Lexeme.shift (n : Nat) (lexeme : Lexeme) : Lexeme where
  tag := lexeme.tag
  span := lexeme.span.shift n

/-- The report about a place that is `n` bytes further to the right. -/
def Diagnostic.shift (n : Nat) (report : Diagnostic) : Diagnostic where
  severity := report.severity
  span := report.span.shift n
  message := report.message

namespace Span

variable {n : Nat} {a b : Span}

@[simp] theorem shift_zero (span : Span) : span.shift 0 = span := rfl

theorem shift_join : (a.join b).shift n = (a.shift n).join (b.shift n) := by
  ext
  · simp only [shift, join]
    omega
  · simp only [shift, join]
    omega

end Span

/-- A lexeme further to the right is reported there, in the same words. -/
private theorem lexicalDiagnostic?_shift (n : Nat) (lexeme : Lexeme) (part : List Char) :
    lexicalDiagnostic? (lexeme.shift n) part = (lexicalDiagnostic? lexeme part).map (Diagnostic.shift n) := by
  have htag : (lexeme.shift n).tag = lexeme.tag := rfl
  rw [lexicalDiagnostic?, lexicalDiagnostic?, htag]
  split
  · rfl
  · rfl

/-- Chunks that are laid out further to the right give lexemes further to the right. -/
theorem placeChunks_add (offset n : Nat) (chunks : List Chunk) :
    placeChunks (offset + n) chunks = (placeChunks offset chunks).map fun (lexeme, part) => (lexeme.shift n, part) := by
  induction chunks generalizing offset with
  | nil => rfl
  | cons chunk rest ih =>
    cases chunk with
    | layout text =>
      rw [placeChunks, placeChunks, Nat.add_right_comm]
      exact ih _
    | lexeme tag text =>
      rw [placeChunks, placeChunks, List.map_cons, ← ih]
      simp [Lexeme.shift, Span.shift, Nat.add_right_comm]

/-! ### Words and numbers before a newline -/

section

variable {text : List Char} {p : Char → Bool}

private theorem takeWhile_append_newline (h : p '\n' = false) (a : List Char) :
    (a ++ '\n' :: text).takeWhile p = a.takeWhile p := by
  induction a with
  | nil => simp [h]
  | cons c a ih => simp only [List.cons_append, List.takeWhile_cons, ih]

private theorem dropWhile_append_newline (h : p '\n' = false) (a : List Char) :
    (a ++ '\n' :: text).dropWhile p = a.dropWhile p ++ '\n' :: text := by
  induction a with
  | nil => simp [h]
  | cons c a ih =>
    simp only [List.cons_append, List.dropWhile_cons, ih]
    split <;> rfl

/-- What has been split off the front of a text, when more of the text follows. -/
def andMore (text : List Char) (parts : List Char × List Char) : List Char × List Char :=
  (parts.1, parts.2 ++ text)

private theorem splitWord?_append_newline (a : List Char) :
    splitWord? (a ++ '\n' :: text) = (splitWord? a).map (andMore ('\n' :: text)) := by
  cases a with
  | nil => rfl
  | cons c a =>
    simp only [splitWord?, List.cons_append]
    split
    · rw [takeWhile_append_newline (by decide), dropWhile_append_newline (by decide)]
      rfl
    · rfl

private theorem splitDigits?_append_newline (a : List Char) :
    splitDigits? (a ++ '\n' :: text) = (splitDigits? a).map (andMore ('\n' :: text)) := by
  cases a with
  | nil => rfl
  | cons c a =>
    simp only [splitDigits?, List.cons_append]
    split
    · rw [takeWhile_append_newline (by decide), dropWhile_append_newline (by decide)]
      rfl
    · rfl

private theorem splitFraction_append_newline (a : List Char) :
    splitFraction (a ++ '\n' :: text) = andMore ('\n' :: text) (splitFraction a) := by
  cases a with
  | nil => rfl
  | cons c a =>
    by_cases hpoint : c = '.'
    · subst hpoint
      rw [List.cons_append, splitFraction, splitFraction, splitDigits?_append_newline]
      cases splitDigits? a with
      | none => rfl
      | some parts => rfl
    · have hnone : ∀ rest, splitFraction (c :: rest) = ([], c :: rest) := fun rest => by
        unfold splitFraction
        split
        · rename_i heq
          exact absurd (List.cons.inj heq).1 hpoint
        · rfl
      rw [List.cons_append, hnone, hnone]
      rfl

private theorem splitSign_append_newline (a : List Char) :
    splitSign (a ++ '\n' :: text) = andMore ('\n' :: text) (splitSign a) := by
  cases a with
  | nil => rfl
  | cons c a =>
    by_cases hplus : c = '+'
    · subst hplus
      rfl
    · by_cases hminus : c = '-'
      · subst hminus
        rfl
      · have hnone : ∀ rest, splitSign (c :: rest) = ([], c :: rest) := fun rest => by
          unfold splitSign
          split
          · rename_i heq
            exact absurd (List.cons.inj heq).1 hplus
          · rename_i heq
            exact absurd (List.cons.inj heq).1 hminus
          · rfl
        rw [List.cons_append, hnone, hnone]
        rfl

private theorem splitExponent_append_newline (a : List Char) :
    splitExponent (a ++ '\n' :: text) = andMore ('\n' :: text) (splitExponent a) := by
  cases a with
  | nil => rfl
  | cons c a =>
    simp only [splitExponent, List.cons_append, splitSign_append_newline, andMore, splitDigits?_append_newline]
    split
    · cases splitDigits? (splitSign a).2 with
      | none => rfl
      | some parts => rfl
    · rfl

private theorem splitDecimal?_append_newline (a : List Char) :
    splitDecimal? (a ++ '\n' :: text) = (splitDecimal? a).map (andMore ('\n' :: text)) := by
  simp only [splitDecimal?, splitDigits?_append_newline, Option.map_map]
  congr 1
  funext parts
  simp only [Function.comp_apply, andMore, splitFraction_append_newline, splitExponent_append_newline]

private theorem splitAtom?_append_newline (a : List Char) :
    splitAtom? (a ++ '\n' :: text)
      = (splitAtom? a).map fun (tag, part, rest) => (tag, part, rest ++ '\n' :: text) := by
  rw [splitAtom?, splitAtom?, splitWord?_append_newline, splitDecimal?_append_newline]
  cases splitWord? a with
  | some parts => rfl
  | none => cases splitDecimal? a <;> rfl

private theorem endsLexeme_append_newline (a : List Char) : endsLexeme (a ++ '\n' :: text) = endsLexeme a := by
  cases a <;> rfl

end

/-! ### Marks before a newline -/

private theorem Mark.newline_notMem_spelling (mark : Mark) : '\n' ∉ mark.spelling := by
  cases mark <;> decide

private theorem isPrefixOf_append_newline {spelling text : List Char} (h : '\n' ∉ spelling) (a : List Char) :
    spelling.isPrefixOf (a ++ '\n' :: text) = spelling.isPrefixOf a := by
  induction spelling generalizing a with
  | nil => simp
  | cons c spelling ih =>
    simp only [List.mem_cons, not_or] at h
    cases a with
    | nil => simp [List.isPrefixOf, Ne.symm h.1]
    | cons d a => simp [List.isPrefixOf, ih h.2]

private theorem Mark.leading?_append_newline {text : List Char} (a : List Char) :
    leading? (a ++ '\n' :: text) = leading? a := by
  unfold leading?
  congr 1
  funext mark
  exact isPrefixOf_append_newline mark.newline_notMem_spelling a

/-! ### Chunks before a newline -/

section

variable {text : List Char} {c : Char}

private theorem unrecognizedChunk_append_newline (c : Char) (a : List Char) :
    unrecognizedChunk c (a ++ '\n' :: text)
      = ((unrecognizedChunk c a).1, (unrecognizedChunk c a).2 ++ '\n' :: text) := by
  rw [unrecognizedChunk, takeWhile_append_newline (by decide), dropWhile_append_newline (by decide)]
  rfl

private theorem atomChunk_append_newline (c : Char) (a : List Char) :
    atomChunk c (a ++ '\n' :: text) = ((atomChunk c a).1, (atomChunk c a).2 ++ '\n' :: text) := by
  have hatom := @splitAtom?_append_newline text (c :: a)
  rw [List.cons_append] at hatom
  unfold atomChunk
  rw [hatom, unrecognizedChunk_append_newline]
  cases splitAtom? (c :: a) with
  | none => rfl
  | some parts =>
    simp only [Option.map_some, endsLexeme_append_newline]
    split <;> rfl

/-- The first chunk does not reach over a newline, unless it is made of blanks. -/
private theorem firstChunk_append_newline (hblank : isBlank c = false) (a : List Char) :
    firstChunk c (a ++ '\n' :: text) = ((firstChunk c a).1, (firstChunk c a).2 ++ '\n' :: text) := by
  have hhead : (a ++ '\n' :: text).head? = some '/' ↔ a.head? = some '/' := by
    cases a <;> simp
  have hleading := @Mark.leading?_append_newline text (c :: a)
  rw [List.cons_append] at hleading
  unfold firstChunk
  simp only [hblank, Bool.false_eq_true, if_false, hhead, hleading]
  split
  · rw [takeWhile_append_newline (by decide), dropWhile_append_newline (by decide)]
  · split
    · rename_i mark hmark
      -- The spelling of the mark is at the front of the text before the newline.
      have hfront : mark.spelling.isPrefixOf (c :: a) = true := List.find?_some (p := fun mark : Mark =>
        mark.spelling.isPrefixOf (c :: a)) hmark
      have hspelling := (List.isPrefixOf_iff_prefix.1 hfront).length_le
      rw [← List.cons_append, List.drop_append_of_le_length hspelling]
    · exact atomChunk_append_newline c a

/-- A blank is passed over, whether more blanks follow it or not. -/
theorem placeChunks_blank (hblank : isBlank c = true) (offset : Nat) (rest : List Char) :
    placeChunks offset (chunks (c :: rest)) = placeChunks (offset + c.utf8Size) (chunks rest) := by
  rw [chunks, firstChunk, if_pos hblank, placeChunks]
  cases rest with
  | nil => simp
  | cons d rest =>
    by_cases hnext : isBlank d = true
    · simp [chunks, firstChunk, hnext, placeChunks, Nat.add_assoc]
    · simp [hnext]

/-- The lexemes of two texts with a newline between them. -/
theorem placeChunks_append_newline (text : List Char) (a : List Char) (offset : Nat) :
    placeChunks offset (chunks (a ++ '\n' :: text))
      = placeChunks offset (chunks a) ++ placeChunks (offset + byteLength a + 1) (chunks text) := by
  match a with
  | [] =>
    rw [chunks]
    exact placeChunks_blank (by decide) offset text
  | c :: rest =>
    -- A chunk of blanks may reach over the newline, so blanks are passed one at a time.
    cases hblank : isBlank c with
    | true =>
      rw [List.cons_append, placeChunks_blank hblank, placeChunks_blank hblank, placeChunks_append_newline text rest,
        byteLength_cons, Nat.add_assoc offset]
    | false =>
      have hlength := congrArg byteLength (firstChunk_append c rest)
      have hless := length_firstChunk_lt c rest
      rw [byteLength_append] at hlength
      have hsecond : chunks (c :: (rest ++ '\n' :: text))
          = (firstChunk c rest).1 :: chunks ((firstChunk c rest).2 ++ '\n' :: text) := by
        rw [chunks, firstChunk_append_newline hblank]
      rw [List.cons_append, hsecond, chunks, placeChunks_cons, placeChunks_append_newline text (firstChunk c rest).2,
        placeChunks_cons offset (firstChunk c rest).1 (chunks _), List.append_assoc, ← hlength, Nat.add_assoc offset]
termination_by a.length
decreasing_by
  · exact length_firstChunk_lt c rest
  · exact Nat.lt_succ_self _

end

namespace Source

/-- The lexemes of two lines are those of the first, without its end, and then those of the second. -/
private theorem spelledLexemes_append_newline (name : String) (a b : List Char) :
    spelledLexemes (ofContent name (a ++ '\n' :: b)).text
      = (spelledLexemes (ofContent name a).text).dropLast
        ++ (spelledLexemes (ofContent name b).text).map fun (lexeme, part) =>
          (lexeme.shift (byteLength a + 1), part) := by
  have hclosing : closingLexeme (a ++ '\n' :: (b ++ ['\n']))
      = (closingLexeme (b ++ ['\n'])).shift (byteLength a + 1) := by
    have hnewline : byteLength ['\n'] = 1 := rfl
    have hlength : byteLength (a ++ '\n' :: (b ++ ['\n'])) - 1 = byteLength (b ++ ['\n']) - 1 + (byteLength a + 1) := by
      rw [byteLength_append, ← List.singleton_append, byteLength_append, byteLength_append, hnewline]
      omega
    rw [closingLexeme, hlength]
    rfl
  have hfirst : placeChunks 0 (chunks (a ++ ['\n'])) = placeChunks 0 (chunks a) := by
    rw [placeChunks_append_newline [] a, chunks, placeChunks, List.append_nil]
  have htext : (ofContent name (a ++ '\n' :: b)).text = a ++ '\n' :: (b ++ ['\n']) := by
    simp [ofContent]
  rw [htext, spelledLexemes, placeChunks_append_newline, hclosing, Nat.zero_add, ← Nat.zero_add (byteLength a + 1),
    placeChunks_add, spelledLexemes, List.dropLast_concat]
  show _ = placeChunks 0 (chunks (a ++ ['\n'])) ++ (spelledLexemes (b ++ ['\n'])).map _
  rw [hfirst, spelledLexemes, List.map_append, List.append_assoc, Nat.zero_add]
  rfl

/-- The lexemes of two lines, without their characters. -/
theorem lexemes_append_newline (name : String) (a b : List Char) :
    (ofContent name (a ++ '\n' :: b)).lexemes.toList
      = (ofContent name a).lexemes.toList.dropLast
        ++ (ofContent name b).lexemes.toList.map (Lexeme.shift (byteLength a + 1)) := by
  have hlexemes := congrArg (List.map Prod.fst) (spelledLexemes_append_newline name a b)
  rw [List.map_append, List.map_dropLast, List.map_map] at hlexemes
  simp only [lexemes_eq, Lexemes.toList_ofList]
  rw [hlexemes, List.map_map]
  rfl

/-- The end of the file is not reported. -/
private theorem toList_lexicalDiagnostics_dropLast (source : Source) :
    source.lexicalDiagnostics.toList
      = (spelledLexemes source.text).dropLast.filterMap fun (lexeme, part) => lexicalDiagnostic? lexeme part := by
  have hclosing : lexicalDiagnostic? (closingLexeme source.text) [] = none := rfl
  rw [toList_lexicalDiagnostics, spelledLexemes, List.dropLast_concat, List.filterMap_append]
  simp only [List.filterMap_cons, List.filterMap_nil, hclosing, List.append_nil]

/-- The reports about the lexemes of two lines. -/
private theorem lexicalDiagnostics_append_newline (name : String) (a b : List Char) :
    (ofContent name (a ++ '\n' :: b)).lexicalDiagnostics.toList
      = (ofContent name a).lexicalDiagnostics.toList
        ++ (ofContent name b).lexicalDiagnostics.toList.map (Diagnostic.shift (byteLength a + 1)) := by
  rw [toList_lexicalDiagnostics_dropLast (ofContent name a), toList_lexicalDiagnostics, toList_lexicalDiagnostics,
    spelledLexemes_append_newline, List.filterMap_append, List.filterMap_map, List.map_filterMap]
  congr 2
  funext spelled
  exact lexicalDiagnostic?_shift _ _ _

/-- The lexemes of two texts with a newline between them are those of the first, without the end of the file, and then
those of the second at their places.  The reports about them are those of the first and then those of the second. -/
theorem lexing_append_newline (name : String) (a b : List Char) :
    ∃ lexemes : List Lexeme,
      (ofContent name a).lexemes.toList = lexemes ++ [{ tag := .endOfFile, span := .empty (byteLength a) }] ∧
      (∀ lexeme ∈ lexemes, lexeme.tag ≠ .endOfFile) ∧
      (ofContent name (a ++ '\n' :: b)).lexemes.toList
        = lexemes ++ (ofContent name b).lexemes.toList.map (Lexeme.shift (byteLength a + 1)) ∧
      (ofContent name (a ++ '\n' :: b)).lexicalDiagnostics.toList
        = (ofContent name a).lexicalDiagnostics.toList
          ++ (ofContent name b).lexicalDiagnostics.toList.map (Diagnostic.shift (byteLength a + 1)) := by
  have hend := toList_lexemes (ofContent name a)
  rw [← dropLast_lexemes, closingLexeme_text] at hend
  exact ⟨_, hend, fun _ => tag_ne_endOfFile_of_mem _, lexemes_append_newline name a b,
    lexicalDiagnostics_append_newline name a b⟩

end Source

end ExprLang
