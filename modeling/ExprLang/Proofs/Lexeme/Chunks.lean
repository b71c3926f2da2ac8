import ExprLang.Lexeme.Lexing
import ExprLang.Proofs.Lexeme.Marks

/-!
# Chunks

What a lexer makes of a text can be said without positions.  A text is taken apart into chunks: layout, which carries no
meaning, and the texts of lexemes.  Nothing is lost and nothing is added, so the chunks put together again are the text
(`chunks_flatten`).  Laid out from the start of the text, the chunks that are lexemes get the span of their place.
-/

namespace ExprLang

/-- A piece of a text. -/
inductive Chunk where
  | layout (text : List Char)
  | lexeme (tag : Tag) (text : List Char)
  deriving DecidableEq, Repr

/-- The characters of a chunk. -/
def Chunk.text : Chunk → List Char
  | layout text => text
  | lexeme _ text => text

/-! ### Separators -/

/-- The characters that end a word, a number or an unrecognised run; the mark `/` begins comments as well. -/
def isSeparator (c : Char) : Bool :=
  isBlank c || Mark.isStart c

/-- Whether a text is over or goes on with a separator. -/
def endsLexeme (text : List Char) : Bool :=
  text.head?.all isSeparator

/-! ### Words and numbers -/

/-- The word at the front of a text, and the rest. -/
def splitWord? : List Char → Option (List Char × List Char)
  | [] => none
  | c :: rest =>
    if isWordStart c then some (c :: rest.takeWhile isWordChar, rest.dropWhile isWordChar) else none

/-- The digits at the front of a text, with gaps after the first, and the rest. -/
def splitDigits? : List Char → Option (List Char × List Char)
  | [] => none
  | c :: rest =>
    if c.isDigit then some (c :: rest.takeWhile isDigitOrGap, rest.dropWhile isDigitOrGap) else none

/-- The point and the digits at the front of a text, if there are both, and the rest. -/
def splitFraction : List Char → List Char × List Char
  | '.' :: rest =>
    match splitDigits? rest with
    | some (digits, rest) => ('.' :: digits, rest)
    | none => ([], '.' :: rest)
  | text => ([], text)

/-- The sign at the front of a text, if there is one, and the rest. -/
def splitSign : List Char → List Char × List Char
  | '+' :: rest => (['+'], rest)
  | '-' :: rest => (['-'], rest)
  | text => ([], text)

/-- The exponent at the front of a text, if there is a whole one, and the rest. -/
def splitExponent : List Char → List Char × List Char
  | [] => ([], [])
  | c :: rest =>
    if c = 'e' ∨ c = 'E' then
      match splitDigits? (splitSign rest).2 with
      | some (digits, after) => (c :: (splitSign rest).1 ++ digits, after)
      | none => ([], c :: rest)
    else
      ([], c :: rest)

/-- The number at the front of a text, and the rest.  A fraction or an exponent that breaks off is left
out. -/
def splitDecimal? (text : List Char) : Option (List Char × List Char) :=
  (splitDigits? text).map fun (whole, rest) =>
    let (fraction, rest) := splitFraction rest
    let (exponent, rest) := splitExponent rest
    (whole ++ fraction ++ exponent, rest)

/-- The word or number at the front of a text, with its tag, and the rest. -/
def splitAtom? (text : List Char) : Option (Tag × List Char × List Char) :=
  match splitWord? text with
  | some (word, rest) => some (wordTag word, word, rest)
  | none => (splitDecimal? text).map fun (number, rest) => (.decimal, number, rest)

/-! ### Taking a text apart -/

/-- The unrecognised run at the front of the text `c :: rest`, and what follows it. -/
def unrecognizedChunk (c : Char) (rest : List Char) : Chunk × List Char :=
  (.lexeme .unrecognized (c :: rest.takeWhile (!isSeparator ·)), rest.dropWhile (!isSeparator ·))

/-- The word, number or unrecognised run at the front of the text `c :: rest`, and what follows it. -/
def atomChunk (c : Char) (rest : List Char) : Chunk × List Char :=
  match splitAtom? (c :: rest) with
  | some (tag, text, after) =>
    if endsLexeme after then (.lexeme tag text, after) else unrecognizedChunk c rest
  | none => unrecognizedChunk c rest

/-- The chunk at the front of the text `c :: rest`, and what follows it. -/
def firstChunk (c : Char) (rest : List Char) : Chunk × List Char :=
  if isBlank c then
    (.layout (c :: rest.takeWhile isBlank), rest.dropWhile isBlank)
  else if c = '/' ∧ rest.head? = some '/' then
    (.layout (c :: rest.takeWhile (· ≠ '\n')), rest.dropWhile (· ≠ '\n'))
  else
    match Mark.leading? (c :: rest) with
    | some mark => (.lexeme (.mark mark) mark.spelling, (c :: rest).drop mark.spelling.length)
    | none => atomChunk c rest

theorem splitWord?_append {text word rest : List Char} (h : splitWord? text = some (word, rest)) :
    word ++ rest = text ∧ word ≠ [] := by
  unfold splitWord? at h
  split at h
  · simp at h
  · split at h
    · simp only [Option.some.injEq, Prod.mk.injEq] at h
      obtain ⟨rfl, rfl⟩ := h
      simp
    · simp at h

private theorem splitDigits?_append {text digits rest : List Char}
    (h : splitDigits? text = some (digits, rest)) : digits ++ rest = text ∧ digits ≠ [] := by
  unfold splitDigits? at h
  split at h
  · simp at h
  · split at h
    · simp only [Option.some.injEq, Prod.mk.injEq] at h
      obtain ⟨rfl, rfl⟩ := h
      simp
    · simp at h

theorem splitDigits?_suffix {text digits rest : List Char} (h : splitDigits? text = some (digits, rest)) :
    rest <:+ text :=
  ⟨digits, (splitDigits?_append h).1⟩

private theorem splitFraction_append (text : List Char) :
    (splitFraction text).1 ++ (splitFraction text).2 = text := by
  unfold splitFraction
  split
  · split
    · rename_i digits after h
      simp [(splitDigits?_append h).1]
    · simp
  · simp

theorem splitFraction_suffix (text : List Char) : (splitFraction text).2 <:+ text :=
  ⟨_, splitFraction_append text⟩

private theorem splitSign_append (text : List Char) : (splitSign text).1 ++ (splitSign text).2 = text := by
  unfold splitSign
  split <;> simp

theorem splitSign_suffix (text : List Char) : (splitSign text).2 <:+ text :=
  ⟨_, splitSign_append text⟩

private theorem splitExponent_append (text : List Char) :
    (splitExponent text).1 ++ (splitExponent text).2 = text := by
  unfold splitExponent
  split
  · rfl
  · split
    · split
      · rename_i rest _ _ digits after h
        simp [(splitDigits?_append h).1, splitSign_append]
      · simp
    · simp

theorem splitDecimal?_append {text number rest : List Char}
    (h : splitDecimal? text = some (number, rest)) : number ++ rest = text ∧ number ≠ [] := by
  unfold splitDecimal? at h
  obtain ⟨⟨whole, after⟩, hwhole, h⟩ := Option.map_eq_some_iff.1 h
  simp only [Prod.mk.injEq] at h
  obtain ⟨rfl, rfl⟩ := h
  have hw := splitDigits?_append hwhole
  refine ⟨?_, by simp [hw.2]⟩
  rw [List.append_assoc, splitExponent_append, List.append_assoc, splitFraction_append, hw.1]

theorem splitAtom?_append {text atom rest : List Char} {tag : Tag}
    (h : splitAtom? text = some (tag, atom, rest)) : atom ++ rest = text ∧ atom ≠ [] := by
  unfold splitAtom? at h
  split at h
  · rename_i word after hword
    simp only [Option.some.injEq, Prod.mk.injEq] at h
    obtain ⟨_, rfl, rfl⟩ := h
    exact splitWord?_append hword
  · obtain ⟨⟨number, after⟩, hnumber, h⟩ := Option.map_eq_some_iff.1 h
    simp only [Prod.mk.injEq] at h
    obtain ⟨_, rfl, rfl⟩ := h
    exact splitDecimal?_append hnumber

theorem wordTag_cases (word : List Char) : wordTag word = .name ∨ ∃ keyword, wordTag word = .keyword keyword := by
  unfold wordTag
  split
  · exact .inr ⟨_, rfl⟩
  · exact .inl rfl

theorem wordTag_ne_unrecognized (word : List Char) : wordTag word ≠ .unrecognized := by
  rcases wordTag_cases word with h | ⟨keyword, h⟩ <;> simp [h]

theorem splitAtom?_cases {text atom rest : List Char} {tag : Tag} (h : splitAtom? text = some (tag, atom, rest)) :
    tag = wordTag atom ∨ (tag = .decimal ∧ splitDecimal? text = some (atom, rest)) := by
  unfold splitAtom? at h
  split at h
  · simp only [Option.some.injEq, Prod.mk.injEq] at h
    obtain ⟨rfl, rfl, -⟩ := h
    exact .inl rfl
  · obtain ⟨⟨number, after⟩, hnumber, h⟩ := Option.map_eq_some_iff.1 h
    simp only [Prod.mk.injEq] at h
    obtain ⟨rfl, rfl, rfl⟩ := h
    exact .inr ⟨rfl, hnumber⟩

theorem tag_ne_unrecognized_of_splitAtom? {text atom rest : List Char} {tag : Tag}
    (h : splitAtom? text = some (tag, atom, rest)) : tag ≠ .unrecognized := by
  rcases splitAtom?_cases h with rfl | ⟨rfl, -⟩
  · exact wordTag_ne_unrecognized atom
  · simp

theorem splitAtom?_suffix {text atom rest : List Char} {tag : Tag} (h : splitAtom? text = some (tag, atom, rest)) :
    rest <:+ text :=
  ⟨atom, (splitAtom?_append h).1⟩

private theorem atomChunk_append (c : Char) (rest : List Char) :
    (atomChunk c rest).1.text ++ (atomChunk c rest).2 = c :: rest ∧ (atomChunk c rest).1.text ≠ [] := by
  unfold atomChunk
  split
  · rename_i tag text after h
    split
    · exact splitAtom?_append h
    · simp [unrecognizedChunk, Chunk.text]
  · simp [unrecognizedChunk, Chunk.text]

/-- The first chunk and what follows it are the text. -/
theorem firstChunk_append (c : Char) (rest : List Char) :
    (firstChunk c rest).1.text ++ (firstChunk c rest).2 = c :: rest := by
  unfold firstChunk
  split
  · simp [Chunk.text]
  · split
    · simp [Chunk.text]
    · split
      · rename_i mark h
        exact List.prefix_iff_eq_append.1 (Mark.isPrefix_of_leading? h)
      · exact (atomChunk_append c rest).1

/-- The first chunk is not empty. -/
theorem firstChunk_text_ne_nil (c : Char) (rest : List Char) : (firstChunk c rest).1.text ≠ [] := by
  unfold firstChunk
  split
  · simp [Chunk.text]
  · split
    · simp [Chunk.text]
    · split
      · exact Mark.spelling_ne_nil _
      · exact (atomChunk_append c rest).2

theorem length_firstChunk_lt (c : Char) (rest : List Char) :
    (firstChunk c rest).2.length < (c :: rest).length := by
  have happend := congrArg List.length (firstChunk_append c rest)
  have hpos := List.length_pos_iff.2 (firstChunk_text_ne_nil c rest)
  rw [List.length_append] at happend
  omega

/-- The chunks of a text. -/
def chunks : List Char → List Chunk
  | [] => []
  | c :: rest => (firstChunk c rest).1 :: chunks (firstChunk c rest).2
termination_by text => text.length
decreasing_by exact length_firstChunk_lt c rest

/-- The chunks of a text put together again are the text. -/
theorem chunks_flatten (text : List Char) : ((chunks text).map Chunk.text).flatten = text := by
  fun_induction chunks text with
  | case1 => rfl
  | case2 c rest ih => rw [List.map_cons, List.flatten_cons, ih, firstChunk_append]

/-! ### Laying chunks out -/

/-- The lexemes among chunks that are laid out from an offset, each with its characters. -/
def placeChunks : Nat → List Chunk → List (Lexeme × List Char)
  | _, [] => []
  | offset, .layout text :: rest => placeChunks (offset + byteLength text) rest
  | offset, .lexeme tag text :: rest =>
    ({ tag, span := { start := offset, stop := offset + byteLength text } }, text)
      :: placeChunks (offset + byteLength text) rest

theorem placeChunks_cons (offset : Nat) (chunk : Chunk) (chunks : List Chunk) :
    placeChunks offset (chunk :: chunks)
      = placeChunks offset [chunk] ++ placeChunks (offset + byteLength chunk.text) chunks := by
  cases chunk <;> rfl

/-- The lexeme that closes the lexemes of a text. -/
def closingLexeme (text : List Char) : Lexeme where
  tag := .endOfFile
  span := .empty (byteLength text - 1)

/-- The lexemes of a text, each with its characters. -/
def spelledLexemes (text : List Char) : List (Lexeme × List Char) :=
  placeChunks 0 (chunks text) ++ [(closingLexeme text, [])]

/-- The report of a lexeme that is not recognised. -/
def lexicalDiagnostic? (lexeme : Lexeme) (text : List Char) : Option Diagnostic :=
  if lexeme.tag = .unrecognized then
    some { severity := .error, span := lexeme.span, message := unrecognizedMessage text }
  else
    none

end ExprLang
