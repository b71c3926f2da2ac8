import ExprLang.Lexeme.Cursor
import ExprLang.Proofs.Lexeme.Lexing
import ExprLang.Proofs.Text.Boundaries

/-!
# The places of lexemes

The lexemes of a text are chunks of it at their places: the span of a lexeme holds its characters
(`sliceOf_of_mem_spelledLexemes`).  The end of the file comes last and only there.  What is not recognised is
what is reported.
-/

namespace ExprLang

/-! ### Chunks -/

/-- What holds of every first chunk holds of all chunks. -/
theorem forall_mem_chunks {P : Chunk → Prop} (h : ∀ c rest, P (firstChunk c rest).1) (text : List Char) :
    ∀ chunk ∈ chunks text, P chunk := by
  fun_induction chunks text with
  | case1 => simp
  | case2 c rest ih => exact List.forall_mem_cons.2 ⟨h c rest, ih⟩

theorem firstChunk_cases (c : Char) (rest : List Char) :
    (∃ text, (firstChunk c rest).1 = .layout text) ∨
    (∃ mark : Mark, (firstChunk c rest).1 = .lexeme (.mark mark) mark.spelling) ∨
    (∃ tag text after, (firstChunk c rest).1 = .lexeme tag text ∧ splitAtom? (c :: rest) = some (tag, text, after)) ∨
    ∃ text, (firstChunk c rest).1 = .lexeme .unrecognized text := by
  unfold firstChunk
  split
  · exact .inl ⟨_, rfl⟩
  · split
    · exact .inl ⟨_, rfl⟩
    · split
      · exact .inr (.inl ⟨_, rfl⟩)
      · unfold atomChunk
        split
        · rename_i tag text after hatom
          split
          · exact .inr (.inr (.inl ⟨tag, text, after, rfl, hatom⟩))
          · exact .inr (.inr (.inr ⟨_, rfl⟩))
        · exact .inr (.inr (.inr ⟨_, rfl⟩))

/-- No chunk is the end of the file, and a decimal is a number at the front of some text. -/
theorem tag_of_mem_chunks {text part : List Char} {tag : Tag} (h : .lexeme tag part ∈ chunks text) :
    tag ≠ .endOfFile ∧ (tag = .decimal → ∃ text rest, splitDecimal? text = some (part, rest)) := by
  refine forall_mem_chunks (P := fun chunk => ∀ tag part, chunk = .lexeme tag part → tag ≠ .endOfFile ∧
    (tag = .decimal → ∃ text rest, splitDecimal? text = some (part, rest))) ?_ text _ h tag part rfl
  intro c rest tag part hchunk
  rcases firstChunk_cases c rest with ⟨_, h⟩ | ⟨mark, h⟩ | ⟨tag', part', after, h, hatom⟩ | ⟨_, h⟩
  · rw [h] at hchunk
    cases hchunk
  · rw [h] at hchunk
    cases hchunk
    exact ⟨by simp, by simp⟩
  · rw [h] at hchunk
    cases hchunk
    rcases splitAtom?_cases hatom with rfl | ⟨rfl, hdecimal⟩
    · rcases wordTag_cases part with hword | ⟨keyword, hword⟩
      · rw [hword]
        exact ⟨by simp, by simp⟩
      · rw [hword]
        exact ⟨by simp, by simp⟩
    · exact ⟨by simp, fun _ => ⟨_, after, hdecimal⟩⟩
  · rw [h] at hchunk
    cases hchunk
    exact ⟨by simp, by simp⟩

/-! ### Places -/

/-- A placed lexeme is a chunk, and its span is the place of its characters. -/
theorem mem_placeChunks {chunks : List Chunk} {front : List Char} {lexeme : Lexeme} {part : List Char}
    (h : (lexeme, part) ∈ placeChunks (byteLength front) chunks) :
    .lexeme lexeme.tag part ∈ chunks ∧ ∃ before after,
      front ++ (chunks.map Chunk.text).flatten = before ++ part ++ after ∧ byteLength before = lexeme.span.start ∧
        byteLength before + byteLength part = lexeme.span.stop := by
  -- The characters before a chunk are those of the chunks before it.
  induction chunks generalizing front with
  | nil => exact absurd h List.not_mem_nil
  | cons chunk chunks ih =>
    rw [List.map_cons, List.flatten_cons, ← List.append_assoc]
    cases chunk with
    | layout text =>
      rw [placeChunks, ← byteLength_append] at h
      obtain ⟨hmem, hplace⟩ := ih h
      exact ⟨List.mem_cons_of_mem _ hmem, hplace⟩
    | lexeme tag text =>
      rw [placeChunks, List.mem_cons] at h
      rcases h with h | h
      · obtain ⟨rfl, rfl⟩ := Prod.mk.inj h
        exact ⟨List.mem_cons_self, front, _, rfl, rfl, rfl⟩
      · rw [← byteLength_append] at h
        obtain ⟨hmem, hplace⟩ := ih h
        exact ⟨List.mem_cons_of_mem _ hmem, hplace⟩

theorem mem_chunks_of_mem_placeChunks {chunks : List Chunk} {lexeme : Lexeme} {part : List Char}
    (h : (lexeme, part) ∈ placeChunks 0 chunks) : .lexeme lexeme.tag part ∈ chunks := by
  have h : (lexeme, part) ∈ placeChunks (byteLength []) chunks := h
  exact (mem_placeChunks h).1

/-- A lexeme of a source is a chunk that is not the end of the file, or it closes the lexemes. -/
theorem mem_spelledLexemes {text part : List Char} {lexeme : Lexeme} (h : (lexeme, part) ∈ spelledLexemes text) :
    (lexeme, part) ∈ placeChunks 0 (chunks text) ∨ (lexeme = closingLexeme text ∧ part = []) := by
  rw [spelledLexemes, List.mem_append, List.mem_singleton, Prod.mk.injEq] at h
  exact h

private theorem Source.byteLength_text (name : String) (content : List Char) :
    byteLength (ofContent name content).text = byteLength content + 1 := by
  rw [ofContent, byteLength_append]
  rfl

/-- The end of the file stands before the newline that is added to a source. -/
theorem Source.closingLexeme_text (name : String) (content : List Char) :
    closingLexeme (ofContent name content).text = { tag := .endOfFile, span := .empty (byteLength content) } := by
  rw [closingLexeme, byteLength_text, Nat.add_sub_cancel]

/-- The span of a lexeme of a source holds its characters. -/
theorem Source.sliceOf_of_mem_spelledLexemes (name : String) (content : List Char) {part : List Char} {lexeme : Lexeme}
    (h : (lexeme, part) ∈ spelledLexemes (ofContent name content).text) :
    sliceOf (ofContent name content).text lexeme.span = .ok part := by
  have hplace : ∃ before after, (ofContent name content).text = before ++ part ++ after ∧
      byteLength before = lexeme.span.start ∧ byteLength before + byteLength part = lexeme.span.stop := by
    rcases mem_spelledLexemes h with h | ⟨rfl, rfl⟩
    · have h : (lexeme, part) ∈ placeChunks (byteLength []) (chunks (ofContent name content).text) := h
      obtain ⟨-, hplace⟩ := mem_placeChunks h
      rwa [chunks_flatten] at hplace
    · rw [closingLexeme_text]
      exact ⟨content, ['\n'], by simp [ofContent], rfl, rfl⟩
  rw [sliceOf, sliceBetween, sliceBytes?_eq_some_iff.2 hplace]

private theorem mapM_textIn {text : List Char} {spelled : List (Lexeme × List Char)}
    (h : ∀ lexeme part, (lexeme, part) ∈ spelled → lexeme.textIn text = .ok part) :
    ((spelled.map (·.1)).mapM fun lexeme => do return (lexeme.tag, ← lexeme.textIn text))
      = (.ok (spelled.map fun (lexeme, part) => (lexeme.tag, part)) : Except Fault _) := by
  induction spelled with
  | nil => rfl
  | cons first spelled ih =>
    obtain ⟨lexeme, part⟩ := first
    have ih := ih fun lexeme part hmem => h lexeme part (List.mem_cons_of_mem _ hmem)
    rw [List.map_cons, List.mapM_cons, ih, h lexeme part List.mem_cons_self]
    rfl

/-- The tags and characters of the lexemes of a source can be told. -/
theorem Source.tagsAndTexts_eq_ok (name : String) (content : List Char) : (ofContent name content).tagsAndTexts
    = .ok ((spelledLexemes (ofContent name content).text).map fun (lexeme, part) => (lexeme.tag, part)) := by
  rw [tagsAndTexts, lexemes_eq, Lexemes.toList_ofList]
  exact mapM_textIn fun _ _ => sliceOf_of_mem_spelledLexemes name content

/-- Whether a lexeme stands for a part of a text, which is a number if the lexeme says so. -/
def Lexeme.IsLegible (lexeme : Lexeme) (text : List Char) : Prop :=
  ∃ part, sliceOf text lexeme.span = .ok part ∧
    (lexeme.tag = .decimal → ∃ front rest, splitDecimal? front = some (part, rest))

namespace Source

theorem isLegible_of_mem (name : String) (content : List Char) {lexeme : Lexeme}
    (h : lexeme ∈ (ofContent name content).lexemes.toList) : lexeme.IsLegible (ofContent name content).text := by
  obtain ⟨part, hspelled⟩ := exists_spelled_of_mem _ h
  refine ⟨part, sliceOf_of_mem_spelledLexemes name content hspelled, fun htag => ?_⟩
  rcases mem_spelledLexemes hspelled with hplaced | ⟨rfl, -⟩
  · exact (tag_of_mem_chunks (mem_chunks_of_mem_placeChunks hplaced)).2 htag
  · cases htag

variable (source : Source)

theorem toList_lexemes : source.lexemes.toList
    = (placeChunks 0 (chunks source.text)).map (·.1) ++ [closingLexeme source.text] := by
  rw [lexemes_eq, Lexemes.toList_ofList, spelledLexemes, List.map_append]
  rfl

theorem dropLast_lexemes : source.lexemes.toList.dropLast = (placeChunks 0 (chunks source.text)).map (·.1) := by
  rw [toList_lexemes, List.dropLast_concat]

theorem tag_ne_endOfFile_of_mem {lexeme : Lexeme} (h : lexeme ∈ source.lexemes.toList.dropLast) :
    lexeme.tag ≠ .endOfFile := by
  rw [dropLast_lexemes] at h
  obtain ⟨⟨_, part⟩, hmem, rfl⟩ := List.mem_map.1 h
  exact (tag_of_mem_chunks (mem_chunks_of_mem_placeChunks hmem)).1

theorem isClosed_lexemes : source.lexemes.isClosed = true := by
  have hlast : source.lexemes.last? = some (closingLexeme source.text) := by
    rw [Lexemes.last?, ← Array.getLast?_toList]
    show source.lexemes.toList.getLast? = _
    rw [toList_lexemes, List.getLast?_concat]
  rw [Lexemes.isClosed, hlast]
  rfl

/-- What is reported about the lexemes is that some are not recognised. -/
theorem mem_lexicalDiagnostics {report : Diagnostic} (h : report ∈ source.lexicalDiagnostics.toList) :
    report.severity = .error ∧ ∃ lexeme ∈ source.lexemes.toList, lexeme.tag = .unrecognized ∧
      report.span = lexeme.span := by
  rw [toList_lexicalDiagnostics] at h
  obtain ⟨⟨lexeme, part⟩, hmem, hreport⟩ := List.mem_filterMap.1 h
  have hlexeme : lexeme ∈ source.lexemes.toList := by
    rw [lexemes_eq]
    exact List.mem_map_of_mem hmem
  have hreport : lexicalDiagnostic? lexeme part = some report := hreport
  rw [lexicalDiagnostic?] at hreport
  split at hreport
  · rename_i hknown
    obtain rfl := Option.some.inj hreport
    exact ⟨rfl, lexeme, hlexeme, hknown, rfl⟩
  · cases hreport

/-- All that is not recognised is reported. -/
theorem lexicalDiagnostics_ne_none {lexeme : Lexeme} (h : lexeme ∈ source.lexemes.toList)
    (hknown : lexeme.tag = .unrecognized) : ∃ report ∈ source.lexicalDiagnostics.toList, report.severity = .error := by
  obtain ⟨part, hmem⟩ := source.exists_spelled_of_mem h
  rw [toList_lexicalDiagnostics]
  exact ⟨_, List.mem_filterMap.2 ⟨_, hmem, if_pos hknown⟩, rfl⟩

end Source

end ExprLang
