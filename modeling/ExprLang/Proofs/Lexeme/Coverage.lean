import ExprLang.Proofs.Lexeme.Languages
import ExprLang.Proofs.Lexeme.Lines

/-!
# What lexemes cover

The lexemes of a source stand one after the other in its text, and between them there is only layout (`Covers`).  From
this it follows that their spans are not empty, stand at boundaries and do not overlap.  The end of the file stands
before the last newline, and a report is made for each lexeme that is not recognised and for no other
(`Source.exists_covers`).
-/

namespace ExprLang

open Lexical
open scoped Computability

variable {c : Char} {text gap part rest : List Char} {offset : Nat} {lexeme : Lexeme} {lexemes : List Lexeme}

/-! ### Layout -/

private theorem nil_mem_layout : [] ∈ layout :=
  Language.nil_mem_kstar _

private theorem append_mem_layout (hgap : gap ∈ layout) (hrest : rest ∈ layout) : gap ++ rest ∈ layout := by
  have hmul : gap ++ rest ∈ layout * layout := Language.append_mem_mul hgap hrest
  rwa [layout, kstar_mul_kstar] at hmul

private theorem mem_layout_of_mem (h : text ∈ oneOf blanks + comments * oneOf {'\n'}) : text ∈ layout := by
  have hle : oneOf blanks + comments * oneOf {'\n'} ≤ layout := le_kstar
  exact hle h

private theorem singleton_mem_layout (h : isBlank c = true) : [c] ∈ layout := by
  apply mem_layout_of_mem
  exact .inl ⟨c, mem_blanks_iff.2 h, rfl⟩

/-- A comment ends with its line. -/
private theorem comment_mem_layout (h : ∀ c ∈ text, c ≠ '\n') : '/' :: '/' :: text ++ ['\n'] ∈ layout := by
  apply mem_layout_of_mem
  have hcomment : '/' :: '/' :: text ∈ comments :=
    Language.append_mem_mul (a := ['/', '/']) rfl (mem_kstar_oneOf.2 h)
  exact .inr (Language.append_mem_mul hcomment ⟨'\n', rfl, rfl⟩)

/-! ### Covering -/

/-- Whether lexemes stand one after the other in a text that begins at an offset, with only layout around them. -/
inductive Covers : Nat → List Lexeme → List Char → Prop
  | nil {offset : Nat} {gap : List Char} (hgap : gap ∈ layout) : Covers offset [] gap
  | cons {offset : Nat} {gap part rest : List Char} {lexeme : Lexeme} {lexemes : List Lexeme} (hgap : gap ∈ layout)
      (hpart : part ≠ []) (hstart : offset + byteLength gap = lexeme.span.start)
      (hstop : lexeme.span.start + byteLength part = lexeme.span.stop) (hrest : Covers lexeme.span.stop lexemes rest) :
      Covers offset (lexeme :: lexemes) (gap ++ part ++ rest)

namespace Covers

private theorem prepend (hgap : gap ∈ layout) (h : Covers (offset + byteLength gap) lexemes text) :
    Covers offset lexemes (gap ++ text) := by
  cases h with
  | nil hnext => exact .nil (append_mem_layout hgap hnext)
  | cons hnext hpart hstart hstop hrest =>
    rw [← List.append_assoc, ← List.append_assoc]
    refine .cons (append_mem_layout hgap hnext) hpart ?_ hstop hrest
    rw [byteLength_append, ← Nat.add_assoc]
    exact hstart

private theorem start_lt_stop (h : Covers offset lexemes text) :
    ∀ lexeme ∈ lexemes, lexeme.span.start < lexeme.span.stop := by
  induction h with
  | nil hgap => simp
  | cons hgap hpart hstart hstop hrest ih =>
    rw [List.forall_mem_cons]
    refine ⟨?_, ih⟩
    have hpos := mt eq_nil_of_byteLength_eq_zero hpart
    omega

private theorem le_start (h : Covers offset lexemes text) : ∀ lexeme ∈ lexemes, offset ≤ lexeme.span.start := by
  induction h with
  | nil hgap => simp
  | cons hgap hpart hstart hstop hrest ih =>
    rw [List.forall_mem_cons]
    refine ⟨by omega, fun lexeme hlexeme => ?_⟩
    have hnext := ih lexeme hlexeme
    omega

/-- A lexeme ends before the next one starts. -/
private theorem pairwise (h : Covers offset lexemes text) : lexemes.Pairwise fun a b => a.span.stop ≤ b.span.start := by
  induction h with
  | nil hgap => exact .nil
  | cons hgap hpart hstart hstop hrest ih => exact ih.cons hrest.le_start

/-- Lexemes start and stop between characters. -/
private theorem isBoundary (h : Covers (byteLength part) lexemes text) : ∀ lexeme ∈ lexemes,
    IsBoundary (part ++ text) lexeme.span.start ∧ IsBoundary (part ++ text) lexeme.span.stop := by
  generalize hoffset : byteLength part = offset at h
  induction h generalizing part with
  | nil hgap => simp
  | @cons _ gap' part' rest' lexeme' lexemes' hgap hpart hstart hstop hrest ih =>
    have hstopLength : byteLength (part ++ gap' ++ part') = lexeme'.span.stop := by
      rw [byteLength_append, byteLength_append]
      omega
    have htext : part ++ (gap' ++ part' ++ rest') = part ++ gap' ++ part' ++ rest' := by
      simp only [List.append_assoc]
    rw [htext, List.forall_mem_cons]
    refine ⟨⟨?_, ?_⟩, ih hstopLength⟩
    · refine ⟨part ++ gap', part' ++ rest', List.append_assoc .., ?_⟩
      rw [byteLength_append]
      omega
    · exact ⟨part ++ gap' ++ part', rest', rfl, hstopLength⟩

end Covers

/-! ### Chunks -/

private theorem newline_of_append (h : ∀ c ∈ (part ++ rest).getLast?, c = '\n') : ∀ c ∈ rest.getLast?, c = '\n' := by
  intro c hc
  apply h
  have hc : rest.getLast? = some c := hc
  rw [List.getLast?_append, hc]
  rfl

/-- Layout that does not begin with a blank is a comment. -/
private theorem exists_comment_of_firstChunk (hblank : isBlank c = false)
    (h : firstChunk c rest = (.layout gap, text)) :
    ∃ line, gap = '/' :: '/' :: line ∧ (∀ d ∈ gap, d ≠ '\n') ∧ ∀ d ∈ text.head?, d = '\n' := by
  rw [firstChunk, if_neg (by simp [hblank])] at h
  split at h
  · rename_i hslashes
    obtain ⟨rfl, hslash⟩ := hslashes
    obtain ⟨tail, rfl⟩ : ∃ tail, rest = '/' :: tail := List.head?_eq_some_iff.1 hslash
    simp only [Prod.mk.injEq, Chunk.layout.injEq] at h
    obtain ⟨rfl, rfl⟩ := h
    refine ⟨tail.takeWhile (· ≠ '\n'), by simp, ?_, ?_⟩
    · intro d hd
      rcases List.mem_cons.1 hd with rfl | hd
      · decide
      · simpa using List.mem_takeWhile_imp hd
    · intro d hd
      have hd : (('/' :: tail).dropWhile (· ≠ '\n')).head? = some d := hd
      have hnot := List.head?_dropWhile_not (· ≠ '\n') ('/' :: tail)
      rw [hd] at hnot
      simpa using hnot
  · split at h
    · cases h
    · rename_i hmark
      rw [atomChunk] at h
      split at h
      · split at h
        · cases h
        · cases h
      · cases h

/-- A comment that does not end the text has a newline after it. -/
private theorem exists_newline_of_comment (hblank : isBlank c = false) (h : firstChunk c rest = (.layout gap, text))
    (hlast : ∀ d ∈ (gap ++ text).getLast?, d = '\n') : gap ++ ['\n'] ∈ layout ∧ ∃ after, text = '\n' :: after := by
  obtain ⟨line, rfl, hline, hhead⟩ := exists_comment_of_firstChunk hblank h
  constructor
  · apply comment_mem_layout
    intro d hd
    exact hline d (List.mem_cons_of_mem _ (List.mem_cons_of_mem _ hd))
  · cases text with
    | cons d after => exact ⟨after, by rw [hhead d rfl]⟩
    | nil =>
      -- The text would end in the comment, which holds no newline.
      have hnil : '/' :: '/' :: line ≠ [] := List.cons_ne_nil _ _
      rw [List.append_nil, List.getLast?_eq_some_getLast hnil] at hlast
      exact absurd (hlast _ rfl) (hline _ (List.getLast_mem hnil))

/-- What covers the text after its first blank, comment or lexeme covers the text. -/
private theorem exists_covers_of_covers (c : Char) (rest : List Char) (hlast : ∀ d ∈ (c :: rest).getLast?, d = '\n') :
    ∃ front after, front ++ after = c :: rest ∧ after.length < (c :: rest).length ∧
      ∀ offset, Covers (offset + byteLength front)
          ((placeChunks (offset + byteLength front) (chunks after)).map (·.1)) after →
        Covers offset ((placeChunks offset (chunks (c :: rest))).map (·.1)) (c :: rest) := by
  cases hblank : isBlank c with
  | true =>
    refine ⟨[c], rest, rfl, Nat.lt_succ_self _, fun offset h => ?_⟩
    have hlength : byteLength [c] = c.utf8Size := by
      rw [byteLength_cons, byteLength_nil]
      rfl
    rw [placeChunks_blank hblank, ← hlength]
    exact .prepend (singleton_mem_layout hblank) h
  | false =>
    have happend := firstChunk_append c rest
    have hless := length_firstChunk_lt c rest
    have hnil := firstChunk_text_ne_nil c rest
    have hchunks : chunks (c :: rest) = (firstChunk c rest).1 :: chunks (firstChunk c rest).2 := by rw [chunks]
    rcases hchunk : firstChunk c rest with ⟨chunk, text⟩
    rw [hchunk] at happend hless hnil hchunks
    rw [hchunks]
    cases chunk with
    | layout gap =>
      have happend : gap ++ text = c :: rest := happend
      rw [← happend] at hlast
      obtain ⟨hgap, after, rfl⟩ := exists_newline_of_comment hblank hchunk hlast
      have htext : gap ++ ['\n'] ++ after = c :: rest := by rw [← happend, List.append_assoc]; rfl
      refine ⟨gap ++ ['\n'], after, htext, Nat.lt_of_succ_lt hless, fun offset h => ?_⟩
      have hlength : byteLength (gap ++ ['\n']) = byteLength gap + ('\n' : Char).utf8Size := byteLength_append ..
      rw [placeChunks, placeChunks_blank (by decide), Nat.add_assoc, ← hlength, ← htext]
      exact .prepend hgap h
    | lexeme tag part =>
      refine ⟨part, text, happend, hless, fun offset h => ?_⟩
      let lexeme : Lexeme := ⟨tag, ⟨offset, offset + byteLength part, Nat.le_add_right ..⟩⟩
      have hcovers : Covers offset (lexeme :: (placeChunks lexeme.span.stop (chunks text)).map (·.1)) ([] ++ part ++ text) :=
        .cons nil_mem_layout hnil rfl rfl h
      rw [← happend]
      exact hcovers

/-- The lexemes among the chunks of a text that ends in a newline cover it. -/
theorem covers_placeChunks (offset : Nat) (hlast : ∀ c ∈ text.getLast?, c = '\n') :
    Covers offset ((placeChunks offset (chunks text)).map (·.1)) text := by
  induction hlength : text.length using Nat.strong_induction_on generalizing text offset with
  | h n ih =>
    cases text with
    | nil =>
      rw [chunks]
      exact .nil nil_mem_layout
    | cons c rest =>
      obtain ⟨front, after, htext, hless, hstep⟩ := exists_covers_of_covers c rest hlast
      apply hstep
      refine ih after.length (hlength ▸ hless) _ ?_ rfl
      rw [← htext] at hlast
      exact newline_of_append hlast

/-! ### Sources -/

namespace Source

variable (name : String) (content : List Char)

/-- The last newline of a source is not part of a lexeme. -/
private theorem stop_le_of_mem {lexeme : Lexeme}
    (h : lexeme ∈ (placeChunks 0 (chunks (ofContent name content).text)).map (·.1)) :
    lexeme.span.stop ≤ byteLength content := by
  have hplace : placeChunks 0 (chunks (ofContent name content).text) = placeChunks 0 (chunks content) := by
    rw [ofContent, placeChunks_append_newline [] content 0, chunks, placeChunks, List.append_nil]
  rw [hplace] at h
  obtain ⟨⟨_, part⟩, hmem, rfl⟩ := List.mem_map.1 h
  have hmem : (_, part) ∈ placeChunks (byteLength []) (chunks content) := hmem
  obtain ⟨-, before, after, htext, -, hstop⟩ := mem_placeChunks hmem
  rw [chunks_flatten, List.nil_append] at htext
  rw [htext, byteLength_append, byteLength_append, ← hstop]
  omega

/-- Each lexeme of a source starts after those before it, and does not overlap them. -/
theorem pairwise_lexemes : (ofContent name content).lexemes.toList.Pairwise
    fun a b => a.span.start < b.span.start ∧ a.span.stop ≤ b.span.start := by
  have hlast : ∀ c ∈ (ofContent name content).text.getLast?, c = '\n' := by simp [ofContent]
  have hcovers := covers_placeChunks 0 hlast
  rw [toList_lexemes, closingLexeme_text, List.pairwise_append]
  refine ⟨?_, List.pairwise_singleton .., fun lexeme h other hother => ?_⟩
  · refine hcovers.pairwise.imp_of_mem fun {a b} ha _ hab => ⟨?_, hab⟩
    exact Nat.lt_of_lt_of_le (hcovers.start_lt_stop a ha) hab
  · rw [List.mem_singleton.1 hother]
    have hstop := stop_le_of_mem name content h
    exact ⟨Nat.lt_of_lt_of_le (hcovers.start_lt_stop lexeme h) hstop, hstop⟩

/-- The reports about lexemes are those about the ones that are not recognised. -/
theorem lexicalDiagnostics_eq (source : Source) :
    source.lexicalDiagnostics.toList.map (fun report => (report.severity, report.span))
      = (source.lexemes.toList.filter (·.tag = .unrecognized)).map fun lexeme => (.error, lexeme.span) := by
  rw [toList_lexicalDiagnostics, lexemes_eq, Lexemes.toList_ofList]
  induction spelledLexemes source.text with
  | nil => rfl
  | cons spelled rest ih =>
    obtain ⟨lexeme, part⟩ := spelled
    by_cases hknown : lexeme.tag = .unrecognized
    · have hreport : lexicalDiagnostic? lexeme part = some ⟨.error, lexeme.span, unrecognizedMessage part⟩ :=
        if_pos hknown
      simp only [List.filterMap_cons, hreport, List.map_cons, List.filter_cons, hknown, decide_true, if_true, ih]
    · have hreport : lexicalDiagnostic? lexeme part = none := if_neg hknown
      simp only [List.filterMap_cons, hreport, List.map_cons, List.filter_cons, hknown, decide_false,
        Bool.false_eq_true, if_false, ih]

/-- The lexer of a source is done after fewer rounds than its text has bytes, and one.  The lexemes and the layout
between them are the text. -/
theorem exists_covers :
    (ofContent name content).lex = (.done (ofContent name content).lexemes, (ofContent name content).lexicalDiagnostics) ∧
    (∀ limit, byteLength (ofContent name content).text < limit →
      ∃ last, Lexer.rounds (.ofText (ofContent name content).text) limit .start = (.done (), last) ∧
        last.lexemes = (ofContent name content).lexemes ∧
        last.diagnostics = (ofContent name content).lexicalDiagnostics) ∧
    ∃ lexemes, (ofContent name content).lexemes.toList
        = lexemes ++ [{ tag := .endOfFile, span := .empty (byteLength content) }] ∧
      Covers 0 lexemes (ofContent name content).text ∧
      (∀ lexeme ∈ lexemes, lexeme.tag ≠ .endOfFile ∧ lexeme.span.start < lexeme.span.stop) ∧
      (∀ lexeme ∈ (ofContent name content).lexemes.toList,
        IsBoundary (ofContent name content).text lexeme.span.start ∧
        IsBoundary (ofContent name content).text lexeme.span.stop) ∧
      (ofContent name content).lexemes.toList.Pairwise
        (fun a b => a.span.start < b.span.start ∧ a.span.stop ≤ b.span.start) ∧
      (ofContent name content).lexicalDiagnostics.toList.map (fun report => (report.severity, report.span))
        = (lexemes.filter (·.tag = .unrecognized)).map fun lexeme => (.error, lexeme.span) := by
  refine ⟨lex_eq_done _, fun limit => exists_rounds_eq _, ?_⟩
  have hlast : ∀ c ∈ (ofContent name content).text.getLast?, c = '\n' := by simp [ofContent]
  have hcovers := covers_placeChunks 0 hlast
  have hlexemes := (ofContent name content).toList_lexemes
  have htag : ∀ lexeme ∈ (ofContent name content).lexemes.toList.dropLast, lexeme.tag ≠ .endOfFile :=
    fun _ => tag_ne_endOfFile_of_mem _
  have hreports := (ofContent name content).lexicalDiagnostics_eq
  have hpairwise := pairwise_lexemes name content
  rw [dropLast_lexemes] at htag
  rw [closingLexeme_text] at hlexemes
  rw [hlexemes] at hreports hpairwise ⊢
  generalize (placeChunks 0 (chunks (ofContent name content).text)).map (·.1) = lexemes at *
  refine ⟨lexemes, rfl, hcovers, fun lexeme h => ⟨htag lexeme h, hcovers.start_lt_stop lexeme h⟩, ?_, hpairwise, ?_⟩
  · rw [List.forall_mem_append, List.forall_mem_singleton]
    have hboundary : IsBoundary (ofContent name content).text (byteLength content) := ⟨content, ['\n'], rfl, rfl⟩
    have hstart : Covers (byteLength []) lexemes (ofContent name content).text := hcovers
    exact ⟨hstart.isBoundary, hboundary, hboundary⟩
  · rw [hreports, List.filter_append]
    simp

end Source

end ExprLang
