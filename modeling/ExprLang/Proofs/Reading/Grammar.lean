import ExprLang.Proofs.Lexeme.Placing
import ExprLang.Proofs.Reading.Rounds
import ExprLang.Proofs.Reading.Sentences
import Mathlib

/-!
# The language of the reader

A source is read without an error if and only if its lexemes are those of valid statements one after the other,
and then the statements that are read are these (`Source.statements_iff`).
-/

namespace ExprLang

/-! ### Recognised lexemes -/

/-- Whether a lexeme is one that statements are written with. -/
def Lexeme.IsRecognized (lexeme : Lexeme) : Prop :=
  lexeme.tag ≠ .endOfFile ∧ lexeme.tag ≠ .unrecognized

private theorem Lexeme.IsRecognized.of_mark {lexeme : Lexeme} {sign : Mark} (h : lexeme.tag = .mark sign) :
    lexeme.IsRecognized := by
  simp [IsRecognized, h]

theorem Phrase.IsValid.isRecognized {phrase : Phrase} (h : phrase.IsValid) :
    ∀ lexeme ∈ phrase.lexemes, lexeme.IsRecognized := by
  have hlist : ∀ (operands : List Phrase) (commas : List Lexeme), (∀ comma ∈ commas, comma.tag = .mark .comma) →
      (∀ operand ∈ operands, ∀ lexeme ∈ operand.lexemes, lexeme.IsRecognized) →
      ∀ lexeme ∈ interleave (lexemesOfAll operands) commas, lexeme.IsRecognized := by
    intro operands commas hcommas hoperands lexeme hmem
    rw [lexemesOfAll_eq_map] at hmem
    rcases mem_interleave hmem with hmem | ⟨part, hpart, hmem⟩
    · exact .of_mark (hcommas lexeme hmem)
    · obtain ⟨operand, hoperand, rfl⟩ := List.mem_map.1 hpart
      exact hoperands operand hoperand lexeme hmem
  induction h with
  | @leaf op lexeme hshape =>
    have hleading := op.leading_ne
    rw [lexemes, List.forall_mem_singleton]
    rwa [hshape] at hleading
  | before _ hsign _ _ ih =>
    rw [lexemes, List.forall_mem_cons]
    exact ⟨.of_mark hsign, ih⟩
  | after _ hsign _ _ ih =>
    rw [lexemes, List.forall_mem_append, List.forall_mem_singleton]
    exact ⟨ih, .of_mark hsign⟩
  | around _ hopener hcloser _ _ ih =>
    rw [lexemes, List.forall_mem_append, List.forall_mem_cons, List.forall_mem_singleton]
    exact ⟨⟨.of_mark hopener, ih⟩, .of_mark hcloser⟩
  | between _ hsign _ _ _ _ ihLeft ihRight =>
    rw [lexemes, List.forall_mem_append, List.forall_mem_cons]
    exact ⟨ihLeft, .of_mark hsign, ihRight⟩
  | sequence _ hopener hcloser hcommas _ _ _ ih =>
    rw [lexemes, List.forall_mem_append, List.forall_mem_cons, List.forall_mem_singleton]
    exact ⟨⟨.of_mark hopener, hlist _ _ hcommas ih⟩, .of_mark hcloser⟩
  | application _ hopener hcloser _ hcommas _ _ _ _ ihCallee ih =>
    rw [lexemes, List.forall_mem_append, List.forall_mem_append, List.forall_mem_cons, List.forall_mem_singleton]
    exact ⟨⟨ihCallee, .of_mark hopener, hlist _ _ hcommas ih⟩, .of_mark hcloser⟩

private theorem Part.IsValid.isRecognized {part : Part} {sign : Mark} (h : part.IsValid sign) :
    ∀ lexeme ∈ part.lexemes, lexeme.IsRecognized := by
  rw [lexemes, List.forall_mem_cons]
  exact ⟨.of_mark h.mark, h.expression.valid.isRecognized⟩

theorem Clause.IsValid.isRecognized {clause : Clause} (h : clause.IsValid) :
    ∀ lexeme ∈ clause.lexemes, lexeme.IsRecognized := by
  have hpart : ∀ (part : Option Part) (sign : Mark), (∀ inner ∈ part, inner.IsValid sign) →
      ∀ lexeme ∈ part.elim [] Part.lexemes, lexeme.IsRecognized := by
    intro part sign hvalid
    cases part with
    | none => exact fun _ hmem => absurd hmem List.not_mem_nil
    | some part => exact (hvalid part rfl).isRecognized
  cases h with
  | binding hkeyword hname htype hvalue =>
    rw [Clause.lexemes, List.forall_mem_cons, List.forall_mem_cons, List.forall_mem_append, Lexeme.IsRecognized,
      Lexeme.IsRecognized, hkeyword, hname]
    exact ⟨by simp, by simp, hpart _ _ htype, hvalue.isRecognized⟩
  | typedVariable hkeyword hname htype hvalue =>
    rw [Clause.lexemes, List.forall_mem_cons, List.forall_mem_cons, List.forall_mem_append, Lexeme.IsRecognized,
      Lexeme.IsRecognized, hkeyword, hname]
    exact ⟨by simp, by simp, htype.isRecognized, hpart _ _ hvalue⟩
  | plainVariable hkeyword hname hvalue =>
    rw [Clause.lexemes, List.forall_mem_cons, List.forall_mem_cons, Lexeme.IsRecognized, Lexeme.IsRecognized,
      hkeyword, hname]
    exact ⟨by simp, by simp, hvalue.isRecognized⟩
  | discarded hvalue => exact hvalue.valid.isRecognized

private theorem Sentence.IsValid.isRecognized {sentence : Sentence} (h : sentence.IsValid) :
    ∀ lexeme ∈ sentence.lexemes, lexeme.IsRecognized := by
  rw [lexemes, List.forall_mem_append, List.forall_mem_singleton]
  exact ⟨h.clause.isRecognized, .of_mark h.semicolon⟩

/-! ### Readings without errors -/

/-- Whether nothing that has been reported is an error. -/
def Diagnostics.IsClean (diagnostics : Diagnostics) : Prop :=
  ∀ report ∈ diagnostics.toList, report.severity ≠ .error

private theorem Diagnostics.hasErrors_eq_false_iff (diagnostics : Diagnostics) :
    diagnostics.hasErrors = false ↔ diagnostics.IsClean := by
  rw [hasErrors, decide_eq_false_iff_not, Nat.not_lt, Nat.le_zero, errorCount, ofSeverity, List.length_eq_zero_iff,
    List.filter_eq_nil_iff]
  simp only [decide_eq_true_eq]
  rfl

private theorem Diagnostics.IsClean.of_append {before after : Diagnostics} {reports : List Diagnostic}
    (h : after.IsClean) (hreports : after.toList = before.toList ++ reports) :
    before.IsClean ∧ ∀ report ∈ reports, report.severity ≠ .error := by
  rw [IsClean, hreports, List.forall_mem_append] at h
  exact h

/-- Whether everything that has been read since `start` are valid statements, unless an error has been reported or
is about to be. -/
structure ReadingState.IsWritten (start : Cursor) (reading : ReadingState) : Prop where
  lexemes : reading.state.cursor.lexemes = start.lexemes
  sentences : reading.state.diagnostics.IsClean → reading.run = none → ∃ sentences : List Sentence,
    (∀ sentence ∈ sentences, sentence.IsValid) ∧
    start.ahead = sentences.flatMap Sentence.lexemes ++ reading.state.cursor.ahead ∧
    reading.statements.toList = sentences.map Sentence.toStatement

/-- One round goes on with valid statements, if all lexemes are recognised. -/
private theorem Round.isWritten {text : List Char} {start : Cursor} {before after : ReadingState}
    (hknown : ∀ lexeme ∈ start.lexemes.toList, lexeme.tag ≠ .unrecognized) (hround : Round text before after)
    (h : before.IsWritten start) : after.IsWritten start := by
  refine ⟨hround.lexemes.trans h.lexemes, ?_⟩
  cases hround with
  | @unrecognized run statements state htag =>
    have hpeek := state.cursor.peek_mem
    rw [h.lexemes] at hpeek
    exact absurd htag (hknown _ hpeek)
  | stray => simp
  -- A report of a run is an error, so nothing is promised any more.
  | report =>
    intro hclean _
    exact ((hclean.of_append (Diagnostics.toList_report _ _)).2 _ (List.mem_singleton_self _) rfl).elim
  | @statement statements state clause skipped semicolon after _ hread =>
    intro hclean _
    obtain ⟨reports, hreports, hexplains⟩ := hread.reports
    obtain ⟨hbefore, hnone⟩ := hclean.of_append hreports
    obtain ⟨sentences, hvalid, hahead, hstatements⟩ := h.sentences hbefore rfl
    -- Only what is not recognised is skipped before the semicolon.
    have hskipped : skipped = [] := by
      refine List.eq_nil_iff_forall_not_mem.2 fun lexeme hmem => ?_
      have hlexeme := hread.moved.mem (List.mem_append_left _ (List.mem_append_right _ hmem))
      rw [h.lexemes] at hlexeme
      exact hknown lexeme hlexeme (hread.unrecognized lexeme hmem)
    rcases hexplains with ⟨-, hsome | hskipped'⟩ | ⟨error, rfl, -, -, herror, -⟩
    · obtain ⟨semi, rfl⟩ := Option.isSome_iff_exists.1 hsome
      have hmoved := hread.moved.ahead
      rw [hskipped, List.append_nil, Option.toList_some] at hmoved
      refine ⟨sentences ++ [⟨clause, semi⟩], ?_, ?_, ?_⟩
      · rw [List.forall_mem_append, List.forall_mem_singleton]
        exact ⟨hvalid, hread.valid, hread.semi semi rfl⟩
      · rw [hahead, hmoved]
        simp [Sentence.lexemes]
      · rw [Array.toList_push, hstatements, List.map_append]
        rfl
    · exact absurd hskipped hskipped'
    · exact absurd herror (hnone error (List.mem_singleton_self _))
  | @failure statements state stopped after _ hstopped hskipped =>
    intro hclean _
    obtain ⟨_, hmoved⟩ := hstopped.moved
    obtain ⟨reports, hreports, hexplains⟩ := hstopped.reports
    -- A statement is given up after an error, or at a lexeme that is not recognised.
    have hstoppedClean : stopped.diagnostics.IsClean := by
      rcases hskipped.reports with heq | ⟨last, -, heq, -⟩
      · rwa [← heq]
      · exact (hclean.of_append (by rw [heq, Diagnostics.toList_report])).1
    rcases hexplains with ⟨htag, -⟩ | ⟨error, notes, rfl, herror, -⟩
    · have hpeek := stopped.cursor.peek_mem
      rw [hmoved.lexemes, h.lexemes] at hpeek
      exact absurd htag (hknown _ hpeek)
    · exact absurd herror ((hstoppedClean.of_append hreports).2 error List.mem_cons_self)

private theorem isWritten_of_rounds {text : List Char} {start : Cursor} {before after : ReadingState}
    (hknown : ∀ lexeme ∈ start.lexemes.toList, lexeme.tag ≠ .unrecognized)
    (hrounds : Relation.ReflTransGen (Round text) before after) (h : before.IsWritten start) :
    after.IsWritten start := by
  induction hrounds with
  | refl => exact h
  | tail _ hround ih => exact hround.isWritten hknown ih

theorem diagnostics_of_rounds {text : List Char} {before after : ReadingState}
    (hrounds : Relation.ReflTransGen (Round text) before after) :
    ∃ reports, after.state.diagnostics.toList = before.state.diagnostics.toList ++ reports := by
  induction hrounds with
  | refl => exact ⟨[], (List.append_nil _).symm⟩
  | tail _ hround ih =>
    obtain ⟨reports, hreports⟩ := ih
    obtain ⟨more, hmore, -⟩ := hround.exists_reports
    exact ⟨reports ++ more, by rw [hmore, hreports, List.append_assoc]⟩

/-! ### Sources -/

namespace Source

/-- Whether the lexemes of a source are those of valid statements one after the other. -/
def IsWrittenAs (source : Source) (sentences : List Sentence) : Prop :=
  (∀ sentence ∈ sentences, sentence.IsValid) ∧ source.lexemes.toList.dropLast = sentences.flatMap Sentence.lexemes

/-- The lexemes of a source stand for parts of its text. -/
theorem areIn_lexemes (name : String) (content : List Char) :
    (ofContent name content).lexemes.AreIn (ofContent name content).text := by
  intro lexeme hmem
  obtain ⟨part, hpart, -⟩ := isLegible_of_mem name content hmem
  exact ⟨part, hpart⟩

theorem exists_cursor (source : Source) : ∃ cursor : Cursor, source.lexemes.cursor = .ok cursor ∧
    cursor.lexemes = source.lexemes ∧ cursor.ahead = source.lexemes.toList :=
  ⟨_, dif_pos source.isClosed_lexemes, rfl, rfl⟩

theorem statements_eq_parse (source : Source) :
    source.statements = source.parse source.lexemes source.lexicalDiagnostics := by
  rw [statements, lex_eq_done]

/-- The statements of a source are read from its first lexeme on. -/
theorem statements_eq {source : Source} {cursor : Cursor} (hcursor : source.lexemes.cursor = .ok cursor) :
    source.statements = ((Reader.readAll source.text (.start cursor source.lexicalDiagnostics)).1,
      (Reader.readAll source.text (.start cursor source.lexicalDiagnostics)).2.diagnostics) := by
  rw [statements_eq_parse, parse, Reader.runOn, hcursor]
  rfl

theorem statements_of_readStatements_eq {source : Source} {cursor : Cursor} {result : Array Statement}
    {after : ReaderState} (hcursor : source.lexemes.cursor = .ok cursor)
    (hread : Reader.readStatements source.text cursor.remaining none #[] (.start cursor source.lexicalDiagnostics)
      = (.done result, after)) :
    source.statements = (.done result.toList, after.diagnostics) := by
  have hremaining : Reader.remaining (.start cursor source.lexicalDiagnostics)
      = (.done cursor.remaining, .start cursor source.lexicalDiagnostics) := rfl
  rw [statements_eq hcursor, Reader.readAll, Stage.bind_of_done hremaining, Stage.bind_of_done hread]
  rfl

/-- Valid statements are read as they are, and nothing is reported. -/
theorem statements_of_isWrittenAs {source : Source} {sentences : List Sentence} (h : source.IsWrittenAs sentences) :
    source.statements = (.done (sentences.map Sentence.toStatement), .none) := by
  obtain ⟨hvalid, hlexemes⟩ := h
  obtain ⟨cursor, hcursor, -, hahead⟩ := source.exists_cursor
  have hknown : ∀ lexeme ∈ source.lexemes.toList, lexeme.tag ≠ .unrecognized := by
    rw [dropLast_lexemes] at hlexemes
    rw [toList_lexemes, hlexemes, List.forall_mem_append, List.forall_mem_singleton]
    refine ⟨fun lexeme hmem => ?_, by simp [closingLexeme]⟩
    obtain ⟨sentence, hsentence, hmem⟩ := List.mem_flatMap.1 hmem
    exact ((hvalid sentence hsentence).isRecognized lexeme hmem).2
  have hlexical : source.lexicalDiagnostics = .none := by
    have hnil : source.lexicalDiagnostics.toList = [] := by
      refine List.eq_nil_iff_forall_not_mem.2 fun report hmem => ?_
      obtain ⟨-, lexeme, hlexeme, htag, -⟩ := source.mem_lexicalDiagnostics hmem
      exact hknown lexeme hlexeme htag
    exact congrArg Diagnostics.mk (Array.toList_eq_nil_iff.1 hnil)
  let start := ReaderState.start cursor source.lexicalDiagnostics
  have hstart : start.cursor.ahead = sentences.flatMap Sentence.lexemes ++ [closingLexeme source.text] := by
    show cursor.ahead = _
    rw [dropLast_lexemes] at hlexemes
    rw [hahead, toList_lexemes, hlexemes]
  have hnesting : start.nesting = 0 := rfl
  have hread := Reader.readStatements_meets_of_ahead source.text hvalid hnesting rfl hstart (Nat.le_refl _) #[]
  obtain ⟨statements, after, hdone, hstatements, hdiagnostics⟩ := hread.exists_done
  rw [statements_of_readStatements_eq hcursor hdone, hstatements, hdiagnostics]
  show (_, source.lexicalDiagnostics) = _
  rw [hlexical]
  rfl

/-- Reading a source is a chain of rounds up to the end of the file. -/
theorem exists_rounds {source : Source} (htext : source.lexemes.AreIn source.text) :
    ∃ (cursor : Cursor) (statements : Array Statement) (after : ReaderState),
      cursor.lexemes = source.lexemes ∧ cursor.ahead = source.lexemes.toList ∧
      source.statements = (.done statements.toList, after.diagnostics) ∧ after.cursor.peek.tag = .endOfFile ∧
      Relation.ReflTransGen (Round source.text) ⟨none, #[], .start cursor source.lexicalDiagnostics⟩
        ⟨none, statements, after⟩ := by
  obtain ⟨cursor, hcursor, hlexemes, hahead⟩ := source.exists_cursor
  have hstart : (ReaderState.start cursor source.lexicalDiagnostics).cursor.lexemes.AreIn source.text := by
    rw [← hlexemes] at htext
    exact htext
  obtain ⟨_, after, hdone, hend, statements, rfl, hrounds⟩ := (Reader.readAll_meets hstart).exists_done
  refine ⟨cursor, statements, after, hlexemes, hahead, ?_, hend, hrounds⟩
  rw [statements_eq hcursor, hdone]

/-- What is read without an error are valid statements. -/
private theorem exists_isWrittenAs {source : Source} (htext : source.lexemes.AreIn source.text)
    (hclean : source.statements.2.IsClean) : ∃ sentences, source.IsWrittenAs sentences := by
  obtain ⟨cursor, statements, after, hlexemes, hahead, hstatements, hend, hrounds⟩ := exists_rounds htext
  rw [hstatements] at hclean
  have hclean : after.diagnostics.IsClean := hclean
  -- A lexeme that is not recognised has been reported before the reading began.
  have hknown : ∀ lexeme ∈ cursor.lexemes.toList, lexeme.tag ≠ .unrecognized := by
    intro lexeme hmem htag
    rw [hlexemes] at hmem
    obtain ⟨report, hreport, herror⟩ := source.lexicalDiagnostics_ne_none hmem htag
    obtain ⟨reports, hreports⟩ := diagnostics_of_rounds hrounds
    exact (hclean.of_append hreports).1 report hreport herror
  have hstart : ReadingState.IsWritten cursor ⟨none, #[], .start cursor source.lexicalDiagnostics⟩ := by
    refine ⟨rfl, fun _ _ => ⟨[], fun _ hmem => absurd hmem List.not_mem_nil, ?_, ?_⟩⟩
    · rw [List.flatMap_nil, List.nil_append, ReaderState.start]
    · rw [List.map_nil]
  obtain ⟨sentences, hvalid, hread, -⟩ := (isWritten_of_rounds hknown hrounds hstart).sentences hclean rfl
  refine ⟨sentences, hvalid, ?_⟩
  rw [hahead, Cursor.ahead_eq_peek_cons] at hread
  -- The end of the file is only at the end, so nothing but it is left.
  rcases List.eq_nil_or_concat (after.cursor.lexemes.toList.drop (after.cursor.position + 1)) with hrest |
    ⟨front, last, hrest⟩
  · rw [hread, hrest, List.dropLast_concat]
  · have hmem : after.cursor.peek ∈ source.lexemes.toList.dropLast := by
      rw [hread, hrest, List.concat_eq_append, ← List.cons_append, ← List.append_assoc, List.dropLast_concat]
      exact List.mem_append_right _ List.mem_cons_self
    exact absurd hend (source.tag_ne_endOfFile_of_mem hmem)

/-- A source is read without an error if and only if it is written in valid statements; and these are the statements
that are read. -/
theorem statements_iff (name : String) (content : List Char) :
    ((ofContent name content).statements.2.hasErrors = false ↔
      ∃ sentences, (ofContent name content).IsWrittenAs sentences) ∧
    ∀ sentences, (ofContent name content).IsWrittenAs sentences →
      (ofContent name content).statements = (.done (sentences.map Sentence.toStatement), .none) := by
  refine ⟨⟨fun hclean => ?_, fun ⟨sentences, h⟩ => ?_⟩, fun sentences h => statements_of_isWrittenAs h⟩
  · exact exists_isWrittenAs (areIn_lexemes name content) ((Diagnostics.hasErrors_eq_false_iff _).1 hclean)
  · rw [statements_of_isWrittenAs h]
    rfl

/-- The statement `x=-a*2;`. -/
private def product : Sentence where
  clause := .discarded (.between (.binary .assign) (.leaf .name ⟨.name, { start := 0, stop := 1 }⟩)
    ⟨.mark .eq, { start := 1, stop := 2 }⟩
    (.between (.binary .multiply)
      (.before (.unary .negate) ⟨.mark .minus, { start := 2, stop := 3 }⟩
        (.leaf .name ⟨.name, { start := 3, stop := 4 }⟩))
      ⟨.mark .star, { start := 4, stop := 5 }⟩ (.leaf .literal ⟨.decimal, { start := 5, stop := 6 }⟩)))
  semicolon := ⟨.mark .semi, { start := 6, stop := 7 }⟩

theorem statements_iff_product :
    (ofContent "" ['x', '=', '-', 'a', '*', '2', ';']).IsWrittenAs [product] ∧
      (ofContent "" ['x', '=', '-', 'a', '*', '2', ';']).statements = (.done [product.toStatement], .none) := by
  have hwritten : (ofContent "" ['x', '=', '-', 'a', '*', '2', ';']).IsWrittenAs [product] := by
    refine ⟨List.forall_mem_singleton.2 ⟨.discarded ⟨?_, by decide, by decide⟩, rfl⟩, by cbv⟩
    exact .between rfl rfl (by decide) (by decide) (.leaf rfl)
      (.between rfl rfl (by decide) (by decide) (.before rfl rfl (by decide) (.leaf rfl)) (.leaf rfl))
  exact ⟨hwritten, (statements_iff _ _).2 [product] hwritten⟩

end Source

end ExprLang
