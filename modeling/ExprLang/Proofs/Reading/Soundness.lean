import ExprLang.Proofs.Reading.Steps

/-!
# What is read is an expression

Reading an operand never runs into a fault.  If it is done, it has moved over the lexemes of a valid phrase
that is no deeper than is allowed, and it stops at a lexeme that no operator goes on with
(`readOperand_meets`).
-/

namespace ExprLang

namespace Phrase

/-- A phrase that may be built before a lexeme with a tag. -/
structure IsBuilt (phrase : Phrase) (tag : Tag) : Prop where
  valid : phrase.IsValid
  depth_le : phrase.depth ≤ maxDepth
  admits : phrase.Admits tag

/-- A phrase that may be read as an operand of a level before a lexeme with a tag. -/
structure IsOperand (phrase : Phrase) (min : Level) (tag : Tag) : Prop extends phrase.IsBuilt tag where
  le_level : min ≤ phrase.level
  ends : Operator.leading? false min tag = none

end Phrase

namespace Reader

variable {text : List Char} {operand : Level → ReadingContext → Reader Unit}
  {before state : ReaderState} {passed : List Lexeme} {phrases : List Phrase} {α : Type}
  {Q : α → ReaderState → Prop}

/-- Whether a reader reads operands. -/
def ReadsOperands (text : List Char) (operand : Level → ReadingContext → Reader Unit) : Prop :=
  ∀ (state : ReaderState) (min : Level) (context : ReadingContext), state.cursor.lexemes.AreIn text →
    context.IsIn state.cursor.lexemes → (operand min context).Meets state
      (fun _ after => ∃ phrase : Phrase, phrase.IsOperand min after.cursor.peek.tag ∧
        state.HasBuilt phrase.lexemes [phrase] after)
      state.HasFailed

/-! ### Going on from what has been built -/

theorem areIn_of_hasBuilt (htext : before.cursor.lexemes.AreIn text) (h : before.HasBuilt passed phrases state) :
    state.cursor.lexemes.AreIn text := by
  rw [h.moved.lexemes]
  exact htext

private theorem meets_of_hasFailed {stage : Reader α} (h : before.HasBuilt passed phrases state)
    (hmeets : stage.Meets state Q state.HasFailed) : stage.Meets state Q before.HasFailed :=
  hmeets.mono (fun _ _ hQ => hQ) fun _ => h.hasFailed

/-- Reading one operand puts it on top of what has been built. -/
private theorem ReadsOperands.bind_meets (hread : ReadsOperands text operand) (htext : before.cursor.lexemes.AreIn text)
    (h : before.HasBuilt passed phrases state) {min : Level} {context : ReadingContext}
    (hcontext : context.IsIn before.cursor.lexemes) {next : Unit → Reader α}
    (hnext : ∀ (phrase : Phrase) (after : ReaderState), phrase.IsOperand min after.cursor.peek.tag →
      before.HasBuilt (passed ++ phrase.lexemes) (phrases ++ [phrase]) after →
      (next ()).Meets after Q before.HasFailed) :
    (operand min context >>= next).Meets state Q before.HasFailed := by
  rw [Stage.meets_bind]
  refine (hread state min context (areIn_of_hasBuilt htext h) ?_).mono ?_ fun _ => h.hasFailed
  · rw [h.moved.lexemes]
    exact hcontext
  · rintro _ after ⟨phrase, hphrase, hbuilt⟩
    exact hnext phrase after hphrase (h.trans hbuilt)

private theorem expectCloser_bind_meets (htext : before.cursor.lexemes.AreIn text)
    (h : before.HasBuilt passed phrases state) {closer : Mark} {opener : Lexeme} (hopener : opener ∈ passed)
    {next : Lexeme → Reader α}
    (hnext : ∀ closing : Lexeme, closing.tag = .mark closer → ∀ after : ReaderState,
      before.HasBuilt (passed ++ [closing]) phrases after → (next closing).Meets after Q before.HasFailed) :
    (expectCloser text closer opener >>= next).Meets state Q before.HasFailed := by
  by_cases htag : state.cursor.peek.tag = .mark closer
  · rw [Stage.meets_bind_of_done (expectCloser_of_tag htag opener)]
    exact hnext _ htag _ (h.advance (by simp [htag]))
  · rw [Stage.meets_bind]
    refine meets_of_hasFailed h (expectCloser_meets_of_ne (areIn_of_hasBuilt htext h) ?_ htag)
    rw [h.moved.lexemes]
    exact h.moved.mem hopener

private theorem pushNode_meets (phrase : Phrase) (h : before.HasBuilt passed phrase.operands state)
    {Q : Unit → ReaderState → Prop} (hQ : ∀ after, phrase.depth ≤ maxDepth → before.HasBuilt passed [phrase] after →
      after.cursor = state.cursor → Q () after) :
    (pushNode phrase.operator phrase.operands.length phrase.span).Meets state Q before.HasFailed := by
  by_cases hdepth : phrase.depth ≤ maxDepth
  · obtain ⟨after, hdone, hbuilt, hcursor⟩ := pushNode_of_depth_le h hdepth
    exact .of_done hdone (hQ after hdepth hbuilt hcursor)
  · exact pushNode_meets_of_depth_gt h (Nat.lt_of_not_le hdepth)

theorem bind_next_meets {next : Lexeme → Reader α} {F : ReaderState → Prop} :
    (Reader.next >>= next).Meets state Q F ↔
      (next state.cursor.peek).Meets { state with cursor := state.cursor.advance } Q F :=
  Stage.meets_bind_of_done rfl

theorem bind_remaining_meets {next : Nat → Reader α} {F : ReaderState → Prop} :
    (remaining >>= next).Meets state Q F ↔ (next state.cursor.remaining).Meets state Q F :=
  Stage.meets_bind_of_done rfl

/-! ### Operands in brackets -/

/-- Operands are read up to one that no comma follows. -/
private theorem readOperands_meets (hread : ReadsOperands text operand) (htext : state.cursor.lexemes.AreIn text)
    {opener : Lexeme} (hopener : opener ∈ state.cursor.lexemes.toList) {limit : Nat}
    (hlimit : state.cursor.remaining ≤ limit) (count : Nat) :
    (readOperands operand opener limit count).Meets state
      (fun total after => ∃ (operands : List Phrase) (commas : List Lexeme),
        total = count + operands.length ∧ commas.length + 1 = operands.length ∧
        (∀ comma ∈ commas, comma.tag = .mark .comma) ∧ (∀ phrase ∈ operands, .nested ≤ phrase.level) ∧
        (∀ phrase ∈ operands, phrase.IsValid) ∧
        state.HasBuilt (interleave (operands.map Phrase.lexemes) commas) operands after)
      state.HasFailed := by
  -- Each operand moves the cursor, so the limit is not reached before the last one.
  induction limit generalizing state count with
  | zero =>
    have := state.cursor.remaining_pos
    omega
  | succ limit ih =>
    rw [readOperands]
    have hcontext : (ReadingContext.opener opener).IsIn state.cursor.lexemes := hopener
    refine hread.bind_meets htext (.refl state) hcontext fun phrase after hphrase hbuilt => ?_
    rw [List.nil_append, List.nil_append] at hbuilt
    by_cases htag : after.cursor.peek.tag = .mark .comma
    · rw [Stage.meets_bind_of_done (eat?_of_tag htag)]
      have hcomma := hbuilt.advance (by simp [htag])
      have hlength := List.length_pos_iff.2 phrase.lexemes_ne_nil
      have hremaining := hcomma.moved.remaining
      rw [List.length_append, List.length_singleton] at hremaining
      refine (ih (areIn_of_hasBuilt htext hcomma) ?_ (by omega) (count + 1)).mono ?_ fun _ => hcomma.hasFailed
      · rw [hcomma.moved.lexemes]
        exact hopener
      · rintro total last ⟨operands, commas, htotal, hcount, hcommas, hlevels, hvalid, hrest⟩
        refine ⟨phrase :: operands, after.cursor.peek :: commas, ?_, ?_, ?_, ?_, ?_, ?_⟩
        · rw [List.length_cons]
          omega
        · rw [List.length_cons, List.length_cons, hcount]
        · exact List.forall_mem_cons.2 ⟨htag, hcommas⟩
        · exact List.forall_mem_cons.2 ⟨hphrase.le_level, hlevels⟩
        · exact List.forall_mem_cons.2 ⟨hphrase.valid, hvalid⟩
        · obtain ⟨second, others, rfl⟩ : ∃ second others, operands = second :: others :=
            List.exists_cons_of_length_pos (by omega)
          have hall := hcomma.trans hrest
          rw [List.append_assoc] at hall
          exact hall
    · rw [Stage.meets_bind_of_done (eat?_of_ne htag)]
      exact ⟨[phrase], [], rfl, rfl, by simp, by simpa using hphrase.le_level, by simpa using hphrase.valid, hbuilt⟩

/-- Operands in brackets are put on top of what has been built. -/
private theorem readOperands_bind_meets (hread : ReadsOperands text operand) (htext : before.cursor.lexemes.AreIn text)
    (h : before.HasBuilt passed phrases state) {opener : Lexeme} (hopener : opener ∈ passed) {next : Nat → Reader α}
    (hnext : ∀ (operands : List Phrase) (commas : List Lexeme) (after : ReaderState),
      commas.length + 1 = operands.length → (∀ comma ∈ commas, comma.tag = .mark .comma) →
      (∀ phrase ∈ operands, .nested ≤ phrase.level) → (∀ phrase ∈ operands, phrase.IsValid) →
      before.HasBuilt (passed ++ interleave (operands.map Phrase.lexemes) commas) (phrases ++ operands) after →
      (next operands.length).Meets after Q before.HasFailed) :
    (remaining >>= fun limit => readOperands operand opener limit 0 >>= next).Meets state Q before.HasFailed := by
  have hmem : opener ∈ state.cursor.lexemes.toList := by
    rw [h.moved.lexemes]
    exact h.moved.mem hopener
  rw [bind_remaining_meets, Stage.meets_bind]
  refine (readOperands_meets hread (areIn_of_hasBuilt htext h) hmem (Nat.le_refl _) 0).mono ?_ fun _ => h.hasFailed
  rintro total after ⟨operands, commas, htotal, hcount, hcommas, hlevels, hvalid, hbuilt⟩
  rw [htotal, Nat.zero_add]
  exact hnext operands commas after hcount hcommas hlevels hvalid (h.trans hbuilt)

/-! ### Operators -/

/-- The result of building a phrase with a given operator on the right of what was there. -/
def BuildsPhrase (before : ReaderState) (op : Operator) (after : ReaderState) : Prop :=
  ∃ phrase : Phrase, phrase.operator = op ∧ phrase.IsBuilt after.cursor.peek.tag ∧
    before.HasBuilt phrase.lexemes [phrase] after

/-- An operator that begins an expression is read with its operands. -/
theorem build_meets_of_isOpening (hread : ReadsOperands text operand) (htext : state.cursor.lexemes.AreIn text)
    {op : Operator} (hopening : op.shape.isOpening = true) (hleading : op.shape.leading = state.cursor.peek.tag) :
    (build text operand op).Meets state (fun _ => BuildsPhrase state op) state.HasFailed := by
  have hend : state.cursor.peek.tag ≠ .endOfFile := by
    rw [← hleading]
    exact op.leading_ne.1
  have hnext := state.hasBuilt_advance hend
  have hmem := state.cursor.peek_mem
  cases hshape : op.shape with
  | after mark => rw [hshape] at hopening; cases hopening
  | between mark => rw [hshape] at hopening; cases hopening
  | application opener closer => rw [hshape] at hopening; cases hopening
  | leaf tag =>
    rw [hshape] at hleading
    simp only [build, hshape]
    rw [bind_next_meets]
    refine pushNode_meets (.leaf op state.cursor.peek) hnext fun after hdepth hbuilt _ => ?_
    refine ⟨_, rfl, ⟨.leaf ?_, hdepth, trivial⟩, hbuilt⟩
    rw [hshape, ← hleading]
    rfl
  | before mark =>
    rw [hshape] at hleading
    have hlevel := Operator.level_of_before hshape
    have hcontext : (ReadingContext.operator state.cursor.peek).IsIn state.cursor.lexemes := hmem
    simp only [build, hshape]
    rw [bind_next_meets]
    refine hread.bind_meets htext hnext hcontext fun inner middle hinner hbuilt => ?_
    rw [Stage.meets_bind_of_done (lastSpan_of_hasBuilt [] hbuilt)]
    refine pushNode_meets (.before op state.cursor.peek inner) hbuilt fun after hdepth hall hcursor => ?_
    refine ⟨_, rfl, ⟨.before hshape hleading.symm ?_ hinner.valid, hdepth, ?_⟩, hall⟩
    · rw [← hlevel]
      exact hinner.le_level
    · rw [hcursor]
      exact ⟨hinner.ends, hinner.admits⟩
  | around opener closer =>
    rw [hshape] at hleading
    have hcontext : (ReadingContext.opener state.cursor.peek).IsIn state.cursor.lexemes := hmem
    simp only [build, hshape]
    rw [bind_next_meets]
    refine hread.bind_meets htext hnext hcontext fun inner middle hinner hbuilt => ?_
    refine expectCloser_bind_meets htext hbuilt (by simp) fun closing hclosing last hlast => ?_
    refine pushNode_meets (.around op state.cursor.peek inner closing) hlast fun after hdepth hall _ => ?_
    exact ⟨_, rfl, ⟨.around hshape hleading.symm hclosing hinner.le_level hinner.valid, hdepth, trivial⟩, hall⟩
  | sequence opener closer =>
    rw [hshape] at hleading
    simp only [build, hshape]
    rw [bind_next_meets]
    rw [Stage.meets_bind_of_done (isAt_eq _ _)]
    split
    · rw [Stage.meets_bind_of_done (Stage.pure_apply _ _)]
      refine expectCloser_bind_meets htext hnext (by simp) fun closing hclosing last hlast => ?_
      refine pushNode_meets (.sequence op state.cursor.peek [] [] closing) hlast fun after hdepth hall _ => ?_
      refine ⟨_, rfl, ⟨.sequence hshape hleading.symm hclosing ?_ rfl ?_ ?_, hdepth, trivial⟩, hall⟩
      all_goals simp
    · refine readOperands_bind_meets hread htext hnext (by simp) ?_
      intro operands commas middle hcount hcommas hlevels hvalid hbuilt
      refine expectCloser_bind_meets htext hbuilt (by simp) fun closing hclosing last hlast => ?_
      refine pushNode_meets (.sequence op state.cursor.peek operands commas closing) hlast
        fun after hdepth hall _ => ?_
      refine ⟨_, rfl, ⟨.sequence hshape hleading.symm hclosing hcommas ?_ hlevels hvalid, hdepth, trivial⟩, ?_⟩
      · omega
      · rw [← Phrase.lexemesOfAll_eq_map] at hall
        exact hall

/-- A phrase that goes on with another has moved the cursor. -/
theorem remaining_lt_of_length_lt {left phrase : Phrase} {after : ReaderState}
    (h : before.HasBuilt left.lexemes phrases state) {others : List Phrase}
    (hall : before.HasBuilt phrase.lexemes others after) (hlength : left.lexemes.length < phrase.lexemes.length) :
    after.cursor.remaining < state.cursor.remaining := by
  have hbefore := h.moved.remaining
  have hafter := hall.moved.remaining
  omega

/-- An operator that goes on with a phrase is read with its further operands. -/
theorem build_meets_of_not_isOpening (hread : ReadsOperands text operand)
    (htext : before.cursor.lexemes.AreIn text) {left : Phrase} (hleft : left.IsBuilt state.cursor.peek.tag)
    (h : before.HasBuilt left.lexemes [left] state) {op : Operator} (hopening : op.shape.isOpening = false)
    (hleading : op.shape.leading = state.cursor.peek.tag) :
    (build text operand op).Meets state (fun _ after => BuildsPhrase before op after ∧
      after.cursor.remaining < state.cursor.remaining) before.HasFailed := by
  have hend : state.cursor.peek.tag ≠ .endOfFile := by
    rw [← hleading]
    exact op.leading_ne.1
  have hnext := h.advance hend
  have hmem : state.cursor.peek ∈ before.cursor.lexemes.toList := by
    rw [← h.moved.lexemes]
    exact state.cursor.peek_mem
  have hadmits := hleft.admits
  rw [← hleading] at hadmits
  cases hshape : op.shape with
  | leaf tag => rw [hshape] at hopening; cases hopening
  | before mark => rw [hshape] at hopening; cases hopening
  | around opener closer => rw [hshape] at hopening; cases hopening
  | sequence opener closer => rw [hshape] at hopening; cases hopening
  | after mark =>
    have hunary := op.unary_le_level_of_ne (by simp [hshape])
    have hclosed := (hleft.valid.admits_tight_iff hopening hunary).1 hadmits
    rw [hshape] at hleading
    simp only [build, hshape]
    rw [bind_next_meets, Stage.meets_bind_of_done (lastSpan_of_hasBuilt [] hnext)]
    have hlexemes : (Phrase.after op left state.cursor.peek).lexemes = left.lexemes ++ [state.cursor.peek] := by
      rw [Phrase.lexemes]
    rw [← hlexemes] at hnext
    refine pushNode_meets (.after op left state.cursor.peek) hnext fun after hdepth hall _ => ?_
    refine ⟨⟨_, rfl, ⟨.after hshape hleading.symm hclosed hleft.valid, hdepth, trivial⟩, hall⟩, ?_⟩
    exact remaining_lt_of_length_lt h hall (by simp [hlexemes])
  | between mark =>
    obtain ⟨-, next, htighter⟩ := Operator.level_of_between hshape
    have hlevel : op.level ≤ left.level := by
      rw [hshape] at hadmits
      exact (hleft.valid.admits_between_iff hshape).1 hadmits
    have hcontext : (ReadingContext.operator state.cursor.peek).IsIn before.cursor.lexemes := hmem
    rw [hshape] at hleading
    simp only [build, hshape, htighter]
    rw [Stage.meets_bind_of_done (lastSpan_of_hasBuilt [] h), bind_next_meets]
    refine hread.bind_meets htext hnext hcontext fun right middle hright hbuilt => ?_
    rw [Stage.meets_bind_of_done (lastSpan_of_hasBuilt [left] hbuilt)]
    have hlexemes : (Phrase.between op left state.cursor.peek right).lexemes
        = left.lexemes ++ [state.cursor.peek] ++ right.lexemes := by simp [Phrase.lexemes]
    rw [← hlexemes] at hbuilt
    refine pushNode_meets (.between op left state.cursor.peek right) hbuilt fun after hdepth hall hcursor => ?_
    refine ⟨⟨_, rfl, ⟨.between hshape hleading.symm hlevel ?_ hleft.valid hright.valid, hdepth, ?_⟩, hall⟩, ?_⟩
    · have hrank := Level.rank_of_tighter? htighter
      have hle := hright.le_level
      rw [Level.le_iff] at hle
      rw [Level.lt_iff]
      omega
    · rw [hcursor]
      refine ⟨fun other hother => ?_, hright.admits⟩
      rw [htighter, Option.some.injEq] at hother
      rw [← hother]
      exact hright.ends
    · exact remaining_lt_of_length_lt h hall (by simp [hlexemes])
  | application opener closer =>
    have hunary := op.unary_le_level_of_ne (by simp [hshape])
    have hclosed := (hleft.valid.admits_tight_iff hopening hunary).1 hadmits
    rw [hshape] at hleading
    simp only [build, hshape]
    rw [Stage.meets_bind_of_done (lastSpan_of_hasBuilt [] h), bind_next_meets]
    refine readOperands_bind_meets hread htext hnext (by simp) ?_
    intro operands commas middle hcount hcommas hlevels hvalid hbuilt
    refine expectCloser_bind_meets htext hbuilt (by simp) fun closing hclosing last hlast => ?_
    have hlexemes : (Phrase.application op left state.cursor.peek operands commas closing).lexemes
        = left.lexemes ++ [state.cursor.peek] ++ interleave (operands.map Phrase.lexemes) commas ++ [closing] := by
      simp [Phrase.lexemes, Phrase.lexemesOfAll_eq_map]
    rw [← hlexemes] at hlast
    rw [Nat.add_comm]
    refine pushNode_meets (.application op left state.cursor.peek operands commas closing) hlast
      fun after hdepth hall _ => ?_
    refine ⟨⟨_, rfl, ⟨.application hshape hleading.symm hclosing hclosed hcommas hcount hlevels hleft.valid hvalid,
      hdepth, trivial⟩, hall⟩, ?_⟩
    exact remaining_lt_of_length_lt h hall (by simp [hlexemes])

/-! ### Expressions -/

/-- What has been read goes on as long as an operator of the level or a tighter one follows. -/
private theorem extend_meets (hread : ReadsOperands text operand) (htext : before.cursor.lexemes.AreIn text)
    {min : Level} {left : Phrase} (hleft : left.IsBuilt state.cursor.peek.tag) (hlevel : min ≤ left.level)
    (h : before.HasBuilt left.lexemes [left] state) {limit : Nat} (hlimit : state.cursor.remaining ≤ limit) :
    (extend text operand min limit).Meets state
      (fun _ after => ∃ phrase : Phrase, phrase.IsOperand min after.cursor.peek.tag ∧
        before.HasBuilt phrase.lexemes [phrase] after)
      before.HasFailed := by
  -- The phrase that has been read so far becomes the first operand of the next operator.
  induction limit generalizing state left with
  | zero =>
    have := state.cursor.remaining_pos
    omega
  | succ limit ih =>
    have hpeek : peek state = (.done state.cursor.peek, state) := rfl
    rw [extend, Stage.meets_bind_of_done hpeek]
    cases hfound : Operator.leading? false min state.cursor.peek.tag with
    | none => exact ⟨left, ⟨hleft, hlevel, hfound⟩, h⟩
    | some op =>
      obtain ⟨hop, hopening, hleading⟩ := Operator.leading?_eq_some_iff.1 hfound
      show (build text operand op >>= _).Meets _ _ _
      rw [Stage.meets_bind]
      refine (build_meets_of_not_isOpening hread htext hleft h hopening hleading).mono ?_ fun _ hfailed => hfailed
      rintro _ after ⟨⟨phrase, hoperator, hphrase, hbuilt⟩, hremaining⟩
      refine ih hphrase ?_ hbuilt (by omega)
      rw [Phrase.level, hoperator]
      exact hop

/-- An expression is read from its first operator on. -/
private theorem scan_meets (hread : ReadsOperands text operand) : ReadsOperands text (scan text operand) := by
  intro state min context htext hcontext
  have hpeek : peek state = (.done state.cursor.peek, state) := rfl
  rw [scan, Stage.meets_bind_of_done hpeek]
  cases hfound : Operator.leading? true min state.cursor.peek.tag with
  | none => exact reportMissing_meets htext hcontext
  | some op =>
    obtain ⟨hop, hopening, hleading⟩ := Operator.leading?_eq_some_iff.1 hfound
    show (build text operand op >>= _).Meets _ _ _
    rw [Stage.meets_bind]
    refine (build_meets_of_isOpening hread htext hopening hleading).mono ?_ fun _ hfailed => hfailed
    rintro _ after ⟨phrase, hoperator, hphrase, hbuilt⟩
    rw [bind_remaining_meets]
    refine extend_meets hread htext hphrase ?_ hbuilt (Nat.le_refl _)
    rw [Phrase.level, hoperator]
    exact hop

/-- Operands are read one inside the other as deep as there is room. -/
theorem readOperand_meets (text : List Char) (room : Nat) : ReadsOperands text (readOperand text room) := by
  -- Every operand that is read inside another has less room.
  induction room with
  | zero =>
    intro state min context _ _
    exact tooDeep_meets
  | succ room ih =>
    intro state min context htext hcontext
    rw [readOperand, Stage.meets_around]
    have hscan := scan_meets ih { state with nesting := state.nesting + 1 } min context htext hcontext
    refine hscan.mono ?_ ?_
    · rintro _ after ⟨phrase, hphrase, hbuilt⟩
      refine ⟨phrase, hphrase, ⟨hbuilt.moved, hbuilt.diagnostics, hbuilt.nodes, hbuilt.depths, ?_⟩⟩
      show after.nesting - 1 = state.nesting
      rw [hbuilt.nesting]
      rfl
    · intro after hfailed
      refine ⟨hfailed.moved, ?_, hfailed.reports⟩
      show after.nesting - 1 = state.nesting
      rw [hfailed.nesting]
      rfl

/-- The expression that has been built is taken out of the state. -/
theorem leave_of_hasBuilt {phrase : Phrase} {after : ReaderState}
    (h : { state with nodes := #[], depths := [] }.HasBuilt phrase.lexemes [phrase] after) :
    (⟨after.nodes⟩ : Expression) = phrase.expression ∧
      state.HasBuilt phrase.lexemes [] { after with nodes := state.nodes, depths := state.depths } := by
  refine ⟨?_, ⟨h.moved, h.diagnostics, by simp, rfl, h.nesting⟩⟩
  have hnodes := h.nodes
  simp only [List.flatMap_cons, List.flatMap_nil, List.append_nil, List.nil_append] at hnodes
  rw [Phrase.expression, ← hnodes, Array.toArray_toList]

/-- A whole expression is read, and nothing is left of it in the state. -/
theorem readExpression_meets (htext : state.cursor.lexemes.AreIn text) (min : Level) :
    (readExpression text min).Meets state
      (fun expr after => ∃ phrase : Phrase, phrase.IsOperand min after.cursor.peek.tag ∧
        expr = phrase.expression ∧ state.HasBuilt phrase.lexemes [] after)
      state.HasStopped := by
  rw [readExpression, Stage.meets_around]
  have hobserve : Stage.observe (·.nesting) { state with nodes := #[], depths := [] }
      = (.done state.nesting, { state with nodes := #[], depths := [] }) := rfl
  rw [Stage.meets_bind_of_done hobserve, Stage.meets_bind]
  refine (readOperand_meets text _ { state with nodes := #[], depths := [] } min .start htext trivial).mono ?_ ?_
  · rintro _ after ⟨phrase, hphrase, hbuilt⟩
    rw [Stage.meets_observe]
    exact ⟨phrase, hphrase, leave_of_hasBuilt hbuilt⟩
  · intro after hfailed
    exact ⟨⟨hfailed.moved, hfailed.nesting, hfailed.reports⟩, rfl, rfl⟩

end Reader

end ExprLang
