import ExprLang.Proofs.Reading.Soundness

/-!
# Every expression is read

The lexemes of a valid phrase are read as that phrase, as long as it is no deeper than the room that there is
and no operator goes on with it afterwards (`readOperand_readsWithin`).  A phrase is read from its left edge: its first
operator begins it, and then every phrase on the left edge is the first operand of the next operator
(`scan_eq_extend`).
-/

namespace ExprLang

namespace Phrase

variable {phrase operand : Phrase} {tag : Tag}

/-- What binds tightly enough before a tag that does not go on with it may be read as an operand. -/
theorem IsValid.isOperand (h : phrase.IsValid) (hdepth : phrase.depth ≤ maxDepth) {min : Level}
    (hlevel : min ≤ phrase.level) (hends : Operator.leading? false min tag = none) : phrase.IsOperand min tag where
  valid := h
  depth_le := hdepth
  admits := h.admits_of_leading?_eq_none hlevel hends
  le_level := hlevel
  ends := hends

end Phrase

namespace Reader

variable {text : List Char} {operand : Level → ReadingContext → Reader Unit} {room : Nat}
  {before state : ReaderState} {passed rest : List Lexeme} {phrases : List Phrase} {phrase : Phrase}
  {follower : Lexeme} {α : Type} {Q : α → ReaderState → Prop} {F : ReaderState → Prop}

/-- Whether a reader reads all operands that are no deeper than `room`. -/
def ReadsWithin (operand : Level → ReadingContext → Reader Unit) (room : Nat) : Prop :=
  ∀ (state : ReaderState) (context : ReadingContext) (min : Level) (phrase : Phrase) (follower : Lexeme)
    (rest : List Lexeme), phrase.IsOperand min follower.tag → phrase.depth ≤ room → min ≤ .unary →
    state.cursor.ahead = phrase.lexemes ++ follower :: rest →
    (operand min context).Meets state (fun _ after => state.HasBuilt phrase.lexemes [phrase] after) fun _ => False

/-! ### Known lexemes -/

theorem ahead_of_hasBuilt (h : before.HasBuilt passed phrases state) (hahead : before.cursor.ahead = passed ++ rest) :
    state.cursor.ahead = rest :=
  h.moved.ahead_eq hahead

/-- Reading a known operand puts it on top of what has been built. -/
private theorem ReadsWithin.bind_meets (hread : ReadsWithin operand room) (h : before.HasBuilt passed phrases state)
    {min : Level} (hphrase : phrase.IsOperand min follower.tag) (hdepth : phrase.depth ≤ room) (hmin : min ≤ .unary)
    (hahead : state.cursor.ahead = phrase.lexemes ++ follower :: rest) (context : ReadingContext)
    {next : Unit → Reader α}
    (hnext : ∀ after, before.HasBuilt (passed ++ phrase.lexemes) (phrases ++ [phrase]) after →
      after.cursor.ahead = follower :: rest → (next ()).Meets after Q fun _ => False) :
    (operand min context >>= next).Meets state Q fun _ => False := by
  rw [Stage.meets_bind]
  refine (hread state context min phrase follower rest hphrase hdepth hmin hahead).mono ?_ fun _ h => h
  intro _ after hbuilt
  exact hnext after (h.trans hbuilt) (ahead_of_hasBuilt hbuilt hahead)

theorem advance_of_ahead (h : before.HasBuilt passed phrases state) (hahead : state.cursor.ahead = follower :: rest)
    (htag : follower.tag ≠ .endOfFile) :
    before.HasBuilt (passed ++ [follower]) phrases { state with cursor := state.cursor.advance } ∧
      state.cursor.advance.ahead = rest := by
  have hpeek := Cursor.peek_of_ahead hahead
  have hend : state.cursor.peek.tag ≠ .endOfFile := by rwa [hpeek]
  have hbuilt := h.advance hend
  have hmoved := Cursor.moved_advance hend
  rw [hpeek] at hbuilt hmoved
  exact ⟨hbuilt, hmoved.ahead_eq hahead⟩

theorem bind_next_meets_of_ahead (h : before.HasBuilt passed phrases state)
    (hahead : state.cursor.ahead = follower :: rest) (htag : follower.tag ≠ .endOfFile) {next : Lexeme → Reader α}
    (hnext : ∀ after, before.HasBuilt (passed ++ [follower]) phrases after → after.cursor.ahead = rest →
      (next follower).Meets after Q F) : (Reader.next >>= next).Meets state Q F := by
  obtain ⟨hbuilt, hrest⟩ := advance_of_ahead h hahead htag
  rw [bind_next_meets, Cursor.peek_of_ahead hahead]
  exact hnext _ hbuilt hrest

private theorem expectCloser_bind_meets_of_ahead (h : before.HasBuilt passed phrases state)
    (hahead : state.cursor.ahead = follower :: rest) {closer : Mark} (htag : follower.tag = .mark closer)
    (opener : Lexeme) {next : Lexeme → Reader α}
    (hnext : ∀ after, before.HasBuilt (passed ++ [follower]) phrases after → after.cursor.ahead = rest →
      (next follower).Meets after Q F) : (expectCloser text closer opener >>= next).Meets state Q F := by
  have hpeek := Cursor.peek_of_ahead hahead
  obtain ⟨hbuilt, hrest⟩ := advance_of_ahead h hahead (by simp [htag])
  rw [Stage.meets_bind_of_done (expectCloser_of_tag (by rwa [hpeek]) opener), hpeek]
  exact hnext _ hbuilt hrest

private theorem pushNode_meets_of_depth_le (phrase : Phrase) (h : before.HasBuilt passed phrase.operands state)
    (hdepth : phrase.depth ≤ maxDepth) :
    (pushNode phrase.operator phrase.operands.length phrase.span).Meets state
      (fun _ after => before.HasBuilt passed [phrase] after) F := by
  obtain ⟨after, hdone, hbuilt, -⟩ := pushNode_of_depth_le h hdepth
  exact .of_done hdone hbuilt

/-! ### Operands in brackets -/

/-- Operands that commas set apart are read if no comma follows them. -/
private theorem readOperands_meets_of_ahead (hread : ReadsWithin operand room) {operands : List Phrase}
    {commas : List Lexeme} (hcount : commas.length + 1 = operands.length)
    (hcommas : ∀ comma ∈ commas, comma.tag = .mark .comma) (hlevels : ∀ phrase ∈ operands, .nested ≤ phrase.level)
    (hvalid : ∀ phrase ∈ operands, phrase.IsValid) (hroom : ∀ phrase ∈ operands, phrase.depth ≤ room)
    (hdepth : ∀ phrase ∈ operands, phrase.depth ≤ maxDepth)
    (hends : Operator.leading? false .nested follower.tag = none) (hcomma : follower.tag ≠ .mark .comma)
    (hahead : state.cursor.ahead = interleave (operands.map Phrase.lexemes) commas ++ follower :: rest)
    {limit : Nat} (hlimit : state.cursor.remaining ≤ limit) (opener : Lexeme) (count : Nat) :
    (readOperands operand opener limit count).Meets state
      (fun total after => total = count + operands.length ∧
        state.HasBuilt (interleave (operands.map Phrase.lexemes) commas) operands after)
      fun _ => False := by
  induction operands generalizing state commas limit count with
  | nil => cases hcount
  | cons phrase operands ih =>
    have hpos := state.cursor.remaining_pos
    obtain ⟨limit, rfl⟩ : ∃ fewer, limit = fewer + 1 := Nat.exists_eq_add_one.2 (by omega)
    rw [List.forall_mem_cons] at hlevels hvalid hroom hdepth
    rw [readOperands]
    cases commas with
    | nil =>
      obtain rfl : operands = [] := by simpa using hcount
      have hphrase := hvalid.1.isOperand hdepth.1 hlevels.1 hends
      refine hread.bind_meets (.refl state) hphrase hroom.1 (by decide) hahead (.opener opener) ?_
      intro after hbuilt hahead
      have htag : after.cursor.peek.tag ≠ .mark .comma := by
        rwa [Cursor.peek_of_ahead hahead]
      rw [Stage.meets_bind_of_done (eat?_of_ne htag)]
      exact ⟨rfl, hbuilt⟩
    | cons comma commas =>
      rw [List.forall_mem_cons] at hcommas
      obtain ⟨second, others, rfl⟩ : ∃ second others, operands = second :: others := by
        exact List.exists_cons_of_length_pos (by simp at hcount; omega)
      -- The comma after the operand does not go on with it.
      have hfirst : Operator.leading? false .nested comma.tag = none := by
        rw [hcommas.1]
        exact Operator.leading?_eq_none_of_mem (by decide)
      have hphrase := hvalid.1.isOperand hdepth.1 hlevels.1 hfirst
      rw [List.map_cons, List.map_cons, interleave_cons_cons, List.append_assoc, List.cons_append, ← List.map_cons]
        at hahead
      refine hread.bind_meets (.refl state) hphrase hroom.1 (by decide) hahead (.opener opener) ?_
      intro middle hbuilt hmiddle
      have hpeek := Cursor.peek_of_ahead hmiddle
      have htag : middle.cursor.peek.tag = .mark .comma := by
        rw [hpeek]
        exact hcommas.1
      rw [Stage.meets_bind_of_done (eat?_of_tag htag)]
      have hpassed := hbuilt.advance (by simp [htag])
      rw [hpeek, List.nil_append, List.nil_append] at hpassed
      have hrest := ahead_of_hasBuilt hpassed (by rw [hahead, List.append_assoc]; rfl)
      have hfewer : { middle with cursor := middle.cursor.advance }.cursor.remaining ≤ limit := by
        have hremaining := hpassed.moved.remaining
        rw [List.length_append, List.length_singleton] at hremaining
        omega
      refine (ih (by simpa using hcount) hcommas.2 hlevels.2 hvalid.2 hroom.2 hdepth.2 hrest hfewer
        (count + 1)).mono ?_ fun _ h => h
      rintro total after ⟨htotal, hothers⟩
      have hall := hpassed.trans hothers
      rw [List.append_assoc] at hall
      refine ⟨?_, hall⟩
      simp only [htotal, List.length_cons]
      omega

/-- Known operands in brackets are put on top of what has been built. -/
private theorem readOperands_bind_meets_of_ahead (hread : ReadsWithin operand room)
    (h : before.HasBuilt passed phrases state) {operands : List Phrase} {commas : List Lexeme}
    (hcount : commas.length + 1 = operands.length) (hcommas : ∀ comma ∈ commas, comma.tag = .mark .comma)
    (hlevels : ∀ phrase ∈ operands, .nested ≤ phrase.level) (hvalid : ∀ phrase ∈ operands, phrase.IsValid)
    (hroom : ∀ phrase ∈ operands, phrase.depth ≤ room) (hdepth : ∀ phrase ∈ operands, phrase.depth ≤ maxDepth)
    {op : Operator} {right : Mark} {closer : Lexeme} (hclosing : op.shape.closer? = some right)
    (hcloser : closer.tag = .mark right)
    (hahead : state.cursor.ahead = interleave (operands.map Phrase.lexemes) commas ++ closer :: rest)
    (opener : Lexeme) {next : Nat → Reader α}
    (hnext : ∀ after, before.HasBuilt (passed ++ interleave (operands.map Phrase.lexemes) commas)
      (phrases ++ operands) after → after.cursor.ahead = closer :: rest →
      (next operands.length).Meets after Q fun _ => False) :
    (remaining >>= fun limit => readOperands operand opener limit 0 >>= next).Meets state Q fun _ => False := by
  have hends : Operator.leading? false .nested closer.tag = none := by
    rw [hcloser]
    exact op.leading?_closer hclosing
  have hcomma : closer.tag ≠ .mark .comma := by
    rw [hcloser]
    rcases op.closer_cases hclosing with rfl | rfl <;> decide
  rw [bind_remaining_meets, Stage.meets_bind]
  refine (readOperands_meets_of_ahead hread hcount hcommas hlevels hvalid hroom hdepth hends hcomma hahead
    (Nat.le_refl _) opener 0).mono ?_ fun _ h => h
  rintro total after ⟨htotal, hbuilt⟩
  rw [htotal, Nat.zero_add]
  exact hnext after (h.trans hbuilt) (ahead_of_hasBuilt hbuilt hahead)

/-! ### Operators -/

/-- A known phrase whose operator begins it is built. -/
private theorem build_meets_of_ahead_of_isOpening (text : List Char) (hread : ReadsWithin operand room)
    (hvalid : phrase.IsValid) (hopening : phrase.operator.shape.isOpening = true) (hadmits : phrase.Admits follower.tag)
    (hdepth : phrase.depth ≤ maxDepth) (hroom : ∀ inner ∈ phrase.operands, inner.depth ≤ room)
    (hahead : state.cursor.ahead = phrase.lexemes ++ follower :: rest) :
    (build text operand phrase.operator).Meets state (fun _ after => state.HasBuilt phrase.lexemes [phrase] after)
      fun _ => False := by
  have hinner : ∀ inner ∈ phrase.operands, inner.depth ≤ maxDepth := fun inner hmem =>
    Nat.le_trans (Nat.le_of_lt (Phrase.depth_lt_of_mem hmem)) hdepth
  cases hvalid with
  | after hshape => rw [Phrase.operator, hshape] at hopening; cases hopening
  | between hshape => rw [Phrase.operator, hshape] at hopening; cases hopening
  | application hshape => rw [Phrase.operator, hshape] at hopening; cases hopening
  | @leaf op lexeme hshape =>
    have hend : lexeme.tag ≠ .endOfFile := by
      have := op.leading_ne.1
      rwa [hshape] at this
    simp only [Phrase.operator, build, hshape]
    refine bind_next_meets_of_ahead (.refl state) hahead hend fun after hbuilt _ => ?_
    exact pushNode_meets_of_depth_le (.leaf op lexeme) hbuilt hdepth
  | @before op mark _ inner hshape hmark hlevel hvalid =>
    have hunary := Operator.level_of_before hshape
    have hoperand : inner.IsOperand op.level follower.tag :=
      hvalid.isOperand (hinner inner (by simp [Phrase.operands])) (by rwa [hunary]) hadmits.1
    rw [Phrase.lexemes] at hahead
    simp only [Phrase.operator, build, hshape]
    refine bind_next_meets_of_ahead (.refl state) hahead (by simp [hmark]) fun after hbuilt hahead => ?_
    refine hread.bind_meets hbuilt hoperand (hroom inner (by simp [Phrase.operands])) (by rw [hunary]; decide) hahead
      (.operator mark) fun last hlast _ => ?_
    rw [Stage.meets_bind_of_done (lastSpan_of_hasBuilt [] hlast)]
    exact pushNode_meets_of_depth_le (.before op mark inner) hlast hdepth
  | @around op opener inner closer _ right hshape hopener hcloser hlevel hvalid =>
    have hends : Operator.leading? false .nested closer.tag = none := by
      rw [hcloser]
      exact op.leading?_closer (by rw [hshape, Shape.closer?])
    have hoperand := hvalid.isOperand (hinner inner (by simp [Phrase.operands])) hlevel hends
    rw [Phrase.lexemes, List.append_assoc, List.cons_append] at hahead
    simp only [Phrase.operator, build, hshape]
    refine bind_next_meets_of_ahead (.refl state) hahead (by simp [hopener]) fun after hbuilt hahead => ?_
    refine hread.bind_meets hbuilt hoperand (hroom inner (by simp [Phrase.operands])) (by decide) hahead
      (.opener opener) fun middle hmiddle hahead => ?_
    refine expectCloser_bind_meets_of_ahead hmiddle hahead hcloser opener fun last hlast _ => ?_
    exact pushNode_meets_of_depth_le (.around op opener inner closer) hlast hdepth
  | @sequence op opener operands commas closer _ right hshape hopener hcloser hcommas hcount hlevels hvalid =>
    have hclosing : op.shape.closer? = some right := by rw [hshape, Shape.closer?]
    rw [Phrase.lexemes, List.append_assoc, List.cons_append, Phrase.lexemesOfAll_eq_map] at hahead
    simp only [Phrase.operator, build, hshape]
    refine bind_next_meets_of_ahead (.refl state) hahead (by simp [hopener]) fun after hbuilt hahead => ?_
    rw [Stage.meets_bind_of_done (isAt_eq _ _)]
    cases operands with
    | nil =>
      obtain rfl : commas = [] := List.eq_nil_of_length_eq_zero hcount
      have hpeek : after.cursor.peek.tag = .mark right := by
        rw [Cursor.peek_of_ahead hahead]
        exact hcloser
      rw [if_pos (decide_eq_true hpeek), Stage.meets_bind_of_done (Stage.pure_apply _ _)]
      refine expectCloser_bind_meets_of_ahead hbuilt hahead hcloser opener fun last hlast _ => ?_
      exact pushNode_meets_of_depth_le (.sequence op opener [] [] closer) hlast hdepth
    | cons first others =>
      have hpeek : after.cursor.peek.tag ≠ .mark right := by
        obtain ⟨lexeme, further, other, hlexemes, hother, hleading⟩ := (hvalid first (by simp)).exists_first
        obtain ⟨more, hmore⟩ := exists_interleave_cons first.lexemes (others.map Phrase.lexemes) commas
        have hnone : Operator.leading? true other.level (.mark right) = none := op.leading?_closer hclosing
        rw [List.map_cons, hmore, hlexemes] at hahead
        rw [Cursor.peek_of_ahead hahead, ← hleading]
        intro htag
        rw [Operator.leading?_eq_some_iff.2 ⟨Nat.le_refl _, hother, htag⟩] at hnone
        cases hnone
      rw [if_neg (by rwa [decide_eq_true_eq])]
      refine readOperands_bind_meets_of_ahead hread hbuilt (by rw [hcount]; rfl) hcommas hlevels hvalid hroom hinner
        hclosing hcloser hahead opener fun middle hmiddle hahead => ?_
      refine expectCloser_bind_meets_of_ahead hmiddle hahead hcloser opener fun last hlast _ => ?_
      rw [← Phrase.lexemesOfAll_eq_map] at hlast
      exact pushNode_meets_of_depth_le (.sequence op opener (first :: others) commas closer) hlast hdepth

/-- A known phrase whose operator goes on with its first operand is built when that has been read. -/
private theorem build_meets_of_ahead_of_not_isOpening (text : List Char) (hread : ReadsWithin operand room)
    (hvalid : phrase.IsValid) (hopening : phrase.operator.shape.isOpening = false) (hadmits : phrase.Admits follower.tag)
    (hdepth : phrase.depth ≤ maxDepth) (hroom : ∀ inner ∈ phrase.operands, inner.depth ≤ room) {left : Phrase}
    {others : List Phrase} (hleft : phrase.operands = left :: others)
    (h : before.HasBuilt left.lexemes [left] state)
    (hahead : before.cursor.ahead = phrase.lexemes ++ follower :: rest) :
    (build text operand phrase.operator).Meets state (fun _ after => before.HasBuilt phrase.lexemes [phrase] after)
      fun _ => False := by
  have hinner : ∀ inner ∈ phrase.operands, inner.depth ≤ maxDepth := fun inner hmem =>
    Nat.le_trans (Nat.le_of_lt (Phrase.depth_lt_of_mem hmem)) hdepth
  cases hvalid with
  | leaf hshape => rw [Phrase.operator, hshape] at hopening; cases hopening
  | before hshape => rw [Phrase.operator, hshape] at hopening; cases hopening
  | around hshape => rw [Phrase.operator, hshape] at hopening; cases hopening
  | sequence hshape => rw [Phrase.operator, hshape] at hopening; cases hopening
  | @after op inner mark _ hshape hmark =>
    obtain ⟨rfl, -⟩ := List.cons.inj hleft
    rw [Phrase.lexemes, List.append_assoc] at hahead
    simp only [Phrase.operator, build, hshape]
    refine bind_next_meets_of_ahead h (ahead_of_hasBuilt h hahead) (by simp [hmark]) fun last hlast _ => ?_
    rw [Stage.meets_bind_of_done (lastSpan_of_hasBuilt [] hlast)]
    rw [Phrase.lexemes]
    exact pushNode_meets_of_depth_le (.after op inner mark) hlast hdepth
  | @between op first mark right _ hshape hmark _ hright _ hvalid =>
    obtain ⟨rfl, -⟩ := List.cons.inj hleft
    obtain ⟨hloose, next, htighter⟩ := Operator.level_of_between hshape
    have hrank := Level.rank_of_tighter? htighter
    rw [Level.lt_iff] at hright hloose
    have hoperand : right.IsOperand next follower.tag :=
      hvalid.isOperand (hinner right (by simp [Phrase.operands])) (by rw [Level.le_iff]; omega)
        (hadmits.1 next htighter)
    rw [Phrase.lexemes, List.append_assoc, List.cons_append] at hahead
    simp only [Phrase.operator, build, hshape, htighter]
    rw [Stage.meets_bind_of_done (lastSpan_of_hasBuilt [] h)]
    refine bind_next_meets_of_ahead h (ahead_of_hasBuilt h hahead) (by simp [hmark])
      fun middle hmiddle hahead => ?_
    refine hread.bind_meets hmiddle hoperand (hroom right (by simp [Phrase.operands])) (by rw [Level.le_iff]; omega)
      hahead (.operator mark) fun last hlast _ => ?_
    rw [Stage.meets_bind_of_done (lastSpan_of_hasBuilt [first] hlast)]
    rw [List.append_assoc] at hlast
    exact pushNode_meets_of_depth_le (.between op first mark right) hlast hdepth
  | @application op callee opener operands commas closer _ right hshape hopener hcloser _ hcommas hcount hlevels _
      hvalid =>
    obtain ⟨rfl, -⟩ := List.cons.inj hleft
    have hclosing : op.shape.closer? = some right := by rw [hshape, Shape.closer?]
    have hrooms : ∀ inner ∈ operands, inner.depth ≤ room := fun inner hmem => hroom inner (List.mem_cons_of_mem _ hmem)
    have hdepths : ∀ inner ∈ operands, inner.depth ≤ maxDepth := fun inner hmem =>
      hinner inner (List.mem_cons_of_mem _ hmem)
    have hlexemes : (Phrase.application op callee opener operands commas closer).lexemes
        = callee.lexemes ++ [opener] ++ interleave (operands.map Phrase.lexemes) commas ++ [closer] := by
      simp [Phrase.lexemes, Phrase.lexemesOfAll_eq_map]
    rw [hlexemes, List.append_assoc, List.append_assoc, List.append_assoc] at hahead
    simp only [Phrase.operator, build, hshape]
    rw [Stage.meets_bind_of_done (lastSpan_of_hasBuilt [] h)]
    refine bind_next_meets_of_ahead h (ahead_of_hasBuilt h hahead) (by simp [hopener])
      fun middle hmiddle hahead => ?_
    refine readOperands_bind_meets_of_ahead hread hmiddle hcount hcommas hlevels hvalid hrooms hdepths hclosing hcloser
      hahead opener fun inside hinside hahead => ?_
    refine expectCloser_bind_meets_of_ahead hinside hahead hcloser opener fun last hlast _ => ?_
    rw [← hlexemes] at hlast
    rw [hlexemes, Nat.add_comm]
    rw [← hlexemes]
    exact pushNode_meets_of_depth_le (.application op callee opener operands commas closer) hlast hdepth

/-! ### Expressions -/

/-- A known phrase is read from its left edge, and what goes on with it is read next. -/
private theorem scan_eq_extend (text : List Char) (hread : ReadsWithin operand room) (hvalid : phrase.IsValid)
    {min : Level} (hlevel : min ≤ phrase.level) (hmin : min ≤ .unary) (hdepth : phrase.depth ≤ maxDepth)
    (hroom : phrase.depth ≤ room + 1) (hadmits : phrase.Admits follower.tag)
    (hahead : state.cursor.ahead = phrase.lexemes ++ follower :: rest) (context : ReadingContext) :
    ∃ after limit, scan text operand min context state = extend text operand min limit after ∧
      state.HasBuilt phrase.lexemes [phrase] after ∧ after.cursor.remaining ≤ limit := by
  induction phrase using Phrase.induction_operands generalizing follower rest with
  | step phrase ih =>
    have hinner : ∀ inner ∈ phrase.operands, inner.depth ≤ room := fun inner hmem => by
      have := Phrase.depth_lt_of_mem hmem
      omega
    cases hopening : phrase.operator.shape.isOpening with
    | true =>
      obtain ⟨first, more, hlexemes, hleading⟩ := hvalid.lexemes_of_isOpening hopening
      have hbuild := build_meets_of_ahead_of_isOpening text hread hvalid hopening hadmits hdepth hinner hahead
      obtain ⟨_, after, hdone, hbuilt⟩ := hbuild.exists_done
      have hpeek : peek state = (.done first, state) := by
        rw [peek, Stage.observe, Cursor.peek_of_ahead (by rw [hahead, hlexemes]; rfl)]
      have hfound := Operator.leading?_eq_some_iff.2 ⟨hlevel, hopening, hleading⟩
      refine ⟨after, after.cursor.remaining, ?_, hbuilt, Nat.le_refl _⟩
      rw [scan, Stage.bind_of_done hpeek, hfound]
      show (build text operand phrase.operator >>= _) state = _
      rw [Stage.bind_of_done hdone]
      rfl
    | false =>
      obtain ⟨left, others, mark, more, hoperands, hlexemes, hleading, hleft, hmark, hlevels⟩ :=
        hvalid.lexemes_of_not_isOpening hopening
      have hmem : left ∈ phrase.operands := by
        rw [hoperands]
        exact List.mem_cons_self
      have hless := Phrase.depth_lt_of_mem hmem
      have hleftLevel : min ≤ left.level := by
        rcases hlevels with h | h
        · exact Nat.le_trans hlevel h
        · exact Nat.le_trans hmin h
      have haheadLeft : state.cursor.ahead = left.lexemes ++ mark :: (more ++ follower :: rest) := by
        rw [hahead, hlexemes, List.append_assoc, List.cons_append]
      -- After the first operand the reader is in the loop, and the next operator there is the root.
      obtain ⟨middle, limit, hscan, hmiddle, hlimit⟩ := ih left hmem hleft hleftLevel (by omega) (by omega) hmark
        haheadLeft
      have hpos := middle.cursor.remaining_pos
      obtain ⟨limit, rfl⟩ : ∃ fewer, limit = fewer + 1 := Nat.exists_eq_add_one.2 (by omega)
      have hbuild := build_meets_of_ahead_of_not_isOpening text hread hvalid hopening hadmits hdepth hinner
        hoperands hmiddle hahead
      obtain ⟨_, after, hdone, hbuilt⟩ := hbuild.exists_done
      have hpeek : peek middle = (.done mark, middle) := by
        rw [peek, Stage.observe, Cursor.peek_of_ahead (ahead_of_hasBuilt hmiddle haheadLeft)]
      have hfound := Operator.leading?_eq_some_iff.2 ⟨hlevel, hopening, hleading⟩
      refine ⟨after, limit, ?_, hbuilt, ?_⟩
      · rw [hscan, extend, Stage.bind_of_done hpeek, hfound]
        show (build text operand phrase.operator >>= _) middle = _
        rw [Stage.bind_of_done hdone]
      · have := remaining_lt_of_length_lt hmiddle hbuilt (by simp [hlexemes])
        omega

private theorem scan_readsWithin (text : List Char) (hread : ReadsWithin operand room) :
    ReadsWithin (scan text operand) (room + 1) := by
  intro state context min phrase follower rest hphrase hroom hmin hahead
  obtain ⟨after, limit, hscan, hbuilt, hlimit⟩ := scan_eq_extend text hread hphrase.valid hphrase.le_level hmin
    hphrase.depth_le hroom hphrase.admits hahead context
  have hpos := after.cursor.remaining_pos
  obtain ⟨limit, rfl⟩ : ∃ fewer, limit = fewer + 1 := Nat.exists_eq_add_one.2 (by omega)
  -- The follower goes on with no operand, so the loop ends.
  have hpeek : peek after = (.done follower, after) := by
    rw [peek, Stage.observe, Cursor.peek_of_ahead (ahead_of_hasBuilt hbuilt hahead)]
  rw [Stage.Meets, hscan, ← Stage.Meets, extend, Stage.meets_bind_of_done hpeek, hphrase.ends]
  exact hbuilt

/-- A known operand is read if there is room for it. -/
private theorem readOperand_readsWithin (text : List Char) (room : Nat) : ReadsWithin (readOperand text room) room := by
  induction room with
  | zero =>
    intro state context min phrase follower rest _ hroom
    rw [phrase.depth_eq] at hroom
    omega
  | succ room ih =>
    intro state context min phrase follower rest hphrase hroom hmin hahead
    rw [readOperand, Stage.meets_around]
    refine (scan_readsWithin text ih { state with nesting := state.nesting + 1 } context min phrase follower rest
      hphrase hroom hmin hahead).mono ?_ fun _ h => h
    intro _ after hbuilt
    refine ⟨hbuilt.moved, hbuilt.diagnostics, hbuilt.nodes, hbuilt.depths, ?_⟩
    show after.nesting - 1 = state.nesting
    rw [hbuilt.nesting]
    rfl

/-- A known expression is read as a whole. -/
theorem readExpression_meets_of_ahead {min : Level} (hphrase : phrase.IsOperand min follower.tag)
    (hmin : min ≤ .unary) (hnesting : state.nesting = 0)
    (hahead : state.cursor.ahead = phrase.lexemes ++ follower :: rest) :
    (readExpression text min).Meets state
      (fun expr after => expr = phrase.expression ∧ state.HasBuilt phrase.lexemes [] after) fun _ => False := by
  rw [readExpression, Stage.meets_around]
  have hobserve : Stage.observe (·.nesting) { state with nodes := #[], depths := [] }
      = (.done 0, { state with nodes := #[], depths := [] }) := by
    rw [← hnesting]
    rfl
  rw [Stage.meets_bind_of_done hobserve, Stage.meets_bind]
  refine (readOperand_readsWithin text _ { state with nodes := #[], depths := [] } .start min phrase follower rest
    hphrase hphrase.depth_le hmin hahead).mono ?_ fun _ h => h
  intro _ after hbuilt
  exact leave_of_hasBuilt hbuilt

end Reader

end ExprLang
