import ExprLang.Proofs.Reading.Progress

/-!
# Steps of a reader

What the readers do that do not read operands: they move over a lexeme, look for a closer, report a problem or
add a node.  None of them runs into a fault, provided that the lexemes are parts of the text and that the
operands of a node have been built.
-/

namespace ExprLang

/-- Whether lexemes stand for parts of a text. -/
def Lexemes.AreIn (lexemes : Lexemes) (text : List Char) : Prop :=
  ∀ lexeme ∈ lexemes.toList, ∃ part, sliceOf text lexeme.span = .ok part

/-- Whether what a missing expression is reported against is one of some lexemes. -/
def ReadingContext.IsIn (context : ReadingContext) (lexemes : Lexemes) : Prop :=
  match context with
  | start => True
  | operator lexeme | opener lexeme => lexeme ∈ lexemes.toList

namespace Reader

variable {text : List Char} {before state : ReaderState} {lexeme : Lexeme} {α : Type}

/-! ### Lexemes -/

theorem isAt_eq (tag : Tag) (state : ReaderState) :
    isAt tag state = (.done (decide (state.cursor.peek.tag = tag)), state) := rfl

theorem eat?_of_tag {tag : Tag} (h : state.cursor.peek.tag = tag) :
    eat? tag state = (.done (some state.cursor.peek), { state with cursor := state.cursor.advance }) := by
  rw [eat?, Stage.bind_of_done (isAt_eq tag state), decide_eq_true h]
  rfl

theorem eat?_of_ne {tag : Tag} (h : state.cursor.peek.tag ≠ tag) : eat? tag state = (.done none, state) := by
  rw [eat?, Stage.bind_of_done (isAt_eq tag state), decide_eq_false h]
  rfl

private theorem exists_spell (state : ReaderState) (htext : state.cursor.lexemes.AreIn text)
    (h : lexeme ∈ state.cursor.lexemes.toList) :
    ∃ part, spell text lexeme state = (.done part, state) := by
  obtain ⟨part, hpart⟩ := htext lexeme h
  refine ⟨part, ?_⟩
  rw [spell, Lexeme.textIn, hpart]
  rfl

theorem exists_found (htext : state.cursor.lexemes.AreIn text) (h : lexeme ∈ state.cursor.lexemes.toList) :
    ∃ what, found text lexeme state = (.done what, state) := by
  by_cases hend : lexeme.tag = .endOfFile
  · exact ⟨.endOfFile, by rw [found, if_pos hend]; rfl⟩
  · obtain ⟨part, hpart⟩ := exists_spell _ htext h
    exact ⟨.lexeme part, by rw [found, if_neg hend, Stage.bind_of_done hpart]; rfl⟩

/-! ### Reports -/

/-- The state after a report. -/
def reported (state : ReaderState) (span : Span) (issue : StatementIssue) : ReaderState :=
  { state with diagnostics := state.diagnostics.report (issue.diagnostic span) }

theorem report_eq (span : Span) (issue : StatementIssue) (state : ReaderState) :
    report span issue state = (.done (), reported state span issue) := rfl

/-- One error at the next lexeme explains a failure. -/
theorem hasFailed_reported (state : ReaderState) {issue : StatementIssue} (h : issue.severity = .error)
    (hblind : state.cursor.peek.tag = .unrecognized → issue.IsBlind) :
    state.HasFailed (reported state state.cursor.peek.span issue) := by
  refine ⟨⟨[], .refl _⟩, rfl, [issue.diagnostic state.cursor.peek.span], by simp [reported], .inr ?_⟩
  exact ⟨_, [], rfl, h, rfl, by simp, fun htag => ⟨issue, hblind htag, rfl⟩⟩

private theorem hasFailed_reported_note {issue note : StatementIssue} (h : issue.severity = .error)
    (hblind : state.cursor.peek.tag = .unrecognized → issue.IsBlind) (hnote : note.severity = .info)
    (hmem : lexeme ∈ state.cursor.lexemes.toList) :
    state.HasFailed (reported (reported state state.cursor.peek.span issue) lexeme.span note) := by
  refine ⟨⟨[], .refl _⟩, rfl,
    [issue.diagnostic state.cursor.peek.span, note.diagnostic lexeme.span], by simp [reported], .inr ?_⟩
  refine ⟨_, _, rfl, h, rfl, fun other hother => ?_, fun htag => ⟨issue, hblind htag, rfl⟩⟩
  rw [List.mem_singleton.1 hother]
  exact ⟨hnote, lexeme, hmem, rfl⟩

theorem hasFailed_of_unrecognized (h : state.cursor.peek.tag = .unrecognized) : state.HasFailed state :=
  ⟨⟨[], .refl _⟩, rfl, [], by simp, .inl ⟨h, rfl⟩⟩

private theorem tooDeep_eq (state : ReaderState) : (tooDeep : Reader α) state
    = (.failed, reported state state.cursor.peek.span .nestsTooDeeply) := rfl

theorem tooDeep_meets {Q : α → ReaderState → Prop} : (tooDeep : Reader α).Meets state Q state.HasFailed :=
  .of_failed (tooDeep_eq state) (hasFailed_reported _ rfl fun _ => trivial)

theorem reportMissing_meets {context : ReadingContext} (htext : state.cursor.lexemes.AreIn text)
    (hcontext : context.IsIn state.cursor.lexemes) {Q : Unit → ReaderState → Prop} :
    (reportMissing text context >>= fun _ => Stage.fail).Meets state Q state.HasFailed := by
  obtain ⟨what, hfound⟩ := exists_found htext state.cursor.peek_mem
  have hpeek : peek state = (.done state.cursor.peek, state) := rfl
  rw [reportMissing, Stage.meets_bind, Stage.meets_bind_of_done hpeek]
  by_cases hknown : state.cursor.peek.tag = .unrecognized
  · rw [if_pos hknown]
    exact hasFailed_of_unrecognized hknown
  · rw [if_neg hknown, Stage.meets_bind_of_done hfound]
    cases context with
    | start => exact hasFailed_reported _ rfl fun h => absurd h hknown
    | operator operator =>
      obtain ⟨part, hspell⟩ := exists_spell _ htext hcontext
      rw [Stage.meets_bind_of_done hspell]
      exact hasFailed_reported _ rfl fun h => absurd h hknown
    | opener opener =>
      have hreport := report_eq state.cursor.peek.span (.expectedExpression what) state
      obtain ⟨part, hspell⟩ := exists_spell (reported state state.cursor.peek.span (.expectedExpression what))
        htext hcontext
      rw [Stage.meets_bind_of_done hreport, Stage.meets_bind_of_done hspell]
      exact hasFailed_reported_note rfl (fun h => absurd h hknown) rfl hcontext

/-! ### Brackets -/

theorem expectCloser_of_tag {closer : Mark} (h : state.cursor.peek.tag = .mark closer) (opener : Lexeme) :
    expectCloser text closer opener state
      = (.done state.cursor.peek, { state with cursor := state.cursor.advance }) := by
  rw [expectCloser, Stage.bind_of_done (eat?_of_tag h)]
  rfl

theorem expectCloser_meets_of_ne {closer : Mark} {opener : Lexeme} (htext : state.cursor.lexemes.AreIn text)
    (hopener : opener ∈ state.cursor.lexemes.toList) (h : state.cursor.peek.tag ≠ .mark closer)
    {Q : Lexeme → ReaderState → Prop} : (expectCloser text closer opener).Meets state Q state.HasFailed := by
  obtain ⟨what, hfound⟩ := exists_found htext state.cursor.peek_mem
  have hpeek : peek state = (.done state.cursor.peek, state) := rfl
  have hreport := report_eq state.cursor.peek.span (.expectedCloser closer what) state
  obtain ⟨part, hspell⟩ := exists_spell (reported state state.cursor.peek.span (.expectedCloser closer what))
    htext hopener
  rw [expectCloser, Stage.meets_bind_of_done (eat?_of_ne h)]
  show (peek >>= _).Meets _ _ _
  rw [Stage.meets_bind_of_done hpeek, Stage.meets_bind_of_done hfound, Stage.meets_bind_of_done hreport,
    Stage.meets_bind_of_done hspell]
  exact hasFailed_reported_note rfl (fun _ => trivial) rfl hopener

/-! ### Nodes -/

private theorem takeDepths_append (taken rest : List Nat) (greatest : Nat) :
    takeDepths taken.length greatest (taken ++ rest) = some (taken.foldl max greatest, rest) := by
  induction taken generalizing greatest with
  | nil => rfl
  | cons depth taken ih => exact ih (max greatest depth)

private theorem foldl_max_reverse (depths : List Nat) : depths.reverse.foldl max 0 = depths.foldr max 0 := by
  rw [List.foldl_reverse]
  congr 1
  funext a b
  exact Nat.max_comm b a

/-- What is left after the depths of the operands have been taken off the stack. -/
private theorem takeDepths_of_hasBuilt {phrase : Phrase} {passed : List Lexeme}
    (h : before.HasBuilt passed phrase.operands state) :
    takeDepths phrase.operands.length 0 state.depths = some (phrase.depth - 1, before.depths) := by
  have hlength : phrase.operands.length = (phrase.operands.map Phrase.depth).reverse.length := by simp
  rw [h.depths, hlength, takeDepths_append, foldl_max_reverse, phrase.depth_eq, Nat.add_sub_cancel]

/-- The node of a phrase takes the place of its operands. -/
theorem pushNode_of_depth_le {phrase : Phrase} {passed : List Lexeme}
    (h : before.HasBuilt passed phrase.operands state) (hdepth : phrase.depth ≤ maxDepth) :
    ∃ after, pushNode phrase.operator phrase.operands.length phrase.span state = (.done (), after) ∧
      before.HasBuilt passed [phrase] after ∧ after.cursor = state.cursor := by
  have hdeep : phrase.depth - 1 + 1 = phrase.depth := by
    rw [phrase.depth_eq]
    rfl
  have hobserve : Stage.observe (·.depths) state = (.done state.depths, state) := rfl
  refine ⟨{ state with depths := phrase.depth :: before.depths, nodes := state.nodes.push phrase.root }, ?_, ?_, rfl⟩
  · rw [pushNode, Stage.bind_of_done hobserve, takeDepths_of_hasBuilt h]
    simp only [hdeep]
    rw [if_neg (Nat.not_lt.2 hdepth)]
    rfl
  · refine ⟨h.moved, h.diagnostics, ?_, rfl, h.nesting⟩
    rw [Array.toList_push, h.nodes, List.append_assoc]
    simp [phrase.nodes_eq]

theorem pushNode_meets_of_depth_gt {phrase : Phrase} {passed : List Lexeme}
    (h : before.HasBuilt passed phrase.operands state) (hdepth : maxDepth < phrase.depth)
    {Q : Unit → ReaderState → Prop} :
    (pushNode phrase.operator phrase.operands.length phrase.span).Meets state Q before.HasFailed := by
  have hdeep : phrase.depth - 1 + 1 = phrase.depth := by
    rw [phrase.depth_eq]
    rfl
  have hobserve : Stage.observe (·.depths) state = (.done state.depths, state) := rfl
  rw [pushNode, Stage.meets_bind_of_done hobserve, takeDepths_of_hasBuilt h]
  simp only [hdeep]
  rw [if_pos hdepth]
  obtain ⟨⟨passed', hmoved⟩, hnesting, reports, hreports, hexplains⟩ :=
    hasFailed_reported { state with depths := before.depths } (show StatementIssue.nestsTooDeeply.severity = _ from rfl)
      fun _ => trivial
  refine .of_failed rfl ⟨⟨_, h.moved⟩, h.nesting, reports, ?_, hexplains⟩
  rw [← h.diagnostics]
  exact hreports

/-- The span of the last phrase that has been built. -/
theorem lastSpan_of_hasBuilt (phrases : List Phrase) {phrase : Phrase} {passed : List Lexeme}
    (h : before.HasBuilt passed (phrases ++ [phrase]) state) : lastSpan state = (.done phrase.span, state) := by
  have hback : state.nodes.back? = some phrase.root := by
    rw [← Array.getLast?_toList, h.nodes]
    simp [phrase.nodes_eq]
  have hobserve : Stage.observe (·.nodes.back?) state = (.done (some phrase.root), state) := by
    rw [← hback]
    rfl
  rw [lastSpan, Stage.bind_of_done hobserve]
  rfl

end Reader

end ExprLang
