import ExprLang.Proofs.Typing.Outcomes

/-!
# Verdicts

No statement is dropped without an error, and none is kept in spite of one: from every state that a checker of a source
can reach, a statement has an item if and only if no error is reported about it (`Source.checkStatement_done_iff`).
-/

namespace ExprLang

namespace Source

/-- Whether a statement is read from the lexemes of a source, together with all others or on its own. -/
inductive Reads (source : Source) : Statement → Prop
  | all {statements reports statement} (hread : source.statements = (.done statements, reports))
      (hmem : statement ∈ statements) : source.Reads statement
  | one {before after statement} (hlexemes : before.cursor.lexemes = source.lexemes)
      (hread : Reader.readStatement source.text before = (.done statement, after)) : source.Reads statement

/-- Whether a checker comes to a state by checking statements of a source, whatever has been reported before. -/
inductive Reaches (source : Source) : CheckerState → Prop
  | start (reports) : source.Reaches (.start reports)
  | step {before statement outcome after} (hbefore : source.Reaches before) (hread : source.Reads statement)
      (hrun : Checker.checkStatement source.text statement before = (outcome, after)) : source.Reaches after

variable {name : String} {content : List Char}

theorem Reads.isCheckable {statement : Statement} (h : (ofContent name content).Reads statement) :
    Checker.IsCheckable (ofContent name content).text statement := by
  cases h with
  | all hread hmem => exact isCheckable_of_mem hread hmem
  | @one before _ _ hlexemes hread =>
    have htext := areIn_lexemes name content
    rw [← hlexemes] at htext
    have hmeets := Reader.readStatement_meets htext
    rw [Stage.meets_of_done hread] at hmeets
    obtain ⟨clause, skipped, semicolon, rfl, hdone⟩ := hmeets
    refine ⟨clause, _, rfl, hdone.valid, fun lexeme hmem => ?_⟩
    refine isLegible_of_mem name content ?_
    rw [← hlexemes]
    exact hdone.moved.mem (List.mem_append_left _ (List.mem_append_left _ hmem))

/-- The states that are reached are sound. -/
theorem Reaches.isSound {state : CheckerState} (h : (ofContent name content).Reaches state) :
    state.IsSound (ofContent name content).text := by
  induction h with
  | start reports => exact CheckerState.isSound_start _ reports
  | step _ hread hrun ih =>
    obtain ⟨outcome, after, hchecked, -, hafter⟩ := hread.isCheckable.exists_checked ih
    rw [hrun] at hchecked
    rw [(Prod.mk.inj hchecked).2]
    exact hafter.toIsSound

/-- A statement has an item if and only if no error is reported about it.  So there are as many items as statements if
and only if no error is reported about any of them. -/
theorem checkStatement_done_iff (name : String) (content : List Char) :
    (∀ state statement, (ofContent name content).Reaches state → (ofContent name content).Reads statement →
      ∃ outcome after more, Checker.checkStatement (ofContent name content).text statement state = (outcome, after) ∧
        (∀ cause, outcome ≠ .fault cause) ∧ after.diagnostics.toList = state.diagnostics.toList ++ more ∧
        ((∃ item, outcome = .done item) ↔ ∀ report ∈ more, report.severity ≠ .error)) ∧
    ∃ statements reports program after more,
      (ofContent name content).statements = (.done statements, reports) ∧
      (ofContent name content).program statements reports = (.done program, after) ∧
      after.toList = reports.toList ++ more ∧ program.items.length ≤ statements.length ∧
      (program.items.length = statements.length ↔ ∀ report ∈ more, report.severity ≠ .error) := by
  have hclean : ∀ more : List Diagnostic, more.any (fun report => report.severity = .error) = false ↔
      ∀ report ∈ more, report.severity ≠ .error := by
    intro more
    simp [List.any_eq_false]
  refine ⟨fun state statement hreaches hreads => ?_, ?_⟩
  · obtain ⟨outcome, after, hrun, hchecked, -⟩ := hreads.isCheckable.exists_checked hreaches.isSound
    obtain ⟨erred, ⟨more, hmore, rfl⟩, hiff⟩ := hchecked.exists_gain
    refine ⟨outcome, after, more, hrun, ?_, hmore, hiff.trans (hclean more)⟩
    rintro cause rfl
    cases hchecked
  · obtain ⟨statements, reports, items, last, hstatements, hruns⟩ := exists_runs name content
    obtain ⟨erred, ⟨more, hmore, rfl⟩, hle, hsize⟩ := hruns.exists_gain
    rw [Array.size_empty, Nat.zero_add, ← Array.length_toList] at hle hsize
    exact ⟨statements, reports, _, last.diagnostics, more, hstatements, program_of_runs hruns, hmore, hle,
      hsize.trans (hclean more)⟩

/-- The statement `x;`, whose name is not defined, is checked from the start. -/
theorem checkStatement_done_iff_undefined :
    ∃ statement, (ofContent "" ['x', ';']).Reaches (.start .none) ∧ (ofContent "" ['x', ';']).Reads statement ∧
      ∃ outcome after more, Checker.checkStatement (ofContent "" ['x', ';']).text statement (.start .none)
          = (outcome, after) ∧
        (∀ cause, outcome ≠ .fault cause) ∧ after.diagnostics.toList = [] ++ more ∧
        ((∃ item, outcome = .done item) ↔ ∀ report ∈ more, report.severity ≠ .error) := by
  let sentence : Sentence :=
    ⟨.discarded (.leaf .name ⟨.name, { start := 0, stop := 1 }⟩), ⟨.mark .semi, { start := 1, stop := 2 }⟩⟩
  have hwritten : (ofContent "" ['x', ';']).IsWrittenAs [sentence] :=
    ⟨List.forall_mem_singleton.2 ⟨.discarded ⟨.leaf rfl, by decide, by decide⟩, rfl⟩, by cbv⟩
  have hread : (ofContent "" ['x', ';']).Reads sentence.toStatement :=
    .all (statements_of_isWrittenAs hwritten) (List.mem_singleton_self _)
  exact ⟨_, .start .none, hread, (checkStatement_done_iff "" ['x', ';']).1 _ _ (.start .none) hread⟩

end Source

end ExprLang
