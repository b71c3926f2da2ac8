import ExprLang.Proofs.Comparison.Recovery
import ExprLang.Proofs.Comparison.Trees
import ExprLang.Proofs.Lexeme.Relexing

/-!
# Sources that differ in layout

Two sources whose lexemes have the same tags and characters are read as statements that are printed alike, with
reports of the same severities (`Source.exists_statements_respaced`).  Readers look at the tags of lexemes, and trees
are printed with the characters of single lexemes.
-/

namespace ExprLang

/-- How serious the diagnostics are, in the order of their reports. -/
def Diagnostics.severities (diagnostics : Diagnostics) : List Severity :=
  diagnostics.toList.map (·.severity)

@[simp] theorem Diagnostics.severities_report (diagnostics : Diagnostics) (diagnostic : Diagnostic) :
    (diagnostics.report diagnostic).severities = diagnostics.severities ++ [diagnostic.severity] := by
  rw [severities, toList_report, List.map_append]
  rfl

/-- Whether spans of two texts hold the same characters. -/
def SpelledAlike (text text' : List Char) (span span' : Span) : Prop :=
  ∃ part, sliceOf text span = .ok part ∧ sliceOf text' span' = .ok part

namespace Comparison

/-- The comparison of two texts that have the same lexemes with other spaces between them. -/
def respaced (text text' : List Char) : Comparison where
  lexemeSpans := SpelledAlike text text'
  spans _ _ := True
  reports first second := first.severities = second.severities
  beyond := none
  spans_of_lexemeSpans _ := trivial
  spans_join _ _ := trivial
  reports_report _ _ hreports hseverity := by
    rw [Diagnostics.severities_report, Diagnostics.severities_report, hreports]
    exact congrArg (_ ++ [·]) hseverity

variable {text text' : List Char} {expr expr' : Expression} {statement statement' : Statement}

/-! ### Printed statements -/

private theorem isPlain_eq {root root' : Node} (h : (respaced text text').RelatesNode root root') :
    Tree.isPlain root = Tree.isPlain root' := by
  rw [Tree.isPlain, Tree.isPlain, h.operator, h.arity]

/-- What is printed as it stands is a lexeme. -/
private theorem spelledAlike_of_isPlain {root root' : Node} (h : (respaced text text').RelatesNode root root')
    (hplain : Tree.isPlain root = true) : SpelledAlike text text' root.span root'.span := by
  simp only [Tree.isPlain, Bool.and_eq_true, Bool.or_eq_true, decide_eq_true_eq] at hplain
  rcases hplain.2 with hop | hop
  · exact h.leaf .decimal (by rw [hop]; rfl)
  · exact h.leaf .name (by rw [hop]; rfl)

mutual

/-- Corresponding trees are printed alike. -/
theorem render_respaced {tree tree' : Tree} (h : (respaced text text').RelatesTree tree tree') :
    ExtendedBy (tree.render text) (tree'.render text') := by
  cases h with
  | broken hroot =>
    rw [Tree.render]
    exact extendedBy_error
  | node hroot hoperands =>
    rw [Tree.render, Tree.render, ← isPlain_eq hroot, ← hroot.operator]
    split
    · rename_i hplain
      obtain ⟨part, hpart, hpart'⟩ := spelledAlike_of_isPlain hroot hplain
      rw [hpart, hpart']
      exact extendedBy_rfl
    · exact (renderAll_respaced hoperands).bind fun _ => extendedBy_rfl

private theorem renderAll_respaced {trees trees' : List Tree}
    (h : List.Forall₂ (respaced text text').RelatesTree trees trees') :
    ExtendedBy (Tree.renderAll text trees) (Tree.renderAll text' trees') := by
  cases h with
  | nil => exact extendedBy_rfl
  | cons htree htrees =>
    rw [Tree.renderAll, Tree.renderAll]
    refine (render_respaced htree).bind fun _ => ?_
    exact (renderAll_respaced htrees).bind fun _ => extendedBy_rfl

end

private theorem render_expression_respaced (h : (respaced text text').RelatesExpression expr expr') :
    ExtendedBy (expr.render text) (expr'.render text') := by
  have hempty : expr.isEmpty = expr'.isEmpty := by
    have hlength := h.nodes.length_eq
    rw [Array.length_toList, Array.length_toList] at hlength
    rw [Expression.isEmpty, Expression.isEmpty, Array.isEmpty, Array.isEmpty, hlength]
  rw [Expression.render, Expression.render, ← hempty]
  split
  · exact extendedBy_rfl
  · refine extendedBy_bind fun tree htree => ?_
    obtain ⟨tree', htree', hrelated⟩ := h.relatesTree htree
    exact ⟨tree', htree', render_respaced hrelated⟩

private theorem renderPart_respaced {expr expr' : Option Expression} (mark : String)
    (h : Option.Rel (respaced text text').RelatesExpression expr expr') :
    ExtendedBy (Statement.renderPart text mark expr) (Statement.renderPart text' mark expr') := by
  cases h with
  | none => exact extendedBy_rfl
  | some h => exact (render_expression_respaced h).bind fun _ => extendedBy_rfl

theorem extendedBy_sliceOf {span span' : Span} (h : SpelledAlike text text' span span') :
    ExtendedBy (sliceOf text span) (sliceOf text' span') := by
  obtain ⟨part, hpart, hpart'⟩ := h
  rw [hpart, hpart']
  exact extendedBy_rfl

/-- Corresponding statements are printed alike. -/
theorem render_statement_respaced (h : (respaced text text').RelatesStatement statement statement') :
    ExtendedBy (statement.render text) (statement'.render text') := by
  cases h with
  | letTyped hname htype hvalue _ =>
    refine (extendedBy_sliceOf hname).bind fun _ => ?_
    refine (render_expression_respaced htype).bind fun _ => ?_
    exact (render_expression_respaced hvalue).bind fun _ => extendedBy_rfl
  | letPlain hname hvalue _ =>
    refine (extendedBy_sliceOf hname).bind fun _ => ?_
    exact (render_expression_respaced hvalue).bind fun _ => extendedBy_rfl
  | var hname htype hvalue _ =>
    refine (extendedBy_sliceOf hname).bind fun _ => ?_
    refine (renderPart_respaced _ htype).bind fun _ => ?_
    exact (renderPart_respaced _ hvalue).bind fun _ => extendedBy_rfl
  | discarded hvalue => exact (render_expression_respaced hvalue).bind fun _ => extendedBy_rfl

/-! ### Lexemes -/

/-- Lexemes with the same tags and characters correspond. -/
private theorem forall₂_relatesLexeme {lexemes lexemes' : List (Lexeme × List Char)}
    (h : lexemes.map (fun (lexeme, part) => (lexeme.tag, part))
      = lexemes'.map fun (lexeme, part) => (lexeme.tag, part))
    (hspelled : ∀ lexeme part, (lexeme, part) ∈ lexemes → sliceOf text lexeme.span = .ok part)
    (hspelled' : ∀ lexeme part, (lexeme, part) ∈ lexemes' → sliceOf text' lexeme.span = .ok part) :
    List.Forall₂ (respaced text text').RelatesLexeme (lexemes.map (·.1)) (lexemes'.map (·.1)) := by
  induction lexemes generalizing lexemes' with
  | nil =>
    obtain rfl := List.map_eq_nil_iff.1 h.symm
    exact .nil
  | cons first lexemes ih =>
    obtain ⟨lexeme, part⟩ := first
    obtain ⟨⟨lexeme', part'⟩, lexemes', rfl, hfirst, hrest⟩ := List.map_eq_cons_iff.1 h.symm
    obtain ⟨htag, rfl⟩ := Prod.mk.inj hfirst
    refine .cons ⟨htag.symm, part', hspelled _ _ List.mem_cons_self, hspelled' _ _ List.mem_cons_self⟩ ?_
    refine ih hrest.symm (fun _ _ hmem => hspelled _ _ (List.mem_cons_of_mem _ hmem)) fun _ _ hmem => ?_
    exact hspelled' _ _ (List.mem_cons_of_mem _ hmem)

end Comparison

namespace Source

variable (name name' : String) {content content' : List Char}

/-- All lexemes of sources with the same tags and characters correspond. -/
private theorem relatesAhead_respaced
    (h : (ofContent name content).tagsAndTexts = (ofContent name' content').tagsAndTexts) :
    (Comparison.respaced (ofContent name content).text (ofContent name' content').text).RelatesAhead
      (ofContent name content).lexemes.toList (ofContent name' content').lexemes.toList := by
  have hclosing : ∀ (name : String) (content : List Char),
      sliceOf (ofContent name content).text (closingLexeme (ofContent name content).text).span = .ok [] := by
    intro name content
    exact sliceOf_of_mem_spelledLexemes name content (List.mem_append_right _ List.mem_cons_self)
  have htag : ∀ lexeme ∈ (ofContent name content).lexemes.toList.dropLast, lexeme.tag ≠ .endOfFile :=
    fun _ => tag_ne_endOfFile_of_mem _
  rw [tagsAndTexts_eq, tagsAndTexts_eq] at h
  rw [dropLast_lexemes] at htag
  rw [toList_lexemes, toList_lexemes]
  refine .of_forall₂ rfl ?_ htag ⟨rfl, [], hclosing name content, hclosing name' content'⟩ rfl
  refine Comparison.forall₂_relatesLexeme (List.append_cancel_right (Except.ok.inj h)) ?_ ?_
  · intro lexeme part hmem
    exact sliceOf_of_mem_spelledLexemes name content (List.mem_append_left _ hmem)
  · intro lexeme part hmem
    exact sliceOf_of_mem_spelledLexemes name' content' (List.mem_append_left _ hmem)

theorem severities_lexicalDiagnostics_respaced
    (h : (ofContent name content).tagsAndTexts = (ofContent name' content').tagsAndTexts) :
    (ofContent name content).lexicalDiagnostics.severities
      = (ofContent name' content').lexicalDiagnostics.severities := by
  have hseverity : ∀ (span : Span) (part : List Char),
      Diagnostic.severity ⟨.error, span, unrecognizedMessage part⟩ = .error := fun _ _ => rfl
  have htagged := tagsAndTexts_eq name' content'
  rw [Diagnostics.severities, Diagnostics.severities, map_lexicalDiagnostics _ _ hseverity htagged,
    map_lexicalDiagnostics _ _ hseverity (h.trans htagged)]

/-- Sources with the same lexemes are read as corresponding statements. -/
theorem exists_statements_respaced
    (h : (ofContent name content).tagsAndTexts = (ofContent name' content').tagsAndTexts) :
    ∃ statements statements' reports reports',
      (ofContent name content).statements = (.done statements, reports) ∧
      (ofContent name' content').statements = (.done statements', reports') ∧
      List.Forall₂ (Comparison.respaced (ofContent name content).text (ofContent name' content').text).RelatesStatement
        statements statements' ∧
      reports.severities = reports'.severities := by
  obtain ⟨state, after, limit, result, hahead, hready, hreports, hread, hstatements⟩ :=
    exists_statements_eq name content
  obtain ⟨other, last, limit', result', hahead', hready', hreports', hread', hstatements'⟩ :=
    exists_statements_eq name' content'
  let C := Comparison.respaced (ofContent name content).text (ofContent name' content').text
  have hproceeds : C.Proceeds (ofContent name content).text (ofContent name' content').text limit limit' state
      other := by
    refine .of_isReady hready hready' ?_ ?_
    · rw [hahead, hahead']
      exact relatesAhead_respaced name name' h
    · rw [hreports, hreports']
      exact severities_lexicalDiagnostics_respaced name name' h
  have hmatches : (Reader.readStatements (ofContent name content).text limit none #[]).Matches state
      (Reader.readStatements (ofContent name' content').text limit' none #[]) other
      (fun result after result' last => List.Forall₂ C.RelatesStatement result.toList result'.toList ∧
        after.diagnostics.severities = last.diagnostics.severities)
      fun _ _ => False := by
    refine Comparison.readStatements_matches
      (S := fun result result' => List.Forall₂ C.RelatesStatement result.toList result'.toList) ?_ ?_ ?_ hproceeds
      (.inl rfl) .nil
    · intro result result' statement statement' hresult hstatement
      rw [Array.toList_push, Array.toList_push]
      exact List.rel_append hresult (.cons hstatement .nil)
    · intro _ _ _ _ _ hresult hseverities
      exact ⟨hresult, hseverities⟩
    · intro _ _ _ _ _ _ _ _ hbeyond
      cases hbeyond
  rcases hmatches.of_left_done hread with ⟨_, _, hdone, hrelated, hseverities⟩ | ⟨_, _, hfault⟩
  · obtain ⟨hresult, rfl⟩ := Prod.mk.inj (hread'.symm.trans hdone)
    obtain rfl := Outcome.done.inj hresult
    exact ⟨_, _, _, _, hstatements, hstatements', hrelated, hseverities⟩
  · rw [hread'] at hfault
    cases (Prod.mk.inj hfault).1

end Source

end ExprLang
