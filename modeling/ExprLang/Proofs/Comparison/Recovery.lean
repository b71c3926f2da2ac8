import ExprLang.Proofs.Lexeme.Lines
import ExprLang.Proofs.Comparison.Statements
import ExprLang.Proofs.Reading.Grammar

/-!
# Recovery

A semicolon ends every statement, whether it is read or given up, and what follows is read as if nothing had come
before.  So the statements of two texts with a newline between them are those of the first and then those of the
second, which stand further to the right, if the first ends with a semicolon (`Source.statements_append_newline`).
-/

namespace ExprLang

/-! ### Shifted statements -/

/-- The node that stands `n` bytes further to the right. -/
def Node.shift (n : Nat) (node : Node) : Node where
  operator := node.operator
  arity := node.arity
  span := node.span.shift n

/-- The expression that stands `n` bytes further to the right. -/
def Expression.shift (n : Nat) (expr : Expression) : Expression where
  nodes := expr.nodes.map (Node.shift n)

/-- The statement that stands `n` bytes further to the right. -/
def Statement.shift (n : Nat) : Statement → Statement
  | letTyped name type value span => letTyped (name.shift n) (type.shift n) (value.shift n) (span.shift n)
  | letPlain name value span => letPlain (name.shift n) (value.shift n) (span.shift n)
  | var name type value span isDefined =>
    var (name.shift n) (type.map (Expression.shift n)) (value.map (Expression.shift n)) (span.shift n)
      (by rwa [Option.isSome_map, Option.isSome_map])
  | discarded value => discarded (value.shift n)

@[simp] theorem Node.shift_zero : Node.shift 0 = id := rfl

@[simp] theorem Expression.shift_zero : Expression.shift 0 = id := by
  funext expr
  simp [shift]

@[simp] theorem Statement.shift_zero : Statement.shift 0 = id := by
  funext statement
  cases statement <;> simp [shift]

namespace Comparison

/-- The comparison of what stands at some place with what stands `n` bytes further to the right. -/
def shifted (n : Nat) (beyond : Option (List Lexeme × List Lexeme)) : Comparison where
  lexemeSpans span span' := span' = span.shift n
  spans span span' := span' = span.shift n
  reports _ _ := True
  beyond := beyond
  spans_of_lexemeSpans h := h
  spans_join := by
    rintro a _ c _ rfl rfl
    exact Span.shift_join.symm
  reports_report _ _ _ _ := trivial

variable {n : Nat} {beyond : Option (List Lexeme × List Lexeme)} {l : List Lexeme}

private theorem RelatesNode.eq_shift {node node' : Node} (h : (shifted n beyond).RelatesNode node node') :
    node' = node.shift n := by
  obtain ⟨operator, arity, span⟩ := node
  obtain ⟨rfl, rfl, hspan, -⟩ := h
  rw [Node.shift, ← hspan]

private theorem RelatesExpression.eq_shift {expr expr' : Expression}
    (h : (shifted n beyond).RelatesExpression expr expr') :
    expr' = expr.shift n := by
  have hnodes : expr.nodes.toList.map (Node.shift n) = expr'.nodes.toList := by
    rw [← List.forall₂_eq_eq_eq, List.forall₂_map_left_iff]
    exact h.nodes.imp fun _ _ hnode => hnode.eq_shift.symm
  rw [← Array.toList_map, Array.toList_inj] at hnodes
  rw [Expression.shift, hnodes]

private theorem eq_map_shift_of_rel {expr expr' : Option Expression}
    (h : Option.Rel (shifted n beyond).RelatesExpression expr expr') : expr' = expr.map (Expression.shift n) := by
  cases h with
  | some h => rw [Option.map_some, h.eq_shift]
  | none => rfl

private theorem RelatesStatement.eq_shift {statement statement' : Statement}
    (h : (shifted n beyond).RelatesStatement statement statement') : statement' = statement.shift n := by
  cases h with
  | letTyped hname htype hvalue hspan =>
    rw [Statement.shift, ← htype.eq_shift, ← hvalue.eq_shift, ← hname, ← hspan]
  | letPlain hname hvalue hspan => rw [Statement.shift, ← hvalue.eq_shift, ← hname, ← hspan]
  | var hname htype hvalue hspan =>
    obtain rfl := eq_map_shift_of_rel htype
    obtain rfl := eq_map_shift_of_rel hvalue
    obtain rfl : _ = _ := hname
    obtain rfl : _ = _ := hspan
    rfl
  | discarded hvalue => rw [Statement.shift, ← hvalue.eq_shift]

/-- All lexemes up to the end of the file correspond to the same ones further to the right. -/
private theorem relatesAhead_map_shift (hl : ∀ lexeme ∈ l, lexeme.tag ≠ .endOfFile) {last : Lexeme}
    (hlast : last.tag = .endOfFile) :
    (shifted n none).RelatesAhead (l ++ [last]) ((l ++ [last]).map (Lexeme.shift n)) := by
  rw [List.map_append]
  refine .of_forall₂ rfl ?_ hl ⟨rfl, rfl⟩ hlast
  exact List.forall₂_map_right_iff.2 (List.forall₂_same.2 fun _ _ => ⟨rfl, rfl⟩)

/-- Lexemes correspond to themselves up to a semicolon, whatever lies beyond it. -/
private theorem relatesAhead_beyond (hl : ∀ lexeme ∈ l, lexeme.tag ≠ .endOfFile) {semi : Lexeme}
    (hsemi : semi.tag = .mark .semi) (first second : List Lexeme) :
    (shifted 0 (some (first, second))).RelatesAhead (l ++ semi :: first) (l ++ semi :: second) := by
  induction l with
  | nil => exact .semicolon rfl ⟨rfl, rfl⟩ hsemi
  | cons lexeme l ih =>
    exact .cons ⟨rfl, rfl⟩ (hl lexeme List.mem_cons_self) (ih fun _ hmem => hl _ (List.mem_cons_of_mem _ hmem))

/-! ### Readings of two texts -/

variable {text text' : List Char} {state other : ReaderState} {limit limit' : Nat}

/-- Whether readers that are ready at some lexemes of a text read certain statements, whatever has come before, unless
they run into a fault. -/
def ReadsOn (text : List Char) (ahead : List Lexeme) (more : List Statement) : Prop :=
  ∀ (limit : Nat) (run : Option Span) (statements : Array Statement) (state : ReaderState), state.IsReady text limit →
    state.cursor.ahead = ahead →
      (∃ result after, Reader.readStatements text limit run statements state = (.done result, after) ∧
        result.toList = statements.toList ++ more) ∨
      ∃ cause after, Reader.readStatements text limit run statements state = (.fault cause, after)

/-- At the end of the file, nothing more is read. -/
private theorem readsOn_endOfFile (text : List Char) {last : Lexeme} (hlast : last.tag = .endOfFile) :
    ReadsOn text [last] [] := by
  intro limit run statements state hready hahead
  rw [Cursor.ahead_eq_peek_cons] at hahead
  have hend : state.cursor.peek.tag = .endOfFile := by
    rw [(List.cons.inj hahead).1]
    exact hlast
  have hpos := state.cursor.remaining_pos
  have hremaining := hready.remaining_le
  obtain ⟨limit, rfl⟩ : ∃ fewer, limit = fewer + 1 := ⟨limit - 1, by omega⟩
  have hpeek : Reader.peek state = (.done state.cursor.peek, state) := rfl
  rw [Reader.readStatements, Stage.bind_of_done hpeek, if_pos hend]
  cases run with
  | none => exact .inl ⟨statements, state, rfl, (List.append_nil _).symm⟩
  | some span =>
    rw [Reader.reportRun]
    cases sliceOf text span with
    | ok part => exact .inl ⟨statements, _, rfl, (List.append_nil _).symm⟩
    | error cause => exact .inr ⟨cause, state, rfl⟩

/-- The lexemes of a file are read as the same statements at another place, whatever has come before them there. -/
private theorem readsOn_map_shift (hready : state.IsReady text limit) {run : Option Span} {further : Array Statement}
    {after : ReaderState} (hread : Reader.readStatements text limit run #[] state = (.done further, after))
    {last : Lexeme} (hahead : state.cursor.ahead = l ++ [last]) (hl : ∀ lexeme ∈ l, lexeme.tag ≠ .endOfFile)
    (hlast : last.tag = .endOfFile) (n : Nat) (text' : List Char) :
    ReadsOn text' ((l ++ [last]).map (Lexeme.shift n)) (further.toList.map (Statement.shift n)) := by
  intro limit' run' statements other hready' hahead'
  have hproceeds : (shifted n none).Proceeds text text' limit limit' state other := by
    refine .of_isReady hready hready' ?_ trivial
    rw [hahead, hahead']
    exact relatesAhead_map_shift hl hlast
  -- The statements that are read correspond, and those that were there before stay in front of them.
  have hmatches : (Reader.readStatements text limit run #[]).Matches state
      (Reader.readStatements text' limit' run' statements) other
      (fun result _ result' _ => result'.toList = statements.toList ++ result.toList.map (Statement.shift n))
      fun _ _ => False := by
    refine readStatements_matches (S := fun result result' =>
      result'.toList = statements.toList ++ result.toList.map (Statement.shift n)) ?_ ?_ ?_ hproceeds
      (.inr fun _ _ => trivial) (by simp)
    · intro result result' statement statement' hresult hstatement
      rw [Array.toList_push, Array.toList_push, hresult, hstatement.eq_shift, List.map_append, List.append_assoc]
      rfl
    · intro _ _ _ _ _ hresult _
      exact hresult
    · intro _ _ _ _ _ _ _ _ hbeyond
      cases hbeyond
  rcases hmatches.of_left_done hread with ⟨result, final, hdone, hresult⟩ | hfault
  · exact .inl ⟨result, final, hdone, hresult⟩
  · exact .inr hfault

/-- What lies beyond a semicolon is read after the statements before it, which do not depend on it. -/
private theorem readStatements_semicolon (hready : state.IsReady text limit) (hready' : other.IsReady text' limit')
    (hl : ∀ lexeme ∈ l, lexeme.tag ≠ .endOfFile) {semi : Lexeme} (hsemi : semi.tag = .mark .semi)
    {first second : List Lexeme} (hahead : state.cursor.ahead = l ++ semi :: first)
    (hahead' : other.cursor.ahead = l ++ semi :: second) {more more' : List Statement}
    (hfirst : ReadsOn text first more) (hsecond : ReadsOn text' second more') :
    (Reader.readStatements text limit none #[]).Matches state (Reader.readStatements text' limit' none #[]) other
      (fun result _ result' _ => ∃ common, result.toList = common ++ more ∧ result'.toList = common ++ more')
      fun _ _ => False := by
  have hproceeds : (shifted 0 (some (first, second))).Proceeds text text' limit limit' state other := by
    refine .of_isReady hready hready' ?_ trivial
    rw [hahead, hahead']
    exact relatesAhead_beyond hl hsemi first second
  refine readStatements_matches (S := fun result result' => result = result') ?_ ?_ ?_ hproceeds (.inl rfl) rfl
  · rintro result _ statement statement' rfl hstatement
    rw [hstatement.eq_shift, Statement.shift_zero, id_eq]
  · intro _ _ _ _ hbeyond
    cases hbeyond
  · rintro limit limit' state other run run' common _ hbeyond h - rfl
    obtain ⟨hahead, hahead'⟩ := Prod.mk.inj (Option.some.inj hbeyond)
    rcases hfirst limit run common state h.left hahead.symm with ⟨result, after, hdone, hresult⟩ | ⟨_, _, hfault⟩
    · rcases hsecond limit' run' common other h.right hahead'.symm with
        ⟨result', last, hdone', hresult'⟩ | ⟨_, _, hfault⟩
      · exact .of_done hdone hdone' ⟨common.toList, hresult, hresult'⟩
      · rw [Stage.Matches, hfault]
        exact .faultRight
    · rw [Stage.Matches, hfault]
      exact .faultLeft

end Comparison

/-! ### Sources -/

namespace Source

/-- A source is read by a reader that is ready at its first lexeme, with the reports about lexemes before its own. -/
theorem exists_statements_eq (name : String) (content : List Char) :
    ∃ (state after : ReaderState) (limit : Nat) (result : Array Statement),
      state.cursor.ahead = (ofContent name content).lexemes.toList ∧
      state.IsReady (ofContent name content).text limit ∧
      state.diagnostics = (ofContent name content).lexicalDiagnostics ∧
      Reader.readStatements (ofContent name content).text limit none #[] state = (.done result, after) ∧
      (ofContent name content).statements = (.done result.toList, after.diagnostics) := by
  obtain ⟨cursor, hcursor, hlexemes, hahead⟩ := (ofContent name content).exists_cursor
  have htext := areIn_lexemes name content
  rw [← hlexemes] at htext
  let state := ReaderState.start cursor (ofContent name content).lexicalDiagnostics
  have hready : state.IsReady (ofContent name content).text cursor.remaining :=
    ⟨htext, Nat.le_refl _, rfl, rfl, rfl⟩
  have hnone : ∀ span ∈ (none : Option Span), ∃ part, sliceOf (ofContent name content).text span = .ok part := by simp
  obtain ⟨result, after, hread, -⟩ :=
    (Reader.readStatements_meets hready.text hnone hready.remaining_le #[]).exists_done
  exact ⟨state, after, cursor.remaining, result, hahead, hready, rfl, hread,
    statements_of_readStatements_eq hcursor hread⟩

/-- The statements of a source are those that a reader reads that is ready at its first lexeme. -/
private theorem exists_readStatements (name : String) (content : List Char) :
    ∃ (state after : ReaderState) (limit : Nat) (result : Array Statement),
      state.cursor.ahead = (ofContent name content).lexemes.toList ∧
      state.IsReady (ofContent name content).text limit ∧
      Reader.readStatements (ofContent name content).text limit none #[] state = (.done result, after) ∧
      (ofContent name content).statements.1 = .done result.toList := by
  obtain ⟨state, after, limit, result, hahead, hready, -, hread, hstatements⟩ := exists_statements_eq name content
  exact ⟨state, after, limit, result, hahead, hready, hread, by rw [hstatements]⟩

private theorem lexemes_eq_dropLast_append (source : Source) :
    source.lexemes.toList = source.lexemes.toList.dropLast ++ [closingLexeme source.text] := by
  rw [dropLast_lexemes, toList_lexemes]

/-- The statements of a text that ends with a semicolon, a newline and another text are those of the first text and then
those of the second at their places, whatever errors there are in either. -/
theorem statements_append_newline (name : String) (a b : List Char)
    (hsemi : (ofContent name a).lexemes.toList.dropLast.getLast?.map Lexeme.tag = some (.mark .semi)) :
    ∃ statements further : List Statement,
      (ofContent name a).statements.1 = .done statements ∧ (ofContent name b).statements.1 = .done further ∧
      (ofContent name (a ++ '\n' :: b)).statements.1
        = .done (statements ++ further.map (Statement.shift (byteLength a + 1))) := by
  obtain ⟨first, _, _, statements, hfirst, hfirstReady, hstatements, hfirstDone⟩ := exists_readStatements name a
  obtain ⟨second, _, _, further, hsecond, hsecondReady, hfurther, hsecondDone⟩ := exists_readStatements name b
  obtain ⟨both, _, _, result, hboth, hbothReady, hresult, hbothDone⟩ := exists_readStatements name (a ++ '\n' :: b)
  refine ⟨statements.toList, further.toList, hfirstDone, hsecondDone, ?_⟩
  obtain ⟨semi, hlast, htag⟩ := Option.map_eq_some_iff.1 hsemi
  obtain ⟨l, hl⟩ := List.getLast?_eq_some_iff.1 hlast
  have hproper : ∀ lexeme ∈ l, lexeme.tag ≠ .endOfFile := by
    intro lexeme hmem
    refine (ofContent name a).tag_ne_endOfFile_of_mem ?_
    rw [hl]
    exact List.mem_append_left _ hmem
  rw [lexemes_eq_dropLast_append, hl, List.append_assoc] at hfirst
  rw [lexemes_append_newline, hl, lexemes_eq_dropLast_append (ofContent name b), List.append_assoc] at hboth
  rw [lexemes_eq_dropLast_append] at hsecond
  have hbeyond := Comparison.readsOn_map_shift hsecondReady hfurther hsecond
    (fun _ => (ofContent name b).tag_ne_endOfFile_of_mem) rfl (byteLength a + 1)
    (ofContent name (a ++ '\n' :: b)).text
  have hmatches := Comparison.readStatements_semicolon hfirstReady hbothReady hproper htag hfirst hboth
    (Comparison.readsOn_endOfFile _ rfl) hbeyond
  rcases hmatches.of_left_done hstatements with ⟨_, _, hdone, common, hcommon, hall⟩ | ⟨_, _, hfault⟩
  · obtain rfl := (Outcome.done.inj (Prod.mk.inj (hresult.symm.trans hdone)).1)
    rw [List.append_nil] at hcommon
    rw [hbothDone, hall, hcommon]
  · rw [hresult] at hfault
    cases (Prod.mk.inj hfault).1

/-- The statement `ok`. -/
private def lone : Statement :=
  .discarded ⟨#[⟨.name, 0, { start := 0, stop := 2 }⟩]⟩

/-- A bracket that is not closed does not reach over the end of its statement. -/
theorem statements_append_newline_unclosed :
    (ofContent "" ['(', 'x', ';']).lexemes.toList.dropLast.getLast?.map Lexeme.tag = some (.mark .semi) ∧
      (ofContent "" ['(', 'x', ';', '\n', 'o', 'k']).statements.1 = .done [lone.shift 4] := by
  have hsemi : (ofContent "" ['(', 'x', ';']).lexemes.toList.dropLast.getLast?.map Lexeme.tag
      = some (.mark .semi) := by cbv
  have hnone : (ofContent "" ['(', 'x', ';']).statements.1 = .done [] := by decide +kernel
  have hlone : (ofContent "" ['o', 'k']).statements.1 = .done [lone] := by decide +kernel
  obtain ⟨statements, further, hfirst, hsecond, hboth⟩ :=
    statements_append_newline "" ['(', 'x', ';'] ['o', 'k'] hsemi
  obtain rfl := Outcome.done.inj (hnone.symm.trans hfirst)
  obtain rfl := Outcome.done.inj (hlone.symm.trans hsecond)
  exact ⟨hsemi, hboth⟩

end Source

end ExprLang
