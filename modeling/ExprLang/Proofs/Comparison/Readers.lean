import Mathlib.Data.List.Forall2
import ExprLang.Proofs.Operator.Leading
import ExprLang.Proofs.Reading.Steps
import ExprLang.Proofs.Comparison.Stages

/-!
# Readers side by side

Two readers are compared whose next lexemes correspond, up to a semicolon or the end of the file; what lies beyond a
semicolon may be anything (`Comparison.RelatesAhead`).  As long as they do not move over it they keep step: what they do
without reading operands they do alike.
-/

namespace ExprLang

/-- How two readers are related. -/
structure Comparison where
  /-- How the spans of corresponding lexemes are related. -/
  lexemeSpans : Span → Span → Prop
  /-- How all other corresponding spans are related. -/
  spans : Span → Span → Prop
  reports : Diagnostics → Diagnostics → Prop
  /-- What lies beyond the corresponding lexemes, if they do not end with the file. -/
  beyond : Option (List Lexeme × List Lexeme)
  spans_of_lexemeSpans : ∀ {a b}, lexemeSpans a b → spans a b
  spans_join : ∀ {a b c d}, spans a b → spans c d → spans (a.join c) (b.join d)
  reports_report : ∀ {first second} {issue issue' : StatementIssue} (span span'), reports first second →
    issue.severity = issue'.severity →
    reports (first.report (issue.diagnostic span)) (second.report (issue'.diagnostic span'))

namespace Comparison

variable (C : Comparison)

/-- Whether two lexemes correspond. -/
structure RelatesLexeme (a b : Lexeme) : Prop where
  tag : a.tag = b.tag
  span : C.lexemeSpans a.span b.span

/-- Whether two nodes correspond.  The span of a leaf is that of its lexeme. -/
structure RelatesNode (a b : Node) : Prop where
  operator : a.operator = b.operator
  arity : a.arity = b.arity
  span : C.spans a.span b.span
  leaf : ∀ tag, a.operator.shape = .leaf tag → C.lexemeSpans a.span b.span

/-- Whether the lexemes ahead of two readers correspond up to a semicolon or the end of the file. -/
inductive RelatesAhead : List Lexeme → List Lexeme → Prop
  | endOfFile {a b} (hbeyond : C.beyond = none) (h : C.RelatesLexeme a b) (htag : a.tag = .endOfFile) :
      RelatesAhead [a] [b]
  | semicolon {a b l m} (hbeyond : C.beyond = some (l, m)) (h : C.RelatesLexeme a b) (htag : a.tag = .mark .semi) :
      RelatesAhead (a :: l) (b :: m)
  | cons {a b l m} (h : C.RelatesLexeme a b) (htag : a.tag ≠ .endOfFile) (hrest : RelatesAhead l m) :
      RelatesAhead (a :: l) (b :: m)

/-- Whether the states of two readers are related whose lexemes ahead are. -/
structure Relates (ahead : List Lexeme → List Lexeme → Prop) (state other : ReaderState) : Prop where
  ahead : ahead state.cursor.ahead other.cursor.ahead
  nodes : List.Forall₂ C.RelatesNode state.nodes.toList other.nodes.toList
  depths : state.depths = other.depths
  nesting : state.nesting = other.nesting
  reports : C.reports state.diagnostics other.diagnostics

/-- Whether two readers are in step. -/
abbrev InStep : ReaderState → ReaderState → Prop :=
  C.Relates C.RelatesAhead

/-- Whether two readers are related and have at most `n` and `m` lexemes left. -/
structure RelatesWithin (ahead : List Lexeme → List Lexeme → Prop) (n m : Nat) (state other : ReaderState) : Prop
    extends C.Relates ahead state other where
  left : state.cursor.remaining ≤ n
  right : other.cursor.remaining ≤ m

/-- Whether two readers are in step and have at most `n` and `m` lexemes left. -/
abbrev Within : Nat → Nat → ReaderState → ReaderState → Prop :=
  C.RelatesWithin C.RelatesAhead

variable {C : Comparison} {n m : Nat} {state other : ReaderState} {α β : Type}
  {Q : α → ReaderState → β → ReaderState → Prop} {F : ReaderState → ReaderState → Prop} {text text' : List Char}

theorem RelatesLexeme.spans {a b : Lexeme} (h : C.RelatesLexeme a b) : C.spans a.span b.span :=
  C.spans_of_lexemeSpans h.span

/-! ### States in step -/

namespace RelatesAhead

variable {a b : Lexeme} {l k : List Lexeme}

private theorem head (h : C.RelatesAhead (a :: l) (b :: k)) : C.RelatesLexeme a b := by
  cases h with
  | endOfFile _ h _ => exact h
  | semicolon _ h _ => exact h
  | cons h _ _ => exact h

private theorem tail (h : C.RelatesAhead (a :: l) (b :: k)) (hend : a.tag ≠ .endOfFile) (hsemi : a.tag ≠ .mark .semi) :
    C.RelatesAhead l k := by
  cases h with
  | endOfFile _ _ htag => exact absurd htag hend
  | semicolon _ _ htag => exact absurd htag hsemi
  | cons _ _ hrest => exact hrest

theorem tail_or_beyond (h : C.RelatesAhead (a :: l) (b :: k)) (hend : a.tag ≠ .endOfFile) :
    C.RelatesAhead l k ∨ C.beyond = some (l, k) := by
  cases h with
  | endOfFile _ _ htag => exact absurd htag hend
  | semicolon hbeyond _ _ => exact .inr hbeyond
  | cons _ _ hrest => exact .inl hrest

/-- Lexemes that correspond one by one up to the end of the file. -/
theorem of_forall₂ (hbeyond : C.beyond = none) (h : List.Forall₂ C.RelatesLexeme l k)
    (hl : ∀ lexeme ∈ l, lexeme.tag ≠ .endOfFile) (hlast : C.RelatesLexeme a b) (htag : a.tag = .endOfFile) :
    C.RelatesAhead (l ++ [a]) (k ++ [b]) := by
  induction h with
  | nil => exact .endOfFile hbeyond hlast htag
  | cons hlexeme _ ih =>
    rw [List.forall_mem_cons] at hl
    exact .cons hlexeme hl.1 (ih hl.2)

theorem beyond_eq_none (h : C.RelatesAhead (a :: l) (b :: k)) (hend : a.tag = .endOfFile) : C.beyond = none := by
  cases h with
  | endOfFile hbeyond _ _ => exact hbeyond
  | semicolon _ _ htag => rw [hend] at htag; cases htag
  | cons _ htag _ => exact absurd hend htag

end RelatesAhead

namespace InStep

theorem within (h : C.InStep state other) : C.Within state.cursor.remaining other.cursor.remaining state other :=
  ⟨h, Nat.le_refl _, Nat.le_refl _⟩

theorem peek (h : C.InStep state other) : C.RelatesLexeme state.cursor.peek other.cursor.peek := by
  have hahead := h.ahead
  rw [Cursor.ahead_eq_peek_cons, Cursor.ahead_eq_peek_cons] at hahead
  exact hahead.head

theorem isAt (h : C.InStep state other) (tag : Tag) : state.cursor.isAt tag = other.cursor.isAt tag := by
  rw [Cursor.isAt, Cursor.isAt, (peek h).tag]

theorem reported (h : C.InStep state other) (span span' : Span) {issue issue' : StatementIssue}
    (hseverity : issue.severity = issue'.severity) :
    C.InStep (Reader.reported state span issue) (Reader.reported other span' issue') :=
  { h with reports := C.reports_report span span' h.reports hseverity }

end InStep

namespace RelatesWithin

variable {ahead : List Lexeme → List Lexeme → Prop}

theorem mono (h : C.RelatesWithin ahead n m state other) {n' m' : Nat} (hn : n ≤ n') (hm : m ≤ m') :
    C.RelatesWithin ahead n' m' state other :=
  ⟨h.toRelates, Nat.le_trans h.left hn, Nat.le_trans h.right hm⟩

/-- There is always a lexeme left. -/
theorem exists_succ (h : C.RelatesWithin ahead n m state other) : ∃ n' m', n = n' + 1 ∧ m = m' + 1 := by
  have hleft := state.cursor.remaining_pos
  have hright := other.cursor.remaining_pos
  have := h.left
  have := h.right
  exact ⟨n - 1, m - 1, by omega, by omega⟩

end RelatesWithin

/-- Readers in step move on together, but not over a semicolon or the end of the file. -/
private theorem Within.advance (h : C.Within (n + 1) (m + 1) state other) (hend : state.cursor.peek.tag ≠ .endOfFile)
    (hsemi : state.cursor.peek.tag ≠ .mark .semi) :
    C.Within n m { state with cursor := state.cursor.advance } { other with cursor := other.cursor.advance } := by
  have htag := (InStep.peek h.toRelates).tag
  have hmoved := Cursor.moved_advance hend
  have hmoved' := Cursor.moved_advance (htag ▸ hend)
  have hleft := hmoved.remaining
  have hright := hmoved'.remaining
  have := h.left
  have := h.right
  rw [List.length_singleton] at hleft hright
  have hahead : C.RelatesAhead state.cursor.advance.ahead other.cursor.advance.ahead := by
    have hahead := h.ahead
    rw [hmoved.ahead, hmoved'.ahead] at hahead
    exact hahead.tail hend hsemi
  exact ⟨⟨hahead, h.nodes, h.depths, h.nesting, h.reports⟩, by dsimp only; omega, by dsimp only; omega⟩

/-! ### Lexemes and reports -/

theorem bind_next_matches (h : C.Within (n + 1) (m + 1) state other) (hend : state.cursor.peek.tag ≠ .endOfFile)
    (hsemi : state.cursor.peek.tag ≠ .mark .semi) {first : Lexeme → Reader α} {second : Lexeme → Reader β}
    (hnext : ∀ lexeme lexeme' after last, C.RelatesLexeme lexeme lexeme' → C.Within n m after last →
      (first lexeme).Matches after (second lexeme') last Q F) :
    (Reader.next >>= first).Matches state (Reader.next >>= second) other Q F :=
  hnext _ _ _ _ (InStep.peek h.toRelates) (h.advance hend hsemi)

/-- A lexeme that is looked for is there for both readers or for none. -/
theorem bind_eat?_matches (h : C.Within n m state other) {tag : Tag} (hend : tag ≠ .endOfFile)
    (hsemi : tag ≠ .mark .semi) {first : Option Lexeme → Reader α} {second : Option Lexeme → Reader β}
    (hsome : ∀ lexeme lexeme' after last, C.RelatesLexeme lexeme lexeme' → C.Within n m after last →
      (first (some lexeme)).Matches after (second (some lexeme')) last Q F)
    (hnone : (first none).Matches state (second none) other Q F) :
    (Reader.eat? tag >>= first).Matches state (Reader.eat? tag >>= second) other Q F := by
  have hpeek := InStep.peek h.toRelates
  by_cases htag : state.cursor.peek.tag = tag
  · rw [Stage.Matches, Stage.bind_of_done (Reader.eat?_of_tag htag),
      Stage.bind_of_done (Reader.eat?_of_tag (hpeek.tag.symm.trans htag))]
    obtain ⟨n, m, rfl, rfl⟩ := h.exists_succ
    exact hsome _ _ _ _ hpeek ((h.advance (htag ▸ hend) (htag ▸ hsemi)).mono (Nat.le_succ n) (Nat.le_succ m))
  · rw [Stage.Matches, Stage.bind_of_done (Reader.eat?_of_ne htag),
      Stage.bind_of_done (Reader.eat?_of_ne fun heq => htag (hpeek.tag.trans heq))]
    exact hnone

/-- How a lexeme is named makes no difference. -/
theorem bind_found_matches {lexeme lexeme' : Lexeme} (htag : lexeme.tag = lexeme'.tag) {first : Found → Reader α}
    {second : Found → Reader β} (h : ∀ found found', (first found).Matches state (second found') other Q F) :
    (Reader.found text lexeme >>= first).Matches state (Reader.found text' lexeme' >>= second) other Q F := by
  unfold Reader.found Reader.spell
  rw [htag]
  split
  · exact h .endOfFile .endOfFile
  · exact (Stage.matches_ofExcept_bind (Q := fun found after found' last => after = state ∧ last = other)
      (F := F) fun _ _ => Stage.matches_pure ⟨rfl, rfl⟩).bind fun found after found' last hsame => by
        obtain ⟨rfl, rfl⟩ := hsame
        exact h found found'

theorem tooDeep_matches (h : C.InStep state other) :
    (Reader.tooDeep : Reader α).Matches state (Reader.tooDeep : Reader β) other Q C.InStep :=
  .failed (InStep.reported h _ _ (by rfl))

/-- How a missing expression is reported depends on what it is reported against. -/
inductive RelatesContext : ReadingContext → ReadingContext → Prop
  | start : RelatesContext .start .start
  | operator {a b} : RelatesContext (.operator a) (.operator b)
  | opener {a b} : RelatesContext (.opener a) (.opener b)

theorem reportMissing_matches (h : C.InStep state other) {context context' : ReadingContext}
    (hcontext : RelatesContext context context') :
    (Reader.reportMissing text context >>= fun _ => (Stage.fail : Reader α)).Matches state
      (Reader.reportMissing text' context' >>= fun _ => (Stage.fail : Reader β)) other Q C.InStep := by
  have hpeek := (InStep.peek h).tag
  refine Stage.Matches.bind (R := fun _ after _ last => C.InStep after last) ?_ fun _ _ _ _ => Stage.matches_fail
  refine Stage.matches_observe_bind.2 ?_
  simp only [hpeek]
  split
  · exact Stage.matches_pure h
  · refine bind_found_matches hpeek fun found found' => ?_
    cases hcontext with
    | start => exact .done (InStep.reported h _ _ (by rfl))
    | operator => exact Stage.matches_ofExcept_bind fun _ _ => .done (InStep.reported h _ _ (by rfl))
    | opener =>
      exact Stage.matches_ofExcept_bind fun _ _ => .done (InStep.reported (InStep.reported h _ _ (by rfl)) _ _ (by rfl))

theorem bind_expectCloser_matches (h : C.Within n m state other) {closer : Mark} (hsemi : closer ≠ .semi)
    (opener opener' : Lexeme) {first : Lexeme → Reader α} {second : Lexeme → Reader β}
    (hnext : ∀ lexeme lexeme' after last, C.RelatesLexeme lexeme lexeme' → C.Within n m after last →
      (first lexeme).Matches after (second lexeme') last Q C.InStep) :
    (Reader.expectCloser text closer opener >>= first).Matches state
      (Reader.expectCloser text' closer opener' >>= second) other Q C.InStep := by
  refine Stage.Matches.bind (R := fun lexeme after lexeme' last => C.RelatesLexeme lexeme lexeme' ∧
    C.Within n m after last) ?_ fun lexeme after lexeme' last h => hnext lexeme lexeme' after last h.1 h.2
  refine bind_eat?_matches h (by simp) (by simpa using hsemi) ?_ ?_
  · exact fun lexeme lexeme' after last hlexeme hwithin => Stage.matches_pure ⟨hlexeme, hwithin⟩
  · refine Stage.matches_observe_bind.2 (bind_found_matches (InStep.peek h.toRelates).tag fun found found' => ?_)
    exact Stage.matches_ofExcept_bind fun _ _ =>
      .failed (InStep.reported (InStep.reported h.toRelates _ _ (by rfl)) _ _ (by rfl))

/-! ### Nodes -/

variable (C) in
/-- Whether two readers in step have built something. -/
structure Built (n m : Nat) (state other : ReaderState) : Prop extends C.Within n m state other where
  nodes_ne : state.nodes.toList ≠ []

theorem Built.mono (h : C.Built n m state other) {n' m' : Nat} (hn : n ≤ n') (hm : m ≤ m') :
    C.Built n' m' state other :=
  ⟨RelatesWithin.mono h.toRelatesWithin hn hm, h.nodes_ne⟩

theorem bind_lastSpan_matches (h : C.InStep state other) {first : Span → Reader α} {second : Span → Reader β}
    (hnext : ∀ span span', C.spans span span' → (first span).Matches state (second span') other Q F) :
    (Reader.lastSpan >>= first).Matches state (Reader.lastSpan >>= second) other Q F := by
  unfold Reader.lastSpan
  refine Stage.Matches.bind (R := fun span after span' last => C.spans span span' ∧ after = state ∧ last = other) ?_ ?_
  · refine Stage.matches_observe_bind.2 ?_
    rw [← Array.getLast?_toList, ← Array.getLast?_toList, ← List.head?_reverse, ← List.head?_reverse]
    have hnodes := List.rel_reverse h.nodes
    generalize state.nodes.toList.reverse = nodes, other.nodes.toList.reverse = nodes' at hnodes
    cases hnodes with
    | nil => exact Stage.matches_raise
    | cons hnode _ => exact Stage.matches_pure ⟨hnode.span, rfl, rfl⟩
  · rintro span _ span' _ ⟨hspan, rfl, rfl⟩
    exact hnext span span' hspan

/-- The depths of corresponding operands are the same, so a node is added by both readers or by none. -/
theorem pushNode_matches (h : C.Within n m state other) (op : Operator) (arity : Nat) {span span' : Span}
    (hspan : C.spans span span') (hleaf : ∀ tag, op.shape = .leaf tag → C.lexemeSpans span span') :
    (Reader.pushNode op arity span).Matches state (Reader.pushNode op arity span') other
      (fun _ after _ last => C.Built n m after last) C.InStep := by
  unfold Reader.pushNode
  refine Stage.matches_observe_bind.2 ?_
  rw [h.depths]
  match takeDepths arity 0 other.depths with
  | none => exact Stage.matches_raise
  | some (deepest, depths) =>
    have hchanged : C.InStep { state with depths } { other with depths } :=
      ⟨h.ahead, h.nodes, rfl, h.nesting, h.reports⟩
    refine Stage.Matches.bind (R := fun _ after _ last => after = { state with depths } ∧ last = { other with depths })
      (.done ⟨rfl, rfl⟩) ?_
    rintro _ _ _ _ ⟨rfl, rfl⟩
    split
    · exact tooDeep_matches hchanged
    · refine .done ⟨⟨⟨h.ahead, ?_, rfl, h.nesting, h.reports⟩, h.left, h.right⟩, by simp⟩
      rw [Array.toList_push, Array.toList_push]
      exact List.rel_append h.nodes (.cons ⟨rfl, rfl, hspan, hleaf⟩ .nil)

end Comparison

end ExprLang
