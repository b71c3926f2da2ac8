import ExprLang.Proofs.Expression.Listing
import ExprLang.Proofs.FrontEnd
import ExprLang.Proofs.Lexeme.Coverage
import ExprLang.Proofs.Reading.Depths
import ExprLang.Proofs.Reading.Independence

/-!
# Extents of expressions

The tree of an expression is laid over the lexemes that it is written with (`Tree.IsWrittenWith`): each node has some of
its own, where its shape puts them, and the lexemes of its operands around them, and its span reaches from the first to
the last of all these.  As lexemes do not overlap, neither do operands, which stand in their order inside of their node
(`Tree.IsOrderly`).  All expressions that are read from a source are written with lexemes of it that stand one after the
other, and while they are read all subtrees are accounted for (`Source.expressions_are_exact`).
-/

namespace ExprLang

/-! ### Spans -/

namespace Span

/-- Whether a span starts before another one and does not overlap it. -/
def Precedes (a b : Span) : Prop :=
  a.start < b.start ∧ a.stop ≤ b.start

/-- Whether a span has another one inside of it. -/
def Encloses (outer inner : Span) : Prop :=
  outer.start ≤ inner.start ∧ inner.stop ≤ outer.stop

/-- Whether a span reaches from the start of the first to the end of the last of some lexemes. -/
structure IsExtentOf (span : Span) (lexemes : List Lexeme) : Prop where
  start : ∃ first ∈ lexemes.head?, span.start = first.span.start
  stop : ∃ last ∈ lexemes.getLast?, span.stop = last.span.stop

end Span

/-- Whether lexemes stand in their order and do not overlap. -/
def AreSuccessive (lexemes : List Lexeme) : Prop :=
  lexemes.Pairwise fun a b => a.span.Precedes b.span

namespace Span

variable {a b span : Span} {front back lexemes : List Lexeme}

private theorem isExtentOf_singleton (lexeme : Lexeme) : lexeme.span.IsExtentOf [lexeme] :=
  ⟨⟨lexeme, rfl, rfl⟩, ⟨lexeme, rfl, rfl⟩⟩

/-- The extents of the first and the last of some parts are joined to that of all. -/
private theorem IsExtentOf.join (ha : a.IsExtentOf front) (middle : List Lexeme) (hb : b.IsExtentOf back)
    (hordered : AreSuccessive (front ++ middle ++ back)) : (a.join b).IsExtentOf (front ++ middle ++ back) := by
  obtain ⟨⟨first, hfirst, hstart⟩, last, hlast, hstop⟩ := ha
  obtain ⟨⟨first', hfirst', hstart'⟩, last', hlast', hstop'⟩ := hb
  have hbefore : ∀ x ∈ front, ∀ y ∈ back, x.span.Precedes y.span := fun x hx y hy =>
    (List.pairwise_append.1 hordered).2.2 x (List.mem_append_left _ hx) y hy
  constructor
  · refine ⟨first, ?_, ?_⟩
    · rw [Option.mem_def] at hfirst ⊢
      rw [List.append_assoc, List.head?_append, hfirst]
      rfl
    · have hless := (hbefore first (List.mem_of_head? hfirst) first' (List.mem_of_head? hfirst')).1
      show min a.start b.start = _
      omega
  · refine ⟨last', ?_, ?_⟩
    · rw [Option.mem_def] at hlast' ⊢
      rw [List.getLast?_append, hlast']
      rfl
    · have hle := (hbefore last (List.mem_of_getLast? hlast) last' (List.mem_of_getLast? hlast')).2
      have hspan := last'.span.start_le_stop
      show max a.stop b.stop = _
      omega

/-- The extent of lexemes has each of them inside of it. -/
private theorem IsExtentOf.encloses (h : span.IsExtentOf lexemes) (hordered : AreSuccessive lexemes) {lexeme : Lexeme}
    (hmem : lexeme ∈ lexemes) : span.Encloses lexeme.span := by
  obtain ⟨⟨first, hfirst, hstart⟩, last, hlast, hstop⟩ := h
  constructor
  · obtain ⟨rest, rfl⟩ := List.head?_eq_some_iff.1 hfirst
    rcases List.mem_cons.1 hmem with rfl | hmem
    · exact Nat.le_of_eq hstart
    · have := ((List.pairwise_cons.1 hordered).1 lexeme hmem).1
      omega
  · obtain ⟨init, rfl⟩ := List.getLast?_eq_some_iff.1 hlast
    rcases List.mem_append.1 hmem with hmem | hmem
    · have := ((List.pairwise_append.1 hordered).2.2 lexeme hmem last (List.mem_singleton_self _)).2
      have := last.span.start_le_stop
      omega
    · rw [List.mem_singleton.1 hmem, hstop]

/-- What holds some of the lexemes is inside the extent of all. -/
private theorem IsExtentOf.encloses_of_subset (h : span.IsExtentOf lexemes) (ha : a.IsExtentOf front)
    (hordered : AreSuccessive lexemes) (hsubset : front ⊆ lexemes) : span.Encloses a := by
  obtain ⟨⟨first, hfirst, hstart⟩, last, hlast, hstop⟩ := ha
  refine ⟨?_, ?_⟩
  · rw [hstart]
    exact (h.encloses hordered (hsubset (List.mem_of_head? hfirst))).1
  · rw [hstop]
    exact (h.encloses hordered (hsubset (List.mem_of_getLast? hlast))).2

/-- Extents are in order where the lexemes are. -/
private theorem IsExtentOf.precedes (ha : a.IsExtentOf front) (hb : b.IsExtentOf back)
    (hordered : ∀ x ∈ front, ∀ y ∈ back, x.span.Precedes y.span) : a.Precedes b := by
  obtain ⟨⟨first, hfirst, hstart⟩, last, hlast, hstop⟩ := ha
  obtain ⟨⟨first', hfirst', hstart'⟩, -⟩ := hb
  refine ⟨?_, ?_⟩
  · rw [hstart, hstart']
    exact (hordered first (List.mem_of_head? hfirst) first' (List.mem_of_head? hfirst')).1
  · rw [hstop, hstart']
    exact (hordered last (List.mem_of_getLast? hlast) first' (List.mem_of_head? hfirst')).2

end Span

/-! ### Arrangements -/

namespace Shape

/-- Whether an operator of a shape may have so many operands. -/
def AllowsArity : Shape → Nat → Prop
  | leaf _, count => count = 0
  | before _, count | after _, count | around _ _, count => count = 1
  | between _, count => count = 2
  | sequence _ _, _ => True
  | application _ _, count => 2 ≤ count

/-- Whether lexemes are those of an operator of a shape with the lexemes of its operands where they belong. -/
inductive Arranges : Shape → (parts : List (List Lexeme)) → (lexemes : List Lexeme) → Prop
  | leaf {lexeme} : Arranges (.leaf lexeme.tag) [] [lexeme]
  | before {sign mark part} (hmark : mark.tag = .mark sign) : Arranges (.before sign) [part] (mark :: part)
  | after {sign mark part} (hmark : mark.tag = .mark sign) : Arranges (.after sign) [part] (part ++ [mark])
  | around {left right opener closer part} (hopener : opener.tag = .mark left) (hcloser : closer.tag = .mark right) :
      Arranges (.around left right) [part] (opener :: part ++ [closer])
  | between {sign mark left right} (hmark : mark.tag = .mark sign) :
      Arranges (.between sign) [left, right] (left ++ mark :: right)
  | sequence {left right opener closer parts commas} (hopener : opener.tag = .mark left)
      (hcloser : closer.tag = .mark right) (hcommas : ∀ comma ∈ commas, comma.tag = .mark .comma)
      (hcount : commas.length = parts.length - 1) :
      Arranges (.sequence left right) parts (opener :: interleave parts commas ++ [closer])
  | application {left right opener closer callee parts commas} (hopener : opener.tag = .mark left)
      (hcloser : closer.tag = .mark right) (hcommas : ∀ comma ∈ commas, comma.tag = .mark .comma)
      (hcount : commas.length + 1 = parts.length) :
      Arranges (.application left right) (callee :: parts) (callee ++ opener :: interleave parts commas ++ [closer])

variable {shape : Shape} {parts : List (List Lexeme)} {lexemes : List Lexeme}

theorem Arranges.allowsArity (h : shape.Arranges parts lexemes) : shape.AllowsArity parts.length := by
  cases h with
  | leaf => rfl
  | before => rfl
  | after => rfl
  | around => rfl
  | between => rfl
  | sequence => trivial
  | application _ _ _ hcount =>
    show 2 ≤ _
    rw [List.length_cons]
    omega

end Shape

private theorem flatten_sublist_interleave (parts : List (List Lexeme)) (commas : List Lexeme) :
    parts.flatten.Sublist (interleave parts commas) := by
  fun_induction interleave parts commas with
  | case1 => exact List.nil_sublist _
  | case2 part => rw [List.flatten_cons, List.flatten_nil, List.append_nil]
  | case3 part parts _ ih => exact (List.Sublist.refl part).append ih
  | case4 part parts comma commas _ ih => exact (List.Sublist.refl part).append (ih.cons comma)

/-- An operator has at least one lexeme besides those of its operands, which keep their order. -/
private theorem Shape.Arranges.flatten_sublist {shape : Shape} {parts : List (List Lexeme)} {lexemes : List Lexeme}
    (h : shape.Arranges parts lexemes) :
    parts.flatten.Sublist lexemes ∧ parts.flatten.length < lexemes.length := by
  cases h with
  | leaf => simp
  | before => simp
  | after => simp
  | around => simp
  | between => simp
  | @sequence _ _ opener closer parts commas =>
    have hsublist := flatten_sublist_interleave parts commas
    have hlength := hsublist.length_le
    refine ⟨(hsublist.trans (List.sublist_append_left _ _)).cons opener, ?_⟩
    simp only [List.length_append, List.length_cons]
    omega
  | @application _ _ opener closer callee parts commas =>
    have hsublist := flatten_sublist_interleave parts commas
    have hlength := hsublist.length_le
    constructor
    · rw [List.flatten_cons, List.append_assoc]
      exact (List.Sublist.refl callee).append ((hsublist.trans (List.sublist_append_left _ _)).cons opener)
    · simp only [List.flatten_cons, List.length_append, List.length_cons]
      omega

/-! ### Trees over lexemes -/

namespace Tree

/-- Whether a tree is written with lexemes: the ones that belong to the operator of a node stand around those of the
operands as its shape has it, and the span of the node is the extent of them all. -/
inductive IsWrittenWith : Tree → List Lexeme → Prop
  | node {root : Node} {pieces : List (Tree × List Lexeme)} {lexemes : List Lexeme}
      (hpieces : ∀ piece ∈ pieces, IsWrittenWith piece.1 piece.2)
      (harranged : root.operator.shape.Arranges (pieces.map (·.2)) lexemes) (hspan : root.span.IsExtentOf lexemes) :
      IsWrittenWith (.node root (pieces.map (·.1))) lexemes

/-- Whether each node has as many operands as its operator may have, and these stand inside of it, in their order and
without an overlap. -/
inductive IsOrderly : Tree → Prop
  | node {root : Node} {operands : List Tree} (harity : root.operator.shape.AllowsArity root.arity)
      (hencloses : ∀ operand ∈ operands, root.span.Encloses operand.span)
      (hordered : operands.Pairwise fun a b => a.span.Precedes b.span)
      (hoperands : ∀ operand ∈ operands, operand.IsOrderly) : IsOrderly (.node root operands)

variable {tree : Tree} {lexemes : List Lexeme}

private theorem IsWrittenWith.isExtentOf (h : tree.IsWrittenWith lexemes) : tree.span.IsExtentOf lexemes := by
  cases h with
  | node _ _ hspan => exact hspan

private theorem length_nodesOfAll_le {pieces : List (Tree × List Lexeme)}
    (h : ∀ piece ∈ pieces, piece.1.nodes.length ≤ piece.2.length) :
    (nodesOfAll (pieces.map (·.1))).length ≤ (pieces.map (·.2)).flatten.length := by
  induction pieces with
  | nil => exact Nat.le_refl 0
  | cons piece pieces ih =>
    rw [List.forall_mem_cons] at h
    have hrest := ih h.2
    rw [List.map_cons, List.map_cons, nodesOfAll, List.flatten_cons, List.length_append, List.length_append]
    omega

/-- There is a lexeme for each node. -/
private theorem IsWrittenWith.length_nodes_le (h : tree.IsWrittenWith lexemes) :
    tree.nodes.length ≤ lexemes.length := by
  induction h with
  | node _ harranged _ ih =>
    have hoperands := length_nodesOfAll_le ih
    have hless := harranged.flatten_sublist.2
    rw [nodes, List.length_append, List.length_singleton]
    omega

/-- Over lexemes in their order, operands are in their order too. -/
private theorem IsWrittenWith.isOrderly (h : tree.IsWrittenWith lexemes) (hwhole : tree.IsWhole)
    (hordered : AreSuccessive lexemes) : tree.IsOrderly := by
  induction h with
  | @node root pieces lexemes hpieces harranged hspan ih =>
    have hsublist := harranged.flatten_sublist.1
    have hparts : (∀ part ∈ pieces.map (·.2), AreSuccessive part) ∧ (pieces.map (·.2)).Pairwise _ :=
      List.pairwise_flatten.1 (List.Pairwise.sublist hsublist hordered)
    rw [List.forall_mem_map, List.pairwise_map] at hparts
    cases hwhole with
    | node harity hoperands =>
      rw [List.length_map] at harity
      rw [List.forall_mem_map] at hoperands
      have hallows := harranged.allowsArity
      rw [List.length_map, ← harity] at hallows
      refine .node hallows ?_ ?_ ?_
      · rw [List.forall_mem_map]
        intro piece hmem
        have hpart := List.sublist_flatten_of_mem (List.mem_map_of_mem (f := (·.2)) hmem)
        exact hspan.encloses_of_subset (hpieces piece hmem).isExtentOf hordered (hpart.trans hsublist).subset
      · rw [List.pairwise_map]
        refine hparts.2.imp_of_mem fun {a b} ha hb hbefore => ?_
        exact (hpieces a ha).isExtentOf.precedes (hpieces b hb).isExtentOf hbefore
      · rw [List.forall_mem_map]
        exact fun piece hmem => ih piece hmem (hoperands piece hmem) (hparts.1 piece hmem)

end Tree

/-! ### Phrases -/

namespace Phrase

variable {phrase : Phrase}

/-- The lexemes of a valid phrase are arranged around those of its operands. -/
theorem IsValid.arranges (h : phrase.IsValid) :
    phrase.operator.shape.Arranges (phrase.operands.map lexemes) phrase.lexemes := by
  cases h with
  | leaf hshape =>
    rw [operator, hshape]
    exact .leaf
  | before hshape hmark =>
    rw [operator, hshape]
    exact .before hmark
  | after hshape hmark =>
    rw [operator, hshape]
    exact .after hmark
  | around hshape hopener hcloser =>
    rw [operator, hshape]
    exact .around hopener hcloser
  | between hshape hmark =>
    rw [operator, hshape]
    exact .between hmark
  | sequence hshape hopener hcloser hcommas hcount =>
    rw [operator, hshape, lexemes, lexemesOfAll_eq_map]
    exact .sequence hopener hcloser hcommas (by rwa [operands, List.length_map])
  | application hshape hopener hcloser _ hcommas hcount =>
    rw [operator, hshape, lexemes, lexemesOfAll_eq_map]
    exact .application hopener hcloser hcommas (by rwa [List.length_map])

/-- The span of a valid phrase is the extent of its lexemes. -/
private theorem IsValid.isExtentOf (h : phrase.IsValid) (hordered : AreSuccessive phrase.lexemes) :
    phrase.span.IsExtentOf phrase.lexemes := by
  -- A span is joined from those of the first and the last lexeme or operand.
  induction h with
  | leaf => exact Span.isExtentOf_singleton _
  | @before op mark sign operand _ _ _ _ ih =>
    have hinner : AreSuccessive operand.lexemes := (List.pairwise_cons.1 hordered).2
    exact (Span.isExtentOf_singleton mark).join [] (ih hinner) hordered
  | @after op operand mark sign _ _ _ _ ih =>
    have hinner : AreSuccessive operand.lexemes := (List.pairwise_append.1 hordered).1
    have hall : operand.lexemes ++ [] ++ [mark] = operand.lexemes ++ [mark] := by rw [List.append_nil]
    have hjoin := (ih hinner).join [] (Span.isExtentOf_singleton mark)
    rw [hall] at hjoin
    exact hjoin hordered
  | around => exact (Span.isExtentOf_singleton _).join _ (Span.isExtentOf_singleton _) hordered
  | @between op left mark right _ _ _ _ _ _ _ ihLeft ihRight =>
    have hall : left.lexemes ++ mark :: right.lexemes = left.lexemes ++ [mark] ++ right.lexemes := by
      rw [List.append_assoc, List.singleton_append]
    have hparts := List.pairwise_append.1 hordered
    have hjoin := (ihLeft hparts.1).join [mark] (ihRight (List.pairwise_cons.1 hparts.2.1).2)
    rw [← hall] at hjoin
    exact hjoin hordered
  | sequence => exact (Span.isExtentOf_singleton _).join _ (Span.isExtentOf_singleton _) hordered
  | application _ _ _ _ _ _ _ _ _ ih =>
    have hcallee := (List.pairwise_append.1 (List.pairwise_append.1 hordered).1).1
    exact (ih hcallee).join _ (Span.isExtentOf_singleton _) hordered

/-- The tree of a valid phrase is written with its lexemes. -/
private theorem IsValid.isWrittenWith_toTree (h : phrase.IsValid) (hordered : AreSuccessive phrase.lexemes) :
    phrase.toTree.IsWrittenWith phrase.lexemes := by
  induction phrase using induction_operands with
  | step phrase ih =>
    have hsublist := h.arranges.flatten_sublist.1
    let pieces := phrase.operands.map fun operand => (operand.toTree, operand.lexemes)
    have htrees : phrase.operands.map toTree = pieces.map (·.1) := by simp [pieces]
    have hparts : phrase.operands.map lexemes = pieces.map (·.2) := by simp [pieces]
    rw [toTree_eq, htrees]
    refine .node ?_ (hparts ▸ h.arranges) (h.isExtentOf hordered)
    rw [List.forall_mem_map]
    intro operand hmem
    have hinner := (List.sublist_flatten_of_mem (List.mem_map_of_mem (f := lexemes) hmem)).trans hsublist
    exact ih operand hmem (h.of_mem_operands hmem).1 (List.Pairwise.sublist hinner hordered)

end Phrase

/-! ### Statements -/

private theorem Cursor.Moved.isInfix {before after : Cursor} {passed more : List Lexeme}
    (h : before.Moved after (passed ++ more)) : passed <:+: before.lexemes.toList := by
  have hahead : passed <+: before.ahead := by
    rw [h.ahead, List.append_assoc]
    exact List.prefix_append _ _
  exact hahead.isInfix.trans (List.drop_suffix _ _).isInfix

private theorem Clause.infix_elim_lexemes {part : Part} {type : Option Part} (h : part ∈ type.toList) :
    part.phrase.lexemes <:+: type.elim [] Part.lexemes := by
  rw [Option.mem_toList.1 h]
  exact (List.suffix_cons _ _).isInfix

/-- The expressions of a valid clause are no deeper than allowed, and their lexemes stand one after the other. -/
private theorem Clause.IsValid.infix_of_mem_phrases {clause : Clause} (h : clause.IsValid) {phrase : Phrase}
    (hmem : phrase ∈ clause.phrases) : phrase.depth ≤ maxDepth ∧ phrase.lexemes <:+: clause.lexemes := by
  cases h with
  | binding _ _ htype hvalue =>
    obtain ⟨part, hpart, rfl⟩ := List.mem_map.1 hmem
    rcases List.mem_append.1 hpart with hpart | hpart
    · refine ⟨(htype part (Option.mem_toList.1 hpart)).expression.depth_le, List.infix_cons (List.infix_cons ?_)⟩
      exact (infix_elim_lexemes hpart).trans (List.prefix_append _ _).isInfix
    · obtain rfl := List.mem_singleton.1 hpart
      refine ⟨hvalue.expression.depth_le, List.infix_cons (List.infix_cons ?_)⟩
      exact (List.suffix_cons _ _).isInfix.trans (List.suffix_append _ _).isInfix
  | typedVariable _ _ htype hvalue =>
    obtain ⟨part, hpart, rfl⟩ := List.mem_map.1 hmem
    rcases List.mem_cons.1 hpart with rfl | hpart
    · refine ⟨htype.expression.depth_le, List.infix_cons (List.infix_cons ?_)⟩
      exact (List.suffix_cons _ _).isInfix.trans (List.prefix_append _ _).isInfix
    · refine ⟨(hvalue part (Option.mem_toList.1 hpart)).expression.depth_le, List.infix_cons (List.infix_cons ?_)⟩
      exact (infix_elim_lexemes hpart).trans (List.suffix_append _ _).isInfix
  | plainVariable _ _ hvalue =>
    obtain rfl := List.mem_singleton.1 hmem
    refine ⟨hvalue.expression.depth_le, List.infix_cons (List.infix_cons ?_)⟩
    exact (List.suffix_cons _ _).isInfix
  | discarded hvalue =>
    obtain rfl := List.mem_singleton.1 hmem
    exact ⟨hvalue.depth_le, List.infix_refl _⟩

/-- Whether all statements that have been read are those of valid clauses whose lexemes stand one after the other. -/
structure ReadingState.IsAligned (start : Cursor) (reading : ReadingState) : Prop where
  lexemes : reading.state.cursor.lexemes = start.lexemes
  statements : ∀ statement ∈ reading.statements.toList, ∃ (clause : Clause) (span : Span),
    statement = clause.toStatement span ∧ clause.IsValid ∧ clause.lexemes <:+: start.lexemes.toList

/-- One round reads a statement of lexemes that stand one after the other at most. -/
private theorem Round.isAligned {text : List Char} {start : Cursor} {before after : ReadingState}
    (hround : Round text before after) (h : before.IsAligned start) : after.IsAligned start := by
  refine ⟨hround.lexemes.trans h.lexemes, ?_⟩
  cases hround with
  | unrecognized => exact h.statements
  | stray => exact h.statements
  | report => exact h.statements
  | @statement statements state clause skipped semicolon after _ hread =>
    rw [Array.toList_push, List.forall_mem_append, List.forall_mem_singleton]
    have hmoved := hread.moved
    rw [List.append_assoc] at hmoved
    exact ⟨h.statements, clause, _, rfl, hread.valid, h.lexemes ▸ hmoved.isInfix⟩
  | failure => exact h.statements

private theorem isAligned_of_rounds {text : List Char} {start : Cursor} {before after : ReadingState}
    (hrounds : Relation.ReflTransGen (Round text) before after) (h : before.IsAligned start) :
    after.IsAligned start := by
  induction hrounds with
  | refl => exact h
  | tail _ hround ih => exact hround.isAligned ih

/-- The statements of a source are those of valid clauses whose lexemes stand one after the other in it. -/
private theorem Source.exists_aligned_statements {source : Source} (htext : source.lexemes.AreIn source.text) :
    ∃ statements reports, source.statements = (.done statements, reports) ∧
      ∀ statement ∈ statements, ∃ (clause : Clause) (span : Span), statement = clause.toStatement span ∧
        clause.IsValid ∧ clause.lexemes <:+: source.lexemes.toList := by
  obtain ⟨cursor, statements, after, hlexemes, -, hstatements, -, hrounds⟩ := exists_rounds htext
  have haligned := isAligned_of_rounds hrounds ⟨rfl, fun _ hmem => absurd hmem List.not_mem_nil⟩
  refine ⟨statements.toList, after.diagnostics, hstatements, ?_⟩
  rw [← hlexemes]
  exact haligned.statements

/-! ### Well-formed expressions -/

private theorem Covers.length_le {offset : Nat} {lexemes : List Lexeme} {text : List Char}
    (h : Covers offset lexemes text) :
    lexemes.length ≤ byteLength text := by
  induction h with
  | nil => exact Nat.zero_le _
  | cons hgap hpart hstart hstop hrest ih =>
    have hpos := mt eq_nil_of_byteLength_eq_zero hpart
    rw [List.length_cons, byteLength_append, byteLength_append]
    omega

/-- There are no more lexemes in a text than it has bytes, apart from the one at its end. -/
private theorem Source.length_le_byteLength (name : String) (content : List Char) {lexemes : List Lexeme}
    (hsublist : lexemes.Sublist (ofContent name content).lexemes.toList)
    (hend : ∀ lexeme ∈ lexemes, lexeme.tag ≠ .endOfFile) :
    lexemes.length ≤ byteLength (ofContent name content).text := by
  have hlast : ∀ c ∈ (ofContent name content).text.getLast?, c = '\n' := by simp [ofContent]
  have hcovers := covers_placeChunks 0 hlast
  have hall := (ofContent name content).toList_lexemes
  rw [closingLexeme_text] at hall
  generalize (placeChunks 0 (chunks (ofContent name content).text)).map (·.1) = all at hall hcovers
  have hfilter := hsublist.filter fun lexeme => lexeme.tag ≠ .endOfFile
  have hnone : List.filter (fun lexeme : Lexeme => lexeme.tag ≠ .endOfFile)
      [{ tag := .endOfFile, span := .empty (byteLength content) }] = [] := rfl
  rw [hall, List.filter_append, hnone, List.append_nil,
    List.filter_eq_self.2 fun lexeme hmem => decide_eq_true (hend lexeme hmem)] at hfilter
  calc lexemes.length ≤ (all.filter fun lexeme => lexeme.tag ≠ .endOfFile).length := hfilter.length_le
    _ ≤ all.length := List.length_filter_le _ all
    _ ≤ byteLength (ofContent name content).text := hcovers.length_le

private theorem Tree.IsListedAs.isWellFormed {tree : Tree} {expr : Expression} (h : tree.IsListedAs expr.nodes.toList)
    (hsize : expr.size < countLimit) : expr.isWellFormed = .ok true := by
  have hpos := tree.length_nodes_pos
  have hlength : tree.nodes.length = expr.size := congrArg List.length h.nodes
  have hnodes : expr.nodes.toList = [] ++ tree.nodes ++ [] := by rw [h.nodes]; simp
  have hstart := Expression.subtreeStart_eq_ok_iff.1 (subtreeStart_of_nodes h.whole hnodes hsize)
  rw [List.length_nil, Nat.zero_add, hlength] at hstart
  have hnonempty : ¬expr.isEmpty = true := by
    rw [Expression.isEmpty, Array.isEmpty_iff_size_eq_zero]
    exact Nat.ne_of_gt (hlength ▸ hpos : 0 < expr.size)
  rw [Expression.isWellFormed, if_neg hnonempty, hstart]
  rfl

/-! ### Sources -/

/-- Whether the nodes of an expression list a tree over lexemes that stand one after the other in a source. -/
structure Tree.IsLaidOver (tree : Tree) (expr : Expression) (source : Source) (lexemes : List Lexeme) : Prop where
  listed : tree.IsListedAs expr.nodes.toList
  built : expr.tree = .ok tree
  wellFormed : byteLength source.text < countLimit → expr.isWellFormed = .ok true
  contiguous : lexemes <:+: source.lexemes.toList
  written : tree.IsWrittenWith lexemes
  orderly : tree.IsOrderly
  depth_le : tree.depth ≤ maxDepth

/-- Whether a course is one of a reader, and from an idle state on the subtrees are accounted for in all states that it
passes, and but for the operands of a node that has been refused in those where a part of it stops. -/
structure Course.AccountsFor {α : Type} (course : Course ReaderState α) (reader : Reader α) : Prop where
  stage : course.stage = reader
  passes : ∀ before state, before.IsIdle → course.passes before state → state.IsAccounted
  stops : ∀ before state, before.IsIdle → course.stops before state → state.IsStopped

private theorem ReaderState.IsIdle.isBetween {state : ReaderState} (h : state.IsIdle) : state.IsBetween 0 :=
  ⟨h.nesting, [], by simp, by simp, by rw [h.nodes]; rfl, h.depths⟩

private theorem Course.Keeps.accountsFor {α : Type} {course : Course ReaderState α} {reader : Reader α}
    (h : course.Keeps (expressionAccount (Nat.zero_le maxDepth))) (hstage : course.stage = reader) :
    course.AccountsFor reader :=
  ⟨hstage, fun before state hidle => h.passes before state hidle.isBetween,
    fun before state hidle => h.stops before state hidle.isBetween⟩

namespace Source

private theorem isLaidOver_toTree (name : String) (content : List Char) {phrase : Phrase} (hvalid : phrase.IsValid)
    (hdepth : phrase.depth ≤ maxDepth) (hcontiguous : phrase.lexemes <:+: (ofContent name content).lexemes.toList) :
    phrase.toTree.IsLaidOver phrase.expression (ofContent name content) phrase.lexemes := by
  have hordered : AreSuccessive phrase.lexemes := (pairwise_lexemes name content).sublist hcontiguous.sublist
  have hwritten := hvalid.isWrittenWith_toTree hordered
  have hlisted : phrase.toTree.IsListedAs phrase.expression.nodes.toList := ⟨phrase.isWhole_toTree, rfl⟩
  refine ⟨hlisted, phrase.tree_expression, fun htext => hlisted.isWellFormed ?_, hcontiguous, hwritten,
    hwritten.isOrderly phrase.isWhole_toTree hordered, hdepth⟩
  have hend : ∀ lexeme ∈ phrase.lexemes, lexeme.tag ≠ .endOfFile := fun lexeme hmem =>
    (hvalid.isRecognized lexeme hmem).1
  calc phrase.expression.size = phrase.toTree.nodes.length := rfl
    _ ≤ phrase.lexemes.length := hwritten.length_nodes_le
    _ ≤ byteLength (ofContent name content).text := length_le_byteLength name content hcontiguous.sublist hend
    _ < countLimit := htext

/-- Each expression that is read from a text is well-formed.  Its nodes list a tree over lexemes that stand one after
the other: each node has as many operands as its operator may have, it reaches from the first to the last lexeme of
its subtree, and its operands stand inside of it, in their order and without an overlap.  The tree is no deeper than
allowed.  In all states on the way there, no more operands are being read than allowed, and the depths are those of
the finished subtrees that no node has taken; where a reader stops, a node may have taken its operands and have been
refused, because its tree would be deeper than allowed. -/
theorem expressions_are_exact (name : String) (content : List Char) :
    (∃ statements reports, (ofContent name content).statements = (.done statements, reports) ∧
      ∀ statement ∈ statements, ∀ expr ∈ statement.expressions,
        ∃ tree lexemes, Tree.IsLaidOver tree expr (ofContent name content) lexemes) ∧
    (Course.readAll (ofContent name content).text).AccountsFor (Reader.readAll (ofContent name content).text) ∧
    (Course.readStatement (ofContent name content).text).AccountsFor
      (Reader.readStatement (ofContent name content).text) ∧
    ∀ min, (Course.readExpression (ofContent name content).text min).AccountsFor
      (Reader.readExpression (ofContent name content).text min) := by
  refine ⟨?_, Course.keeps_readAll.accountsFor Course.stage_readAll,
    Course.keeps_readStatement.accountsFor Course.stage_readStatement,
    fun min => (Course.keeps_readExpression min).accountsFor (Course.stage_readExpression min)⟩
  obtain ⟨statements, reports, hstatements, hclauses⟩ := exists_aligned_statements (areIn_lexemes name content)
  refine ⟨statements, reports, hstatements, fun statement hmem expr hexpr => ?_⟩
  obtain ⟨clause, span, rfl, hvalid, hcontiguous⟩ := hclauses statement hmem
  rw [Clause.expressions_toStatement] at hexpr
  obtain ⟨phrase, hphrase, rfl⟩ := List.mem_map.1 hexpr
  obtain ⟨hdepth, hinner⟩ := hvalid.infix_of_mem_phrases hphrase
  exact ⟨_, _, isLaidOver_toTree name content (hvalid.of_mem_phrases hphrase).1 hdepth (hinner.trans hcontiguous)⟩

/-- The text `a+x;`. -/
private def sumOfNames : Source :=
  ofContent "" ['a', '+', 'x', ';']

/-- While the sum is read, there is a state where both names have been read, the second one as its operand. -/
private theorem exists_passes_sumOfNames : ∃ before state : ReaderState, before.IsIdle ∧
    (Course.readExpression sumOfNames.text .assignment).passes before state ∧ state.nesting = 2 ∧
    state.depths = [1, 1] := by
  let start : ReaderState := .start ⟨sumOfNames.lexemes, sumOfNames.isClosed_lexemes, 0, by cbv⟩ .none
  let operand := Course.readOperand sumOfNames.text 255
  let first : ReaderState := { start with nesting := 1 }
  let second := ((Course.build sumOfNames.text operand .name).stage first).2
  let third : ReaderState := { second with cursor := second.cursor.advance, nesting := 2 }
  let fourth : ReaderState := { third with cursor := third.cursor.advance }
  let fifth := (Reader.pushNode .name 0 third.cursor.peek.span fourth).2
  have hname : Operator.leading? true .assignment first.cursor.peek.tag = some .name := by decide +kernel
  have hdone : ((Course.build sumOfNames.text operand .name).stage first).1 = .done () := by decide +kernel
  have hremaining : second.cursor.remaining = 3 + 1 := by decide +kernel
  have hsum : Operator.leading? false .assignment second.cursor.peek.tag = some (.binary .add) := by decide +kernel
  have hnodes : second.nodes.back? = some ⟨.name, 0, ⟨0, 1, by decide⟩⟩ := by decide +kernel
  have hname' : Operator.leading? true .factor third.cursor.peek.tag = some .name := by decide +kernel
  have hpush : (Reader.pushNode .name 0 third.cursor.peek.span fourth).1 = .done () := by decide +kernel
  have hlast : Reader.lastSpan second = (.done ⟨0, 1, by decide⟩, second) := by
    have hobserve : Stage.observe (·.nodes.back?) second = (.done second.nodes.back?, second) := rfl
    rw [Reader.lastSpan, Stage.bind_of_done hobserve, hnodes]
    rfl
  have hinner : ∀ context, (Course.scan sumOfNames.text (Course.readOperand sumOfNames.text 254) .factor
      context).passes third fifth := by
    intro context
    refine .inr ⟨third.cursor.peek, third, rfl, ?_⟩
    beta_reduce
    rw [hname']
    exact .inl (.inr ⟨third.cursor.peek, fourth, rfl, .inr ⟨(), Prod.ext hpush rfl⟩⟩)
  have hbuild : (Course.build sumOfNames.text operand (.binary .add)).passes second fifth :=
    .inr ⟨⟨0, 1, by decide⟩, second, hlast, .inr ⟨second.cursor.peek, _, rfl, .inl (.inr (.inl (hinner _)))⟩⟩
  have hscan : (Course.scan sumOfNames.text operand .assignment .start).passes first fifth := by
    refine .inr ⟨first.cursor.peek, first, rfl, ?_⟩
    beta_reduce
    rw [hname]
    refine .inr ⟨(), second, Prod.ext hdone rfl, .inr ⟨second.cursor.remaining, second, rfl, ?_⟩⟩
    beta_reduce
    rw [hremaining]
    refine .inr ⟨second.cursor.peek, second, rfl, ?_⟩
    beta_reduce
    rw [hsum]
    exact .inl hbuild
  exact ⟨start, fifth, ⟨rfl, rfl, rfl⟩, .inr (.inl (.inr ⟨0, _, rfl, .inl (.inr (.inl hscan))⟩)), by decide +kernel,
    by decide +kernel⟩

/-- The tree of the sum, and a state before its root is added. -/
theorem expressions_are_exact_sum :
    let tree : Tree := .node ⟨.binary .add, 2, ⟨0, 3, by decide⟩⟩
      [.node ⟨.name, 0, ⟨0, 1, by decide⟩⟩ [], .node ⟨.name, 0, ⟨2, 3, by decide⟩⟩ []]
    (∃ lexemes, tree.IsLaidOver ⟨tree.nodes.toArray⟩ sumOfNames lexemes) ∧
    ∃ before state, before.IsIdle ∧ (Course.readExpression sumOfNames.text .assignment).passes before state ∧
      state.nesting = 2 ∧ state.depths = [1, 1] ∧ state.IsAccounted := by
  intro tree
  have hleaf : ∀ span, (Tree.node ⟨.name, 0, span⟩ []).IsWhole := fun span => .node rfl (by simp)
  have hwhole : tree.IsWhole := .node rfl (by simp [hleaf])
  obtain ⟨⟨statements, reports, hstatements, hexact⟩, -, -, haccounts⟩ :=
    expressions_are_exact "" ['a', '+', 'x', ';']
  have hread : sumOfNames.statements.1 = .done statements := congrArg Prod.fst hstatements
  have hknown : sumOfNames.statements.1 = .done [.discarded ⟨tree.nodes.toArray⟩] := by decide +kernel
  obtain rfl := Outcome.done.inj (hknown.symm.trans hread)
  obtain ⟨other, lexemes, hother⟩ := hexact _ (List.mem_singleton_self _) _ (List.mem_singleton_self _)
  obtain rfl : other = tree := hother.listed.unique ⟨hwhole, rfl⟩
  obtain ⟨before, state, hidle, hpasses, hnesting, hdepths⟩ := exists_passes_sumOfNames
  have haccounted := (haccounts .assignment).passes before state hidle hpasses
  exact ⟨⟨lexemes, hother⟩, before, state, hidle, hpasses, hnesting, hdepths, haccounted⟩

end Source

end ExprLang
