import ExprLang.Expression.Tree
import ExprLang.Lexeme.Basic
import ExprLang.Proofs.Operator.Leading
import ExprLang.Reading.State

/-!
# The grammar of expressions

A phrase is an expression with all lexemes it is written with.  It has the tree of that expression, and its
lexemes in their order.  Which phrases are valid is said by one rule for each shape of an operator: what stands
on the left of a mark binds at least as tightly, what stands on the right binds more tightly, and what is in
brackets is no assignment (`Phrase.IsValid`).
-/

namespace ExprLang

/-- An expression with its lexemes. -/
inductive Phrase where
  | leaf (op : Operator) (lexeme : Lexeme)
  | before (op : Operator) (mark : Lexeme) (operand : Phrase)
  | after (op : Operator) (operand : Phrase) (mark : Lexeme)
  | around (op : Operator) (opener : Lexeme) (operand : Phrase) (closer : Lexeme)
  | between (op : Operator) (left : Phrase) (mark : Lexeme) (right : Phrase)
  | sequence (op : Operator) (opener : Lexeme) (operands : List Phrase) (commas : List Lexeme) (closer : Lexeme)
  | application (op : Operator) (callee : Phrase) (opener : Lexeme) (operands : List Phrase)
      (commas : List Lexeme) (closer : Lexeme)

/-- Parts with one lexeme between each and the next. -/
def interleave : List (List Lexeme) → List Lexeme → List Lexeme
  | [], _ => []
  | part :: [], _ => part
  | part :: parts, [] => part ++ interleave parts []
  | part :: parts, comma :: commas => part ++ comma :: interleave parts commas

theorem interleave_cons_cons (first second : List Lexeme) (parts : List (List Lexeme)) (comma : Lexeme)
    (commas : List Lexeme) : interleave (first :: second :: parts) (comma :: commas)
      = first ++ comma :: interleave (second :: parts) commas := rfl

theorem exists_interleave_cons (part : List Lexeme) (parts : List (List Lexeme)) (commas : List Lexeme) :
    ∃ rest, interleave (part :: parts) commas = part ++ rest := by
  cases parts with
  | nil => exact ⟨[], (List.append_nil part).symm⟩
  | cons second parts =>
    cases commas with
    | nil => exact ⟨_, rfl⟩
    | cons comma commas => exact ⟨_, interleave_cons_cons part second parts comma commas⟩

theorem mem_interleave {lexeme : Lexeme} {parts : List (List Lexeme)} {commas : List Lexeme}
    (h : lexeme ∈ interleave parts commas) : lexeme ∈ commas ∨ ∃ part ∈ parts, lexeme ∈ part := by
  fun_induction interleave parts commas with
  | case1 => exact absurd h List.not_mem_nil
  | case2 part => exact .inr ⟨part, List.mem_singleton_self _, h⟩
  | case3 part parts _ ih =>
    rcases List.mem_append.1 h with h | h
    · exact .inr ⟨part, List.mem_cons_self, h⟩
    · rcases ih h with h | ⟨other, hother, h⟩
      · exact absurd h List.not_mem_nil
      · exact .inr ⟨other, List.mem_cons_of_mem _ hother, h⟩
  | case4 part parts comma commas _ ih =>
    rcases List.mem_append.1 h with h | h
    · exact .inr ⟨part, List.mem_cons_self, h⟩
    · rcases List.mem_cons.1 h with rfl | h
      · exact .inl List.mem_cons_self
      · rcases ih h with h | ⟨other, hother, h⟩
        · exact .inl (List.mem_cons_of_mem _ h)
        · exact .inr ⟨other, List.mem_cons_of_mem _ hother, h⟩

theorem mem_interleave_of_mem {lexeme : Lexeme} {part : List Lexeme} {parts : List (List Lexeme)}
    (commas : List Lexeme) (hpart : part ∈ parts) (h : lexeme ∈ part) : lexeme ∈ interleave parts commas := by
  fun_induction interleave parts commas with
  | case1 => exact absurd hpart List.not_mem_nil
  | case2 first => rwa [← List.mem_singleton.1 hpart]
  | case3 first parts _ ih =>
    rcases List.mem_cons.1 hpart with rfl | hpart
    · exact List.mem_append_left _ h
    · exact List.mem_append_right _ (ih hpart)
  | case4 first parts comma commas _ ih =>
    rcases List.mem_cons.1 hpart with rfl | hpart
    · exact List.mem_append_left _ h
    · exact List.mem_append_right _ (List.mem_cons_of_mem _ (ih hpart))

namespace Phrase

/-- The operator of the root. -/
def operator : Phrase → Operator
  | leaf op _ | before op _ _ | after op _ _ | around op _ _ _ | between op _ _ _ | sequence op _ _ _ _
  | application op _ _ _ _ _ => op

/-- The level of the root. -/
def level (phrase : Phrase) : Level :=
  phrase.operator.level

/-- The operands of the root. -/
def operands : Phrase → List Phrase
  | leaf _ _ => []
  | before _ _ operand | after _ operand _ | around _ _ operand _ => [operand]
  | between _ left _ right => [left, right]
  | sequence _ _ operands _ _ => operands
  | application _ callee _ operands _ _ => callee :: operands

/-- The span from the first to the last lexeme. -/
def span : Phrase → Span
  | leaf _ lexeme => lexeme.span
  | before _ mark operand => mark.span.join operand.span
  | after _ operand mark => operand.span.join mark.span
  | around _ opener _ closer | sequence _ opener _ _ closer => opener.span.join closer.span
  | between _ left _ right => left.span.join right.span
  | application _ callee _ _ _ closer => callee.span.join closer.span

/-- The node of the root. -/
def root (phrase : Phrase) : Node where
  operator := phrase.operator
  arity := phrase.operands.length
  span := phrase.span

mutual
/-- The tree of an expression. -/
def toTree : Phrase → Tree
  | leaf op lexeme => .node (leaf op lexeme).root []
  | before op mark operand => .node (before op mark operand).root [operand.toTree]
  | after op operand mark => .node (after op operand mark).root [operand.toTree]
  | around op opener operand closer => .node (around op opener operand closer).root [operand.toTree]
  | between op left mark right => .node (between op left mark right).root [left.toTree, right.toTree]
  | sequence op opener operands commas closer =>
    .node (sequence op opener operands commas closer).root (treesOfAll operands)
  | application op callee opener operands commas closer =>
    .node (application op callee opener operands commas closer).root (callee.toTree :: treesOfAll operands)

/-- The trees of some expressions. -/
def treesOfAll : List Phrase → List Tree
  | [] => []
  | phrase :: phrases => phrase.toTree :: treesOfAll phrases
end

mutual
/-- The lexemes of an expression in their order. -/
def lexemes : Phrase → List Lexeme
  | leaf _ lexeme => [lexeme]
  | before _ mark operand => mark :: operand.lexemes
  | after _ operand mark => operand.lexemes ++ [mark]
  | around _ opener operand closer => opener :: operand.lexemes ++ [closer]
  | between _ left mark right => left.lexemes ++ mark :: right.lexemes
  | sequence _ opener operands commas closer => opener :: interleave (lexemesOfAll operands) commas ++ [closer]
  | application _ callee opener operands commas closer =>
    callee.lexemes ++ opener :: interleave (lexemesOfAll operands) commas ++ [closer]

/-- The lexemes of some expressions, apart from each other. -/
def lexemesOfAll : List Phrase → List (List Lexeme)
  | [] => []
  | phrase :: phrases => phrase.lexemes :: lexemesOfAll phrases
end

/-- The nodes of an expression in post-order. -/
def nodes (phrase : Phrase) : List Node :=
  phrase.toTree.nodes

/-- The depth of an expression, where a leaf has the depth one. -/
def depth (phrase : Phrase) : Nat :=
  phrase.toTree.depth

/-- The nodes as an expression. -/
def expression (phrase : Phrase) : Expression :=
  ⟨phrase.nodes.toArray⟩

/-- Whether the root has an operand on its right that is not closed by a bracket. -/
def trailsOperand : Phrase → Bool
  | before _ _ _ | between _ _ _ _ => true
  | leaf _ _ | after _ _ _ | around _ _ _ _ | sequence _ _ _ _ _ | application _ _ _ _ _ _ => false

/-- The grammar. -/
inductive IsValid : Phrase → Prop
  | leaf {op lexeme} (hshape : op.shape = .leaf lexeme.tag) : IsValid (.leaf op lexeme)
  | before {op mark sign operand} (hshape : op.shape = .before sign) (hmark : mark.tag = .mark sign)
      (hlevel : .unary ≤ operand.level) (hvalid : operand.IsValid) : IsValid (.before op mark operand)
  | after {op operand mark sign} (hshape : op.shape = .after sign) (hmark : mark.tag = .mark sign)
      (hclosed : operand.trailsOperand = false) (hvalid : operand.IsValid) : IsValid (.after op operand mark)
  | around {op opener operand closer left right} (hshape : op.shape = .around left right)
      (hopener : opener.tag = .mark left) (hcloser : closer.tag = .mark right) (hlevel : .nested ≤ operand.level)
      (hvalid : operand.IsValid) : IsValid (.around op opener operand closer)
  | between {op left mark right sign} (hshape : op.shape = .between sign) (hmark : mark.tag = .mark sign)
      (hleft : op.level ≤ left.level) (hright : op.level < right.level) (hvalidLeft : left.IsValid)
      (hvalidRight : right.IsValid) : IsValid (.between op left mark right)
  | sequence {op opener operands commas closer left right} (hshape : op.shape = .sequence left right)
      (hopener : opener.tag = .mark left) (hcloser : closer.tag = .mark right)
      (hcommas : ∀ comma ∈ commas, comma.tag = .mark .comma) (hcount : commas.length = operands.length - 1)
      (hlevels : ∀ operand ∈ operands, .nested ≤ operand.level)
      (hvalid : ∀ operand ∈ operands, operand.IsValid) : IsValid (.sequence op opener operands commas closer)
  | application {op callee opener operands commas closer left right} (hshape : op.shape = .application left right)
      (hopener : opener.tag = .mark left) (hcloser : closer.tag = .mark right)
      (hclosed : callee.trailsOperand = false) (hcommas : ∀ comma ∈ commas, comma.tag = .mark .comma)
      (hcount : commas.length + 1 = operands.length) (hlevels : ∀ operand ∈ operands, .nested ≤ operand.level)
      (hcallee : callee.IsValid) (hvalid : ∀ operand ∈ operands, operand.IsValid) :
      IsValid (.application op callee opener operands commas closer)

/-! ### Trees and lexemes -/

private theorem treesOfAll_eq_map (phrases : List Phrase) : treesOfAll phrases = phrases.map toTree := by
  induction phrases with
  | nil => rfl
  | cons phrase phrases ih => rw [treesOfAll, ih, List.map_cons]

theorem lexemesOfAll_eq_map (phrases : List Phrase) : lexemesOfAll phrases = phrases.map lexemes := by
  induction phrases with
  | nil => rfl
  | cons phrase phrases ih => rw [lexemesOfAll, ih, List.map_cons]

theorem toTree_eq (phrase : Phrase) : phrase.toTree = .node phrase.root (phrase.operands.map toTree) := by
  cases phrase <;> simp [toTree, operands, treesOfAll_eq_map]

private theorem nodesOfAll_map (phrases : List Phrase) :
    Tree.nodesOfAll (phrases.map toTree) = phrases.flatMap nodes := by
  induction phrases with
  | nil => rfl
  | cons phrase phrases ih => rw [List.map_cons, Tree.nodesOfAll, ih, List.flatMap_cons, nodes]

theorem nodes_eq (phrase : Phrase) : phrase.nodes = phrase.operands.flatMap nodes ++ [phrase.root] := by
  rw [nodes, toTree_eq, Tree.nodes, nodesOfAll_map]

private theorem depthOfAll_map (phrases : List Phrase) :
    Tree.depthOfAll (phrases.map toTree) = (phrases.map depth).foldr max 0 := by
  induction phrases with
  | nil => rfl
  | cons phrase phrases ih => rw [List.map_cons, Tree.depthOfAll, ih, List.map_cons, List.foldr_cons, depth]

theorem depth_eq (phrase : Phrase) : phrase.depth = (phrase.operands.map depth).foldr max 0 + 1 := by
  rw [depth, toTree_eq, Tree.depth, depthOfAll_map]

private theorem le_foldr_max {depths : List Nat} {depth : Nat} (h : depth ∈ depths) : depth ≤ depths.foldr max 0 := by
  induction depths with
  | nil => exact absurd h List.not_mem_nil
  | cons first rest ih =>
    rw [List.foldr_cons]
    rcases List.mem_cons.1 h with rfl | h
    · exact Nat.le_max_left _ _
    · exact Nat.le_trans (ih h) (Nat.le_max_right _ _)

theorem depth_lt_of_mem {phrase operand : Phrase} (h : operand ∈ phrase.operands) :
    operand.depth < phrase.depth := by
  rw [depth_eq phrase]
  exact Nat.lt_succ_of_le (le_foldr_max (List.mem_map_of_mem h))

/-- What a phrase has if its operands have it, every phrase has. -/
@[elab_as_elim]
theorem induction_operands {motive : Phrase → Prop}
    (step : ∀ phrase : Phrase, (∀ operand ∈ phrase.operands, motive operand) → motive phrase) (phrase : Phrase) :
    motive phrase := by
  -- Operands are less deep.
  induction hdepth : phrase.depth using Nat.strongRecOn generalizing phrase with
  | ind depth ih => exact step phrase fun operand hmem => ih operand.depth (hdepth ▸ depth_lt_of_mem hmem) operand rfl

theorem lexemes_ne_nil (phrase : Phrase) : phrase.lexemes ≠ [] := by
  cases phrase <;> simp [lexemes]

/-! ### What may follow -/

/-- Whether no operand on the right edge of a phrase goes on with a tag. -/
def Admits (tag : Tag) : Phrase → Prop
  | before op _ operand => Operator.leading? false op.level tag = none ∧ operand.Admits tag
  | between op _ _ right =>
    (∀ next, op.level.tighter? = some next → Operator.leading? false next tag = none) ∧ right.Admits tag
  | leaf _ _ | after _ _ _ | around _ _ _ _ | sequence _ _ _ _ _ | application _ _ _ _ _ _ => True
termination_by structural phrase => phrase

variable {phrase : Phrase} {op : Operator} {tag : Tag}

private theorem admits_of_not_trailsOperand (h : phrase.trailsOperand = false) : phrase.Admits tag := by
  cases phrase <;> trivial

/-- A phrase without an open operand on its right binds at least as tightly as a sign. -/
private theorem IsValid.unary_le_level (h : phrase.IsValid) (hclosed : phrase.trailsOperand = false) :
    .unary ≤ phrase.level := by
  cases h with
  | before => exact absurd hclosed (by simp [trailsOperand])
  | between => exact absurd hclosed (by simp [trailsOperand])
  | leaf hshape => exact Operator.unary_le_level_of_ne _ (by simp [operator, hshape])
  | after hshape => exact Operator.unary_le_level_of_ne _ (by simp [operator, hshape])
  | around hshape => exact Operator.unary_le_level_of_ne _ (by simp [operator, hshape])
  | sequence hshape => exact Operator.unary_le_level_of_ne _ (by simp [operator, hshape])
  | application hshape => exact Operator.unary_le_level_of_ne _ (by simp [operator, hshape])

/-- What does not go on with a phrase does not go on with its open operands, which bind more tightly. -/
theorem IsValid.admits_of_leading?_eq_none (h : phrase.IsValid) {min : Level} (hlevel : min ≤ phrase.level)
    (hnone : Operator.leading? false min tag = none) : phrase.Admits tag := by
  -- Only signs and marks between operands leave an operand open on the right.
  induction h with
  | leaf => trivial
  | after => trivial
  | around => trivial
  | sequence => trivial
  | application => trivial
  | before hshape _ hoperand _ ih =>
    refine ⟨Operator.leading?_eq_none_of_le hlevel hnone, ih ?_⟩
    rw [level, operator, Operator.level_of_before hshape] at hlevel
    exact Nat.le_trans hlevel hoperand
  | @between op _ _ _ _ _ _ _ hright _ _ _ ih =>
    have hlevel : min.rank ≤ op.level.rank := hlevel
    rw [Level.lt_iff] at hright
    refine ⟨fun next hnext => Operator.leading?_eq_none_of_le ?_ hnone, ih ?_⟩
    · have := Level.rank_of_tighter? hnext
      rw [Level.le_iff]
      omega
    · rw [Level.le_iff]
      omega

/-- A mark between operands may follow if it binds no more tightly than the phrase before it. -/
theorem IsValid.admits_between_iff (h : phrase.IsValid) {sign : Mark} (hshape : op.shape = .between sign) :
    phrase.Admits (.mark sign) ↔ op.level ≤ phrase.level := by
  have hopening : op.shape.isOpening = false := by rw [hshape]; rfl
  have hleading : op.shape.leading = .mark sign := by rw [hshape]; rfl
  have hloose := (Operator.level_of_between hshape).1
  have hnone : ∀ {min : Level}, Operator.leading? false min (.mark sign) = none ↔ ¬min ≤ op.level :=
    Operator.leading?_eq_none_iff hopening hleading
  rw [Level.lt_iff] at hloose
  by_cases hclosed : phrase.trailsOperand = false
  · have hunary := h.unary_le_level hclosed
    rw [Level.le_iff] at hunary
    refine ⟨fun _ => ?_, fun _ => admits_of_not_trailsOperand hclosed⟩
    rw [Level.le_iff]
    omega
  · cases h with
    | leaf => exact absurd rfl hclosed
    | after => exact absurd rfl hclosed
    | around => exact absurd rfl hclosed
    | sequence => exact absurd rfl hclosed
    | application => exact absurd rfl hclosed
    | before hshape' _ hoperand hvalid =>
      have hunary := Operator.level_of_before hshape'
      have hnot : ¬Level.unary ≤ op.level := by rw [Level.le_iff]; omega
      constructor
      · intro _
        rw [level, operator, hunary, Level.le_iff]
        omega
      · intro _
        exact ⟨hnone.2 (by rwa [hunary]), hvalid.admits_of_leading?_eq_none hoperand (hnone.2 hnot)⟩
    | @between last _ _ right _ hshape' _ _ hright _ hvalid =>
      obtain ⟨-, next, hnext⟩ := Operator.level_of_between hshape'
      have hrank := Level.rank_of_tighter? hnext
      rw [Level.lt_iff] at hright
      constructor
      · intro hadmits
        have := hnone.1 (hadmits.1 next hnext)
        rw [Level.le_iff] at this
        show op.level.rank ≤ last.level.rank
        omega
      · intro hle
        have hle : op.level.rank ≤ last.level.rank := hle
        have hnot : ¬next ≤ op.level := by rw [Level.le_iff]; omega
        refine ⟨fun other hother => ?_, hvalid.admits_of_leading?_eq_none ?_ (hnone.2 hnot)⟩
        · rw [hnext, Option.some.injEq] at hother
          rw [← hother]
          exact hnone.2 hnot
        · rw [Level.le_iff]
          omega

/-- A mark after an operand and an opener of arguments may follow if nothing is open on the right. -/
theorem IsValid.admits_tight_iff (h : phrase.IsValid) (hopening : op.shape.isOpening = false)
    (hunary : .unary ≤ op.level) : phrase.Admits op.shape.leading ↔ phrase.trailsOperand = false := by
  refine ⟨fun hadmits => ?_, admits_of_not_trailsOperand⟩
  have hnone : ∀ {min : Level}, Operator.leading? false min op.shape.leading = none ↔ ¬min ≤ op.level :=
    Operator.leading?_eq_none_iff hopening rfl
  cases h with
  | leaf => rfl
  | after => rfl
  | around => rfl
  | sequence => rfl
  | application => rfl
  | before hshape =>
    have := hnone.1 hadmits.1
    rw [Operator.level_of_before hshape] at this
    exact absurd hunary this
  | between hshape =>
    obtain ⟨hloose, next, hnext⟩ := Operator.level_of_between hshape
    have hrank := Level.rank_of_tighter? hnext
    have := hnone.1 (hadmits.1 next hnext)
    rw [Level.le_iff] at this hunary
    rw [Level.lt_iff] at hloose
    omega

/-! ### Left edges -/

/-- A phrase whose operator begins it begins with the lexeme that leads to the operator. -/
theorem IsValid.lexemes_of_isOpening (h : phrase.IsValid) (hopening : phrase.operator.shape.isOpening = true) :
    ∃ first rest, phrase.lexemes = first :: rest ∧ phrase.operator.shape.leading = first.tag := by
  cases h with
  | after hshape => rw [operator, hshape] at hopening; cases hopening
  | between hshape => rw [operator, hshape] at hopening; cases hopening
  | application hshape => rw [operator, hshape] at hopening; cases hopening
  | @leaf op lexeme hshape => exact ⟨lexeme, [], rfl, by rw [operator, hshape]; rfl⟩
  | @before op mark _ operand hshape hmark =>
    exact ⟨mark, operand.lexemes, rfl, by rw [operator, hshape, hmark]; rfl⟩
  | @around op opener operand closer _ _ hshape hopener =>
    exact ⟨opener, operand.lexemes ++ [closer], rfl, by rw [operator, hshape, hopener]; rfl⟩
  | @sequence op opener operands commas closer _ _ hshape hopener =>
    exact ⟨opener, interleave (lexemesOfAll operands) commas ++ [closer], rfl,
      by rw [operator, hshape, hopener]; rfl⟩

/-- Any other phrase begins with its first operand.  The lexeme that leads to the operator follows, and nothing
inside that operand takes it. -/
theorem IsValid.lexemes_of_not_isOpening (h : phrase.IsValid) (hopening : phrase.operator.shape.isOpening = false) :
    ∃ left others mark rest, phrase.operands = left :: others ∧ phrase.lexemes = left.lexemes ++ mark :: rest ∧
      phrase.operator.shape.leading = mark.tag ∧ left.IsValid ∧ left.Admits mark.tag ∧
      (phrase.level ≤ left.level ∨ .unary ≤ left.level) := by
  cases h with
  | leaf hshape => rw [operator, hshape] at hopening; cases hopening
  | before hshape => rw [operator, hshape] at hopening; cases hopening
  | around hshape => rw [operator, hshape] at hopening; cases hopening
  | sequence hshape => rw [operator, hshape] at hopening; cases hopening
  | @after op operand mark _ hshape hmark hclosed hvalid =>
    exact ⟨operand, [], mark, [], rfl, rfl, by rw [operator, hshape, hmark]; rfl, hvalid,
      admits_of_not_trailsOperand hclosed, .inr (hvalid.unary_le_level hclosed)⟩
  | @between op left mark right _ hshape hmark hlevel _ hvalid =>
    refine ⟨left, [right], mark, right.lexemes, rfl, rfl, by rw [operator, hshape, hmark]; rfl, hvalid, ?_, .inl hlevel⟩
    rw [hmark]
    exact (hvalid.admits_between_iff hshape).2 hlevel
  | @application op callee opener operands commas closer _ _ hshape hopener _ hclosed _ _ _ hvalid =>
    exact ⟨callee, operands, opener, interleave (lexemesOfAll operands) commas ++ [closer], rfl,
      by rw [lexemes, List.append_assoc, List.cons_append], by rw [operator, hshape, hopener]; rfl, hvalid,
      admits_of_not_trailsOperand hclosed, .inr (hvalid.unary_le_level hclosed)⟩

/-- A valid phrase begins with a lexeme that leads to an operator. -/
theorem IsValid.exists_first (h : phrase.IsValid) : ∃ first rest, ∃ op : Operator,
    phrase.lexemes = first :: rest ∧ op.shape.isOpening = true ∧ op.shape.leading = first.tag := by
  -- The phrase begins with what its first operand begins with, unless its operator opens it.
  induction phrase using induction_operands with
  | step phrase ih =>
    cases hopening : phrase.operator.shape.isOpening with
    | true =>
      obtain ⟨first, rest, hlexemes, hleading⟩ := h.lexemes_of_isOpening hopening
      exact ⟨first, rest, phrase.operator, hlexemes, hopening, hleading⟩
    | false =>
      obtain ⟨left, others, mark, more, hoperands, hlexemes, -, hvalid, -⟩ := h.lexemes_of_not_isOpening hopening
      have hmem : left ∈ phrase.operands := by
        rw [hoperands]
        exact List.mem_cons_self
      obtain ⟨first, rest, op, hleft, hop⟩ := ih left hmem hvalid
      exact ⟨first, rest ++ mark :: more, op, by rw [hlexemes, hleft, List.cons_append], hop⟩

end Phrase

end ExprLang
