import ExprLang.Operator.Basic

/-!
# Operators by their leading lexeme

The tag of a lexeme leads to at most one operator that begins an expression and to at most one that goes on
with it, so looking up an operator finds the one that there is (`Operator.leading?_eq_some_iff`).  Operators
of one shape that do not stand between operands have one level.
-/

namespace ExprLang

namespace Level

theorem le_iff {a b : Level} : a ≤ b ↔ a.rank ≤ b.rank := Iff.rfl

theorem lt_iff {a b : Level} : a < b ↔ a.rank < b.rank := Iff.rfl

theorem rank_of_tighter? {level next : Level} (h : level.tighter? = some next) : next.rank = level.rank + 1 := by
  cases level <;> cases h <;> rfl

end Level

/-- The mark that closes the operands of an operator of a shape. -/
def Shape.closer? : Shape → Option Mark
  | around _ closer | sequence _ closer | application _ closer => some closer
  | leaf _ | before _ | after _ | between _ => none

namespace Operator

variable {opening : Bool} {min : Level} {tag : Tag} {op : Operator} {mark : Mark}

/-- Operators that begin an expression, and those that go on with one, differ in their leading lexemes. -/
private theorem eq_of_leading {a b : Operator} (hopening : a.shape.isOpening = b.shape.isOpening)
    (hleading : a.shape.leading = b.shape.leading) : a = b := by
  have hall : ∀ a ∈ all, ∀ b ∈ all, a.shape.isOpening = b.shape.isOpening →
      a.shape.leading = b.shape.leading → a = b := by
    decide +kernel
  exact hall a a.mem_all b b.mem_all hopening hleading

/-- Looking up an operator finds the one that the tag leads to, if its level is tight enough. -/
theorem leading?_eq_some_iff : leading? opening min tag = some op ↔
    min ≤ op.level ∧ op.shape.isOpening = opening ∧ op.shape.leading = tag := by
  constructor
  · intro h
    have h := List.find?_some h
    simp only [Bool.and_eq_true, decide_eq_true_eq] at h
    exact ⟨h.1.1, h.1.2, h.2⟩
  · rintro ⟨hlevel, hopening, hleading⟩
    cases hfound : leading? opening min tag with
    | none =>
      have hnone := List.find?_eq_none.1 hfound op op.mem_all
      simp [hlevel, hopening, hleading] at hnone
    | some other =>
      have h := List.find?_some hfound
      simp only [Bool.and_eq_true, decide_eq_true_eq] at h
      rw [eq_of_leading (h.1.2.trans hopening.symm) (h.2.trans hleading.symm)]

/-- No operator is found if the one that the tag leads to is too loose. -/
theorem leading?_eq_none_iff (hopening : op.shape.isOpening = opening) (hleading : op.shape.leading = tag) :
    leading? opening min tag = none ↔ ¬min ≤ op.level := by
  constructor
  · intro h hlevel
    rw [leading?_eq_some_iff.2 ⟨hlevel, hopening, hleading⟩] at h
    cases h
  · intro hlevel
    cases hfound : leading? opening min tag with
    | none => rfl
    | some other =>
      obtain ⟨hother, hopening', hleading'⟩ := leading?_eq_some_iff.1 hfound
      rw [eq_of_leading (hopening'.trans hopening.symm) (hleading'.trans hleading.symm)] at hother
      exact absurd hother hlevel

theorem leading?_eq_none_of_le {tighter : Level} (hle : min ≤ tighter) (h : leading? opening min tag = none) :
    leading? opening tighter tag = none := by
  cases hfound : leading? opening tighter tag with
  | none => rfl
  | some op =>
    obtain ⟨hlevel, hrest⟩ := leading?_eq_some_iff.1 hfound
    rw [leading?_eq_some_iff.2 ⟨Nat.le_trans hle hlevel, hrest⟩] at h
    cases h

/-! ### Levels of shapes -/

/-- The levels of the operators of a shape. -/
def LevelFits (op : Operator) : Prop :=
  match op.shape with
  | .before _ | .after _ => op.level = .unary
  | .leaf _ | .around _ _ | .application _ _ => op.level = .primary
  | .sequence _ _ => op.level = .list
  | .between _ => op.level < .unary ∧ op.level.tighter?.isSome

private theorem levelFits (op : Operator) : op.LevelFits := by
  rcases op with op | op | _ | _ | _ | _ | _ <;> (try cases op) <;> exact by first | rfl | exact ⟨by decide, rfl⟩

theorem level_of_before (h : op.shape = .before mark) : op.level = .unary := by
  have := op.levelFits
  rwa [LevelFits, h] at this

theorem level_of_between (h : op.shape = .between mark) :
    op.level < .unary ∧ ∃ next, op.level.tighter? = some next := by
  have := op.levelFits
  rw [LevelFits, h] at this
  exact ⟨this.1, Option.isSome_iff_exists.1 this.2⟩

/-- The level of an operator that is a whole operand by itself. -/
theorem unary_le_level_of_ne (op : Operator) (h : ∀ mark, op.shape ≠ .between mark) : Level.unary ≤ op.level := by
  have := op.levelFits
  rw [LevelFits] at this
  split at this
  all_goals first | exact absurd ‹_› (h _) | (rw [this]; decide)

/-- No operator is recognised by the end of the file, or by what is not recognised itself. -/
theorem leading_ne (op : Operator) : op.shape.leading ≠ .endOfFile ∧ op.shape.leading ≠ .unrecognized := by
  have hall : ∀ op ∈ all, op.shape.leading ≠ .endOfFile ∧ op.shape.leading ≠ .unrecognized := by
    decide +kernel
  exact hall op op.mem_all

/-- No operator is recognised by a keyword. -/
theorem leading_ne_keyword (op : Operator) (keyword : Keyword) : op.shape.leading ≠ .keyword keyword := by
  have hall : ∀ op ∈ all, ∀ keyword ∈ [Keyword.let_, .var], op.shape.leading ≠ .keyword keyword := by
    decide +kernel
  exact hall op op.mem_all keyword (by cases keyword <;> decide)

/-! ### Operators of shapes -/

theorem eq_of_shape_leaf (h : op.shape = .leaf tag) :
    (op = .literal ∧ tag = .decimal) ∨ (op = .name ∧ tag = .name) := by
  rcases op with op | op | _ | _ | _ | _ | _
  case literal => exact .inl ⟨rfl, (Shape.leaf.inj h).symm⟩
  case name => exact .inr ⟨rfl, (Shape.leaf.inj h).symm⟩
  all_goals (try cases op) <;> cases h

theorem exists_of_shape_before (h : op.shape = .before mark) : ∃ unary, op = .unary unary := by
  rcases op with op | op | _ | _ | _ | _ | _
  case unary => exact ⟨op, rfl⟩
  all_goals cases h

theorem exists_of_shape_after (h : op.shape = .after mark) : ∃ unary, op = .unary unary := by
  rcases op with op | op | _ | _ | _ | _ | _
  case unary => exact ⟨op, rfl⟩
  all_goals cases h

theorem exists_of_shape_between (h : op.shape = .between mark) : ∃ binary, op = .binary binary := by
  rcases op with op | op | _ | _ | _ | _ | _
  case binary => exact ⟨op, rfl⟩
  all_goals (try cases op) <;> cases h

theorem eq_of_shape_around {closer : Mark} (h : op.shape = .around mark closer) : op = .group := by
  rcases op with op | op | _ | _ | _ | _ | _
  case group => rfl
  all_goals (try cases op) <;> cases h

theorem eq_of_shape_sequence {closer : Mark} (h : op.shape = .sequence mark closer) : op = .list := by
  rcases op with op | op | _ | _ | _ | _ | _
  case list => rfl
  all_goals (try cases op) <;> cases h

theorem eq_of_shape_application {closer : Mark} (h : op.shape = .application mark closer) : op = .call := by
  rcases op with op | op | _ | _ | _ | _ | _
  case call => rfl
  all_goals (try cases op) <;> cases h

/-! ### Delimiters -/

theorem closer_cases (op : Operator) {closer : Mark} (h : op.shape.closer? = some closer) :
    closer = .rparen ∨ closer = .rbracket := by
  have hall : ∀ op ∈ all, ∀ closer ∈ op.shape.closer?, closer = .rparen ∨ closer = .rbracket := by
    decide +kernel
  exact hall op op.mem_all closer h

/-- No operator is recognised by a closer, a comma, a semicolon or a colon. -/
theorem leading?_eq_none_of_mem (h : mark ∈ [Mark.rparen, .rbracket, .comma, .semi, .colon]) :
    leading? opening min (.mark mark) = none := by
  have hall : ∀ op ∈ all, ∀ mark ∈ [Mark.rparen, .rbracket, .comma, .semi, .colon],
      op.shape.leading ≠ .mark mark := by
    decide +kernel
  cases hfound : leading? opening min (.mark mark) with
  | none => rfl
  | some op => exact absurd (leading?_eq_some_iff.1 hfound).2.2 (hall op op.mem_all mark h)

/-- A closer does not go on with the operand before it. -/
theorem leading?_closer (op : Operator) {closer : Mark} (h : op.shape.closer? = some closer) :
    leading? opening min (.mark closer) = none := by
  rcases op.closer_cases h with rfl | rfl <;> exact leading?_eq_none_of_mem (by decide)

/-- A value is set off by a mark that binds too loosely to go on with an operand in brackets. -/
theorem leading?_eq : leading? false .nested (.mark .eq) = none :=
  (leading?_eq_none_iff (show (binary .assign).shape.isOpening = false from rfl) rfl).2 (by decide)

end Operator

end ExprLang
