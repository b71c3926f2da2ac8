/-!
# Levels

Operators are ordered by how tightly they bind, from assignment, the loosest level, to lists, the tightest.
-/

namespace ExprLang

/-- How tightly an operator binds. -/
inductive Level where
  | assignment
  | logicalOr
  | logicalAnd
  | equality
  | order
  | bitwiseOr
  | bitwiseXor
  | bitwiseAnd
  | shift
  | term
  | factor
  | unary
  | primary
  | list
  deriving DecidableEq, Repr

namespace Level

/-- All levels, the loosest first. -/
def all : List Level := [
  assignment, logicalOr, logicalAnd, equality, order, bitwiseOr, bitwiseXor, bitwiseAnd, shift, term, factor,
  unary, primary, list]

/-- The place of a level among all levels. -/
def rank : Level → Nat
  | assignment => 0
  | logicalOr => 1
  | logicalAnd => 2
  | equality => 3
  | order => 4
  | bitwiseOr => 5
  | bitwiseXor => 6
  | bitwiseAnd => 7
  | shift => 8
  | term => 9
  | factor => 10
  | unary => 11
  | primary => 12
  | list => 13

instance : LE Level := ⟨fun a b => a.rank ≤ b.rank⟩

instance : LT Level := ⟨fun a b => a.rank < b.rank⟩

instance (a b : Level) : Decidable (a ≤ b) := inferInstanceAs (Decidable (a.rank ≤ b.rank))

instance (a b : Level) : Decidable (a < b) := inferInstanceAs (Decidable (a.rank < b.rank))

/-- The loosest level that an operand in brackets may have. -/
def nested : Level := logicalOr

/-- The next tighter level. -/
def tighter? (level : Level) : Option Level :=
  all[level.rank + 1]?

end Level

end ExprLang
