import ExprLang.Fault

/-!
# Counts

Counts and indices are kept in words of 64 bits, and so is every sum of them: a sum that does not fit is a
fault.  A list of indices takes eight bytes for each, and no list takes `2 ^ 63` bytes or more.
-/

namespace ExprLang

-- Powers mean the same here whatever else is imported.
attribute [local instance (high)] instPowNat

/-- All counts and indices are below this one. -/
def countLimit : Nat := 2 ^ (64 : Nat)

/-- The sum of two counts. -/
def addCounts (a b : Nat) : Except Fault Nat :=
  if a + b < countLimit then .ok (a + b) else .error .overflow

/-- Makes sure that a list has room for a number of indices. -/
def reserve (count : Nat) : Except Fault Unit :=
  if 8 * count < 2 ^ (63 : Nat) then .ok () else .error .noRoom

theorem addCounts_eq_ok {a b : Nat} (h : a + b < countLimit) : addCounts a b = .ok (a + b) :=
  if_pos h

theorem reserve_eq_ok_iff {count : Nat} : reserve count = .ok () ↔ 8 * count < 2 ^ (63 : Nat) := by
  unfold reserve
  split <;> simp_all

end ExprLang
