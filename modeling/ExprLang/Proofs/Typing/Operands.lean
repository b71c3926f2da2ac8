import ExprLang.Proofs.Comparison.Layout
import ExprLang.Proofs.Typing.Types

/-!
# Operands in either order

A literal takes its type from the other operand, whichever side it stands on: with a literal and an operand that is
none, an operator that is neither an assignment nor a shift has the same type in either order, or is rejected in both
(`Checker.infer_swapped`).  Both orders look at the operand that is no literal first, and what an operator asks of two
operands does not depend on their order (`Checker.suit_comm`).
-/

namespace ExprLang

/-- How many errors there are depends on the severities of the reports only. -/
private theorem Diagnostics.errorCount_eq_count (diagnostics : Diagnostics) :
    diagnostics.errorCount = diagnostics.severities.count .error := by
  rw [errorCount, ofSeverity, severities, List.count, List.countP_map, List.countP_eq_length_filter]
  rfl

namespace Checker

variable {α : Type} {text : List Char} {op : BinaryOperator} {span span' : Span} {left right : Term}

/-- Whether an operator that is no shift may have operands of two types. -/
def Suit (op : BinaryOperator) (first second : Ty) : Prop :=
  op.AppliesTo first ∧ op.AppliesTo second ∧ first = second

private theorem suit_comm {first second : Ty} : Suit op first second ↔ Suit op second first := by
  rw [Suit, Suit, and_left_comm, eq_comm]

/-! ### Rejections -/

/-- Whether a checker fails with one error and changes nothing else. -/
def Rejects (checker : Checker α) : Prop :=
  ∀ state, ∃ report, report.severity = .error ∧
    checker state = (.failed, { state with diagnostics := state.diagnostics.report report })

private theorem rejects_reject (span : Span) {issue : TypingIssue} (h : issue.severity = .error) :
    Rejects (reject span issue : Checker α) :=
  fun _ => ⟨issue.diagnostic span, h, rfl⟩

private theorem Rejects.bind {β : Type} {first : Checker α} (h : Rejects first) (next : α → Checker β) :
    Rejects (first >>= next) := by
  intro state
  obtain ⟨report, hseverity, hfirst⟩ := h state
  exact ⟨report, hseverity, by rw [Stage.bind_apply, hfirst]⟩

private theorem requireClass_of_appliesTo {operand : Term} (h : op.AppliesTo operand.type) :
    requireClass op operand = pure () := by
  rw [requireClass, BinaryOperator.accepts_operandClass_iff.2 h]
  rfl

private theorem rejects_requireClass {operand : Term} (h : ¬op.AppliesTo operand.type) :
    Rejects (requireClass op operand) := by
  rw [requireClass, Bool.eq_false_iff.2 (mt BinaryOperator.accepts_operandClass_iff.1 h)]
  exact rejects_reject _ rfl

/-- Operands that suit their operator are accepted. -/
private theorem requireOperands_of_suit (h : Suit op left.type right.type) (span : Span) :
    requireOperands op left right span = pure () := by
  rw [requireOperands, requireClass_of_appliesTo h.1, requireClass_of_appliesTo h.2.1]
  show (if (!op.isShift && decide (left.type ≠ right.type)) = true then _ else _) = _
  rw [if_neg (by simp [h.2.2])]

/-- Operands that do not suit an operator that is no shift are rejected with one error. -/
private theorem rejects_requireOperands (hshift : op.isShift = false) (h : ¬Suit op left.type right.type)
    (span : Span) :
    Rejects (requireOperands op left right span) := by
  rw [requireOperands]
  by_cases hleft : op.AppliesTo left.type
  · rw [requireClass_of_appliesTo hleft]
    by_cases hright : op.AppliesTo right.type
    · rw [requireClass_of_appliesTo hright]
      have hne : left.type ≠ right.type := fun hsame => h ⟨hleft, hright, hsame⟩
      show Rejects (if (!op.isShift && decide (left.type ≠ right.type)) = true then _ else _)
      rw [if_pos (by simp [hshift, hne])]
      exact rejects_reject _ rfl
    · exact (rejects_requireClass hright).bind _
  · exact (rejects_requireClass hleft).bind _

private theorem applyBinary_of_suit (hassign : op.isAssignment = false) (h : Suit op left.type right.type)
    (span : Span) :
    applyBinary op left right span
      = pure (.binary op left right (if op.yieldsBool then .bool else left.type) span) := by
  rw [applyBinary, requireOperands_of_suit h, hassign]
  rfl

private theorem rejects_applyBinary (hshift : op.isShift = false) (h : ¬Suit op left.type right.type) (span : Span) :
    Rejects (applyBinary op left right span) :=
  (rejects_requireOperands hshift h span).bind _

/-! ### Orders -/

/-- How the two orders of the operands end: with the same operands in swapped places, with as many reports that are as
serious, or with the same fault. -/
inductive Swapped (op : BinaryOperator) (span span' : Span) :
    Outcome Term × CheckerState → Outcome Term × CheckerState → Prop
  | done {first second type after} :
      Swapped op span span' (.done (.binary op first second type span), after)
        (.done (.binary op second first type span'), after)
  | failed {after last : CheckerState} (hscope : after.scope = last.scope) (hsymbols : after.symbols = last.symbols)
      (hreports : after.diagnostics.severities = last.diagnostics.severities)
      (herrors : after.diagnostics.errorCount = last.diagnostics.errorCount) :
      Swapped op span span' (.failed, after) (.failed, last)
  | fault {cause after} : Swapped op span span' (.fault cause, after) (.fault cause, after)

/-- A checker that comes first in both orders makes no difference. -/
private theorem swapped_bind {first : Checker α} {next further : α → Checker Term} {state : CheckerState}
    (h : ∀ value after, Swapped op span span' (next value after) (further value after)) :
    Swapped op span span' ((first >>= next) state) ((first >>= further) state) := by
  rw [Stage.bind_apply, Stage.bind_apply]
  rcases first state with ⟨value | _ | cause, after⟩
  · exact h value after
  · exact .failed rfl rfl rfl rfl
  · exact .fault

private theorem swapped_of_rejects {first second : Checker Term} (h : Rejects first) (h' : Rejects second)
    (state : CheckerState) : Swapped op span span' (first state) (second state) := by
  obtain ⟨report, hreport, hfirst⟩ := h state
  obtain ⟨report', hreport', hsecond⟩ := h' state
  have hseverities : (state.diagnostics.report report).severities = (state.diagnostics.report report').severities := by
    rw [Diagnostics.severities_report, Diagnostics.severities_report, hreport, hreport']
  rw [hfirst, hsecond]
  refine .failed rfl rfl hseverities ?_
  rw [Diagnostics.errorCount_eq_count, Diagnostics.errorCount_eq_count, hseverities]

private theorem applyBinary_swapped (hassign : op.isAssignment = false) (hshift : op.isShift = false)
    (left right : Term) (state : CheckerState) :
    Swapped op span span' (applyBinary op left right span state) (applyBinary op right left span' state) := by
  by_cases hsuit : Suit op left.type right.type
  · rw [applyBinary_of_suit hassign hsuit, applyBinary_of_suit hassign (suit_comm.1 hsuit), hsuit.2.2]
    exact .done
  · exact swapped_of_rejects (rejects_applyBinary hshift hsuit span)
      (rejects_applyBinary hshift (mt suit_comm.1 hsuit) span') state

/-- In either order, the operand that is no literal is looked at first. -/
private theorem looksRightFirst_of_isLiteral (hassign : op.isAssignment = false) (hshift : op.isShift = false)
    {literal other : Tree} (hliteral : literal.isLiteral = .ok true) (hother : other.isLiteral = .ok false) :
    looksRightFirst op literal other = .ok true ∧ looksRightFirst op other literal = .ok false := by
  rw [looksRightFirst, looksRightFirst, hassign, hshift, hliteral, hother]
  exact ⟨rfl, rfl⟩

/-- A literal and an operand that is none come to the same in either order. -/
theorem infer_swapped (text : List Char) (hassign : op.isAssignment = false) (hshift : op.isShift = false)
    {literal other : Tree} (hliteral : literal.isLiteral = .ok true) (hother : other.isLiteral = .ok false)
    {root root' : Node} (hroot : root.operator = .binary op) (hroot' : root'.operator = .binary op)
    (expected : Option Ty) (state : CheckerState) :
    Swapped op root.span root'.span (infer text (.node root [literal, other]) expected state)
      (infer text (.node root' [other, literal]) expected state) := by
  obtain ⟨hfirst, hsecond⟩ := looksRightFirst_of_isLiteral hassign hshift hliteral hother
  simp only [infer.eq_def text (.node _ (_ :: _ :: _)), hroot, hroot', hfirst, hsecond]
  refine swapped_bind fun otherTerm _ => swapped_bind fun literalTerm after => ?_
  exact applyBinary_swapped hassign hshift literalTerm otherTerm after

/-- Two times a variable of an unsigned type. -/
theorem infer_swapped_double :
    let literal : Tree := .node ⟨.literal, 0, ⟨0, 1, by decide⟩⟩ []
    let other : Tree := .node ⟨.name, 0, ⟨2, 3, by decide⟩⟩ []
    let root : Node := ⟨.binary .multiply, 2, ⟨0, 3, by decide⟩⟩
    let x : Symbol := ⟨['x'], ⟨0, 0, by decide⟩, .arithmetic (.integer .u16), true⟩
    let state : CheckerState := ⟨.none, ⟨[(['x'], ⟨0⟩)]⟩, #[x]⟩
    BinaryOperator.multiply.isAssignment = false ∧ BinaryOperator.multiply.isShift = false ∧
      literal.isLiteral = .ok true ∧ other.isLiteral = .ok false ∧ root.operator = .binary .multiply ∧
      Swapped .multiply root.span root.span (infer ['2', '*', 'x'] (.node root [literal, other]) none state)
        (infer ['2', '*', 'x'] (.node root [other, literal]) none state) := by
  intro literal other root x state
  have hroot : root.operator = .binary .multiply := rfl
  exact ⟨rfl, rfl, rfl, rfl, hroot, infer_swapped _ rfl rfl rfl rfl hroot hroot none state⟩

end Checker

end ExprLang
