import ExprLang.Reading.Statement

/-!
# Readers that build nothing

Only the readers of operators add nodes.  All others look at what is next, move over it and report, and are put together
from steps that do one of these (`Reader.IsPassive`).  What holds of the steps, and of readers that follow each other if
it holds of both, then holds of all readers of this kind.
-/

namespace ExprLang

namespace Reader

/-- Whether a reader is put together from steps that end, look, move over a lexeme or report.  What they look at does
not depend on the reports so far. -/
inductive IsPassive : {α : Type} → Reader α → Prop
  | pure {α : Type} (value : α) : IsPassive (Pure.pure value : Reader α)
  | fail {α : Type} : IsPassive (Stage.fail : Reader α)
  | raise {α : Type} (cause : Fault) : IsPassive (Stage.raise cause : Reader α)
  | observe {α : Type} {f : ReaderState → α} (h : ∀ state diagnostics, f { state with diagnostics } = f state) :
      IsPassive (Stage.observe f)
  | next : IsPassive Reader.next
  | report (span : Span) (issue : StatementIssue) : IsPassive (Reader.report span issue)
  | bind {α β : Type} {first : Reader α} {following : α → Reader β} (h : IsPassive first)
      (hfollowing : ∀ value, IsPassive (following value)) : IsPassive (first >>= following)

variable {text : List Char} {α : Type}

theorem isPassive_peek : peek.IsPassive := .observe fun _ _ => rfl

theorem isPassive_remaining : remaining.IsPassive := .observe fun _ _ => rfl

theorem isPassive_isAt (tag : Tag) : (isAt tag).IsPassive := .observe fun _ _ => rfl

theorem isPassive_ofExcept (result : Except Fault α) : IsPassive (Stage.ofExcept result : Reader α) := by
  cases result with
  | ok value => exact .pure value
  | error cause => exact .raise cause

theorem isPassive_eat? (tag : Tag) : (eat? tag).IsPassive := by
  refine (isPassive_isAt tag).bind fun found => ?_
  cases found with
  | true => exact .bind .next fun lexeme => .pure (some lexeme)
  | false => exact .pure none

theorem isPassive_found (lexeme : Lexeme) : (found text lexeme).IsPassive := by
  rw [found]
  split
  · exact .pure _
  · exact (isPassive_ofExcept _).bind fun _ => .pure _

theorem isPassive_lastSpan : lastSpan.IsPassive := by
  refine .bind (.observe fun _ _ => rfl) fun last => ?_
  cases last with
  | some node => exact .pure node.span
  | none => exact .raise .noOperand

/-! ### Expressions -/

theorem isPassive_tooDeep : IsPassive (tooDeep : Reader α) :=
  isPassive_peek.bind fun _ => .bind (.report _ _) fun _ => .fail

theorem isPassive_reportMissing (context : ReadingContext) : (reportMissing text context).IsPassive := by
  refine isPassive_peek.bind fun lexeme => ?_
  split
  · exact .pure ()
  · refine (isPassive_found lexeme).bind fun what => ?_
    cases context with
    | start => exact .report _ _
    | operator operator => exact (isPassive_ofExcept _).bind fun _ => .report _ _
    | opener opener => exact .bind (.report _ _) fun _ => (isPassive_ofExcept _).bind fun _ => .report _ _

theorem isPassive_expectCloser (closer : Mark) (opener : Lexeme) : (expectCloser text closer opener).IsPassive := by
  refine (isPassive_eat? _).bind fun closing => ?_
  cases closing with
  | some closing => exact .pure closing
  | none =>
    refine isPassive_peek.bind fun lexeme => (isPassive_found lexeme).bind fun _ => .bind (.report _ _) fun _ => ?_
    exact (isPassive_ofExcept _).bind fun _ => .bind (.report _ _) fun _ => .fail

/-! ### Statements -/

theorem isPassive_expect (tag : Tag) (expectation : Expectation) : (expect text tag expectation).IsPassive := by
  refine (isPassive_eat? tag).bind fun lexeme => ?_
  cases lexeme with
  | some lexeme => exact .pure lexeme
  | none =>
    refine isPassive_peek.bind fun lexeme => ?_
    split
    · exact (isPassive_found lexeme).bind fun _ => .bind (.report _ _) fun _ => .fail
    · exact .fail

private theorem isPassive_skipUnrecognized (limit : Nat) : (skipUnrecognized limit).IsPassive := by
  induction limit with
  | zero => exact .pure ()
  | succ limit ih =>
    refine (isPassive_isAt _).bind fun found => ?_
    cases found with
    | true => exact .bind .next fun _ => ih
    | false => exact .pure ()

theorem isPassive_expectTerminator (span : Span) : (expectTerminator text span).IsPassive := by
  refine (isPassive_isAt _).bind fun reported => isPassive_remaining.bind fun _ => ?_
  refine (isPassive_skipUnrecognized _).bind fun _ => (isPassive_eat? _).bind fun semicolon => ?_
  cases semicolon with
  | some semicolon => exact .pure _
  | none =>
    refine isPassive_peek.bind fun lexeme => ?_
    cases reported with
    | true => exact .pure span
    | false => exact (isPassive_found lexeme).bind fun _ => .bind (.report _ _) fun _ => .pure span

private theorem isPassive_skipStatement (limit : Nat) (last : Option Span) : (skipStatement limit last).IsPassive := by
  induction limit generalizing last with
  | zero => exact .pure last
  | succ limit ih =>
    refine isPassive_peek.bind fun lexeme => ?_
    split
    · exact .pure last
    · refine .bind .next fun _ => ?_
      split
      · exact .pure _
      · exact ih _

theorem isPassive_synchronize : synchronize.IsPassive := by
  refine isPassive_peek.bind fun first => isPassive_remaining.bind fun _ => ?_
  refine (isPassive_skipStatement _ none).bind fun last => ?_
  cases last with
  | some last => exact .report _ _
  | none => exact .pure ()

theorem isPassive_reportRun (run : Option Span) : (reportRun text run).IsPassive := by
  cases run with
  | none => exact .pure ()
  | some run => exact (isPassive_ofExcept _).bind fun _ => .report _ _

end Reader

end ExprLang
