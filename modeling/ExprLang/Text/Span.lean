import ExprLang.Fault

/-!
# Spans

A span is a half-open range of byte offsets into a text.
-/

namespace ExprLang

/-- The byte offsets from `start` up to but not including `stop`. -/
structure Span where
  start : Nat
  stop : Nat
  start_le_stop : start ≤ stop := by omega
  deriving DecidableEq, Repr

namespace Span

/-- The span between two offsets, which must not be reversed. -/
def between (start stop : Nat) : Except Fault Span :=
  if h : start ≤ stop then .ok ⟨start, stop, h⟩ else .error (.reversedSpan start stop)

/-- The empty span at an offset. -/
def empty (offset : Nat) : Span where
  start := offset
  stop := offset

instance : Inhabited Span := ⟨empty 0⟩

/-- Whether the span holds no byte. -/
def isEmpty (span : Span) : Bool :=
  span.start == span.stop

/-- The smallest span that covers both. -/
def join (a b : Span) : Span where
  start := min a.start b.start
  stop := max a.stop b.stop
  start_le_stop := by have := a.start_le_stop; have := b.start_le_stop; omega

@[ext] theorem ext {a b : Span} (hstart : a.start = b.start) (hstop : a.stop = b.stop) : a = b := by
  cases a; cases b; simp_all

end Span

end ExprLang
