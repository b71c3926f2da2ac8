import ExprLang.Source.Diagnostic

/-!
# Printed diagnostics

A diagnostic is printed as a header with its place, severity and message, followed by the source lines it is
about, each underlined.  Of a span over several lines the first and the last line are shown; a single line
between them is shown as well, and more than one is left out.
-/

namespace ExprLang

/-- A piece of the source shown below a header. -/
inductive Excerpt where
  /-- The line in `bounds`, underlined from the offset `first` to the offset `last`. -/
  | line (bounds : Span) (first last : Nat)
  /-- Lines that are left out. -/
  | elided
  deriving DecidableEq, Repr

/-- The excerpts between the lines `first` and `last`, which differ. -/
def Source.excerptsBetween (source : Source) (first last : Span) : Except Fault (List Excerpt) := do
  let gap ← sliceBetween source.text first.stop last.start
  match gap.count '\n' with
  | 0 => throw .underflow
  | 1 => return []
  | 2 =>
    let middle ← source.lineBounds (first.stop + 1)
    return [.line middle middle.start middle.stop]
  | _ => return [.elided]

/-- The excerpts that show a span. -/
def Source.excerpts (source : Source) (span : Span) : Except Fault (List Excerpt) := do
  let first ← source.lineBounds span.start
  let last ← source.lineBounds (max (span.stop - 1) span.start)
  if last.start = first.start then
    return [.line first span.start (max (min span.stop first.stop) span.start)]
  let middle ← source.excerptsBetween first last
  return .line first span.start first.stop :: middle ++ [.line last last.start (min span.stop last.stop)]

/-- The marks below a line: tabs are kept, so that the marks stand below what they mark. -/
def Source.underline (source : Source) (bounds : Span) (first last : Nat) : Except Fault (List Char) := do
  let indent ← sliceBetween source.text bounds.start first
  let marked ← sliceBetween source.text first last
  return indent.map (fun c => if c = '\t' then '\t' else ' ') ++ List.replicate (max marked.length 1) '~'

/-- An excerpt as it is printed. -/
def Source.renderExcerpt (source : Source) : Excerpt → Except Fault String
  | .line bounds first last => do
    let shown ← source.slice bounds
    let marks ← source.underline bounds first last
    return String.ofList (shown ++ '\n' :: marks ++ ['\n'])
  | .elided => return "...\n"

/-- The location of the last character of a span, or of its start if it is empty. -/
def Source.endLocation (source : Source) (span : Span) : Except Fault Location := do
  match splitBytes? span.stop source.text with
  | none => throw .slice
  | some ([], _) => source.location span.start
  | some (c :: _, _) =>
    if span.isEmpty then source.location span.start else source.location (span.stop - c.utf8Size)

/-- A diagnostic as it is printed. -/
def Source.render (source : Source) (diagnostic : Diagnostic) : Except Fault String := do
  let start ← source.location diagnostic.span.start
  let stop ← source.endLocation diagnostic.span
  let excerpts ← source.excerpts diagnostic.span
  let shown ← excerpts.mapM source.renderExcerpt
  return s!"{source.name}:{start.render}-{stop.render}: {diagnostic.severity.render}: {diagnostic.message}\n"
    ++ String.join shown

end ExprLang
