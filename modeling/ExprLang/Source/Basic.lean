import ExprLang.Text.Slice
import ExprLang.Text.Span

/-!
# Sources

A source is a named text that ends in a newline.  Offsets into it are turned into lines and columns, both
counted from 1, where a column counts characters and not bytes.  An offset past the end of the text stands for
its end.
-/

namespace ExprLang

/-- A named text. -/
structure Source where
  name : String
  text : List Char
  deriving Repr

/-- A line and a column, both counted from 1. -/
structure Location where
  line : Nat
  column : Nat
  deriving DecidableEq, Repr

/-- A location as it is printed. -/
def Location.render (location : Location) : String :=
  s!"{location.line}:{location.column}"

/-- The part of a text between two offsets. -/
def sliceBetween (text : List Char) (start stop : Nat) : Except Fault (List Char) :=
  match sliceBytes? start stop text with
  | some part => .ok part
  | none => .error .slice

/-- The part of a text in a span. -/
def sliceOf (text : List Char) (span : Span) : Except Fault (List Char) :=
  sliceBetween text span.start span.stop

namespace Source

/-- The source with a given content.  The newline added at its end lets every line have an end. -/
def ofContent (name : String) (content : List Char) : Source where
  name := name
  text := content ++ ['\n']

/-- The number of bytes of the text. -/
def length (source : Source) : Nat :=
  byteLength source.text

/-- The part of the text in a span. -/
def slice (source : Source) (span : Span) : Except Fault (List Char) :=
  sliceOf source.text span

/-- The characters before an offset, nearest first, and those after it. -/
def around (source : Source) (offset : Nat) : Except Fault (List Char × List Char) :=
  match splitBytes? (min offset source.length) source.text with
  | some parts => .ok parts
  | none => .error .slice

/-- The line and column of an offset. -/
def location (source : Source) (offset : Nat) : Except Fault Location := do
  let (before, _) ← source.around offset
  return { line := before.count '\n' + 1, column := (before.takeWhile (· ≠ '\n')).length + 1 }

/-- The span of the line that holds an offset, without its newline. -/
def lineBounds (source : Source) (offset : Nat) : Except Fault Span := do
  let (before, after) ← source.around offset
  let place := min offset source.length
  return {
    start := place - byteLength (before.takeWhile (· ≠ '\n'))
    stop := place + byteLength (after.takeWhile (· ≠ '\n')) }

end Source

end ExprLang
