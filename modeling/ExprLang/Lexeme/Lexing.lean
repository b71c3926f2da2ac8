import ExprLang.Lexeme.Basic
import ExprLang.Source.Diagnostic
import ExprLang.Stage
import ExprLang.Text.Indexed

/-!
# Lexers

A lexer moves through a text by byte offsets and adds a lexeme for each part of it.  Blanks and comments come first,
then the longest mark, then words and numbers.  A word or a number must be followed by a separator; otherwise the
lexeme is taken back, and the characters up to the next separator are one lexeme that is not recognised, which is
reported.  The newline that ends every source stands for the end of the file: the closing lexeme is the empty span
before it.
-/

namespace ExprLang

/-! ### Classes of characters -/

/-- Spaces, tabs, line breaks and carriage returns. -/
def isBlank (c : Char) : Bool :=
  c = ' ' || c = '\t' || c = '\n' || c = '\r'

/-- The ASCII letters and the underscore. -/
def isWordStart (c : Char) : Bool :=
  c.isAlpha || c = '_'

/-- The ASCII letters and digits and the underscore. -/
def isWordChar (c : Char) : Bool :=
  c.isAlphanum || c = '_'

/-- The ASCII digits and the underscore that may stand between them. -/
def isDigitOrGap (c : Char) : Bool :=
  c.isDigit || c = '_'

/-- The signs of a number and of its exponent. -/
def isSign (c : Char) : Bool :=
  c = '+' || c = '-'

/-- The letters that begin an exponent. -/
def isExponentStart (c : Char) : Bool :=
  c = 'e' || c = 'E'

/-- Whether a comment is at the front of a text. -/
def startsComment (text : List Char) : Bool :=
  ['/', '/'].isPrefixOf text

/-- Whether a text is over, or a blank, a comment or a mark is at its front. -/
def isAtSeparator : List Char → Bool
  | [] => true
  | c :: rest => isBlank c || startsComment (c :: rest) || (Mark.leading? (c :: rest)).isSome

/-- The tag of a word. -/
def wordTag (word : List Char) : Tag :=
  match Keyword.ofWord? word with
  | some keyword => .keyword keyword
  | none => .name

/-- What is said about an unrecognised run. -/
def unrecognizedMessage (run : List Char) : String :=
  if run.length = 1 then s!"this character is not recognized: `{String.ofList run}`"
  else s!"these characters are not recognized: `{String.ofList run}`"

/-! ### Lexers -/

/-- What a lexer works on. -/
structure LexerState where
  /-- The byte offset of what comes next. -/
  position : Nat
  lexemes : Lexemes
  diagnostics : Diagnostics

/-- The state of a lexer that has not begun. -/
def LexerState.start : LexerState where
  position := 0
  lexemes := .none
  diagnostics := .none

/-- A computation that takes a text apart. -/
abbrev Lexer (α : Type) : Type :=
  Stage LexerState α

namespace Lexer

variable (text : IndexedText)

/-- The position. -/
def position : Lexer Nat :=
  Stage.observe (·.position)

/-- Sets the position. -/
def moveTo (position : Nat) : Lexer Unit :=
  Stage.change fun state => { state with position }

/-- The characters from the position on. -/
def ahead : Lexer (List Char) := do
  Stage.ofExcept (text.after (← position))

/-- The characters from an offset up to the position. -/
def passed (start : Nat) : Lexer (List Char) := do
  Stage.ofExcept (text.slice start (← position))

/-- Moves over the next character if it has a property. -/
def eatChar (p : Char → Bool) : Lexer Bool := do
  match ← ahead text with
  | [] => return false
  | c :: _ =>
    if p c then
      moveTo ((← position) + c.utf8Size)
      return true
    else
      return false

/-- Moves over the characters before which the text has a property. -/
def skipWhile (p : List Char → Bool) : Lexer Unit := do
  moveTo (← Stage.ofExcept (text.skipWhile p (← position)))

/-! ### Lexemes -/

/-- Adds a lexeme that reaches from an offset to the position. -/
def push (tag : Tag) (start : Nat) : Lexer Unit := do
  let span ← Stage.ofExcept (Span.between start (← position))
  Stage.change fun state => { state with lexemes := state.lexemes.push { tag, span } }

/-- Takes the last lexeme back and moves to its start. -/
def takeBack : Lexer Unit := do
  match ← Stage.observe (·.lexemes.last?) with
  | some lexeme => Stage.change fun state =>
      { state with position := lexeme.span.start, lexemes := state.lexemes.pop }
  | none => Stage.raise .nothingPushed

/-- Moves over blanks, if there are any. -/
def skipBlanks : Lexer Bool := do
  let start ← position
  skipWhile text (·.head?.any isBlank)
  return (← position) ≠ start

/-- Moves over a comment, if there is one, to the end of its line. -/
def skipComment : Lexer Bool := do
  if startsComment (← ahead text) then
    skipWhile text (·.head?.any (· ≠ '\n'))
    return true
  else
    return false

/-- Adds a mark, if there is one. -/
def lexMark : Lexer Bool := do
  match Mark.leading? (← ahead text) with
  | none => return false
  | some mark =>
    let start ← position
    moveTo (start + byteLength mark.spelling)
    push (.mark mark) start
    return true

/-- Adds the end of the file, if the text is over. -/
def lexEnd : Lexer Bool := do
  if (← position) < text.length then
    return false
  else
    Stage.change fun state => { state with
      lexemes := state.lexemes.push { tag := .endOfFile, span := .empty (text.length - 1) } }
    return true

/-- Adds a name or a keyword, if there is one. -/
def lexWord : Lexer Bool := do
  let start ← position
  if ← eatChar text isWordStart then
    skipWhile text (·.head?.any isWordChar)
    push (wordTag (← passed text start)) start
    return true
  else
    return false

/-- Moves over digits, with gaps after the first, if there are any. -/
def eatDigits : Lexer Bool := do
  if ← eatChar text Char.isDigit then
    skipWhile text (·.head?.any isDigitOrGap)
    return true
  else
    return false

/-- Moves over a point and the digits after it, if there are both. -/
def eatFraction : Lexer Unit := do
  let start ← position
  if ← eatChar text (· = '.') then
    if !(← eatDigits text) then
      moveTo start

/-- Moves over an exponent, if there is a whole one. -/
def eatExponent : Lexer Unit := do
  let start ← position
  if ← eatChar text isExponentStart then
    let _ ← eatChar text isSign
    if !(← eatDigits text) then
      moveTo start

/-- Adds a number, if there is one.  A fraction or an exponent that breaks off is left out. -/
def lexDecimal : Lexer Bool := do
  let start ← position
  let _ ← eatChar text isSign
  if ← eatDigits text then
    eatFraction text
    eatExponent text
    push .decimal start
    return true
  else
    moveTo start
    return false

/-- Adds a word or a number, if there is one. -/
def lexAtom : Lexer Bool := do
  if ← lexWord text then
    return true
  else
    lexDecimal text

/-- Adds the characters up to the next separator, and at least one, as a lexeme that is not recognised. -/
def lexUnrecognized : Lexer Unit := do
  let start ← position
  let _ ← eatChar text fun _ => true
  skipWhile text (!isAtSeparator ·)
  let run ← passed text start
  push .unrecognized start
  let span ← Stage.ofExcept (Span.between start (← position))
  Stage.change fun state => { state with
    diagnostics := state.diagnostics.report { severity := .error, span, message := unrecognizedMessage run } }

/-- Adds a word or a number that a separator follows, or else characters that are not recognised. -/
def lexRun : Lexer Unit := do
  if ← lexAtom text then
    if isAtSeparator (← ahead text) then
      return ()
    else
      takeBack
      lexUnrecognized text
  else
    lexUnrecognized text

/-- Takes the next part off the text.  Whether there may be another one is returned. -/
def lexNext : Lexer Bool := do
  if ← skipBlanks text then
    return true
  else if ← skipComment text then
    return true
  else if ← lexMark text then
    return true
  else if ← lexEnd text then
    return false
  else
    lexRun text
    return true

/-- Takes the text apart, in at most `limit` rounds. -/
def rounds : (limit : Nat) → Lexer Unit
  | 0 => pure ()
  | limit + 1 => do
    if ← lexNext text then
      rounds limit

/-- The lexemes of the text.  Each round but the last one takes a byte at least. -/
def lexAll : Lexer Lexemes := do
  rounds text (text.length + 1)
  Stage.observe (·.lexemes)

end Lexer

namespace Source

/-- The lexemes of a source, with the reports about them. -/
def lex (source : Source) : Outcome Lexemes × Diagnostics :=
  let (outcome, state) := (Lexer.lexAll (.ofText source.text)).run .start
  (outcome, state.diagnostics)

/-- The lexemes of a source. -/
def lexemes (source : Source) : Lexemes :=
  match source.lex.1 with
  | .done lexemes => lexemes
  | .failed | .fault _ => .none

/-- The reports about the lexemes of a source. -/
def lexicalDiagnostics (source : Source) : Diagnostics :=
  source.lex.2

/-- The tags and characters of the lexemes of a source. -/
def tagsAndTexts (source : Source) : Except Fault (List (Tag × List Char)) :=
  source.lexemes.toList.mapM fun lexeme => do return (lexeme.tag, ← lexeme.textIn source.text)

end Source

end ExprLang
