import ExprLang.Text.Quoted

/-!
# Faults

A fault is a broken promise inside the program, as opposed to a mistake in the text that is read.  It ends the
work at once.  Some faults come with a message; the others are violations of the plain rules of texts, lists
and natural numbers and have none.
-/

namespace ExprLang

/-- The causes of a fault. -/
inductive Fault where
  /-- A text was cut out of its range, backwards, or inside a character. -/
  | slice
  /-- A list was read past its end. -/
  | index
  /-- A natural number was taken from a smaller one. -/
  | underflow
  /-- A sum of counts was too large. -/
  | overflow
  /-- A list was to have more entries than there is room for. -/
  | noRoom
  /-- A span was to end before it starts. -/
  | reversedSpan (start stop : Nat)
  /-- The last lexeme was to be taken back before there was one. -/
  | nothingPushed
  /-- A list of lexemes to be read is not closed. -/
  | unclosedLexemes
  /-- A significand was divided by zero. -/
  | divisionByZero
  /-- The root of an expression without nodes was asked for. -/
  | noRoot
  /-- The operands of a node would start before the expression. -/
  | missingOperands (node : Nat)
  /-- A variable was defined without a type and without a value. -/
  | bareVariable
  /-- A literal holds a character that no literal has. -/
  | digitExpected (found : Char) (literal : List Char)
  /-- The exponent of a literal holds a character that no exponent has. -/
  | exponentExpected (found : Char) (exponent : List Char)
  /-- The last operand was asked for before there was one. -/
  | noOperand
  /-- An operator of the tightest level was to take a tighter operand. -/
  | noTighterLevel
  deriving DecidableEq, Repr

/-- The message of a fault that has one. -/
def Fault.message : Fault → Option String
  | slice | index | underflow | overflow | noRoom | noOperand | noTighterLevel => none
  | reversedSpan start stop => some s!"span starts after it ends: {start}..{stop}"
  | nothingPushed => some "a lexeme was just pushed"
  | unclosedLexemes => some "Lex does not end with an EOF"
  | divisionByZero => some "division of a significand by zero"
  | noRoot => some "empty expression has no root"
  | missingOperands node => some s!"node {node} claims operands before the start of the expression"
  | bareVariable => some "variable definition needs a type or an initial value"
  | digitExpected found literal =>
    some s!"unexpected character {quotedChar found} in decimal `{String.ofList literal}`"
  | exponentExpected found exponent =>
    some s!"unexpected character {quotedChar found} in exponent `{String.ofList exponent}`"

end ExprLang
