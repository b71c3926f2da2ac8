import ExprLang.Lexeme.Tag
import ExprLang.Source.Basic

/-!
# Lexemes

A lexeme is a tagged span of a source.  The lexemes of a source are kept in the order of the source; the
lexeme of the end of the file closes them.
-/

namespace ExprLang

/-- A tagged span. -/
structure Lexeme where
  tag : Tag
  span : Span
  deriving DecidableEq, Repr

/-- The part of a text that a lexeme stands for. -/
def Lexeme.textIn (lexeme : Lexeme) (text : List Char) : Except Fault (List Char) :=
  sliceOf text lexeme.span

/-- Lexemes in the order of their source. -/
structure Lexemes where
  entries : Array Lexeme
  deriving DecidableEq, Repr

namespace Lexemes

/-- No lexemes. -/
def none : Lexemes := ⟨#[]⟩

/-- The lexemes of a list. -/
def ofList (lexemes : List Lexeme) : Lexemes := ⟨lexemes.toArray⟩

/-- The lexemes as a list. -/
def toList (lexemes : Lexemes) : List Lexeme :=
  lexemes.entries.toList

/-- Adds a lexeme at the end. -/
def push (lexemes : Lexemes) (lexeme : Lexeme) : Lexemes :=
  ⟨lexemes.entries.push lexeme⟩

/-- Removes the last lexeme, if there is one. -/
def pop (lexemes : Lexemes) : Lexemes :=
  ⟨lexemes.entries.pop⟩

/-- The last lexeme. -/
def last? (lexemes : Lexemes) : Option Lexeme :=
  lexemes.entries.back?

/-- The number of lexemes. -/
def size (lexemes : Lexemes) : Nat :=
  lexemes.entries.size

/-- Whether the last lexeme is the end of the file. -/
def isClosed (lexemes : Lexemes) : Bool :=
  lexemes.last?.any (·.tag = .endOfFile)

@[simp] theorem toList_ofList (lexemes : List Lexeme) : (ofList lexemes).toList = lexemes := rfl

end Lexemes

end ExprLang
