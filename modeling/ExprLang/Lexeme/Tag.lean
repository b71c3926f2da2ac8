/-!
# Tags

A lexeme is a mark, a keyword, a name, a number, the end of the file, or a run of characters that is none of
these.  Marks and keywords have a fixed spelling.
-/

namespace ExprLang

/-- The punctuation of the language. -/
inductive Mark where
  | shlEq
  | shrEq
  | shl
  | shr
  | le
  | ge
  | eqEq
  | bangEq
  | ampAmp
  | pipePipe
  | plusPlus
  | minusMinus
  | plusEq
  | minusEq
  | starEq
  | slashEq
  | percentEq
  | ampEq
  | caretEq
  | pipeEq
  | lt
  | gt
  | eq
  | bang
  | tilde
  | plus
  | minus
  | star
  | slash
  | percent
  | amp
  | caret
  | pipe
  | lparen
  | rparen
  | lbracket
  | rbracket
  | comma
  | semi
  | colon
  deriving DecidableEq, Repr

/-- The reserved words of the language. -/
inductive Keyword where
  | let_
  | var
  deriving DecidableEq, Repr

/-- What kind of lexeme a lexeme is. -/
inductive Tag where
  | keyword (keyword : Keyword)
  | mark (mark : Mark)
  | name
  | decimal
  | endOfFile
  /-- A run of characters that is not recognised. -/
  | unrecognized
  deriving DecidableEq, Repr

namespace Mark

/-- All marks, longer spellings before their beginnings. -/
def all : List Mark := [
  .shlEq, .shrEq, .shl, .shr, .le, .ge, .eqEq, .bangEq, .ampAmp, .pipePipe, .plusPlus, .minusMinus,
  .plusEq, .minusEq, .starEq, .slashEq, .percentEq, .ampEq, .caretEq, .pipeEq, .lt, .gt, .eq, .bang,
  .tilde, .plus, .minus, .star, .slash, .percent, .amp, .caret, .pipe, .lparen, .rparen, .lbracket,
  .rbracket, .comma, .semi, .colon]

/-- The characters of a mark. -/
def spelling : Mark → List Char
  | shlEq => ['<', '<', '=']
  | shrEq => ['>', '>', '=']
  | shl => ['<', '<']
  | shr => ['>', '>']
  | le => ['<', '=']
  | ge => ['>', '=']
  | eqEq => ['=', '=']
  | bangEq => ['!', '=']
  | ampAmp => ['&', '&']
  | pipePipe => ['|', '|']
  | plusPlus => ['+', '+']
  | minusMinus => ['-', '-']
  | plusEq => ['+', '=']
  | minusEq => ['-', '=']
  | starEq => ['*', '=']
  | slashEq => ['/', '=']
  | percentEq => ['%', '=']
  | ampEq => ['&', '=']
  | caretEq => ['^', '=']
  | pipeEq => ['|', '=']
  | lt => ['<']
  | gt => ['>']
  | eq => ['=']
  | bang => ['!']
  | tilde => ['~']
  | plus => ['+']
  | minus => ['-']
  | star => ['*']
  | slash => ['/']
  | percent => ['%']
  | amp => ['&']
  | caret => ['^']
  | pipe => ['|']
  | lparen => ['(']
  | rparen => [')']
  | lbracket => ['[']
  | rbracket => [']']
  | comma => [',']
  | semi => [';']
  | colon => [':']

/-- The mark as text. -/
def render (mark : Mark) : String :=
  String.ofList mark.spelling

/-- The name of a mark in dumps. -/
def label : Mark → String
  | shlEq => "SHL_EQ"
  | shrEq => "SHR_EQ"
  | shl => "SHL"
  | shr => "SHR"
  | le => "LE"
  | ge => "GE"
  | eqEq => "EQ_EQ"
  | bangEq => "BANG_EQ"
  | ampAmp => "AMP_AMP"
  | pipePipe => "PIPE_PIPE"
  | plusPlus => "PLUS_PLUS"
  | minusMinus => "MINUS_MINUS"
  | plusEq => "PLUS_EQ"
  | minusEq => "MINUS_EQ"
  | starEq => "STAR_EQ"
  | slashEq => "SLASH_EQ"
  | percentEq => "PERCENT_EQ"
  | ampEq => "AMP_EQ"
  | caretEq => "CARET_EQ"
  | pipeEq => "PIPE_EQ"
  | lt => "LT"
  | gt => "GT"
  | eq => "EQ"
  | bang => "BANG"
  | tilde => "TILDE"
  | plus => "PLUS"
  | minus => "MINUS"
  | star => "STAR"
  | slash => "SLASH"
  | percent => "PERCENT"
  | amp => "AMP"
  | caret => "CARET"
  | pipe => "PIPE"
  | lparen => "LPAREN"
  | rparen => "RPAREN"
  | lbracket => "LBRACKET"
  | rbracket => "RBRACKET"
  | comma => "COMMA"
  | semi => "SEMI"
  | colon => "COLON"

/-- The longest mark at the front of a text. -/
def leading? (text : List Char) : Option Mark :=
  all.find? fun mark => mark.spelling.isPrefixOf text

theorem mem_all (mark : Mark) : mark ∈ all := by
  cases mark <;> decide

theorem spelling_ne_nil (mark : Mark) : mark.spelling ≠ [] := by
  cases mark <;> decide

end Mark

namespace Keyword

/-- All keywords. -/
def all : List Keyword := [.let_, .var]

/-- The characters of a keyword. -/
def spelling : Keyword → List Char
  | let_ => ['l', 'e', 't']
  | var => ['v', 'a', 'r']

/-- The keyword as text. -/
def render (keyword : Keyword) : String :=
  String.ofList keyword.spelling

/-- The name of a keyword in dumps. -/
def label : Keyword → String
  | let_ => "LET"
  | var => "VAR"

/-- The keyword spelled by a word. -/
def ofWord? (word : List Char) : Option Keyword :=
  all.find? fun keyword => keyword.spelling == word

end Keyword

namespace Tag

/-- The name of a tag in dumps. -/
def label : Tag → String
  | keyword word => word.label
  | mark sign => sign.label
  | name => "ID"
  | decimal => "DECIMAL"
  | endOfFile => "EOF"
  | unrecognized => "ERROR"

/-- How a tag reads in a message. -/
def describe : Tag → String
  | keyword word => s!"`{word.render}`"
  | mark sign => s!"`{sign.render}`"
  | name => "a name"
  | decimal => "a number"
  | endOfFile => "the end of the file"
  | unrecognized => "an unrecognized character"

end Tag

end ExprLang
