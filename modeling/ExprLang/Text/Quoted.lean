import ExprLang.Text.Printable

/-!
# Quoted text

Characters and texts in quotes, for messages and dumps.  A tab, a line break, a carriage return, the null
character, a backslash and the wrapping quote are written with a backslash; any other character that cannot be
shown by itself is written by its number, `\u{7f}`; the rest stands for itself.
-/

namespace ExprLang

/-- The digits of a number in lower-case hexadecimal. -/
def hexDigits (n : Nat) : List Char :=
  Nat.toDigits 16 n

/-- One character as it is written between two `quote` characters. -/
def escape (quote c : Char) : List Char :=
  match c with
  | '\t' => ['\\', 't']
  | '\r' => ['\\', 'r']
  | '\n' => ['\\', 'n']
  | '\x00' => ['\\', '0']
  | '\\' => ['\\', '\\']
  | c =>
    if c = quote then ['\\', c]
    else if isShown c then [c]
    else ['\\', 'u', '\x7b'] ++ hexDigits c.toNat ++ ['\x7d']

/-- A text between `quote` characters. -/
def quotedBy (quote : Char) (text : List Char) : List Char :=
  quote :: text.flatMap (escape quote) ++ [quote]

/-- A character between single quotes. -/
def quotedChar (c : Char) : String :=
  String.ofList (quotedBy '\x27' [c])

/-- A text between double quotes. -/
def quotedText (text : List Char) : String :=
  String.ofList (quotedBy '\x22' text)

end ExprLang
