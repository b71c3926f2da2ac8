import ExprLang.Expression.Display

/-!
# Statements

A statement defines a name, with or without a type, or has an expression worked out whose value is discarded.
What `let` defines always has a value; what `var` defines has a type or a value.
-/

namespace ExprLang

/-- A statement.  Names are spans of the source. -/
inductive Statement where
  /-- `let name: type = value;` -/
  | letTyped (name : Span) (type value : Expression) (span : Span)
  /-- `let name = value;` -/
  | letPlain (name : Span) (value : Expression) (span : Span)
  /-- `var name: type = value;`, where the type or the value may be left out. -/
  | var (name : Span) (type value : Option Expression) (span : Span)
      (isDefined : type.isSome || value.isSome)
  /-- `value;` -/
  | discarded (value : Expression)
  deriving DecidableEq, Repr

namespace Statement

/-- The definition of a variable, which must have a type or a value. -/
def ofVariable (name : Span) (type value : Option Expression) (span : Span) : Except Fault Statement :=
  if h : type.isSome || value.isSome then .ok (var name type value span h) else .error .bareVariable

/-- An optional expression as it is printed, after `mark`. -/
def renderPart (text : List Char) (mark : String) : Option Expression → Except Fault String
  | some expr => do return mark ++ (← expr.render text)
  | none => .ok ""

/-- A statement as it is printed, in a text. -/
def render (text : List Char) : Statement → Except Fault String
  | letTyped name type value _ => do
    let name ← sliceOf text name
    let type ← type.render text
    let value ← value.render text
    return s!"let {String.ofList name}: {type} = {value};"
  | letPlain name value _ => do
    let name ← sliceOf text name
    let value ← value.render text
    return s!"let {String.ofList name} = {value};"
  | var name type value _ _ => do
    let name ← sliceOf text name
    let type ← renderPart text ": " type
    let value ← renderPart text " = " value
    return s!"var {String.ofList name}{type}{value};"
  | discarded value => do
    let value ← value.render text
    return s!"{value};"

end Statement

end ExprLang
