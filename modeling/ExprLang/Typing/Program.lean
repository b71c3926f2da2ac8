import ExprLang.Decimal.FloatText
import ExprLang.Operator.Basic
import ExprLang.Typing.Scope

/-!
# Programs

A program is what has been understood of a source: the symbols it defines and, in the order of the statements,
the definitions and expressions, with a type at every place of every expression.
-/

namespace ExprLang

/-- An expression with its types. -/
inductive Term where
  | constant (value : Value) (type : Ty) (span : Span)
  | symbol (id : SymbolId) (type : Ty) (span : Span)
  | unary (op : UnaryOperator) (operand : Term) (type : Ty) (span : Span)
  | binary (op : BinaryOperator) (left right : Term) (type : Ty) (span : Span)
  deriving DecidableEq, Repr

/-- What a statement comes to. -/
inductive Item where
  | definition (id : SymbolId) (value : Option Term)
  | expression (value : Term)
  deriving DecidableEq, Repr

/-- The symbols and items of a source. -/
structure Program where
  symbols : Array Symbol
  items : List Item
  deriving DecidableEq, Repr

namespace Term

/-- The type of a term. -/
def type : Term → Ty
  | constant _ type _ | symbol _ type _ | unary _ _ type _ | binary _ _ _ type _ => type

/-- The span of a term. -/
def span : Term → Span
  | constant _ _ span | symbol _ _ span | unary _ _ _ span | binary _ _ _ _ span => span

/-- The term with another span. -/
def withSpan (span : Span) : Term → Term
  | constant value type _ => constant value type span
  | symbol id type _ => symbol id type span
  | unary op operand type _ => unary op operand type span
  | binary op left right type _ => binary op left right type span

/-- The symbol that a term is. -/
def symbol? : Term → Option SymbolId
  | symbol id _ _ => some id
  | _ => none

end Term

/-- The symbol with a number. -/
def symbolAt (symbols : Array Symbol) (id : SymbolId) : Except Fault Symbol :=
  match symbols[id.index]? with
  | some symbol => .ok symbol
  | none => .error .index

/-- A term as it is printed: fully bracketed, each operator before its operands. -/
def Term.render (symbols : Array Symbol) : Term → Except Fault String
  | constant value _ _ => .ok value.render
  | symbol id _ _ => do return String.ofList (← symbolAt symbols id).name
  | unary op operand _ _ => do
    let operand ← operand.render symbols
    return s!"({op.symbol} {operand})"
  | binary op left right _ _ => do
    let left ← left.render symbols
    let right ← right.render symbols
    return s!"({op.mark.render} {left} {right})"

/-- An item as it is printed. -/
def Item.render (symbols : Array Symbol) : Item → Except Fault String
  | definition id value => do
    let symbol ← symbolAt symbols id
    let keyword := if symbol.mutable then Keyword.var else Keyword.let_
    let value ← match value with
      | some value => do pure (" = " ++ (← value.render symbols))
      | none => pure ""
    return s!"{keyword.render} {String.ofList symbol.name}: {symbol.type.name}{value}\n"
  | expression value => do
    let shown ← value.render symbols
    return s!"{shown}: {value.type.name}\n"

namespace Program

/-- The first symbol with a name. -/
def find? (program : Program) (name : List Char) : Option Symbol :=
  program.symbols.find? (·.name == name)

/-- A program as it is printed, one line for each item. -/
def render (program : Program) : Except Fault String := do
  return String.join (← program.items.mapM (·.render program.symbols))

end Program

end ExprLang
