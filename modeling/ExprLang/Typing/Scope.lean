import ExprLang.Text.Span
import ExprLang.Typing.Ty

/-!
# Symbols and scopes

A symbol is a name that has been defined.  A scope maps names to symbols; a name keeps the symbol that it was
given first.
-/

namespace ExprLang

/-- The number of a symbol in the order of definition. -/
structure SymbolId where
  index : Nat
  deriving DecidableEq, Repr

/-- A defined name. -/
structure Symbol where
  name : List Char
  /-- The place of the name in its definition. -/
  span : Span
  type : Ty
  mutable : Bool
  deriving DecidableEq, Repr

/-- The symbols of names, in the order in which they were added. -/
structure Scope where
  entries : List (List Char × SymbolId)
  deriving DecidableEq, Repr

namespace Scope

/-- The scope without names. -/
def empty : Scope := ⟨[]⟩

/-- The symbol of a name. -/
def find? (scope : Scope) (name : List Char) : Option SymbolId :=
  scope.entries.lookup name

/-- The scope with one more name, unless the name is taken. -/
def add? (scope : Scope) (name : List Char) (id : SymbolId) : Option Scope :=
  if (scope.find? name).isSome then none else some ⟨scope.entries ++ [(name, id)]⟩

end Scope

end ExprLang
