import ExprLang.Typing.Program

/-!
# Programs without their places

The spans in a program say where its parts stand in the source.  Without them it has the same types and is printed the
same way (`Program.render_unplaced`).
-/

namespace ExprLang

/-! ### Terms -/

namespace Term

/-- The term with all its parts at no place. -/
def unplaced : Term → Term
  | constant value type _ => constant value type (.empty 0)
  | symbol id type _ => symbol id type (.empty 0)
  | unary op operand type _ => unary op operand.unplaced type (.empty 0)
  | binary op left right type _ => binary op left.unplaced right.unplaced type (.empty 0)

variable (term : Term)

@[simp] theorem type_unplaced : term.unplaced.type = term.type := by
  cases term <;> rfl

@[simp] theorem symbol?_unplaced : term.unplaced.symbol? = term.symbol? := by
  cases term <;> rfl

@[simp] theorem unplaced_withSpan (span : Span) : (term.withSpan span).unplaced = term.unplaced := by
  cases term <;> rfl

end Term

/-! ### Symbols -/

/-- The symbol with its name at no place. -/
def Symbol.unplaced (symbol : Symbol) : Symbol :=
  { symbol with span := .empty 0 }

theorem Symbol.eq_of_unplaced_eq {a b : Symbol} (h : a.unplaced = b.unplaced) :
    a.name = b.name ∧ a.type = b.type ∧ a.mutable = b.mutable := by
  obtain ⟨hname, -, htype, hmutable⟩ := Symbol.mk.inj h
  exact ⟨hname, htype, hmutable⟩

theorem symbolAt_unplaced (symbols : Array Symbol) (id : SymbolId) :
    symbolAt (symbols.map Symbol.unplaced) id = (symbolAt symbols id).map Symbol.unplaced := by
  rw [symbolAt, symbolAt, Array.getElem?_map]
  cases symbols[id.index]? with
  | none => rfl
  | some symbol => rfl

/-! ### Programs -/

/-- The item with all its parts at no place. -/
def Item.unplaced : Item → Item
  | definition id value => definition id (value.map Term.unplaced)
  | expression value => expression value.unplaced

/-- The program with all its parts at no place. -/
def Program.unplaced (program : Program) : Program where
  symbols := program.symbols.map Symbol.unplaced
  items := program.items.map Item.unplaced

private theorem Term.render_unplaced (symbols : Array Symbol) (term : Term) :
    term.unplaced.render (symbols.map Symbol.unplaced) = term.render symbols := by
  induction term with
  | constant value type span => rfl
  | symbol id type span =>
    rw [unplaced, render, render, symbolAt_unplaced]
    cases symbolAt symbols id with
    | error cause => rfl
    | ok symbol => rfl
  | unary op operand type span ih => rw [unplaced, render, render, ih]
  | binary op left right type span ihLeft ihRight => rw [unplaced, render, render, ihLeft, ihRight]

private theorem Item.render_unplaced (symbols : Array Symbol) (item : Item) :
    item.unplaced.render (symbols.map Symbol.unplaced) = item.render symbols := by
  cases item with
  | definition id value =>
    rw [unplaced, render, render, symbolAt_unplaced]
    cases symbolAt symbols id with
    | error cause => rfl
    | ok symbol =>
      cases value with
      | none => rfl
      | some value =>
        simp only [Option.map_some, Term.render_unplaced]
        rfl
  | expression value => rw [unplaced, render, render, Term.render_unplaced, Term.type_unplaced]

/-- Where its parts stand makes no difference to how a program is printed. -/
theorem Program.render_unplaced (program : Program) : program.unplaced.render = program.render := by
  have hitems : program.unplaced.items.mapM (·.render program.unplaced.symbols)
      = program.items.mapM (·.render program.symbols) := by
    rw [unplaced, List.mapM_map]
    congr 1
    funext item
    exact item.render_unplaced program.symbols
  rw [render, render, hitems]

end ExprLang
