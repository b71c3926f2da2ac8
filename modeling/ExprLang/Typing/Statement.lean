import ExprLang.Reading.Statement
import ExprLang.Typing.Infer

/-!
# Programs of statements

The statements of a source are gone through in their order.  A definition adds its name to the scope when its
type is known, even if its value is wrong, and a name can be defined only once.  Statements that fail leave no
item in the program.
-/

namespace ExprLang

/-- The state of a checker that has not seen any statement. -/
def CheckerState.start (diagnostics : Diagnostics) : CheckerState where
  diagnostics := diagnostics
  scope := .empty
  symbols := #[]

/-- Whether the root of an expression changes a variable. -/
def Expression.hasEffect (expr : Expression) : Except Fault Bool := do
  let root ← expr.node (← expr.root)
  return root.operator.isAssignment || root.operator.isStep

namespace Checker

variable (text : List Char)

/-- Adds a symbol for a name. -/
def define (name : Span) (type : Ty) (mutable : Bool) : Checker SymbolId := do
  let spelling ← slice text name
  let id : SymbolId := ⟨(← Stage.observe (·.symbols)).size⟩
  let scope ← Stage.observe (·.scope)
  match scope.add? spelling id with
  | some scope =>
    Stage.change fun state => { state with
      scope
      symbols := state.symbols.push { name := spelling, span := name, type, mutable } }
    return id
  | none =>
    report name (.alreadyDefined spelling)
    if let some previous := scope.find? spelling then
      report (← symbol previous).span (.firstDefined spelling)
    Stage.fail

/-- The type that an expression names. -/
def resolveType (expr : Expression) : Checker Ty := do
  let root ← Stage.ofExcept (do expr.node (← expr.root))
  if root.operator ≠ .name then
    reject expr.span .expectedTypeName
  let name ← slice text root.span
  match Ty.ofName? name with
  | some type => return type
  | none => reject root.span (.notType name)

/-- The term of an expression that must have a type. -/
def inferAs (expr : Expression) (type : Ty) : Checker Term := do
  let term ← inferExpression text expr (some type)
  if term.type ≠ type then
    reject term.span (.unexpectedType type term.type)
  return term

/-- The term of the value of a definition, whose type may not be known. -/
def inferValue (expr : Expression) : Option Ty → Checker Term
  | some type => inferAs text expr type
  | none => inferExpression text expr none

/-- The item of a definition whose value was given as `value`, if at all. -/
def definitionItem (id : SymbolId) : Option (Option Term) → Checker Item
  | some (some value) => pure (.definition id (some value))
  | some none => Stage.fail
  | none => pure (.definition id none)

/-- The item of a statement. -/
def checkStatement : Statement → Checker Item
  | .letTyped name type value _ => do
    let type ← Stage.attempt (resolveType text type)
    let value ← Stage.attempt (inferValue text value type)
    match type with
    | none => Stage.fail
    | some type => definitionItem (← define text name type false) (some value)
  | .letPlain name value _ => do
    let value ← inferExpression text value none
    return .definition (← define text name value.type false) (some value)
  | .var name type value _ _ => do
    let type ← type.mapM (resolveType text)
    let value ← value.mapM fun value => Stage.attempt (inferValue text value type)
    match type <|> value.join.map Term.type with
    | none => Stage.fail
    | some type => definitionItem (← define text name type true) value
  | .discarded expr => do
    let value ← inferExpression text expr none
    if !(← Stage.ofExcept expr.hasEffect) then
      report expr.span .unusedValue
    return .expression value

/-- The items of statements, after `items`; statements that fail have none. -/
def checkStatements : List Statement → Array Item → Checker (Array Item)
  | [], items => pure items
  | statement :: statements, items => do
    match ← Stage.attempt (checkStatement text statement) with
    | some item => checkStatements statements (items.push item)
    | none => checkStatements statements items

/-- The program of statements. -/
def checkAll (statements : List Statement) : Checker Program := do
  let items ← checkStatements text statements #[]
  return { symbols := ← Stage.observe (·.symbols), items := items.toList }

end Checker

/-- The program of statements of a source, with the reports about it after those that there are. -/
def Source.program (source : Source) (statements : List Statement) (diagnostics : Diagnostics) :
    Outcome Program × Diagnostics :=
  let (outcome, state) := (Checker.checkAll source.text statements).run (.start diagnostics)
  (outcome, state.diagnostics)

end ExprLang
