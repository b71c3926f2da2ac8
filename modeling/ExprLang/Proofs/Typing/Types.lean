import ExprLang.Proofs.Decimal.Values
import ExprLang.Typing.Infer

/-!
# Well-typed programs

What the types of a term have to do with each other is said by one rule for each kind of term (`Term.IsTyped`): which
operands an operator may have, and which type comes out.  In a well-typed program all terms are, and the value of a
definition has the type of its symbol (`Program.IsTyped`).
-/

namespace ExprLang

/-! ### Operands -/

/-- Whether a unary operator may have an operand of a type. -/
def UnaryOperator.AppliesTo : UnaryOperator → Ty → Prop
  | not, type => type = .bool
  | complement, type => ∃ kind, type = .arithmetic (.integer kind)
  | negate, type =>
    (∃ kind : IntegerType, kind.isUnsigned = false ∧ type = .arithmetic (.integer kind)) ∨
      ∃ kind, type = .arithmetic (.float kind)
  | plus, type | preIncrement, type | preDecrement, type | postIncrement, type | postDecrement, type =>
    ∃ kind, type = .arithmetic kind

/-- Whether a binary operator may have an operand of a type. -/
def BinaryOperator.AppliesTo : BinaryOperator → Ty → Prop
  | assign, _ | equal, _ | notEqual, _ => True
  | logicalOr, type | logicalAnd, type => type = .bool
  | remainder, type | bitAnd, type | bitOr, type | bitXor, type | shiftLeft, type | shiftRight, type
  | remainderAssign, type | andAssign, type | orAssign, type | xorAssign, type | shiftLeftAssign, type
  | shiftRightAssign, type => ∃ kind, type = .arithmetic (.integer kind)
  | add, type | subtract, type | multiply, type | divide, type | less, type | lessEqual, type | greater, type
  | greaterEqual, type | addAssign, type | subtractAssign, type | multiplyAssign, type | divideAssign, type =>
    ∃ kind, type = .arithmetic kind

/-- The type of a binary operator whose left operand has a type. -/
def BinaryOperator.resultType : BinaryOperator → Ty → Ty
  | equal, _ | notEqual, _ | less, _ | lessEqual, _ | greater, _ | greaterEqual, _ => .bool
  | logicalOr, _ | logicalAnd, _ => .bool
  | _, type => type

private theorem Ty.isArithmetic_iff {type : Ty} : type.isArithmetic = true ↔ ∃ kind, type = .arithmetic kind := by
  cases type <;> simp [isArithmetic, arithmetic?]

private theorem Ty.isInteger_iff {type : Ty} : type.isInteger = true ↔ ∃ kind, type = .arithmetic (.integer kind) := by
  rcases type with (_ | _) | _ <;> simp [isInteger]

theorem UnaryOperator.accepts_iff {op : UnaryOperator} {type : Ty} : op.accepts type = true ↔ op.AppliesTo type := by
  cases op with
  | not => simp [accepts, AppliesTo]
  | complement => exact Ty.isInteger_iff
  | negate =>
    rcases type with (kind | kind) | _ <;>
      simp [accepts, AppliesTo, Ty.isArithmetic, Ty.isUnsigned, Ty.arithmetic?, ArithmeticType.isUnsigned]
  | _ => exact Ty.isArithmetic_iff

theorem BinaryOperator.accepts_operandClass_iff {op : BinaryOperator} {type : Ty} :
    op.operandClass.accepts type = true ↔ op.AppliesTo type := by
  cases op <;>
    first
    | exact iff_of_true rfl trivial
    | exact decide_eq_true_iff
    | exact Ty.isInteger_iff
    | exact Ty.isArithmetic_iff

theorem BinaryOperator.resultType_eq (op : BinaryOperator) (type : Ty) :
    op.resultType type = if op.yieldsBool then .bool else type := by
  cases op <;> rfl

/-! ### Terms -/

/-- Whether a term is a symbol that may change. -/
def Term.IsVariable (symbols : Array Symbol) (term : Term) : Prop :=
  ∃ id type span symbol, term = .symbol id type span ∧ symbols[id.index]? = some symbol ∧ symbol.mutable = true

/-- The rules of types. -/
inductive Term.IsTyped (symbols : Array Symbol) : Term → Prop
  | constant {value kind span} (hvalue : value.IsOf kind) : IsTyped symbols (.constant value (.arithmetic kind) span)
  | symbol {id symbol span} (hsymbol : symbols[id.index]? = some symbol) :
      IsTyped symbols (.symbol id symbol.type span)
  | unary {op operand span} (hoperand : IsTyped symbols operand) (happlies : op.AppliesTo operand.type)
      (htarget : op.isStep = true → operand.IsVariable symbols) :
      IsTyped symbols (.unary op operand operand.type span)
  | binary {op left right span} (hleft : IsTyped symbols left) (hright : IsTyped symbols right)
      (happliesLeft : op.AppliesTo left.type) (happliesRight : op.AppliesTo right.type)
      (hsame : op.isShift = false → left.type = right.type)
      (htarget : op.isAssignment = true → left.IsVariable symbols) :
      IsTyped symbols (.binary op left right (op.resultType left.type) span)

/-- Whether an item of a program is well typed. -/
def Item.IsTyped (symbols : Array Symbol) : Item → Prop
  | definition id value => ∃ symbol, symbols[id.index]? = some symbol ∧
      ∀ term ∈ value, term.IsTyped symbols ∧ term.type = symbol.type
  | expression value => value.IsTyped symbols

/-- Whether all items of a program are well typed. -/
def Program.IsTyped (program : Program) : Prop :=
  ∀ item ∈ program.items, item.IsTyped program.symbols

/-! ### More symbols -/

section

variable {symbols more : Array Symbol}

private theorem getElem?_of_isPrefix (h : symbols.toList <+: more.toList) {index : Nat} {symbol : Symbol}
    (hsymbol : symbols[index]? = some symbol) : more[index]? = some symbol := by
  rw [← Array.getElem?_toList] at hsymbol ⊢
  obtain ⟨rest, hrest⟩ := h
  rw [← hrest, List.getElem?_append_left (List.getElem?_eq_some_iff.1 hsymbol).1]
  exact hsymbol

private theorem Term.IsVariable.mono {term : Term} (h : term.IsVariable symbols)
    (hmore : symbols.toList <+: more.toList) :
    term.IsVariable more := by
  obtain ⟨id, type, span, symbol, hterm, hsymbol, hmutable⟩ := h
  exact ⟨id, type, span, symbol, hterm, getElem?_of_isPrefix hmore hsymbol, hmutable⟩

theorem Term.IsTyped.mono {term : Term} (h : term.IsTyped symbols) (hmore : symbols.toList <+: more.toList) :
    term.IsTyped more := by
  induction h with
  | constant hvalue => exact .constant hvalue
  | symbol hsymbol => exact .symbol (getElem?_of_isPrefix hmore hsymbol)
  | unary _ happlies htarget ih => exact .unary ih happlies fun hstep => (htarget hstep).mono hmore
  | binary _ _ happliesLeft happliesRight hsame htarget ihLeft ihRight =>
    exact .binary ihLeft ihRight happliesLeft happliesRight hsame fun hassign => (htarget hassign).mono hmore

theorem Item.IsTyped.mono {item : Item} (h : item.IsTyped symbols) (hmore : symbols.toList <+: more.toList) :
    item.IsTyped more := by
  cases item with
  | definition id value =>
    obtain ⟨symbol, hsymbol, hvalue⟩ := h
    exact ⟨symbol, getElem?_of_isPrefix hmore hsymbol, fun term hmem =>
      ⟨(hvalue term hmem).1.mono hmore, (hvalue term hmem).2⟩⟩
  | expression value => exact Term.IsTyped.mono h hmore

end

/-- A term is as well typed with another span. -/
theorem Term.IsTyped.withSpan {symbols : Array Symbol} {term : Term} (h : term.IsTyped symbols) (span : Span) :
    (term.withSpan span).IsTyped symbols := by
  cases h with
  | constant hvalue => exact .constant hvalue
  | symbol hsymbol => exact .symbol hsymbol
  | unary hoperand happlies htarget => exact .unary hoperand happlies htarget
  | binary hleft hright happliesLeft happliesRight hsame htarget =>
    exact .binary hleft hright happliesLeft happliesRight hsame htarget

end ExprLang
