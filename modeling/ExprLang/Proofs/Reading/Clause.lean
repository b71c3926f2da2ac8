import ExprLang.Proofs.Reading.Phrase
import ExprLang.Statement.Basic

/-!
# The grammar of statements

A clause is a statement without its semicolon, with all lexemes it is written with.  Like a phrase it has its
lexemes in their order and the statement that it stands for; which clauses are valid is said by one rule for
each form of a statement (`Clause.IsValid`).
-/

namespace ExprLang

/-- A valid phrase that may stand where an expression of a level is called for. -/
structure Phrase.IsExpression (phrase : Phrase) (min : Level) : Prop where
  valid : phrase.IsValid
  le_level : min ≤ phrase.level
  depth_le : phrase.depth ≤ maxDepth

/-- A type or a value with the mark before it. -/
structure Part where
  mark : Lexeme
  phrase : Phrase

namespace Part

/-- The lexemes of a part in their order. -/
def lexemes (part : Part) : List Lexeme :=
  part.mark :: part.phrase.lexemes

/-- Whether a part is an expression after a given mark. -/
structure IsValid (part : Part) (sign : Mark) : Prop where
  mark : part.mark.tag = .mark sign
  expression : part.phrase.IsExpression .nested

end Part

/-- A statement with its lexemes, without the semicolon. -/
inductive Clause where
  /-- `let name: type = value` or `let name = value` -/
  | binding (keyword name : Lexeme) (type : Option Part) (value : Part)
  /-- `var name: type = value` or `var name: type` -/
  | typedVariable (keyword name : Lexeme) (type : Part) (value : Option Part)
  /-- `var name = value` -/
  | plainVariable (keyword name : Lexeme) (value : Part)
  /-- `value` -/
  | discarded (value : Phrase)

namespace Clause

/-- The lexemes of a clause in their order. -/
def lexemes : Clause → List Lexeme
  | binding keyword name type value => keyword :: name :: (type.elim [] Part.lexemes ++ value.lexemes)
  | typedVariable keyword name type value => keyword :: name :: (type.lexemes ++ value.elim [] Part.lexemes)
  | plainVariable keyword name value => keyword :: name :: value.lexemes
  | discarded value => value.lexemes

/-- The span from the first to the last lexeme. -/
def span : Clause → Span
  | binding keyword _ _ value | plainVariable keyword _ value => keyword.span.join value.phrase.span
  | typedVariable keyword _ type value => keyword.span.join (value.getD type).phrase.span
  | discarded value => value.span

/-- The statement of a clause, in the span `span`. -/
def toStatement (span : Span) : Clause → Statement
  | binding _ name (some type) value => .letTyped name.span type.phrase.expression value.phrase.expression span
  | binding _ name none value => .letPlain name.span value.phrase.expression span
  | typedVariable _ name type value =>
    .var name.span (some type.phrase.expression) (value.map (·.phrase.expression)) span rfl
  | plainVariable _ name value => .var name.span none (some value.phrase.expression) span rfl
  | discarded value => .discarded value.expression

/-- The grammar. -/
inductive IsValid : Clause → Prop
  | binding {keyword name type value} (hkeyword : keyword.tag = .keyword .let_) (hname : name.tag = .name)
      (htype : ∀ part ∈ type, part.IsValid .colon) (hvalue : value.IsValid .eq) :
      IsValid (.binding keyword name type value)
  | typedVariable {keyword name type value} (hkeyword : keyword.tag = .keyword .var) (hname : name.tag = .name)
      (htype : type.IsValid .colon) (hvalue : ∀ part ∈ value, part.IsValid .eq) :
      IsValid (.typedVariable keyword name type value)
  | plainVariable {keyword name value} (hkeyword : keyword.tag = .keyword .var) (hname : name.tag = .name)
      (hvalue : value.IsValid .eq) : IsValid (.plainVariable keyword name value)
  | discarded {value} (hvalue : value.IsExpression .assignment) : IsValid (.discarded value)

theorem lexemes_ne_nil (clause : Clause) : clause.lexemes ≠ [] := by
  cases clause with
  | discarded value => exact value.lexemes_ne_nil
  | _ => exact List.cons_ne_nil _ _

end Clause

/-- A whole statement with its lexemes. -/
structure Sentence where
  clause : Clause
  semicolon : Lexeme

namespace Sentence

/-- The lexemes of a statement in their order. -/
def lexemes (sentence : Sentence) : List Lexeme :=
  sentence.clause.lexemes ++ [sentence.semicolon]

/-- The statement, which reaches to its semicolon. -/
def toStatement (sentence : Sentence) : Statement :=
  sentence.clause.toStatement (sentence.clause.span.join sentence.semicolon.span)

/-- Whether a statement is a valid clause with a semicolon. -/
structure IsValid (sentence : Sentence) : Prop where
  clause : sentence.clause.IsValid
  semicolon : sentence.semicolon.tag = .mark .semi

end Sentence

namespace Phrase

theorem span_expression (phrase : Phrase) : phrase.expression.span = phrase.span := by
  have hback : phrase.expression.nodes.back? = some phrase.root := by
    rw [expression, ← Array.getLast?_toList, nodes_eq]
    simp
  rw [Expression.span, Expression.last?, hback]
  rfl

/-- An expression begins with a lexeme that begins a statement and is no keyword. -/
theorem IsValid.exists_first_startsStatement {phrase : Phrase} (h : phrase.IsValid) :
    ∃ first rest, phrase.lexemes = first :: rest ∧ first.tag.startsStatement = true ∧
      ∀ keyword, first.tag ≠ .keyword keyword := by
  obtain ⟨first, rest, op, hlexemes, hopening, hleading⟩ := h.exists_first
  have hkeyword : ∀ keyword, first.tag ≠ .keyword keyword := fun keyword => by
    rw [← hleading]
    exact op.leading_ne_keyword keyword
  have hstarts : first.tag.startsExpression = true := by
    rw [Tag.startsExpression, List.any_eq_true]
    refine ⟨op, op.mem_all, ?_⟩
    rw [hopening, hleading, decide_eq_true rfl]
    rfl
  refine ⟨first, rest, hlexemes, ?_, hkeyword⟩
  rw [Tag.startsStatement]
  · exact hstarts
  · exact hkeyword

end Phrase

/-- A statement begins with a lexeme that begins one. -/
theorem Sentence.IsValid.exists_first {sentence : Sentence} (h : sentence.IsValid) :
    ∃ first rest, sentence.lexemes = first :: rest ∧ first.tag.startsStatement = true := by
  obtain ⟨clause, semicolon⟩ := sentence
  cases h.clause with
  | @binding keyword name type value hkeyword => exact ⟨keyword, _, rfl, by rw [hkeyword]; rfl⟩
  | @typedVariable keyword name type value hkeyword => exact ⟨keyword, _, rfl, by rw [hkeyword]; rfl⟩
  | @plainVariable keyword name value hkeyword => exact ⟨keyword, _, rfl, by rw [hkeyword]; rfl⟩
  | discarded hvalue =>
    obtain ⟨first, rest, hlexemes, hstart, -⟩ := hvalue.valid.exists_first_startsStatement
    exact ⟨first, rest ++ [semicolon], by rw [lexemes, Clause.lexemes, hlexemes, List.cons_append], hstart⟩

end ExprLang
