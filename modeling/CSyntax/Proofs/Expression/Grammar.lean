import CSyntax.Proofs.Expression.Operators
import CSyntax.Proofs.Run.Takes
import CSyntax.Proofs.Scope.Units

/-!
# Grammar — expressions as the standard stratifies them

The grammar of C has a stratum of expressions for each degree of binding, and says of each operator
what may stand to its left and to its right.  This file states that grammar without a parser:

* `Precedence.marks` and its companions — the operators of each stratum;
* `Grade` — the strata, with the lists of arguments and of adjacent literals beside them;
* `Derives` — how an expression of a grade is written, as a relation between what lies ahead before
  it and behind it.

Every expression carries the position of the lexeme that it begins with, so a derivation fixes the
tree with its positions.  Types are not spelled out: any lexemes that the rule for type names reads
as a type write it, if the type lists no enumeration constants.
-/

namespace CSyntax

/-! ## Operators -/

namespace Precedence

/-- The operators of a stratum that group to the left. -/
def marks : Precedence → List (Punctuator × BinaryOperator)
  | .multiplicative => [(.asterisk, .multiply), (.slash, .divide), (.percent, .remainder)]
  | .additive => [(.plus, .add), (.minus, .subtract)]
  | .shift => [(.shiftLeft, .shiftLeft), (.shiftRight, .shiftRight)]
  | .relational =>
      [(.less, .less), (.greater, .greater), (.lessEqual, .lessEqual),
        (.greaterEqual, .greaterEqual)]
  | .equality => [(.equal, .equal), (.notEqual, .notEqual)]
  | .bitwiseAnd => [(.ampersand, .bitwiseAnd)]
  | .bitwiseXor => [(.caret, .bitwiseXor)]
  | .bitwiseOr => [(.bar, .bitwiseOr)]
  | .logicalAnd => [(.doubleAmpersand, .logicalAnd)]
  | .logicalOr => [(.doubleBar, .logicalOr)]
  | .comma => [(.comma, .comma)]
  | .unary | .conditional | .assignment => []

/-- The stratum of what stands to the right of an operator. -/
def right : Precedence → Precedence
  | .conditional => .conditional
  | .assignment => .assignment
  | p => p.tighter

end Precedence

/-- The assignment operators. -/
def assignmentMarks : List (Punctuator × Option BinaryOperator) :=
  [(.assign, none), (.plusAssign, some .add), (.minusAssign, some .subtract),
    (.asteriskAssign, some .multiply), (.slashAssign, some .divide),
    (.percentAssign, some .remainder), (.shiftLeftAssign, some .shiftLeft),
    (.shiftRightAssign, some .shiftRight), (.ampersandAssign, some .bitwiseAnd),
    (.caretAssign, some .bitwiseXor), (.barAssign, some .bitwiseOr)]

/-- The operators before an operand. -/
def unaryMarks : List (Punctuator × UnaryOperator) :=
  [(.asterisk, .dereference), (.ampersand, .addressOf), (.minus, .negate), (.plus, .plus),
    (.exclamation, .logicalNot), (.tilde, .bitwiseNot), (.increment, .preIncrement),
    (.decrement, .preDecrement)]

/-- The operators behind an operand. -/
def suffixMarks : List (Punctuator × UnaryOperator) :=
  [(.increment, .postIncrement), (.decrement, .postDecrement)]

/-! ## Type names -/

namespace View

/-- A type name that may stand in parentheses: its first lexeme satisfies `opens`, the rule for type
names reads it as the type up to `after`, and it lists no enumeration constants. -/
def Names (opens : TokenKind → Bool) (v : View) (before : List Piece) (type : CType)
    (after : List Piece) : Prop :=
  (∃ first others, before = first :: others ∧ opens (v.kind first) = true) ∧
    .enumerators ∉ type.mentions ∧
    ∃ w, Grammar.typeName.Takes (v.facing before) type w ∧ w.ahead = after

end View

/-! ## The grammar -/

/-- Strata of expressions, and what is written beside them. -/
inductive Grade
  /-- Identifiers, literals and expressions in parentheses. -/
  | primary
  /-- Literals that go on a string literal. -/
  | strings
  /-- Expressions with subscripts, calls, members and increments behind them. -/
  | postfixed
  /-- Arguments of a call, of which there is one at least. -/
  | arguments
  /-- What may stand behind `sizeof`: any unary expression but a cast. -/
  | operand
  | level (p : Precedence)

/-- What is written. -/
abbrev Grade.Result : Grade → Type
  | .strings => String
  | .arguments => List Expr
  | _ => Expr

/-- `Derives opens v grade before result after`: behind `after`, the lexemes `before` write the
result as one of the grade.  The names in it mean what they do in the view. -/
inductive Derives (opens : TokenKind → Bool) (v : View) :
    (grade : Grade) → List Piece → grade.Result → List Piece → Prop
  | identifier {piece : Piece} {name : String} {after : List Piece} :
      v.kind piece = .identifier name →
      Derives opens v .primary (piece :: after) (.identifier piece.position name) after
  | integer {piece : Piece} {value : UInt64} {after : List Piece} :
      v.kind piece = .integer value →
      Derives opens v .primary (piece :: after) (.integer piece.position value) after
  | floating {piece : Piece} {text : String} {value : Binary64} {after : List Piece} :
      v.kind piece = .floating text → Decimal.constant? text.toList = some value →
      Derives opens v .primary (piece :: after) (.floating piece.position value) after
  | character {piece : Piece} {text : String} {after : List Piece} :
      v.kind piece = .character text →
      Derives opens v .primary (piece :: after) (.character piece.position text) after
  | string {piece : Piece} {text more : String} {mid after : List Piece} :
      v.kind piece = .string text → Derives opens v .strings mid more after →
      Derives opens v .primary (piece :: mid) (.string piece.position (text ++ more)) after
  | parentheses {opening closing : Piece} {value : Expr} {mid after : List Piece} :
      v.kind opening = .punctuator .openParen →
      Derives opens v (.level .comma) mid value (closing :: after) →
      v.kind closing = .punctuator .closeParen →
      Derives opens v .primary (opening :: mid) value after
  | noString {after : List Piece} :
      Derives opens v .strings after "" after
  | moreStrings {piece : Piece} {text more : String} {mid after : List Piece} :
      v.kind piece = .string text → Derives opens v .strings mid more after →
      Derives opens v .strings (piece :: mid) (text ++ more) after
  | primary {value : Expr} {before after : List Piece} :
      Derives opens v .primary before value after → Derives opens v .postfixed before value after
  | index {base subscript : Expr} {opening closing : Piece} {before mid after : List Piece} :
      Derives opens v .postfixed before base (opening :: mid) →
      v.kind opening = .punctuator .openBracket →
      Derives opens v (.level .comma) mid subscript (closing :: after) →
      v.kind closing = .punctuator .closeBracket →
      Derives opens v .postfixed before (.index base.position base subscript) after
  | callEmpty {callee : Expr} {opening closing : Piece} {before after : List Piece} :
      Derives opens v .postfixed before callee (opening :: closing :: after) →
      v.kind opening = .punctuator .openParen → v.kind closing = .punctuator .closeParen →
      Derives opens v .postfixed before (.call callee.position callee []) after
  | call {callee : Expr} {values : List Expr} {opening closing : Piece}
      {before mid after : List Piece} :
      Derives opens v .postfixed before callee (opening :: mid) →
      v.kind opening = .punctuator .openParen →
      Derives opens v .arguments mid values (closing :: after) →
      v.kind closing = .punctuator .closeParen →
      Derives opens v .postfixed before (.call callee.position callee values) after
  | member {base : Expr} {name : String} {arrow : Bool} {mark word : Piece}
      {before after : List Piece} :
      Derives opens v .postfixed before base (mark :: word :: after) →
      v.kind mark = .punctuator (if arrow then .arrow else .point) →
      (v.kind word = .identifier name ∨ v.kind word = .typeName name) →
      Derives opens v .postfixed before (.member base.position base name arrow) after
  | suffix {operand : Expr} {mark : Punctuator} {operator : UnaryOperator} {piece : Piece}
      {before after : List Piece} :
      Derives opens v .postfixed before operand (piece :: after) →
      v.kind piece = .punctuator mark → (mark, operator) ∈ suffixMarks →
      Derives opens v .postfixed before (.unary operand.position operator operand) after
  | oneArgument {value : Expr} {before after : List Piece} :
      Derives opens v (.level .assignment) before value after →
      Derives opens v .arguments before [value] after
  | moreArguments {value : Expr} {values : List Expr} {comma : Piece}
      {before mid after : List Piece} :
      Derives opens v (.level .assignment) before value (comma :: mid) →
      v.kind comma = .punctuator .comma → Derives opens v .arguments mid values after →
      Derives opens v .arguments before (value :: values) after
  | postfixed {value : Expr} {before after : List Piece} :
      Derives opens v .postfixed before value after → Derives opens v .operand before value after
  | unary {operand : Expr} {mark : Punctuator} {operator : UnaryOperator} {piece : Piece}
      {mid after : List Piece} :
      v.kind piece = .punctuator mark → (mark, operator) ∈ unaryMarks →
      Derives opens v (.level .unary) mid operand after →
      Derives opens v .operand (piece :: mid) (.unary piece.position operator operand) after
  | sizeofExpr {operand : Expr} {word : Piece} {mid after : List Piece} :
      v.kind word = .keyword .sizeof → Derives opens v .operand mid operand after →
      Derives opens v .operand (word :: mid) (.sizeofExpr word.position operand) after
  | sizeofType {type : CType} {word opening closing : Piece} {mid after : List Piece} :
      v.kind word = .keyword .sizeof → v.kind opening = .punctuator .openParen →
      v.Names opens mid type (closing :: after) → v.kind closing = .punctuator .closeParen →
      Derives opens v .operand (word :: opening :: mid) (.sizeofType word.position type) after
  | operand {value : Expr} {before after : List Piece} :
      Derives opens v .operand before value after →
      Derives opens v (.level .unary) before value after
  | cast {type : CType} {operand : Expr} {opening closing : Piece} {mid mid' after : List Piece} :
      v.kind opening = .punctuator .openParen → v.Names opens mid type (closing :: mid') →
      v.kind closing = .punctuator .closeParen → Derives opens v (.level .unary) mid' operand after →
      Derives opens v (.level .unary) (opening :: mid) (.cast opening.position type operand) after
  | tighter {p : Precedence} {value : Expr} {before after : List Piece} :
      Derives opens v (.level p.tighter) before value after →
      Derives opens v (.level p) before value after
  | binary {p : Precedence} {left right : Expr} {mark : Punctuator} {operator : BinaryOperator}
      {piece : Piece} {before mid after : List Piece} :
      Derives opens v (.level p) before left (piece :: mid) →
      v.kind piece = .punctuator mark → (mark, operator) ∈ p.marks →
      Derives opens v (.level p.tighter) mid right after →
      Derives opens v (.level p) before (.binary left.position operator left right) after
  | conditional {condition whenTrue whenFalse : Expr} {question colon : Piece}
      {before mid mid' after : List Piece} :
      Derives opens v (.level .logicalOr) before condition (question :: mid) →
      v.kind question = .punctuator .question →
      Derives opens v (.level .comma) mid whenTrue (colon :: mid') →
      v.kind colon = .punctuator .colon →
      Derives opens v (.level .conditional) mid' whenFalse after →
      Derives opens v (.level .conditional) before
        (.conditional condition.position condition whenTrue whenFalse) after
  | assign {target value : Expr} {mark : Punctuator} {operator : Option BinaryOperator}
      {piece : Piece} {before mid after : List Piece} :
      Derives opens v (.level .conditional) before target (piece :: mid) →
      v.kind piece = .punctuator mark → (mark, operator) ∈ assignmentMarks →
      Derives opens v (.level .assignment) mid value after →
      Derives opens v (.level .assignment) before
        (.assign target.position operator target value) after

theorem Precedence.eq_of_rank_eq {p q : Precedence} (h : p.rank = q.rank) : p = q := by
  cases p <;> cases q <;> first | rfl | cases h

/-- An expression of a stratum is one of all looser strata. -/
theorem Derives.loosen {names : TokenKind → Bool} {v : View} {p q : Precedence} {value : Expr}
    {before after : List Piece} (h : Derives names v (.level p) before value after)
    (hle : p.rank ≤ q.rank) : Derives names v (.level q) before value after := by
  induction hn : q.rank - p.rank generalizing q with
  | zero =>
      obtain rfl : p = q := Precedence.eq_of_rank_eq (by omega)
      exact h
  | succ n ih =>
      refine .tighter (ih ?_ ?_)
      · rw [Precedence.rank_tighter]
        omega
      · rw [Precedence.rank_tighter]
        omega

/-! ## The operators of the parser -/

theorem Precedence.mem_marks {p : Precedence} {mark : Punctuator} {operator : BinaryOperator} :
    (mark, operator) ∈ p.marks ↔
      mark.infixOperator? = some (.binary operator) ∧ operator.precedence = p := by
  constructor
  · have hall : ∀ x ∈ p.marks,
        x.1.infixOperator? = some (.binary x.2) ∧ x.2.precedence = p := by
      cases p <;> decide
    exact hall (mark, operator)
  · rintro ⟨hmark, rfl⟩
    rw [Punctuator.infixOperator?_eq_binary] at hmark
    cases mark <;> simp only [Punctuator.binaryOperator?, Option.some_inj, reduceCtorEq] at hmark <;>
      subst hmark <;> decide

theorem Precedence.right_of_marks {p : Precedence} {mark : Punctuator} {operator : BinaryOperator}
    (h : (mark, operator) ∈ p.marks) : p.right = p.tighter := by
  cases p <;> first | rfl | simp [marks] at h

theorem mem_assignmentMarks {mark : Punctuator} {operator : Option BinaryOperator} :
    (mark, operator) ∈ assignmentMarks ↔ mark.infixOperator? = some (.assign operator) := by
  constructor
  · have hall : ∀ x ∈ assignmentMarks, x.1.infixOperator? = some (.assign x.2) := by decide
    exact hall (mark, operator)
  · intro hmark
    rw [Punctuator.infixOperator?_eq_assign] at hmark
    cases mark <;> simp only [Punctuator.assignment?, Option.some_inj, reduceCtorEq] at hmark <;>
      subst hmark <;> decide

theorem mem_unaryMarks {mark : Punctuator} {operator : UnaryOperator} :
    (mark, operator) ∈ unaryMarks ↔ mark.unaryOperator? = some operator := by
  constructor
  · have hall : ∀ x ∈ unaryMarks, x.1.unaryOperator? = some x.2 := by decide
    exact hall (mark, operator)
  · intro hmark
    cases mark <;> simp only [Punctuator.unaryOperator?, Option.some_inj, reduceCtorEq] at hmark <;>
      subst hmark <;> decide

theorem InfixOperator.operand_eq (operator : InfixOperator) :
    operator.operand = operator.precedence.right := by
  rcases operator with operator | _ | _
  · cases operator <;> rfl
  · rfl
  · rfl

end CSyntax
