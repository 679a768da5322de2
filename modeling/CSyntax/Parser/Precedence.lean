import CSyntax.Token.Basic
import CSyntax.Tree.Operator

/-!
# Precedence — how tightly operators bind

The grammar has a level of expressions for each degree of binding.  An expression of a level is
built with operators that bind at least as tightly as the level: a case label or an array size
takes conditional expressions, an argument or an initial value assignments, and only a full
expression the comma.

* `Precedence` lists the levels, with a priority for each;
* `TokenKind.priorities?` tells whether a token goes on with a finished operand, and how far the
  operand to its right goes;
* `Punctuator.binaryOperator?` and `Punctuator.assignment?` tell what the operator does.
-/

namespace CSyntax

/-- Levels of expressions, the tightest first. -/
inductive Precedence
  | unary
  | multiplicative
  | additive
  | shift
  | relational
  | equality
  | bitwiseAnd
  | bitwiseXor
  | bitwiseOr
  | logicalAnd
  | logicalOr
  | conditional
  | assignment
  | comma
  deriving DecidableEq

namespace Precedence

/-- The priority of the operators of a level; the tightest have the least. -/
def priority : Precedence → Nat
  | .unary => 2
  | .multiplicative => 4
  | .additive => 6
  | .shift => 8
  | .relational => 10
  | .equality => 12
  | .bitwiseAnd => 14
  | .bitwiseXor => 16
  | .bitwiseOr => 18
  | .logicalAnd => 20
  | .logicalOr => 22
  | .conditional => 24
  | .assignment => 26
  | .comma => 28

/-- The levels, the loosest first. -/
def loosestFirst : List Precedence :=
  [.comma, .assignment, .conditional, .logicalOr, .logicalAnd, .bitwiseOr, .bitwiseXor,
    .bitwiseAnd, .equality, .relational, .shift, .additive, .multiplicative]

/-- The level of expressions with operators up to a priority. -/
def upTo (priority : Nat) : Precedence :=
  (loosestFirst.find? fun level => level.priority ≤ priority).getD .unary

end Precedence

/-! ## Operators after an operand -/

namespace Punctuator

/-- The priority of an infix operator and the priority up to which its right operand goes.  Where
the operator groups to the left, the second is less by one, so that an operator of the same level
ends the operand. -/
def priorities? : Punctuator → Option (Nat × Nat)
  | .asterisk | .slash | .percent => some (4, 3)
  | .plus | .minus => some (6, 5)
  | .shiftLeft | .shiftRight => some (8, 7)
  | .less | .lessEqual | .greater | .greaterEqual => some (10, 9)
  | .equal | .notEqual => some (12, 11)
  | .ampersand => some (14, 13)
  | .caret => some (16, 15)
  | .bar => some (18, 17)
  | .doubleAmpersand => some (20, 19)
  | .doubleBar => some (22, 21)
  | .question => some (24, 24)
  | .assign | .plusAssign | .minusAssign | .slashAssign | .asteriskAssign | .ampersandAssign
  | .caretAssign | .shiftLeftAssign | .shiftRightAssign | .barAssign | .percentAssign =>
      some (26, 26)
  | .comma => some (28, 27)
  | _ => none

/-- The binary operation that an operator stands for. -/
def binaryOperator? : Punctuator → Option BinaryOperator
  | .plus => some .add
  | .minus => some .subtract
  | .asterisk => some .multiply
  | .slash => some .divide
  | .percent => some .remainder
  | .shiftLeft => some .shiftLeft
  | .shiftRight => some .shiftRight
  | .less => some .less
  | .greater => some .greater
  | .lessEqual => some .lessEqual
  | .greaterEqual => some .greaterEqual
  | .equal => some .equal
  | .notEqual => some .notEqual
  | .ampersand => some .bitwiseAnd
  | .caret => some .bitwiseXor
  | .bar => some .bitwiseOr
  | .doubleAmpersand => some .logicalAnd
  | .doubleBar => some .logicalOr
  | .comma => some .comma
  | _ => none

/-- The operation that an assignment carries out, which is none if it is plain. -/
def assignment? : Punctuator → Option (Option BinaryOperator)
  | .assign => some none
  | .plusAssign => some (some .add)
  | .minusAssign => some (some .subtract)
  | .asteriskAssign => some (some .multiply)
  | .slashAssign => some (some .divide)
  | .percentAssign => some (some .remainder)
  | .shiftLeftAssign => some (some .shiftLeft)
  | .shiftRightAssign => some (some .shiftRight)
  | .ampersandAssign => some (some .bitwiseAnd)
  | .caretAssign => some (some .bitwiseXor)
  | .barAssign => some (some .bitwiseOr)
  | _ => none

end Punctuator

/-- The priorities of a token as an infix operator, if it is one. -/
def TokenKind.priorities? : TokenKind → Option (Nat × Nat)
  | .punctuator mark => mark.priorities?
  | _ => none

/-! ## Operators before an operand -/

namespace Punctuator

def unaryOperator? : Punctuator → Option UnaryOperator
  | .asterisk => some .dereference
  | .ampersand => some .addressOf
  | .minus => some .negate
  | .plus => some .plus
  | .exclamation => some .logicalNot
  | .tilde => some .bitwiseNot
  | .increment => some .preIncrement
  | .decrement => some .preDecrement
  | _ => none

end Punctuator

end CSyntax
