/-!
# Operator — unary and binary operators of expressions

An operator is named for what it does and not for its spelling, which may serve a unary and a
binary operator.
-/

namespace CSyntax

inductive UnaryOperator
  | dereference
  | addressOf
  | negate
  | plus
  | logicalNot
  | bitwiseNot
  | preIncrement
  | preDecrement
  | postIncrement
  | postDecrement
  deriving DecidableEq

inductive BinaryOperator
  | add
  | subtract
  | multiply
  | divide
  | remainder
  | shiftLeft
  | shiftRight
  | less
  | greater
  | lessEqual
  | greaterEqual
  | equal
  | notEqual
  | bitwiseAnd
  | bitwiseXor
  | bitwiseOr
  | logicalAnd
  | logicalOr
  | comma
  deriving DecidableEq

end CSyntax
