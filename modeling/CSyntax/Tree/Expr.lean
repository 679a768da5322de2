import CSyntax.Decimal.Binary64
import CSyntax.Position
import CSyntax.Tree.Operator

/-!
# Expr — types and expressions

Types and expressions contain each other: an array type has a size, an enumerator a value, a cast
and `sizeof` a type.  Every expression carries the position where it begins; an operator's
expression begins where its left operand does.
-/

namespace CSyntax

inductive RecordKind
  | struct
  | union
  deriving DecidableEq

mutual

/-- A type.  A name is that of an arithmetic type or of a `typedef`; an array may leave its size
open; without a list of members or enumerators a tag refers to a type declared elsewhere. -/
inductive CType where
  | named (name : String)
  | pointer (target : CType)
  | array (element : CType) (size : Option Expr)
  | function (result : CType) (parameters : List CType) (variadic : Bool)
  | record (kind : RecordKind) (tag : Option String) (members : Option (List Member))
  | enumeration (tag : Option String) (enumerators : Option (List Enumerator))

/-- A member of a `struct` or `union`. -/
structure Member where
  name : String
  type : CType

/-- An enumeration constant, with its value if the program gives one. -/
structure Enumerator where
  name : String
  value : Option Expr

/-- An expression.  Literal text stands as written between the quotes, adjacent strings joined; an
assignment's operator is absent for plain `=`. -/
inductive Expr where
  | identifier (position : Position) (name : String)
  | integer (position : Position) (value : UInt64)
  | floating (position : Position) (value : Binary64)
  | character (position : Position) (text : String)
  | string (position : Position) (text : String)
  | call (position : Position) (callee : Expr) (arguments : List Expr)
  | unary (position : Position) (operator : UnaryOperator) (operand : Expr)
  | binary (position : Position) (operator : BinaryOperator) (left right : Expr)
  | index (position : Position) (array subscript : Expr)
  | member (position : Position) (base : Expr) (name : String) (arrow : Bool)
  | assign (position : Position) (operator : Option BinaryOperator) (target value : Expr)
  | conditional (position : Position) (condition whenTrue whenFalse : Expr)
  | cast (position : Position) (type : CType) (operand : Expr)
  | sizeofType (position : Position) (type : CType)
  | sizeofExpr (position : Position) (operand : Expr)
  | initializerList (position : Position) (items : List Expr)

end

namespace CType

def isFunction : CType → Bool
  | .function .. => true
  | _ => false

end CType

namespace Expr

def position : Expr → Position
  | .identifier p _ | .integer p _ | .floating p _ | .character p _ | .string p _
  | .call p _ _ | .unary p _ _ | .binary p _ _ _ | .index p _ _ | .member p _ _ _
  | .assign p _ _ _ | .conditional p _ _ _ | .cast p _ _ | .sizeofType p _ | .sizeofExpr p _
  | .initializerList p _ => p

end Expr

end CSyntax
