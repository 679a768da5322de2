import CSyntax.Decimal.Constant
import CSyntax.Parser.Expect

/-!
# Expression — rules for expressions

An expression of a level is an operand with prefix and postfix operators, then infix operators of
the level or tighter ones.  Each infix operator takes the operand to its right at a level of its
own, and the expression built so far becomes its left operand.

A parenthesis before a type name makes a cast or belongs to `sizeof`; any other encloses an
expression.  Parentheses leave no trace in the tree.
-/

namespace CSyntax
namespace Grammar

open Script

/-! ## Primary expressions -/

/-- An identifier, a literal or an expression in parentheses. -/
def primary : Script Expr := do
  let token ← peek
  match token.kind with
  | .identifier name =>
      let _ ← advance
      return .identifier token.position name
  | .integer value =>
      let _ ← advance
      return .integer token.position value
  | .floating text =>
      match Decimal.constant? text.toList with
      | some value =>
          let _ ← advance
          return .floating token.position value
      | none => contradictAt token .unreadableConstant
  | .character text =>
      let _ ← advance
      return .character token.position text
  | .string text =>
      let _ ← advance
      let more ← rule .adjacentStrings
      return .string token.position (text ++ more)
  | kind =>
      if kind = .punctuator .openParen then
        let _ ← advance
        let value ← rule (.expression .comma)
        let _ ← expectMark .closeParen
        return value
      else
        refuse token (.expectedExpression kind)

def adjacentStrings : Script String := do
  let token ← peek
  match token.kind with
  | .string text =>
      let _ ← advance
      let more ← rule .adjacentStrings
      return text ++ more
  | _ => return ""

/-! ## Postfix expressions -/

/-- The arguments of a call, of which there may be none, and the closing parenthesis. -/
def callArguments : Script (List Expr) := do
  if ← acceptMark .closeParen then
    return []
  else
    let values ← rule .arguments
    let token ← peek
    if token.kind = .punctuator .closeParen then
      let _ ← advance
      return values
    else
      refuse token (.expectedOneOf [.punctuator .comma, .punctuator .closeParen] token.kind)

def postfixTail (operand : Expr) : Script Expr := do
  let token ← peek
  match token.kind with
  | .punctuator .openBracket =>
      let _ ← advance
      let subscript ← rule (.expression .comma)
      let _ ← expectMark .closeBracket
      rule (.postfixTail (.index operand.position operand subscript))
  | .punctuator .openParen =>
      let _ ← advance
      let values ← callArguments
      rule (.postfixTail (.call operand.position operand values))
  | .punctuator .point =>
      let _ ← advance
      let name ← expectWord
      rule (.postfixTail (.member operand.position operand name false))
  | .punctuator .arrow =>
      let _ ← advance
      let name ← expectWord
      rule (.postfixTail (.member operand.position operand name true))
  | .punctuator .increment =>
      let _ ← advance
      rule (.postfixTail (.unary operand.position .postIncrement operand))
  | .punctuator .decrement =>
      let _ ← advance
      rule (.postfixTail (.unary operand.position .postDecrement operand))
  | _ => return operand

/-- A primary expression with the operators after it. -/
def postfixed : Script Expr := do
  let operand ← primary
  postfixTail operand

/-! ## Unary expressions -/

/-- A type name in parentheses.  If the parenthesis does not begin one, nothing is taken. -/
def parenthesizedType? : Script (Option CType) := do
  if ← nextIsMark .openParen then
    let m ← mark
    let _ ← advance
    let token ← peek
    if token.kind.startsTypeName then
      release m
      let type ← rule .typeName
      let _ ← expectMark .closeParen
      return some type
    else
      reset m
      return none
  else
    return none

/-- An operand with the operators, casts and `sizeof` before it. -/
def unary : Script Expr := do
  let token ← peek
  match token.kind with
  | .keyword .sizeof =>
      let _ ← advance
      match ← parenthesizedType? with
      | some type => return .sizeofType token.position type
      | none =>
          let operand ← rule (.expression .unary)
          return .sizeofExpr token.position operand
  | .punctuator .openParen =>
      match ← parenthesizedType? with
      | some type =>
          let operand ← rule (.expression .unary)
          return .cast token.position type operand
      | none => postfixed
  | .punctuator mark =>
      match mark.unaryOperator? with
      | some operator =>
          let _ ← advance
          let operand ← rule (.expression .unary)
          return .unary token.position operator operand
      | none => refuse token (.expectedExpression token.kind)
  | _ => postfixed

/-! ## Infix operators -/

/-- What stands to the right of an infix operator that has just been taken, joined with its left
side.  The right operand goes up to the priority `right`. -/
def infixOperation (token : Token) (right : Nat) (left : Expr) : Script Expr := do
  match token.kind with
  | .punctuator mark =>
      if mark = .question then
        let whenTrue ← rule (.expression .comma)
        let _ ← expectMark .colon
        let whenFalse ← rule (.expression (.upTo right))
        return .conditional left.position left whenTrue whenFalse
      else
        match mark.assignment?, mark.binaryOperator? with
        | some op, _ =>
            let value ← rule (.expression (.upTo right))
            return .assign left.position op left value
        | none, some op =>
            let operand ← rule (.expression (.upTo right))
            return .binary left.position op left operand
        | none, none => contradictAt token .infixPunctuator
  | _ => contradictAt token .infixWord

/-- Infix operators up to the priority of the level, each with its right operand. -/
def infixTail (limit : Precedence) (left : Expr) : Script Expr := do
  let token ← peek
  match token.kind.priorities? with
  | some (own, right) =>
      if limit.priority < own then
        return left
      else
        let _ ← advance
        let value ← infixOperation token right left
        rule (.infixTail limit value)
  | none => return left

def expression (limit : Precedence) : Script Expr := do
  let operand ← unary
  infixTail limit operand

def arguments : Script (List Expr) := do
  let first ← expression .assignment
  if ← acceptMark .comma then
    let others ← rule .arguments
    return first :: others
  else
    return [first]

end Grammar
end CSyntax
