import CSyntax.Parser.Declaration

/-!
# Statement — rules for statements, functions and units

A block and a `for` loop are scopes.  An `else` belongs to the nearest `if` that can take it.  A
word before a colon is a label, whatever it means elsewhere, unless it names a type.

A function is declared in the scope around it before its body is read.  The body is a scope in
which the parameters' names are declared again.
-/

namespace CSyntax
namespace Grammar

open Script

/-! ## Parts of statements -/

/-- A full expression in parentheses. -/
def condition : Script Expr := do
  let _ ← expectMark .openParen
  let value ← rule (.expression .comma)
  let _ ← expectMark .closeParen
  return value

/-- A full expression, unless the mark comes first, which is not taken. -/
def expressionUnless (mark : Punctuator) : Script (Option Expr) := do
  if ← nextIsMark mark then
    return none
  else
    return some (← expression .comma)

/-- A block from its opening brace on. -/
def block : Script (List Statement) := do
  let _ ← expectMark .openBrace
  enter .block
  let items ← rule .blockItems
  let close ← expectMark .closeBrace
  leave close.position
  return items

/-- What a `for` loop begins with, and the semicolon after it. -/
def forStart : Script (Option ForStart) := do
  if ← acceptMark .semicolon then
    return none
  else
    let token ← peek
    if token.kind.startsDeclaration then
      return some (.declaration (← declarationGroup))
    else
      let value ← expression .comma
      let _ ← expectMark .semicolon
      return some (.expression value)

/-- A `for` loop after its keyword. -/
def forLoop (position : Position) : Script Statement := do
  let _ ← expectMark .openParen
  enter .block
  let start ← forStart
  let condition ← expressionUnless .semicolon
  let _ ← expectMark .semicolon
  let step ← expressionUnless .closeParen
  let _ ← expectMark .closeParen
  let body ← rule .statement
  leave position
  return .for position start condition step body

/-! ## Statements -/

/-- A statement behind a label. -/
def labelledStatement : Script Statement := do
  let token ← advance
  match token.kind with
  | .keyword .case =>
      let value ← rule (.expression .conditional)
      let _ ← expectMark .colon
      let body ← rule .statement
      return .case token.position value body
  | .keyword .default =>
      let _ ← expectMark .colon
      let body ← rule .statement
      return .default token.position body
  | .identifier name =>
      let _ ← expectMark .colon
      let body ← rule .statement
      return .label token.position name body
  | _ => contradictAt token .unknownLabel

/-- A statement that a condition chooses. -/
def selectionStatement : Script Statement := do
  let token ← advance
  let condition ← condition
  let body ← rule .statement
  match token.kind with
  | .keyword .if =>
      if ← accept (.keyword .else) then
        let otherwise ← rule .statement
        return .if token.position condition body (some otherwise)
      else
        return .if token.position condition body none
  | .keyword .switch => return .switch token.position condition body
  | _ => contradictAt token .unknownSelection

def iterationStatement : Script Statement := do
  let token ← advance
  match token.kind with
  | .keyword .while =>
      let condition ← condition
      let body ← rule .statement
      return .while token.position condition body
  | .keyword .do =>
      let body ← rule .statement
      let _ ← expect (.keyword .while)
      let condition ← condition
      let _ ← expectMark .semicolon
      return .doWhile token.position body condition
  | .keyword .for => forLoop token.position
  | _ => contradictAt token .unknownIteration

/-- What is left of a jump behind its word, up to the semicolon. -/
def jumpFrom (token : Token) : Script Statement := do
  match token.kind with
  | .keyword .goto => return .goto token.position (← expectWord)
  | .keyword .continue => return .continue token.position
  | .keyword .break => return .break token.position
  | .keyword .return => return .return token.position (← expressionUnless .semicolon)
  | _ => contradictAt token .unknownJump

def jumpStatement : Script Statement := do
  let token ← advance
  let jump ← jumpFrom token
  let _ ← expectMark .semicolon
  return jump

def expressionStatement (position : Position) : Script Statement := do
  let value ← expression .comma
  let _ ← expectMark .semicolon
  return .expression position value

/-- What a statement begins with decides of which form it is. -/
def statement : Script Statement := do
  let token ← peek
  match token.kind with
  | .punctuator .openBrace => return .block token.position (← block)
  | .punctuator .semicolon =>
      let _ ← advance
      return .empty token.position
  | .keyword word =>
      match word.statementForm? with
      | some .selection => selectionStatement
      | some .iteration => iterationStatement
      | some .jump => jumpStatement
      | some .labelled => labelledStatement
      | none => expressionStatement token.position
  | .identifier _ =>
      let second ← peekNth 1
      if second.kind = .punctuator .colon then labelledStatement
      else expressionStatement token.position
  | _ => expressionStatement token.position

/-- A declaration or a statement. -/
def blockItem (token : Token) : Script Statement := do
  if token.kind.startsDeclaration then
    return .declaration token.position (← declarationGroup)
  else
    statement

def blockItems : Script (List Statement) := do
  let token ← peek
  match token.kind with
  | .punctuator .closeBrace => return []
  | .endOfFile => refuse token (.expected (.punctuator .closeBrace) token.kind)
  | _ =>
      let first ← blockItem token
      let others ← rule .blockItems
      return first :: others

/-! ## Functions and units -/

def declareParameters : List Parameter → Script Unit
  | [] => return ()
  | parameter :: others => do
      match parameter.name with
      | some name => declare name .ordinary
      | none => pure ()
      declareParameters others

/-- A function whose declarator has been read and whose body comes next. -/
def functionDefinition (specifiers : Specifiers) (declarator : Declarator) :
    Script FunctionDefinition := do
  match declarator.name, declarator.parameters? with
  | none, _ => contradict specifiers.position .unnamedFunction
  | some (name, position), parameters? =>
      if specifiers.isTypedef then
        .fail (.atPosition position (.grammatical (.invalidFunctionDefinition name)))
      else
        match parameters? with
        | none => contradict position .bodyWithoutParameters
        | some parameters =>
            declare name .ordinary
            let _ ← expectMark .openBrace
            enter .block
            declareParameters parameters
            let body ← rule .blockItems
            let close ← expectMark .closeBrace
            leave close.position
            return {
              name := name
              type := declarator.type specifiers.base
              parameters := parameters
              body := body
              storage := specifiers.storage
              position := specifiers.position }

/-- A group of declarations, or a function if a brace follows a declarator that declares one. -/
def externalDeclaration : Script ExternalDeclaration := do
  let specifiers ← specifiers
  if ← acceptMark .semicolon then
    return .declaration (bareGroup specifiers)
  else
    let declarator ← declarator .named
    if declarator.parameters?.isSome then
      if ← nextIsMark .openBrace then
        return .function (← functionDefinition specifiers declarator)
      else
        return .declaration (← groupFrom specifiers declarator)
    else
      return .declaration (← groupFrom specifiers declarator)

def externalDeclarations : Script (List ExternalDeclaration) := do
  let token ← peek
  if token.isEndOfFile then
    return []
  else
    let first ← externalDeclaration
    let others ← rule .externalDeclarations
    return first :: others

end Grammar
end CSyntax
