import CSyntax.Parser.Specifier

/-!
# Declaration — rules for declarations and initial values

A name is declared when its declarator is complete, before its initial value and before the next
declarator.  In an initial value the comma separates items.
-/

namespace CSyntax
namespace Grammar

open Script

/-- An assignment expression, or items in braces. -/
def initialValue : Script Expr := do
  let position ← here
  if ← acceptMark .openBrace then
    let items ← rule .initializerItems
    let _ ← expectMark .closeBrace
    return .initializerList position items
  else
    expression .assignment

def initializerItems : Script (List Expr) := do
  if ← nextIsMark .closeBrace then
    return []
  else
    let first ← initialValue
    if ← acceptMark .comma then
      let others ← rule .initializerItems
      return first :: others
    else
      return [first]

/-- The initial value after an equals sign.  A `typedef` takes none. -/
def initial? (specifiers : Specifiers) : Script (Option Expr) := do
  if specifiers.isTypedef then
    return none
  else if ← acceptMark .assign then
    return some (← initialValue)
  else
    return none

/-- Declares what a declarator names and reads the initial value. -/
def initDeclarator (specifiers : Specifiers) (declarator : Declarator) : Script Declaration := do
  match declarator.name with
  | none => contradict specifiers.position .unnamedDeclaration
  | some (name, position) =>
      let type := declarator.type specifiers.base
      declare name (if specifiers.isTypedef then .typeName type else .ordinary)
      let initial ← initial? specifiers
      return {
        name := name
        type := type
        initial := initial
        isTypedef := specifiers.isTypedef
        storage := specifiers.storage
        qualifiers := specifiers.qualifiers
        position := position }

/-- The declarations of a group from its first declarator on. -/
def declarations (specifiers : Specifiers) (declarator : Declarator) :
    Script (List Declaration) := do
  let first ← initDeclarator specifiers declarator
  if ← acceptMark .comma then
    let others ← rule (.initDeclarators specifiers)
    return first :: others
  else
    return [first]

def initDeclarators (specifiers : Specifiers) : Script (List Declaration) := do
  let declarator ← declarator .named
  declarations specifiers declarator

/-- The rest of a group whose first declarator has been read. -/
def groupFrom (specifiers : Specifiers) (declarator : Declarator) : Script DeclarationGroup := do
  let declarations ← declarations specifiers declarator
  let _ ← expectMark .semicolon
  return {
    base := specifiers.base
    declarations := declarations
    position := specifiers.position }

/-- A group that declares no name. -/
def bareGroup (specifiers : Specifiers) : DeclarationGroup :=
  { base := specifiers.base, declarations := [], position := specifiers.position }

def declarationGroup : Script DeclarationGroup := do
  let specifiers ← specifiers
  if ← acceptMark .semicolon then
    return bareGroup specifiers
  else
    let declarator ← declarator .named
    groupFrom specifiers declarator

end Grammar
end CSyntax
