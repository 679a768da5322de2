import CSyntax.Parser.Expression

/-!
# Specifier — rules for specifiers and declarators

Specifiers come in any order.  A type name counts as one only while no type has been named;
otherwise it is the name that is declared.

A declarator has asterisks, then a name or another declarator in parentheses, then brackets and
parameter lists.  What stands to the right of the name binds before what stands to its left, and a
declarator in parentheses before all that stands around it.
-/

namespace CSyntax
namespace Grammar

open Script

/-! ## Declarators -/

def pointerTail : Script Nat := do
  let token ← peek
  match token.kind with
  | .punctuator .asterisk =>
      let _ ← advance
      let count ← rule .pointerTail
      return count + 1
  | .keyword .const | .keyword .volatile =>
      let _ ← advance
      rule .pointerTail
  | _ => return 0

/-- Asterisks with qualifiers after each; the qualifiers leave no trace. -/
def pointers : Script Nat := do
  if ← acceptMark .asterisk then
    let count ← rule .pointerTail
    return count + 1
  else
    return 0

/-- Parameters after the opening parenthesis, and the closing one.  The list is a scope of its own.
The word `void` alone stands for no parameters. -/
def parameterList : Script (List Parameter × Bool) := do
  if ← isVoid then
    let _ ← advance
    let _ ← advance
    return ([], false)
  else
    enter .block
    let list ← parametersUnlessClosed
    let close ← expectMark .closeParen
    leave close.position
    return list
where
  isVoid : Script Bool := do
    if ← nextIs (.keyword .void) then
      let second ← peekNth 1
      return second.kind = .punctuator .closeParen
    else
      return false
  parametersUnlessClosed : Script (List Parameter × Bool) := do
    if ← nextIsMark .closeParen then
      return ([], false)
    else
      rule .parameters

def suffixes : Script (List TypeModifier) := do
  if ← acceptMark .openBracket then
    if ← acceptMark .closeBracket then
      let more ← rule .suffixes
      return .array none :: more
    else
      let size ← rule (.expression .conditional)
      let _ ← expectMark .closeBracket
      let more ← rule .suffixes
      return .array (some size) :: more
  else if ← acceptMark .openParen then
    let (parameters, variadic) ← parameterList
    let more ← rule .suffixes
    return .function parameters variadic :: more
  else
    return []

/-- Whether a parenthesis where a declarator begins opens another declarator, and not a parameter
list.  A declarator that has to have a name cannot begin with a parameter list. -/
def opensDeclarator (mode : DeclaratorMode) : Script Bool := do
  match mode with
  | .named => return true
  | _ =>
      let second ← peekNth 1
      match second.kind with
      | .punctuator .asterisk | .punctuator .openParen | .punctuator .openBracket => return true
      | .identifier _ => return mode = .either
      | _ => return false

/-- The name of a declarator or the declarator in parentheses, which may be missing. -/
def declaratorCore (mode : DeclaratorMode) : Script Declarator := do
  let token ← peek
  match token.kind with
  | .identifier name | .typeName name =>
      if mode = .nameless then
        return { name := none, modifiers := [] }
      else
        let _ ← advance
        return { name := some (name, token.position), modifiers := [] }
  | .punctuator .openParen =>
      if ← opensDeclarator mode then
        let _ ← advance
        let inner ← rule (.declarator mode)
        let _ ← expectMark .closeParen
        return inner
      else
        return { name := none, modifiers := [] }
  | _ =>
      if mode = .named then
        refuse token (.expectedDeclarator token.kind)
      else
        return { name := none, modifiers := [] }

def declarator (mode : DeclaratorMode) : Script Declarator := do
  let count ← pointers
  let core ← declaratorCore mode
  let after ← suffixes
  return { core with
    modifiers := List.replicate count .pointer ++ after.reverse ++ core.modifiers }

/-! ## Records and enumerations -/

/-- A tag is required where no list of members or enumerators follows. -/
def requireTag (tag : Option String) : Script Unit := do
  match tag with
  | some _ => return ()
  | none =>
      let token ← peek
      refuse token
        (.expectedOneOf [.identifier "identifier", .punctuator .openBrace] token.kind)

/-- The tag and the members of a record. -/
def record (kind : RecordKind) : Script CType := do
  let tag ← acceptWord
  if ← acceptMark .openBrace then
    enter .record
    let members ← rule .members
    let close ← expectMark .closeBrace
    leave close.position
    return .record kind tag (some members)
  else
    requireTag tag
    return .record kind tag none

/-- A record from its keyword on. -/
def recordType : Script CType := do
  let token ← advance
  match token.kind with
  | .keyword .struct => record .struct
  | .keyword .union => record .union
  | _ => contradictAt token .unknownRecord

/-- The tag and the constants of an enumeration. -/
def enumeration : Script CType := do
  let tag ← acceptWord
  if ← acceptMark .openBrace then
    let enumerators ← rule .enumerators
    let _ ← expectMark .closeBrace
    return .enumeration tag (some enumerators)
  else
    requireTag tag
    return .enumeration tag none

/-- An enumeration from its keyword on. -/
def enumerationType : Script CType := do
  let _ ← expect (.keyword .enum)
  enumeration

/-- A constant is declared before its value is read. -/
def enumerator : Script Enumerator := do
  let name ← expectWord
  declareEnumerator name
  if ← acceptMark .assign then
    let value ← rule (.expression .conditional)
    return { name := name, value := some value }
  else
    return { name := name, value := none }

def enumerators : Script (List Enumerator) := do
  if ← nextIsMark .closeBrace then
    return []
  else
    let first ← enumerator
    if ← acceptMark .comma then
      let others ← rule .enumerators
      return first :: others
    else
      return [first]

/-! ## Specifiers -/

/-- A keyword of an arithmetic type.  The words read so far have to name a type at every step. -/
def typeWord (tally : SpecifierTally) (token : Token) (word : Keyword) :
    Script SpecifierTally := do
  if tally.other.isSome then
    refuse token (.invalidTypeSpecifier word.spelling)
  else
    let _ ← advance
    match ArithmeticType.count? tally.words word with
    | some words =>
        if (ArithmeticType.canonical? words).isSome then
          return { tally with words := words }
        else
          refuse token
            (.invalidTypeSpecifier (" ".intercalate (words.map (·.spelling))))
    | none => contradictAt token .uncountableWord

/-- A word of an arithmetic type can be counted. -/
theorem typeWord_eq {word : Keyword} (h : word.isTypeWord = true) (tally : SpecifierTally)
    (token : Token) :
    typeWord tally token word =
      if tally.other.isSome then refuse token (.invalidTypeSpecifier word.spelling)
      else (do
        let _ ← advance
        let words := tally.words ++ [word]
        if (ArithmeticType.canonical? words).isSome then
          return { tally with words := words }
        else
          refuse token (.invalidTypeSpecifier (" ".intercalate (words.map (·.spelling))))) := by
  simp only [typeWord, ArithmeticType.count?_of_isTypeWord h]

/-- A record or an enumeration from its keyword on. -/
def taggedType (tally : SpecifierTally) (token : Token) (word : Keyword) :
    Script SpecifierTally := do
  if tally.hasType then
    refuse token (.invalidTypeSpecifier word.spelling)
  else if word = .enum then
    let type ← enumerationType
    return { tally with other := some type }
  else
    let type ← recordType
    return { tally with other := some type }

/-- The next specifier, or nothing if the next token is none. -/
def specifier (tally : SpecifierTally) : Script (Option SpecifierTally) := do
  let token ← peek
  match token.kind with
  | .keyword word =>
      if word.isStorageClass then
        if tally.hasStorageClass then
          refuse token (.duplicateStorageClass word)
        else
          let _ ← advance
          return some (tally.addModifier word)
      else if word.isQualifier then
        let _ ← advance
        return some (tally.addModifier word)
      else if word.isTypeWord then
        return some (← typeWord tally token word)
      else if word.isTagged then
        return some (← taggedType tally token word)
      else
        return none
  | .typeName name =>
      if tally.hasType then
        return none
      else
        let _ ← advance
        return some { tally with other := some (.named name) }
  | _ => return none

def specifierTail (tally : SpecifierTally) : Script SpecifierTally := do
  match ← specifier tally with
  | some tally => rule (.specifierTail tally)
  | none => return tally

/-- The specifiers of a declaration, one of which names a type. -/
def specifiers : Script Specifiers := do
  let position ← here
  let tally ← specifierTail .empty
  match tally.type? with
  | some base =>
      return {
        base := base
        storage := tally.storage
        isTypedef := tally.isTypedef
        qualifiers := tally.qualifiers
        position := position }
  | none =>
      let token ← peek
      refuse token (.expectedTypeSpecifier token.kind)

def typeName : Script CType := do
  let specifiers ← specifiers
  let declarator ← declarator .nameless
  return declarator.type specifiers.base

/-! ## Parameters and members -/

/-- A parameter.  Its name is declared for the rest of the list. -/
def parameter : Script Parameter := do
  let position ← here
  let specifiers ← specifiers
  let declarator ← declarator .either
  let name := declarator.name.map (·.1)
  match name with
  | some name => declare name .ordinary
  | none => pure ()
  return { name := name, type := declarator.type specifiers.base, position := position }

def parameters : Script (List Parameter × Bool) := do
  if ← acceptMark .ellipsis then
    return ([], true)
  else
    let first ← parameter
    if ← acceptMark .comma then
      let (others, variadic) ← rule .parameters
      return (first :: others, variadic)
    else
      return ([first], false)

def memberDeclarators (specifiers : Specifiers) : Script (List Member) := do
  let declarator ← declarator .named
  match declarator.name with
  | none => contradict specifiers.position .unnamedMember
  | some (name, _) =>
      let first : Member := { name := name, type := declarator.type specifiers.base }
      if ← acceptMark .comma then
        let others ← rule (.memberDeclarators specifiers)
        return first :: others
      else
        return [first]

/-- The declaration of one or more members.  There are no bit fields, and members have no storage
class. -/
def memberDeclaration : Script (List Member) := do
  let specifiers ← specifiers
  if specifiers.isTypedef || specifiers.storage.isSome then
    .fail (.atPosition specifiers.position
      (.grammatical (.expectedTypeSpecifier (.keyword .typedef))))
  else
    let members ← rule (.memberDeclarators specifiers)
    let token ← peek
    if token.kind = .punctuator .semicolon then
      let _ ← advance
      return members
    else
      refuse token (.expectedOneOf [.punctuator .comma, .punctuator .semicolon] token.kind)

def members : Script (List Member) := do
  if ← nextIsMark .closeBrace then
    return []
  else
    let first ← memberDeclaration
    let others ← rule .members
    return first ++ others

end Grammar
end CSyntax
