import CSyntax.Parser.ArithmeticType
import CSyntax.Symbols
import CSyntax.Tree.Unit

/-!
# Walk — the scopes of a finished tree

The scopes of C can be read off a finished unit, without its text and without a parser: a walk in
source order keeps which words are bound as `typedef` names and looks at every word that the tree
uses.  This file defines:

* `Mention` — what a tree says of words, gathered by `CType.mentions` and its companions;
* `Environment` — the open scopes, which bind words as `typedef` names or as ordinary ones;
* `TranslationUnit.walk` — the walk, which stops at the first word that is not used as it is bound.

Tags, members and labels have name spaces of their own and bind nothing here.
-/

namespace CSyntax

/-- The canonical spellings of the arithmetic types. -/
def ArithmeticType.spellings : List String :=
  ["void", "char", "signed char", "unsigned char", "short", "unsigned short", "int", "unsigned int",
    "long", "unsigned long", "long long", "unsigned long long", "float", "double", "long double"]

/-! ## Mentions -/

/-- What a tree says of words. -/
inductive Mention
  /-- The word is an expression. -/
  | identifier (name : String)
  /-- The word is a type, and no spelling of an arithmetic one. -/
  | typeName (name : String)
  /-- The word is declared by a `typedef`. -/
  | alias (name : String)
  /-- Enumeration constants are listed. -/
  | enumerators
  deriving DecidableEq

mutual

def CType.mentions : CType → List Mention
  | .named name => if name ∈ ArithmeticType.spellings then [] else [.typeName name]
  | .pointer target => target.mentions
  | .array element size => element.mentions ++ Expr.mentionsOption size
  | .function result parameters _ => result.mentions ++ CType.mentionsList parameters
  | .record _ _ members => Member.mentionsOption members
  | .enumeration _ enumerators => Enumerator.mentionsOption enumerators

def CType.mentionsList : List CType → List Mention
  | [] => []
  | type :: types => type.mentions ++ CType.mentionsList types

def Member.mentions : Member → List Mention
  | ⟨_, type⟩ => type.mentions

def Member.mentionsList : List Member → List Mention
  | [] => []
  | member :: members => member.mentions ++ Member.mentionsList members

def Member.mentionsOption : Option (List Member) → List Mention
  | none => []
  | some members => Member.mentionsList members

def Enumerator.mentions : Enumerator → List Mention
  | ⟨_, value⟩ => Expr.mentionsOption value

def Enumerator.mentionsList : List Enumerator → List Mention
  | [] => []
  | enumerator :: enumerators => enumerator.mentions ++ Enumerator.mentionsList enumerators

def Enumerator.mentionsOption : Option (List Enumerator) → List Mention
  | none => []
  | some enumerators => .enumerators :: Enumerator.mentionsList enumerators

def Expr.mentions : Expr → List Mention
  | .identifier _ name => [.identifier name]
  | .integer _ _ | .floating _ _ | .character _ _ | .string _ _ => []
  | .call _ callee values => callee.mentions ++ Expr.mentionsList values
  | .unary _ _ operand => operand.mentions
  | .binary _ _ left right => left.mentions ++ right.mentions
  | .index _ array subscript => array.mentions ++ subscript.mentions
  | .member _ base _ _ => base.mentions
  | .assign _ _ target value => target.mentions ++ value.mentions
  | .conditional _ condition whenTrue whenFalse =>
      condition.mentions ++ whenTrue.mentions ++ whenFalse.mentions
  | .cast _ type operand => type.mentions ++ operand.mentions
  | .sizeofType _ type => type.mentions
  | .sizeofExpr _ operand => operand.mentions
  | .initializerList _ items => Expr.mentionsList items

def Expr.mentionsList : List Expr → List Mention
  | [] => []
  | value :: values => value.mentions ++ Expr.mentionsList values

def Expr.mentionsOption : Option Expr → List Mention
  | none => []
  | some value => value.mentions

end

@[simp] theorem CType.mentionsList_eq (types : List CType) :
    CType.mentionsList types = types.flatMap CType.mentions := by
  induction types with
  | nil => rfl
  | cons type types ih => rw [CType.mentionsList, ih, List.flatMap_cons]

@[simp] theorem Member.mentionsList_eq (members : List Member) :
    Member.mentionsList members = members.flatMap Member.mentions := by
  induction members with
  | nil => rfl
  | cons member members ih => rw [Member.mentionsList, ih, List.flatMap_cons]

@[simp] theorem Expr.mentionsList_eq (values : List Expr) :
    Expr.mentionsList values = values.flatMap Expr.mentions := by
  induction values with
  | nil => rfl
  | cons value values ih => rw [Expr.mentionsList, ih, List.flatMap_cons]

def Declaration.mentions (d : Declaration) : List Mention :=
  (if d.isTypedef then [.alias d.name] else []) ++ d.type.mentions ++ Expr.mentionsOption d.initial

def DeclarationGroup.mentions (group : DeclarationGroup) : List Mention :=
  group.base.mentions ++ group.declarations.flatMap Declaration.mentions

def ForStart.mentions : ForStart → List Mention
  | .declaration group => group.mentions
  | .expression value => value.mentions

mutual

def Statement.mentions : Statement → List Mention
  | .block _ items => Statement.mentionsList items
  | .declaration _ group => group.mentions
  | .expression _ value => value.mentions
  | .if _ condition whenTrue whenFalse =>
      condition.mentions ++ whenTrue.mentions ++ Statement.mentionsOption whenFalse
  | .while _ condition body => condition.mentions ++ body.mentions
  | .doWhile _ body condition => body.mentions ++ condition.mentions
  | .for _ start condition step body =>
      (start.map ForStart.mentions).getD [] ++ Expr.mentionsOption condition ++
        Expr.mentionsOption step ++ body.mentions
  | .switch _ subject body => subject.mentions ++ body.mentions
  | .case _ value body => value.mentions ++ body.mentions
  | .default _ body => body.mentions
  | .label _ _ body => body.mentions
  | .return _ value => Expr.mentionsOption value
  | .goto _ _ | .break _ | .continue _ | .empty _ => []

def Statement.mentionsList : List Statement → List Mention
  | [] => []
  | item :: items => item.mentions ++ Statement.mentionsList items

def Statement.mentionsOption : Option Statement → List Mention
  | none => []
  | some statement => statement.mentions

end

@[simp] theorem Statement.mentions_empty (position : Position) :
    (Statement.empty position).mentions = [] := by
  rw [Statement.mentions]

def Parameter.mentions (p : Parameter) : List Mention :=
  p.type.mentions

def FunctionDefinition.mentions (f : FunctionDefinition) : List Mention :=
  f.type.mentions ++ f.parameters.flatMap Parameter.mentions ++ Statement.mentionsList f.body

def ExternalDeclaration.mentions : ExternalDeclaration → List Mention
  | .declaration group => group.mentions
  | .function definition => definition.mentions

def TranslationUnit.mentions (unit : TranslationUnit) : List Mention :=
  unit.declarations.flatMap ExternalDeclaration.mentions

/-! ## Environments -/

/-- The open scopes, the innermost first, with the file scope last.  A word is bound as a `typedef`
name or as an ordinary one. -/
structure Environment where
  nested : List (Bindings Bool)
  file : Bindings Bool
  deriving DecidableEq

namespace Environment

def fresh : Environment :=
  { nested := [], file := [] }

def enter (env : Environment) : Environment :=
  { env with nested := [] :: env.nested }

def leave (env : Environment) : Environment :=
  { env with nested := env.nested.tail }

def bindFile (env : Environment) (name : String) (isTypedef : Bool) : Environment :=
  { env with file := env.file.insert name isTypedef }

/-- Binds a word in the innermost scope. -/
def bind (env : Environment) (name : String) (isTypedef : Bool) : Environment :=
  match env.nested with
  | scope :: outer => { env with nested := scope.insert name isTypedef :: outer }
  | [] => env.bindFile name isTypedef

/-- Whether the innermost scope that binds the word binds it as a `typedef` name. -/
def isTypedef (env : Environment) (name : String) : Bool :=
  ((env.nested.findSome? fun scope => scope.get? name) <|> env.file.get? name).getD false

/-- Whether a word is used as it is bound. -/
def fits (env : Environment) : Mention → Bool
  | .identifier name => !env.isTypedef name
  | .typeName name => env.isTypedef name
  | .alias _ | .enumerators => true

/-- Looks at words where they stand. -/
def read (env : Environment) (mentions : List Mention) : Option Environment :=
  if mentions.all env.fits then some env else none

end Environment

/-! ## Types around a base -/

namespace CType

/-- What a type's pointers, arrays and functions are built around. -/
def core : CType → CType
  | .pointer target => target.core
  | .array element _ => element.core
  | .function result _ _ => result.core
  | type => type

/-- What a type says of words apart from its core. -/
def wrapping : CType → List Mention
  | .pointer target => target.wrapping
  | .array element size => element.wrapping ++ Expr.mentionsOption size
  | .function result parameters _ => result.wrapping ++ parameters.flatMap CType.mentions
  | _ => []

/-- Whether the type is no pointer, array or function. -/
def Bare (type : CType) : Prop :=
  type.core = type ∧ type.wrapping = []

end CType

/-! ## The walk -/

/-- A declaration binds its name after the rest of its type and before its initial value.  Its type
is built around the base of the group, which is not read again. -/
def Declaration.walk (base : CType) (env : Environment) (d : Declaration) : Option Environment :=
  if d.type.core = base then do
    let env ← env.read d.type.wrapping
    (env.bind d.name d.isTypedef).read (Expr.mentionsOption d.initial)
  else
    none

def DeclarationGroup.walk (env : Environment) (group : DeclarationGroup) : Option Environment := do
  let env ← env.read group.base.mentions
  group.declarations.foldlM (Declaration.walk group.base) env

def ForStart.walk (env : Environment) : ForStart → Option Environment
  | .declaration group => group.walk env
  | .expression value => env.read value.mentions

mutual

def Statement.walk (env : Environment) : Statement → Option Environment
  | .block _ items => do
      let inner ← Statement.walkList env.enter items
      return inner.leave
  | .declaration _ group => group.walk env
  | .expression _ value => env.read value.mentions
  | .if _ condition whenTrue whenFalse => do
      let env ← env.read condition.mentions
      let env ← whenTrue.walk env
      Statement.walkOption env whenFalse
  | .while _ condition body => do
      let env ← env.read condition.mentions
      body.walk env
  | .doWhile _ body condition => do
      let env ← body.walk env
      env.read condition.mentions
  | .for _ start condition step body => do
      let inner ← (start.map (ForStart.walk env.enter)).getD (some env.enter)
      let inner ← inner.read (Expr.mentionsOption condition ++ Expr.mentionsOption step)
      let inner ← body.walk inner
      return inner.leave
  | .switch _ subject body => do
      let env ← env.read subject.mentions
      body.walk env
  | .case _ value body => do
      let env ← env.read value.mentions
      body.walk env
  | .default _ body => body.walk env
  | .label _ _ body => body.walk env
  | .return _ value => env.read (Expr.mentionsOption value)
  | .goto _ _ | .break _ | .continue _ | .empty _ => some env

def Statement.walkList (env : Environment) : List Statement → Option Environment
  | [] => some env
  | item :: items => do
      let env ← item.walk env
      Statement.walkList env items

def Statement.walkOption (env : Environment) : Option Statement → Option Environment
  | none => some env
  | some statement => statement.walk env

end

@[simp] theorem Statement.walk_empty (env : Environment) (position : Position) :
    (Statement.empty position).walk env = some env := by
  rw [Statement.walk]

/-- A parameter binds its name after its own type. -/
def Parameter.walk (env : Environment) (p : Parameter) : Option Environment := do
  let env ← env.read p.mentions
  return p.name.elim env fun name => env.bind name false

/-- The parameters and the body of a function share a scope.  The function's own name is bound
outside of it, between the two. -/
def FunctionDefinition.walk (env : Environment) (f : FunctionDefinition) : Option Environment :=
  match f.type with
  | .function result types _ =>
      if types = f.parameters.map (·.type) then do
        let env ← env.read result.mentions
        let inner ← f.parameters.foldlM Parameter.walk env.enter
        let inner ← Statement.walkList (inner.bindFile f.name false) f.body
        return inner.leave
      else
        none
  | _ => none

def ExternalDeclaration.walk (env : Environment) : ExternalDeclaration → Option Environment
  | .declaration group => group.walk env
  | .function definition => definition.walk env

def TranslationUnit.walk (unit : TranslationUnit) : Option Environment :=
  unit.declarations.foldlM ExternalDeclaration.walk .fresh

end CSyntax
