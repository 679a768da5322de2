import CSyntax.Parser.Declarator
import CSyntax.Symbols

/-!
# Erasure — trees without positions

Two trees say the same of a program if they are equal once every position in them has been replaced
by one and the same.  This file defines `erase` on types, expressions, statements and units, and on
what a parser has in hand while it reads them: tallies of specifiers and wrappings of declarators.

Erasing commutes with all that a parser computes from such data (`Declarator.erase_type`,
`SpecifierTally.erase_type?` and their like), so a rule that is begun with data equal up to positions
goes on with such data.
-/

namespace CSyntax

/-- The position that stands in erased trees. -/
def Position.erased : Position :=
  { line := 0, column := 0, offset := 0, file := none }

/-- Equality up to what `erase` removes. -/
def Alike {α β : Type} (erase : α → β) (a a' : α) : Prop :=
  erase a = erase a'

namespace Alike

variable {α β : Type} {erase : α → β} {a a' : α}

theorem refl (a : α) : Alike erase a a := rfl

@[simp] theorem some_iff : Alike (Option.map erase) (some a) (some a') ↔ Alike erase a a' := by
  simp [Alike]

@[simp] theorem none_none : Alike (Option.map erase) none none := rfl

@[simp] theorem none_some : ¬Alike (Option.map erase) none (some a) :=
  nofun

@[simp] theorem some_none : ¬Alike (Option.map erase) (some a) none :=
  nofun

end Alike

/-! ## Types and expressions -/

mutual

def CType.erase : CType → CType
  | .named name => .named name
  | .pointer target => .pointer target.erase
  | .array element size => .array element.erase (Expr.eraseOption size)
  | .function result parameters variadic =>
      .function result.erase (CType.eraseList parameters) variadic
  | .record kind tag members => .record kind tag (Member.eraseOption members)
  | .enumeration tag enumerators => .enumeration tag (Enumerator.eraseOption enumerators)

def CType.eraseList : List CType → List CType
  | [] => []
  | type :: types => type.erase :: CType.eraseList types

def Member.erase : Member → Member
  | ⟨name, type⟩ => ⟨name, type.erase⟩

def Member.eraseList : List Member → List Member
  | [] => []
  | member :: members => member.erase :: Member.eraseList members

def Member.eraseOption : Option (List Member) → Option (List Member)
  | none => none
  | some members => some (Member.eraseList members)

def Enumerator.erase : Enumerator → Enumerator
  | ⟨name, value⟩ => ⟨name, Expr.eraseOption value⟩

def Enumerator.eraseList : List Enumerator → List Enumerator
  | [] => []
  | enumerator :: enumerators => enumerator.erase :: Enumerator.eraseList enumerators

def Enumerator.eraseOption : Option (List Enumerator) → Option (List Enumerator)
  | none => none
  | some enumerators => some (Enumerator.eraseList enumerators)

def Expr.erase : Expr → Expr
  | .identifier _ name => .identifier .erased name
  | .integer _ value => .integer .erased value
  | .floating _ value => .floating .erased value
  | .character _ text => .character .erased text
  | .string _ text => .string .erased text
  | .call _ callee values => .call .erased callee.erase (Expr.eraseList values)
  | .unary _ operator operand => .unary .erased operator operand.erase
  | .binary _ operator left right => .binary .erased operator left.erase right.erase
  | .index _ array subscript => .index .erased array.erase subscript.erase
  | .member _ base name arrow => .member .erased base.erase name arrow
  | .assign _ operator target value => .assign .erased operator target.erase value.erase
  | .conditional _ condition whenTrue whenFalse =>
      .conditional .erased condition.erase whenTrue.erase whenFalse.erase
  | .cast _ type operand => .cast .erased type.erase operand.erase
  | .sizeofType _ type => .sizeofType .erased type.erase
  | .sizeofExpr _ operand => .sizeofExpr .erased operand.erase
  | .initializerList _ items => .initializerList .erased (Expr.eraseList items)

def Expr.eraseList : List Expr → List Expr
  | [] => []
  | value :: values => value.erase :: Expr.eraseList values

def Expr.eraseOption : Option Expr → Option Expr
  | none => none
  | some value => some value.erase

end

@[simp] theorem CType.eraseList_eq (types : List CType) :
    CType.eraseList types = types.map CType.erase := by
  induction types with
  | nil => rfl
  | cons type types ih => rw [CType.eraseList, ih, List.map_cons]

@[simp] theorem Member.eraseList_eq (members : List Member) :
    Member.eraseList members = members.map Member.erase := by
  induction members with
  | nil => rfl
  | cons member members ih => rw [Member.eraseList, ih, List.map_cons]

@[simp] theorem Enumerator.eraseList_eq (enumerators : List Enumerator) :
    Enumerator.eraseList enumerators = enumerators.map Enumerator.erase := by
  induction enumerators with
  | nil => rfl
  | cons enumerator enumerators ih => rw [Enumerator.eraseList, ih, List.map_cons]

@[simp] theorem Expr.eraseList_eq (values : List Expr) :
    Expr.eraseList values = values.map Expr.erase := by
  induction values with
  | nil => rfl
  | cons value values ih => rw [Expr.eraseList, ih, List.map_cons]

@[simp] theorem Member.eraseOption_eq (members : Option (List Member)) :
    Member.eraseOption members = members.map (List.map Member.erase) := by
  cases members <;> simp [Member.eraseOption]

@[simp] theorem Enumerator.eraseOption_eq (enumerators : Option (List Enumerator)) :
    Enumerator.eraseOption enumerators = enumerators.map (List.map Enumerator.erase) := by
  cases enumerators <;> simp [Enumerator.eraseOption]

@[simp] theorem Expr.eraseOption_eq (value : Option Expr) :
    Expr.eraseOption value = value.map Expr.erase := by
  cases value <;> rfl

/-! ## Declarations -/

namespace Parameter

def erase (p : Parameter) : Parameter :=
  { name := p.name, type := p.type.erase, position := .erased }

@[simp] theorem name_erase (p : Parameter) : p.erase.name = p.name := rfl

end Parameter

namespace TypeModifier

def erase : TypeModifier → TypeModifier
  | .pointer => .pointer
  | .array size => .array (size.map Expr.erase)
  | .function parameters variadic => .function (parameters.map Parameter.erase) variadic

theorem erase_apply (type : CType) (m : TypeModifier) :
    (m.apply type).erase = m.erase.apply type.erase := by
  cases m <;> simp [apply, erase, CType.erase, Parameter.erase, Function.comp_def]

end TypeModifier

namespace Declarator

/-- The type that a declarator makes depends on no position in it. -/
theorem erase_type (d : Declarator) (base : CType) :
    (d.type base).erase =
      (d.modifiers.map TypeModifier.erase).foldl TypeModifier.apply base.erase := by
  unfold type
  induction d.modifiers generalizing base with
  | nil => rfl
  | cons first others ih =>
      rw [List.foldl_cons, ih, TypeModifier.erase_apply, List.map_cons, List.foldl_cons]

/-- Nor do the parameters that it declares. -/
theorem erase_parameters? (d : Declarator) :
    d.parameters?.map (List.map Parameter.erase) =
      match (d.modifiers.map TypeModifier.erase).getLast? with
      | some (.function parameters _) => some parameters
      | _ => none := by
  unfold parameters?
  rw [List.getLast?_map]
  cases d.modifiers.getLast? with
  | none => rfl
  | some m => cases m <;> rfl

end Declarator

namespace SpecifierTally

def erase (tally : SpecifierTally) : SpecifierTally :=
  { tally with other := tally.other.map CType.erase }

@[simp] theorem words_erase (tally : SpecifierTally) : tally.erase.words = tally.words := rfl

@[simp] theorem isSome_other_erase (tally : SpecifierTally) :
    tally.erase.other.isSome = tally.other.isSome := by
  simp [erase]

@[simp] theorem hasType_erase (tally : SpecifierTally) : tally.erase.hasType = tally.hasType := by
  simp [hasType]

@[simp] theorem hasStorageClass_erase (tally : SpecifierTally) :
    tally.erase.hasStorageClass = tally.hasStorageClass := rfl

theorem erase_addModifier (tally : SpecifierTally) (word : Keyword) :
    (tally.addModifier word).erase = tally.erase.addModifier word := by
  cases word <;> rfl

theorem erase_type? (tally : SpecifierTally) :
    tally.type?.map CType.erase = tally.erase.type? := by
  unfold type?
  simp only [erase]
  cases tally.other with
  | some type => rfl
  | none =>
      cases ArithmeticType.canonical? tally.words <;> simp [CType.erase]

end SpecifierTally

def Declaration.erase (d : Declaration) : Declaration :=
  { d with type := d.type.erase, initial := d.initial.map Expr.erase, position := .erased }

def DeclarationGroup.erase (group : DeclarationGroup) : DeclarationGroup :=
  { base := group.base.erase
    declarations := group.declarations.map Declaration.erase
    position := .erased }

/-! ## Statements and units -/

def ForStart.erase : ForStart → ForStart
  | .declaration group => .declaration group.erase
  | .expression value => .expression value.erase

mutual

def Statement.erase : Statement → Statement
  | .block _ items => .block .erased (Statement.eraseList items)
  | .declaration _ group => .declaration .erased group.erase
  | .expression _ value => .expression .erased value.erase
  | .if _ condition whenTrue whenFalse =>
      .if .erased condition.erase whenTrue.erase (Statement.eraseOption whenFalse)
  | .while _ condition body => .while .erased condition.erase body.erase
  | .doWhile _ body condition => .doWhile .erased body.erase condition.erase
  | .for _ start condition step body =>
      .for .erased (start.map ForStart.erase) (condition.map Expr.erase) (step.map Expr.erase)
        body.erase
  | .switch _ subject body => .switch .erased subject.erase body.erase
  | .case _ value body => .case .erased value.erase body.erase
  | .default _ body => .default .erased body.erase
  | .label _ name body => .label .erased name body.erase
  | .goto _ name => .goto .erased name
  | .break _ => .break .erased
  | .continue _ => .continue .erased
  | .return _ value => .return .erased (value.map Expr.erase)
  | .empty _ => .empty .erased

def Statement.eraseList : List Statement → List Statement
  | [] => []
  | item :: items => item.erase :: Statement.eraseList items

def Statement.eraseOption : Option Statement → Option Statement
  | none => none
  | some statement => some statement.erase

end

@[simp] theorem Statement.eraseList_eq (items : List Statement) :
    Statement.eraseList items = items.map Statement.erase := by
  induction items with
  | nil => rfl
  | cons item items ih => rw [Statement.eraseList, ih, List.map_cons]

@[simp] theorem Statement.eraseOption_eq (statement : Option Statement) :
    Statement.eraseOption statement = statement.map Statement.erase := by
  cases statement <;> rfl

def FunctionDefinition.erase (f : FunctionDefinition) : FunctionDefinition :=
  { f with
    type := f.type.erase
    parameters := f.parameters.map Parameter.erase
    body := f.body.map Statement.erase
    position := .erased }

def ExternalDeclaration.erase : ExternalDeclaration → ExternalDeclaration
  | .declaration group => .declaration group.erase
  | .function definition => .function definition.erase

def TranslationUnit.erase (unit : TranslationUnit) : TranslationUnit :=
  { declarations := unit.declarations.map ExternalDeclaration.erase }

end CSyntax
