import CSyntax.Proofs.Renaming.NameSpaces
import CSyntax.Proofs.Tree.Erasure

/-!
# Trees — types, expressions and units with new names

`respell` puts the new names of tags, members and labels into a tree and leaves everything else in it
as it is, positions included.  It is defined on all that a parser builds, as `erase` is, and commutes
with what a parser computes from specifiers and declarators (`Declarator.respell_type`,
`SpecifierTally.respell_type?` and their like).
-/

namespace CSyntax

/-- The second is the first with the new names, up to positions. -/
def Renamed {α β : Type} (respell : α → α) (erase : α → β) (a a' : α) : Prop :=
  Alike erase (respell a) a'

variable (ρ : Renaming)

/-! ## Types and expressions -/

mutual

def CType.respell (ρ : Renaming) : CType → CType
  | .named name => .named name
  | .pointer target => .pointer (target.respell ρ)
  | .array element size => .array (element.respell ρ) (Expr.respellOption ρ size)
  | .function result parameters variadic =>
      .function (result.respell ρ) (CType.respellList ρ parameters) variadic
  | .record kind tag members => .record kind (tag.map ρ.tag) (Member.respellOption ρ members)
  | .enumeration tag enumerators =>
      .enumeration (tag.map ρ.tag) (Enumerator.respellOption ρ enumerators)

def CType.respellList (ρ : Renaming) : List CType → List CType
  | [] => []
  | type :: types => type.respell ρ :: CType.respellList ρ types

def Member.respell (ρ : Renaming) : Member → Member
  | ⟨name, type⟩ => ⟨ρ.member name, type.respell ρ⟩

def Member.respellList (ρ : Renaming) : List Member → List Member
  | [] => []
  | member :: members => member.respell ρ :: Member.respellList ρ members

def Member.respellOption (ρ : Renaming) : Option (List Member) → Option (List Member)
  | none => none
  | some members => some (Member.respellList ρ members)

def Enumerator.respell (ρ : Renaming) : Enumerator → Enumerator
  | ⟨name, value⟩ => ⟨name, Expr.respellOption ρ value⟩

def Enumerator.respellList (ρ : Renaming) : List Enumerator → List Enumerator
  | [] => []
  | enumerator :: enumerators =>
      enumerator.respell ρ :: Enumerator.respellList ρ enumerators

def Enumerator.respellOption (ρ : Renaming) : Option (List Enumerator) → Option (List Enumerator)
  | none => none
  | some enumerators => some (Enumerator.respellList ρ enumerators)

def Expr.respell (ρ : Renaming) : Expr → Expr
  | .identifier p name => .identifier p name
  | .integer p value => .integer p value
  | .floating p value => .floating p value
  | .character p text => .character p text
  | .string p text => .string p text
  | .call p callee values => .call p (callee.respell ρ) (Expr.respellList ρ values)
  | .unary p operator operand => .unary p operator (operand.respell ρ)
  | .binary p operator left right => .binary p operator (left.respell ρ) (right.respell ρ)
  | .index p array subscript => .index p (array.respell ρ) (subscript.respell ρ)
  | .member p base name arrow => .member p (base.respell ρ) (ρ.member name) arrow
  | .assign p operator target value =>
      .assign p operator (target.respell ρ) (value.respell ρ)
  | .conditional p condition whenTrue whenFalse =>
      .conditional p (condition.respell ρ) (whenTrue.respell ρ) (whenFalse.respell ρ)
  | .cast p type operand => .cast p (type.respell ρ) (operand.respell ρ)
  | .sizeofType p type => .sizeofType p (type.respell ρ)
  | .sizeofExpr p operand => .sizeofExpr p (operand.respell ρ)
  | .initializerList p items => .initializerList p (Expr.respellList ρ items)

def Expr.respellList (ρ : Renaming) : List Expr → List Expr
  | [] => []
  | value :: values => value.respell ρ :: Expr.respellList ρ values

def Expr.respellOption (ρ : Renaming) : Option Expr → Option Expr
  | none => none
  | some value => some (value.respell ρ)

end

@[simp] theorem CType.respellList_eq (types : List CType) :
    CType.respellList ρ types = types.map (CType.respell ρ) := by
  induction types with
  | nil => rw [CType.respellList, List.map_nil]
  | cons type types ih => rw [CType.respellList, ih, List.map_cons]

@[simp] theorem Member.respellList_eq (members : List Member) :
    Member.respellList ρ members = members.map (Member.respell ρ) := by
  induction members with
  | nil => rw [Member.respellList, List.map_nil]
  | cons member members ih => rw [Member.respellList, ih, List.map_cons]

@[simp] theorem Enumerator.respellList_eq (enumerators : List Enumerator) :
    Enumerator.respellList ρ enumerators = enumerators.map (Enumerator.respell ρ) := by
  induction enumerators with
  | nil => rw [Enumerator.respellList, List.map_nil]
  | cons enumerator enumerators ih => rw [Enumerator.respellList, ih, List.map_cons]

@[simp] theorem Expr.respellList_eq (values : List Expr) :
    Expr.respellList ρ values = values.map (Expr.respell ρ) := by
  induction values with
  | nil => rw [Expr.respellList, List.map_nil]
  | cons value values ih => rw [Expr.respellList, ih, List.map_cons]

@[simp] theorem Member.respellOption_eq (members : Option (List Member)) :
    Member.respellOption ρ members = members.map (List.map (Member.respell ρ)) := by
  cases members <;> simp [Member.respellOption]

@[simp] theorem Enumerator.respellOption_eq (enumerators : Option (List Enumerator)) :
    Enumerator.respellOption ρ enumerators =
      enumerators.map (List.map (Enumerator.respell ρ)) := by
  cases enumerators <;> simp [Enumerator.respellOption]

@[simp] theorem Expr.respellOption_eq (value : Option Expr) :
    Expr.respellOption ρ value = value.map (Expr.respell ρ) := by
  cases value <;> rfl

/-! ## Declarations -/

def Parameter.respell (p : Parameter) : Parameter :=
  { p with type := p.type.respell ρ }

namespace TypeModifier

def respell : TypeModifier → TypeModifier
  | .pointer => .pointer
  | .array size => .array (size.map (Expr.respell ρ))
  | .function parameters variadic => .function (parameters.map (Parameter.respell ρ)) variadic

theorem respell_apply (type : CType) (m : TypeModifier) :
    (m.apply type).respell ρ = (m.respell ρ).apply (type.respell ρ) := by
  cases m <;> simp [apply, respell, CType.respell, Parameter.respell, Function.comp_def]

end TypeModifier

namespace Declarator

/-- The type that a declarator makes of a base type, with new names in both. -/
theorem respell_type (d : Declarator) (base : CType) :
    (d.type base).respell ρ =
      (d.modifiers.map (TypeModifier.respell ρ)).foldl TypeModifier.apply (base.respell ρ) := by
  unfold type
  induction d.modifiers generalizing base with
  | nil => rfl
  | cons first others ih =>
      rw [List.foldl_cons, ih, TypeModifier.respell_apply, List.map_cons, List.foldl_cons]

theorem respell_parameters? (d : Declarator) :
    d.parameters?.map (List.map (Parameter.respell ρ)) =
      match (d.modifiers.map (TypeModifier.respell ρ)).getLast? with
      | some (.function parameters _) => some parameters
      | _ => none := by
  unfold parameters?
  rw [List.getLast?_map]
  cases d.modifiers.getLast? with
  | none => rfl
  | some m => cases m <;> rfl

end Declarator

namespace SpecifierTally

def respell (tally : SpecifierTally) : SpecifierTally :=
  { tally with other := tally.other.map (CType.respell ρ) }

variable (tally : SpecifierTally)

@[simp] theorem words_respell : (tally.respell ρ).words = tally.words := rfl

@[simp] theorem isSome_other_respell :
    (tally.respell ρ).other.isSome = tally.other.isSome := by
  simp [respell]

@[simp] theorem hasType_respell : (tally.respell ρ).hasType = tally.hasType := by
  simp [hasType]

@[simp] theorem hasStorageClass_respell :
    (tally.respell ρ).hasStorageClass = tally.hasStorageClass := rfl

theorem respell_addModifier (word : Keyword) :
    (tally.addModifier word).respell ρ = (tally.respell ρ).addModifier word := by
  cases word <;> rfl

theorem respell_type? : tally.type?.map (CType.respell ρ) = (tally.respell ρ).type? := by
  unfold type?
  simp only [respell]
  cases tally.other with
  | some type => rfl
  | none => cases ArithmeticType.canonical? tally.words <;> simp [CType.respell]

end SpecifierTally

def Declaration.respell (d : Declaration) : Declaration :=
  { d with type := d.type.respell ρ, initial := d.initial.map (Expr.respell ρ) }

def DeclarationGroup.respell (group : DeclarationGroup) : DeclarationGroup :=
  { group with
    base := group.base.respell ρ
    declarations := group.declarations.map (Declaration.respell ρ) }

/-! ## Statements and units -/

def ForStart.respell : ForStart → ForStart
  | .declaration group => .declaration (group.respell ρ)
  | .expression value => .expression (value.respell ρ)

mutual

/-- A label statement begins with its label, and a `goto` with its keyword. -/
def Statement.respell (ρ : Renaming) : Statement → Statement
  | .block p items => .block p (Statement.respellList ρ items)
  | .declaration p group => .declaration p (group.respell ρ)
  | .expression p value => .expression p (value.respell ρ)
  | .if p condition whenTrue whenFalse =>
      .if p (condition.respell ρ) (whenTrue.respell ρ) (Statement.respellOption ρ whenFalse)
  | .while p condition body => .while p (condition.respell ρ) (body.respell ρ)
  | .doWhile p body condition => .doWhile p (body.respell ρ) (condition.respell ρ)
  | .for p start condition step body =>
      .for p (start.map (ForStart.respell ρ)) (condition.map (Expr.respell ρ))
        (step.map (Expr.respell ρ)) (body.respell ρ)
  | .switch p subject body => .switch p (subject.respell ρ) (body.respell ρ)
  | .case p value body => .case p (value.respell ρ) (body.respell ρ)
  | .default p body => .default p (body.respell ρ)
  | .label p name body => .label p (ρ.label p.offset name) (body.respell ρ)
  | .goto p name => .goto p (ρ.label p.offset name)
  | .break p => .break p
  | .continue p => .continue p
  | .return p value => .return p (value.map (Expr.respell ρ))
  | .empty p => .empty p

def Statement.respellList (ρ : Renaming) : List Statement → List Statement
  | [] => []
  | item :: items => item.respell ρ :: Statement.respellList ρ items

def Statement.respellOption (ρ : Renaming) : Option Statement → Option Statement
  | none => none
  | some statement => some (statement.respell ρ)

end

@[simp] theorem Statement.respellList_eq (items : List Statement) :
    Statement.respellList ρ items = items.map (Statement.respell ρ) := by
  induction items with
  | nil => rw [Statement.respellList, List.map_nil]
  | cons item items ih => rw [Statement.respellList, ih, List.map_cons]

@[simp] theorem Statement.respellOption_eq (statement : Option Statement) :
    Statement.respellOption ρ statement = statement.map (Statement.respell ρ) := by
  cases statement <;> rfl

def FunctionDefinition.respell (f : FunctionDefinition) : FunctionDefinition :=
  { f with
    type := f.type.respell ρ
    parameters := f.parameters.map (Parameter.respell ρ)
    body := f.body.map (Statement.respell ρ) }

def ExternalDeclaration.respell : ExternalDeclaration → ExternalDeclaration
  | .declaration group => .declaration (group.respell ρ)
  | .function definition => .function (definition.respell ρ)

def TranslationUnit.respell (unit : TranslationUnit) : TranslationUnit :=
  { declarations := unit.declarations.map (ExternalDeclaration.respell ρ) }

end CSyntax
