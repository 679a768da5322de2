import CSyntax.Tree.Equality

/-!
# Unit — declarations, statements and whole units

A translation unit is a list of declaration groups and function definitions in source order.  A
group is all that stands before one semicolon: the type that its specifiers name, and the
declarations that hang off it, of which there may be none (`struct point { int x; };`).
-/

namespace CSyntax

/-! ## Declarations -/

inductive StorageClass
  | external
  | static
  | auto
  | register
  deriving DecidableEq

structure Qualifiers where
  const : Bool
  volatile : Bool
  deriving DecidableEq

/-- One declared name.  A `typedef` has neither an initial value nor a storage class. -/
structure Declaration where
  name : String
  type : CType
  initial : Option Expr
  isTypedef : Bool
  storage : Option StorageClass
  qualifiers : Qualifiers
  position : Position
  deriving DecidableEq

structure DeclarationGroup where
  base : CType
  declarations : List Declaration
  position : Position
  deriving DecidableEq

/-- A parameter; in a type such as `int (*)(char)` it has no name. -/
structure Parameter where
  name : Option String
  type : CType
  position : Position
  deriving DecidableEq

/-! ## Statements -/

/-- What a `for` loop begins with. -/
inductive ForStart
  | declaration (group : DeclarationGroup)
  | expression (value : Expr)
  deriving DecidableEq

inductive Statement where
  | block (position : Position) (items : List Statement)
  | declaration (position : Position) (group : DeclarationGroup)
  | expression (position : Position) (value : Expr)
  | «if» (position : Position) (condition : Expr) (whenTrue : Statement)
      (whenFalse : Option Statement)
  | «while» (position : Position) (condition : Expr) (body : Statement)
  | doWhile (position : Position) (body : Statement) (condition : Expr)
  | «for» (position : Position) (start : Option ForStart) (condition step : Option Expr)
      (body : Statement)
  | switch (position : Position) (subject : Expr) (body : Statement)
  | «case» (position : Position) (value : Expr) (body : Statement)
  | default (position : Position) (body : Statement)
  | label (position : Position) (name : String) (body : Statement)
  | goto (position : Position) (name : String)
  | «break» (position : Position)
  | «continue» (position : Position)
  | «return» (position : Position) (value : Option Expr)
  | empty (position : Position)

namespace Statement

def position : Statement → Position
  | .block p _ | .declaration p _ | .expression p _ | .if p _ _ _ | .while p _ _
  | .doWhile p _ _ | .for p _ _ _ _ | .switch p _ _ | .case p _ _ | .default p _
  | .label p _ _ | .goto p _ | .break p | .continue p | .return p _ | .empty p => p

end Statement

/-! ## Units -/

/-- A function with its body; `type` is the type of the function, parameters included. -/
structure FunctionDefinition where
  name : String
  type : CType
  parameters : List Parameter
  body : List Statement
  storage : Option StorageClass
  position : Position

inductive ExternalDeclaration
  | declaration (group : DeclarationGroup)
  | function (definition : FunctionDefinition)

namespace ExternalDeclaration

def position : ExternalDeclaration → Position
  | .declaration group => group.position
  | .function definition => definition.position

end ExternalDeclaration

structure TranslationUnit where
  declarations : List ExternalDeclaration

namespace TranslationUnit

/-- The function definitions in source order. -/
def functions (unit : TranslationUnit) : List FunctionDefinition :=
  unit.declarations.filterMap fun
    | .function definition => some definition
    | .declaration _ => none

end TranslationUnit

/-! ## Equality of statements and units -/

mutual

def Statement.same : Statement → Statement → Bool
  | .block p as, .block q bs => p = q && Statement.sameList as bs
  | .declaration p a, .declaration q b => p = q && a = b
  | .expression p a, .expression q b => p = q && a = b
  | .if p a c e, .if q b d f => p = q && a = b && c.same d && Statement.sameOption e f
  | .while p a c, .while q b d => p = q && a = b && c.same d
  | .doWhile p a c, .doWhile q b d => p = q && a.same b && c = d
  | .for p a c e g, .for q b d f h => p = q && a = b && c = d && e = f && g.same h
  | .switch p a c, .switch q b d => p = q && a = b && c.same d
  | .case p a c, .case q b d => p = q && a = b && c.same d
  | .default p a, .default q b => p = q && a.same b
  | .label p a c, .label q b d => p = q && a = b && c.same d
  | .goto p a, .goto q b => p = q && a = b
  | .break p, .break q => p = q
  | .continue p, .continue q => p = q
  | .return p a, .return q b => p = q && a = b
  | .empty p, .empty q => p = q
  | _, _ => false

def Statement.sameList : List Statement → List Statement → Bool
  | [], [] => true
  | a :: as, b :: bs => a.same b && Statement.sameList as bs
  | _, _ => false

def Statement.sameOption : Option Statement → Option Statement → Bool
  | none, none => true
  | some a, some b => a.same b
  | _, _ => false

end

mutual

theorem Statement.same_iff : (a b : Statement) → (a.same b = true ↔ a = b)
  | .block _ as, b => by
      cases b <;> simp [Statement.same, Statement.sameList_iff as]
  | .declaration .., b => by
      cases b <;> simp [Statement.same]
  | .expression .., b => by
      cases b <;> simp [Statement.same]
  | .if _ _ c e, b => by
      cases b <;>
        simp [Statement.same, Statement.same_iff c, Statement.sameOption_iff e, and_assoc]
  | .while _ _ c, b => by
      cases b <;> simp [Statement.same, Statement.same_iff c, and_assoc]
  | .doWhile _ a _, b => by
      cases b <;> simp [Statement.same, Statement.same_iff a, and_assoc]
  | .for _ _ _ _ g, b => by
      cases b <;> simp [Statement.same, Statement.same_iff g, and_assoc]
  | .switch _ _ c, b => by
      cases b <;> simp [Statement.same, Statement.same_iff c, and_assoc]
  | .case _ _ c, b => by
      cases b <;> simp [Statement.same, Statement.same_iff c, and_assoc]
  | .default _ a, b => by
      cases b <;> simp [Statement.same, Statement.same_iff a]
  | .label _ _ c, b => by
      cases b <;> simp [Statement.same, Statement.same_iff c, and_assoc]
  | .goto .., b => by
      cases b <;> simp [Statement.same]
  | .break .., b => by
      cases b <;> simp [Statement.same]
  | .continue .., b => by
      cases b <;> simp [Statement.same]
  | .return .., b => by
      cases b <;> simp [Statement.same]
  | .empty .., b => by
      cases b <;> simp [Statement.same]

theorem Statement.sameList_iff :
    (as bs : List Statement) → (Statement.sameList as bs = true ↔ as = bs)
  | [], bs => by
      cases bs <;> simp [Statement.sameList]
  | a :: as, bs => by
      cases bs <;> simp [Statement.sameList, Statement.same_iff a, Statement.sameList_iff as]

theorem Statement.sameOption_iff :
    (a b : Option Statement) → (Statement.sameOption a b = true ↔ a = b)
  | none, b => by
      cases b <;> simp [Statement.sameOption]
  | some a, b => by
      cases b <;> simp [Statement.sameOption, Statement.same_iff a]

end

instance : DecidableEq Statement := fun a b => decidable_of_iff _ (Statement.same_iff a b)

deriving instance DecidableEq for FunctionDefinition, ExternalDeclaration, TranslationUnit

end CSyntax
