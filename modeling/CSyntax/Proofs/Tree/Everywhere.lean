import CSyntax.Parser.Declarator

/-!
# Everywhere — a property of all the nodes of a tree

Types and expressions contain each other, and declarations, statements and functions contain both.
What holds of a tree at every depth is said in two parts: what is asked of a single node
(`NodeChecks`), and that it is met by the node and by all the nodes below it
(`TranslationUnit.Everywhere`).

The nodes just below a node are listed by `CType.types`, `Expr.operands`, `Statement.bodies` and
their companions, in source order.  An expression is checked together with the role in which it
stands, which its neighbour above decides: an initial value or an operand of anything else.
-/

namespace CSyntax

/-! ## The nodes below a node -/

namespace CType

/-- The types just below a type. -/
def types : CType → List CType
  | .pointer target => [target]
  | .array element _ => [element]
  | .function result parameters _ => result :: parameters
  | .record _ _ members => (members.getD []).map (·.type)
  | .named _ | .enumeration _ _ => []

/-- The expressions just below a type: the size of an array, the values of enumeration constants. -/
def exprs : CType → List Expr
  | .array _ size => size.toList
  | .enumeration _ enumerators => (enumerators.getD []).filterMap (·.value)
  | _ => []

end CType

/-- How an expression is used where it stands. -/
inductive Role
  /-- An initial value of a declaration, or an item of an initializer list. -/
  | initial
  /-- A part of anything else. -/
  | operand
  deriving DecidableEq

namespace Expr

/-- The expressions just below an expression. -/
def operands : Expr → List Expr
  | .identifier _ _ | .integer _ _ | .floating _ _ | .character _ _ | .string _ _ => []
  | .call _ callee values => callee :: values
  | .unary _ _ operand => [operand]
  | .binary _ _ left right => [left, right]
  | .index _ array subscript => [array, subscript]
  | .member _ base _ _ => [base]
  | .assign _ _ target value => [target, value]
  | .conditional _ condition whenTrue whenFalse => [condition, whenTrue, whenFalse]
  | .cast _ _ operand => [operand]
  | .sizeofType _ _ => []
  | .sizeofExpr _ operand => [operand]
  | .initializerList _ items => items

/-- The types just below an expression. -/
def types : Expr → List CType
  | .cast _ type _ => [type]
  | .sizeofType _ type => [type]
  | _ => []

/-- The role of the expressions just below. -/
def roleBelow : Expr → Role
  | .initializerList _ _ => .initial
  | _ => .operand

end Expr

namespace Statement

/-- The expressions just below a statement. -/
def exprs : Statement → List Expr
  | .expression _ value => [value]
  | .if _ condition _ _ => [condition]
  | .while _ condition _ => [condition]
  | .doWhile _ _ condition => [condition]
  | .for _ (some (.expression value)) condition step _ => value :: (condition.toList ++ step.toList)
  | .for _ _ condition step _ => condition.toList ++ step.toList
  | .switch _ subject _ => [subject]
  | .case _ value _ => [value]
  | .return _ value => value.toList
  | _ => []

/-- The groups of declarations just below a statement. -/
def groups : Statement → List DeclarationGroup
  | .declaration _ group => [group]
  | .for _ (some (.declaration group)) _ _ _ => [group]
  | _ => []

/-- The statements just below a statement. -/
def bodies : Statement → List Statement
  | .block _ items => items
  | .if _ _ whenTrue whenFalse => whenTrue :: whenFalse.toList
  | .while _ _ body | .doWhile _ body _ | .for _ _ _ _ body | .switch _ _ body
  | .case _ _ body | .default _ body | .label _ _ body => [body]
  | _ => []

end Statement

/-! ## Everywhere in a tree -/

/-- What is asked of single nodes.  The check of a group covers its declarations, and that of a
definition its parameters. -/
structure NodeChecks where
  type : CType → Prop
  expr : Role → Expr → Prop
  group : DeclarationGroup → Prop
  statement : Statement → Prop
  definition : FunctionDefinition → Prop

mutual

inductive CType.Everywhere (P : NodeChecks) : CType → Prop
  | intro {type : CType} : P.type type → (∀ t ∈ type.types, t.Everywhere P) →
      (∀ e ∈ type.exprs, e.Everywhere P .operand) → type.Everywhere P

inductive Expr.Everywhere (P : NodeChecks) : Role → Expr → Prop
  | intro {role : Role} {expr : Expr} : P.expr role expr →
      (∀ e ∈ expr.operands, e.Everywhere P expr.roleBelow) →
      (∀ t ∈ expr.types, t.Everywhere P) → expr.Everywhere P role

end

/-- What is below an expression does not depend on the role in which it stands. -/
theorem Expr.Everywhere.recast {P : NodeChecks} {role role' : Role} {e : Expr}
    (h : e.Everywhere P role) (hnode : P.expr role e → P.expr role' e) : e.Everywhere P role' := by
  obtain ⟨hexpr, hoperands, htypes⟩ := h
  exact .intro (hnode hexpr) hoperands htypes

/-- The declaration is, but for what the group as a whole is asked. -/
structure Declaration.Everywhere (P : NodeChecks) (d : Declaration) : Prop where
  type : d.type.Everywhere P
  initial : ∀ e ∈ d.initial, e.Everywhere P .initial

structure DeclarationGroup.Everywhere (P : NodeChecks) (group : DeclarationGroup) : Prop where
  node : P.group group
  base : group.base.Everywhere P
  declarations : ∀ d ∈ group.declarations, d.Everywhere P

inductive Statement.Everywhere (P : NodeChecks) : Statement → Prop
  | intro {s : Statement} : P.statement s → (∀ e ∈ s.exprs, e.Everywhere P .operand) →
      (∀ g ∈ s.groups, g.Everywhere P) → (∀ t ∈ s.bodies, t.Everywhere P) → s.Everywhere P

structure FunctionDefinition.Everywhere (P : NodeChecks) (f : FunctionDefinition) : Prop where
  node : P.definition f
  type : f.type.Everywhere P
  parameters : ∀ p ∈ f.parameters, p.type.Everywhere P
  body : ∀ s ∈ f.body, s.Everywhere P

def ExternalDeclaration.Everywhere (P : NodeChecks) : ExternalDeclaration → Prop
  | .declaration group => group.Everywhere P
  | .function definition => definition.Everywhere P

/-- All nodes of the unit are as the checks ask. -/
def TranslationUnit.Everywhere (P : NodeChecks) (unit : TranslationUnit) : Prop :=
  ∀ d ∈ unit.declarations, d.Everywhere P

/-! ## Types around a base -/

inductive TypeModifier.Everywhere (P : NodeChecks) : TypeModifier → Prop
  | pointer : TypeModifier.Everywhere P .pointer
  | array {size : Option Expr} : (∀ e ∈ size, e.Everywhere P .operand) →
      TypeModifier.Everywhere P (.array size)
  | function {parameters : List Parameter} {variadic : Bool} :
      (∀ p ∈ parameters, p.type.Everywhere P) →
      TypeModifier.Everywhere P (.function parameters variadic)

/-- Nothing is asked of pointers, arrays and functions themselves. -/
def NodeChecks.AllowWrapping (P : NodeChecks) : Prop :=
  ∀ (type : CType) (modifier : TypeModifier), P.type (modifier.apply type)

namespace CType.Everywhere

variable {P : NodeChecks} {type base : CType} {modifier : TypeModifier} {d : Declarator}

theorem apply (hP : P.AllowWrapping) (htype : type.Everywhere P) (hmodifier : modifier.Everywhere P) :
    (modifier.apply type).Everywhere P := by
  refine .intro (hP type modifier) ?_ ?_
  · cases hmodifier with
    | pointer => simpa [TypeModifier.apply, types] using htype
    | array _ => simpa [TypeModifier.apply, types] using htype
    | function hparameters => simpa [TypeModifier.apply, types] using ⟨htype, hparameters⟩
  · cases hmodifier with
    | pointer => simp [TypeModifier.apply, exprs]
    | array hsize => simpa [TypeModifier.apply, exprs] using hsize
    | function _ => simp [TypeModifier.apply, exprs]

/-- A declarator is built around a base from the inside out. -/
theorem wrap (hP : P.AllowWrapping) (hbase : base.Everywhere P)
    (hmodifiers : ∀ m ∈ d.modifiers, m.Everywhere P) : (d.type base).Everywhere P := by
  unfold Declarator.type
  generalize d.modifiers = modifiers at hmodifiers
  induction modifiers generalizing base with
  | nil => exact hbase
  | cons first others ih =>
      obtain ⟨hfirst, hothers⟩ := List.forall_mem_cons.1 hmodifiers
      exact ih (hbase.apply hP hfirst) hothers

end CType.Everywhere

end CSyntax
