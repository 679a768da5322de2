import CSyntax.Proofs.Lexical.Spelling
import CSyntax.Proofs.Scope.Shapes
import CSyntax.Proofs.Tree.Everywhere

/-!
# WellFormed — the shape that a tree has beyond its types

A finished unit is shaped more narrowly than its data types demand: an initializer list is an
initial value and nothing else, a `typedef` has no storage class, the declarations of a group are
built around one base.  This file says so as a check of every node:

* `Identifier` — the words that are left to a program;
* `CType.Wraps` — a type that is a base within pointers, arrays and functions;
* `wellFormed` — the checks, for all kinds of nodes.
-/

namespace CSyntax

/-! ## Words -/

/-- Letters, digits and underscores, no digit in front, and not a reserved word. -/
def Identifier (name : String) : Prop :=
  (∃ c cs, name.toList = c :: cs ∧ Lexeme.isWordStart c = true ∧
    ∀ d ∈ cs, Lexeme.isWordPart d = true) ∧ Unreserved name

theorem TokenKind.lexeme_of_mem_words {kind : TokenKind} {name : String} (h : name ∈ kind.words) :
    kind.lexeme = .word name := by
  cases kind with
  | identifier other => rw [List.mem_singleton.1 h, lexeme]
  | typeName other => rw [List.mem_singleton.1 h, lexeme]
  | _ => cases h

/-- The words of a fresh token are identifiers. -/
theorem Token.Fresh.identifier {origin : Source} {table : SymbolTable} {token : Token}
    {name : String} (h : token.Fresh origin table) (hfree : table.KeywordFree)
    (hname : name ∈ token.kind.words) : Identifier name := by
  refine ⟨?_, h.allUnreserved hfree name hname⟩
  obtain ⟨w, ⟨n, t, -, hnext⟩, hkind⟩ := Token.fresh_iff.1 h
  obtain ⟨_, _, -, -, hscan, -⟩ := Source.nextLexeme_eq_ok hnext
  obtain ⟨text, _, -, hspelled, -, -⟩ := Lexeme.spelled_of_scan hscan
  obtain rfl : w = .word name := by
    rw [← SymbolTable.lexeme_classify table w, ← hkind]
    exact TokenKind.lexeme_of_mem_words hname
  generalize hword : Lexeme.word name = word at hspelled
  cases hspelled with
  | @word c cs hc hcs =>
      obtain rfl := Lexeme.word.inj hword
      exact ⟨c, cs, String.toList_ofList, hc, hcs⟩
  | number hnumber => cases hnumber <;> cases hword
  | _ => cases hword

/-! ## Types around a base -/

/-- The type is the base within any number of pointers, arrays and functions. -/
inductive CType.Wraps (base : CType) : CType → Prop
  | base : Wraps base base
  | pointer {target : CType} : Wraps base target → Wraps base (.pointer target)
  | array {element : CType} {size : Option Expr} : Wraps base element →
      Wraps base (.array element size)
  | function {result : CType} {parameters : List CType} {variadic : Bool} : Wraps base result →
      Wraps base (.function result parameters variadic)

theorem Declarator.wraps (d : Declarator) (base : CType) : base.Wraps (d.type base) := by
  have hfold : ∀ (modifiers : List TypeModifier) (type : CType), base.Wraps type →
      base.Wraps (modifiers.foldl TypeModifier.apply type) := by
    intro modifiers
    induction modifiers with
    | nil => exact fun type h => h
    | cons first others ih =>
        intro type h
        refine ih _ ?_
        cases first with
        | pointer => exact .pointer h
        | array size => exact .array h
        | function parameters variadic => exact .function h
  exact hfold d.modifiers base .base

/-- The declarator of a function makes a function type, with the types of its parameters. -/
theorem Declarator.type_of_parameters? {d : Declarator} {list : List Parameter}
    (h : d.parameters? = some list) (base : CType) :
    ∃ result variadic, d.type base = .function result (list.map (·.type)) variadic := by
  unfold Declarator.parameters? at h
  split at h
  · rename_i parameters variadic hlast
    obtain rfl := Option.some.inj h
    -- The last wrapping is applied last.
    obtain ⟨others, hothers⟩ := List.getLast?_eq_some_iff.1 hlast
    refine ⟨others.foldl TypeModifier.apply base, variadic, ?_⟩
    rw [Declarator.type, hothers, List.foldl_append]
    rfl
  · cases h

/-! ## The checks -/

/-- The operations that an assignment may carry out. -/
def BinaryOperator.assignable : List BinaryOperator :=
  [.add, .subtract, .multiply, .divide, .remainder, .shiftLeft, .shiftRight, .bitwiseAnd,
    .bitwiseXor, .bitwiseOr]

/-- A name is one of an arithmetic type or an identifier.  Without a tag there is a body. -/
def CType.WellFormed : CType → Prop
  | .named name => name ∈ ArithmeticType.spellings ∨ Identifier name
  | .record _ tag members => tag = none → members.isSome = true
  | .enumeration tag enumerators => tag = none → enumerators.isSome = true
  | .pointer _ | .array _ _ | .function _ _ _ => True

/-- An initializer list is an initial value. -/
def Expr.WellFormed (role : Role) : Expr → Prop
  | .initializerList _ _ => role = .initial
  | .assign _ operator _ _ => ∀ op ∈ operator, op ∈ BinaryOperator.assignable
  | _ => True

/-- The declarations of a group agree in all that their specifiers say, and are built around the
base of the group.  A `typedef` has neither an initial value nor a storage class. -/
structure DeclarationGroup.WellFormed (group : DeclarationGroup) : Prop where
  agree : ∀ d ∈ group.declarations, ∀ d' ∈ group.declarations,
    d.isTypedef = d'.isTypedef ∧ d.storage = d'.storage ∧ d.qualifiers = d'.qualifiers
  wraps : ∀ d ∈ group.declarations, group.base.Wraps d.type
  bare : ∀ d ∈ group.declarations, d.isTypedef = true → d.initial = none ∧ d.storage = none

/-- The type of a function is one, with the types of the parameters that are listed. -/
def FunctionDefinition.WellFormed (f : FunctionDefinition) : Prop :=
  ∃ result variadic, f.type = .function result (f.parameters.map (·.type)) variadic

def wellFormed : NodeChecks where
  type := CType.WellFormed
  expr := Expr.WellFormed
  group := DeclarationGroup.WellFormed
  statement _ := True
  definition := FunctionDefinition.WellFormed

theorem allowWrapping_wellFormed : wellFormed.AllowWrapping := by
  intro type modifier
  cases modifier <;> trivial

/-- An expression may be an initial value. -/
theorem Expr.Everywhere.initial {e : Expr} (h : e.Everywhere wellFormed .operand) :
    e.Everywhere wellFormed .initial := by
  refine h.recast fun hnode => ?_
  cases e with
  | initializerList => rfl
  | _ => exact hnode

end CSyntax
