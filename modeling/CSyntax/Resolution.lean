import CSyntax.Bindings
import CSyntax.Tree.Unit

/-!
# Resolution — the types behind type names

A finished tree tells which names its `typedef` declarations introduce.  Of several declarations of
a name in one place the last counts.  A type name is followed from alias to alias until a type is
reached that is no name or a name that is no alias.

* `TranslationUnit.typedefs` are the aliases declared at file scope;
* `TranslationUnit.resolve` follows those alone;
* `TranslationUnit.resolveIn` lets the aliases declared directly in a block hide them.
-/

namespace CSyntax

/-! ## Aliases of a place -/

/-- The names that a group declares as types, in order. -/
def DeclarationGroup.aliases (group : DeclarationGroup) : List (String × CType) :=
  (group.declarations.filter (·.isTypedef)).map fun d => (d.name, d.type)

namespace Statement

/-- The aliases declared by the statements themselves, not by the blocks inside them. -/
def aliases (items : List Statement) : Bindings CType :=
  Bindings.ofList <| items.flatMap fun
    | .declaration _ group => group.aliases
    | _ => []

end Statement

namespace CType

/-- Follows a type name through the first of the scopes that binds it, at most `steps` times. -/
def follow (scopes : List (Bindings CType)) : (steps : Nat) → CType → CType
  | steps + 1, .named name =>
      match scopes.findSome? (·.get? name) with
      | some type => follow scopes steps type
      | none => .named name
  | _, type => type

/-- Follows a type name to the end.  A chain of different names has no more steps than there are
aliases, and one that comes back to itself is left on the way round. -/
def resolve (scopes : List (Bindings CType)) (type : CType) : CType :=
  follow scopes (scopes.flatten.length + 1) type

end CType

namespace TranslationUnit

/-- The aliases declared at file scope. -/
def typedefs (unit : TranslationUnit) : Bindings CType :=
  Bindings.ofList <| unit.declarations.flatMap fun
    | .declaration group => group.aliases
    | .function _ => []

def resolve (unit : TranslationUnit) (type : CType) : CType :=
  type.resolve [unit.typedefs]

/-- Follows a type name where the statements of `block` stand. -/
def resolveIn (unit : TranslationUnit) (block : List Statement) (type : CType) : CType :=
  type.resolve [Statement.aliases block, unit.typedefs]

end TranslationUnit

end CSyntax
