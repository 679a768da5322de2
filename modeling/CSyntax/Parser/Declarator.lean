import CSyntax.Parser.ArithmeticType
import CSyntax.Token.Basic
import CSyntax.Tree.Unit

/-!
# Declarator — the two halves of a declaration

The specifiers of a declaration name a base type, and each declarator wraps it: `*a[3]` makes `a`
an array of pointers to the base.  A declarator is kept as the list of its wrappings, the first of
which is applied first.
-/

namespace CSyntax

/-! ## Specifiers -/

/-- The specifiers of a declaration read so far. -/
structure SpecifierTally where
  /-- The keywords of an arithmetic type, in the order of reading. -/
  words : List Keyword
  /-- A record, an enumeration or a type name. -/
  other : Option CType
  storage : Option StorageClass
  isTypedef : Bool
  qualifiers : Qualifiers

namespace SpecifierTally

def empty : SpecifierTally :=
  { words := []
    other := none
    storage := none
    isTypedef := false
    qualifiers := { const := false, volatile := false } }

/-- Whether a type specifier has been read. -/
def hasType (tally : SpecifierTally) : Bool :=
  tally.other.isSome || !tally.words.isEmpty

def hasStorageClass (tally : SpecifierTally) : Bool :=
  tally.isTypedef || tally.storage.isSome

/-- The tally with a storage class or a qualifier; other words leave it as it is. -/
def addModifier (tally : SpecifierTally) : Keyword → SpecifierTally
  | .typedef => { tally with isTypedef := true }
  | .external => { tally with storage := some .external }
  | .static => { tally with storage := some .static }
  | .auto => { tally with storage := some .auto }
  | .register => { tally with storage := some .register }
  | .const => { tally with qualifiers := { tally.qualifiers with const := true } }
  | .volatile => { tally with qualifiers := { tally.qualifiers with volatile := true } }
  | _ => tally

@[simp] theorem other_addModifier (tally : SpecifierTally) (word : Keyword) :
    (tally.addModifier word).other = tally.other := by
  cases word <;> rfl

/-- The type that the specifiers name, if they name one. -/
def type? (tally : SpecifierTally) : Option CType :=
  match tally.other with
  | some type => some type
  | none => (ArithmeticType.canonical? tally.words).map .named

end SpecifierTally

/-- The specifiers of a declaration: all that stands before its first declarator. -/
structure Specifiers where
  base : CType
  storage : Option StorageClass
  isTypedef : Bool
  qualifiers : Qualifiers
  position : Position

/-! ## Declarators -/

/-- One wrapping of a type. -/
inductive TypeModifier
  | pointer
  | array (size : Option Expr)
  | function (parameters : List Parameter) (variadic : Bool)

namespace TypeModifier

def apply (type : CType) : TypeModifier → CType
  | .pointer => .pointer type
  | .array size => .array type size
  | .function parameters variadic => .function type (parameters.map (·.type)) variadic

end TypeModifier

structure Declarator where
  name : Option (String × Position)
  modifiers : List TypeModifier

namespace Declarator

/-- The type that the declarator makes of a base type. -/
def type (d : Declarator) (base : CType) : CType :=
  d.modifiers.foldl TypeModifier.apply base

/-- The parameters of the function that the declarator declares, if it declares one. -/
def parameters? (d : Declarator) : Option (List Parameter) :=
  match d.modifiers.getLast? with
  | some (.function parameters _) => some parameters
  | _ => none

end Declarator

/-- Where a declarator stands: one of a declaration has a name, one of a type name has none, and a
parameter may have one. -/
inductive DeclaratorMode
  | named
  | nameless
  | either
  deriving DecidableEq

end CSyntax
