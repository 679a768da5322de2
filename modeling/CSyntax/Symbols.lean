import CSyntax.Bindings
import CSyntax.Tree.Equality

/-!
# Symbols — what the words of a program mean

A scope binds words to meanings, and all that matters about a meaning is whether the word names a
type.  Scopes nest; the innermost scope that binds a word decides, so an inner declaration hides an
outer one.  The file scope is always open.

The body of a record is a scope of its own, but enumeration constants declared in it belong to the
nearest block around it: `struct s { enum { A } e; };` leaves `A` declared.

* `SymbolTable.enter` and `SymbolTable.leave` open and close the innermost scope;
* `SymbolTable.declare` binds a word in the innermost scope, `SymbolTable.declareEnumerator` in the
  innermost block;
* `SymbolTable.lookup?` is the meaning that a word has where the table stands.
-/

namespace CSyntax

inductive Meaning
  | typeName (type : CType)
  | ordinary
  deriving DecidableEq

/-! ## Scopes -/

inductive ScopeKind
  | block
  | record
  deriving DecidableEq

structure Scope where
  kind : ScopeKind
  bindings : Bindings Meaning
  deriving DecidableEq

namespace Scope

/-- A scope just opened. -/
def fresh (kind : ScopeKind) : Scope :=
  { kind := kind, bindings := [] }

def declare (scope : Scope) (name : String) (meaning : Meaning) : Scope :=
  { scope with bindings := scope.bindings.insert name meaning }

end Scope

/-! ## The table -/

/-- The open scopes: the file scope, and those nested in it from the innermost outwards. -/
structure SymbolTable where
  nested : List Scope
  file : Bindings Meaning
  deriving DecidableEq

namespace SymbolTable

def empty : SymbolTable :=
  { nested := [], file := [] }

/-- The number of open scopes. -/
def depth (table : SymbolTable) : Nat :=
  table.nested.length + 1

def innermost (table : SymbolTable) : Scope :=
  match table.nested with
  | scope :: _ => scope
  | [] => { kind := .block, bindings := table.file }

def enter (table : SymbolTable) (kind : ScopeKind) : SymbolTable :=
  { table with nested := .fresh kind :: table.nested }

/-- The table without its innermost scope; the file scope cannot be left. -/
def leave? (table : SymbolTable) : Option SymbolTable :=
  match table.nested with
  | _ :: outer => some { table with nested := outer }
  | [] => none

/-- What is said of an attempt to leave the file scope. -/
def leaveMessage : String :=
  "attempted to pop the file scope"

def declare (table : SymbolTable) (name : String) (meaning : Meaning) : SymbolTable :=
  match table.nested with
  | scope :: outer => { table with nested := scope.declare name meaning :: outer }
  | [] => { table with file := table.file.insert name meaning }

/-- Binds an enumeration constant in the innermost block of the nested scopes, if there is one. -/
def declareInBlock? (name : String) : List Scope → Option (List Scope)
  | [] => none
  | scope :: outer =>
      match scope.kind with
      | .block => some (scope.declare name .ordinary :: outer)
      | .record => (declareInBlock? name outer).map (scope :: ·)

def declareEnumerator (table : SymbolTable) (name : String) : SymbolTable :=
  match declareInBlock? name table.nested with
  | some nested => { table with nested := nested }
  | none => { table with file := table.file.insert name .ordinary }

def lookup? (table : SymbolTable) (name : String) : Option Meaning :=
  (table.nested.findSome? fun scope => scope.bindings.get? name) <|> table.file.get? name

/-- The type that a visible type name stands for. -/
def type? (table : SymbolTable) (name : String) : Option CType :=
  match table.lookup? name with
  | some (.typeName type) => some type
  | _ => none

def isTypeName (table : SymbolTable) (name : String) : Bool :=
  (table.type? name).isSome

/-! ## Opening and closing -/

@[simp] theorem leave?_enter (table : SymbolTable) (kind : ScopeKind) :
    (table.enter kind).leave? = some table := rfl

theorem leave?_eq_none_iff (table : SymbolTable) : table.leave? = none ↔ table.depth = 1 := by
  cases h : table.nested <;> simp [leave?, depth, h]

@[simp] theorem lookup?_enter (table : SymbolTable) (kind : ScopeKind) (name : String) :
    (table.enter kind).lookup? name = table.lookup? name := by
  simp [lookup?, enter, Scope.fresh, List.findSome?_cons]

theorem lookup?_declare (table : SymbolTable) (name other : String) (meaning : Meaning) :
    (table.declare name meaning).lookup? other =
      if name = other then some meaning else table.lookup? other := by
  unfold declare lookup?
  cases h : table.nested with
  | nil =>
      simp [Bindings.get?_insert]
  | cons scope outer =>
      by_cases hn : name = other <;>
        simp [Scope.declare, List.findSome?_cons, Bindings.get?_insert, hn]

end SymbolTable

end CSyntax
