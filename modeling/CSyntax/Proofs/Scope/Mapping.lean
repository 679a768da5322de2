import CSyntax.Symbols

/-!
# Mapping — tables whose types are replaced

`SymbolTable.mapTypes` puts other types in the place of those that type names stand for.  The words
that are bound, the scopes in which they are, and whether they name types stay as they are, so the
replacement commutes with all that is done to a table.
-/

namespace CSyntax

theorem Bindings.map_insert {α β : Type} (g : α → β) (bindings : Bindings α) (name : String)
    (value : α) : (bindings.insert name value).map (fun b => (b.1, g b.2)) =
      Bindings.insert (bindings.map fun b => (b.1, g b.2)) name (g value) := by
  simp [insert, List.filter_map, Function.comp_def]

theorem Bindings.get?_map {α β : Type} (g : α → β) (bindings : Bindings α) (name : String) :
    Bindings.get? (bindings.map fun b => (b.1, g b.2)) name = (bindings.get? name).map g := by
  simp [get?, List.find?_map, Function.comp_def]

def Meaning.mapType (g : CType → CType) : Meaning → Meaning
  | .typeName type => .typeName (g type)
  | .ordinary => .ordinary

@[simp] theorem Meaning.mapType_ordinary (g : CType → CType) :
    Meaning.mapType g .ordinary = .ordinary := rfl

def Scope.mapTypes (g : CType → CType) (scope : Scope) : Scope :=
  { scope with bindings := scope.bindings.map fun b => (b.1, b.2.mapType g) }

namespace SymbolTable

/-- The table in which each type name stands for what `g` makes of its type. -/
def mapTypes (g : CType → CType) (T : SymbolTable) : SymbolTable :=
  { nested := T.nested.map (Scope.mapTypes g), file := T.file.map fun b => (b.1, b.2.mapType g) }

variable (g : CType → CType) (T : SymbolTable)

theorem lookup?_mapTypes (name : String) :
    (T.mapTypes g).lookup? name = (T.lookup? name).map (Meaning.mapType g) := by
  have hnested : (T.nested.map (Scope.mapTypes g)).findSome? (fun scope => scope.bindings.get? name) =
      (T.nested.findSome? fun scope => scope.bindings.get? name).map (Meaning.mapType g) := by
    induction T.nested with
    | nil => rfl
    | cons scope outer ih =>
        simp only [List.map_cons, List.findSome?_cons, Scope.mapTypes, Bindings.get?_map, ih]
        cases scope.bindings.get? name <;> rfl
  simp only [lookup?, mapTypes, hnested, Bindings.get?_map]
  cases T.nested.findSome? fun scope => scope.bindings.get? name <;> rfl

theorem isTypeName_mapTypes (name : String) :
    (T.mapTypes g).isTypeName name = T.isTypeName name := by
  unfold isTypeName type?
  rw [lookup?_mapTypes]
  rcases T.lookup? name with _ | _ | _ <;> rfl

theorem mapTypes_enter (kind : ScopeKind) :
    (T.enter kind).mapTypes g = (T.mapTypes g).enter kind := rfl

theorem mapTypes_leave? : T.leave?.map (mapTypes g) = (T.mapTypes g).leave? := by
  rcases T with ⟨_ | ⟨scope, outer⟩, file⟩ <;> rfl

theorem mapTypes_declare (name : String) (meaning : Meaning) :
    (T.declare name meaning).mapTypes g = (T.mapTypes g).declare name (meaning.mapType g) := by
  rcases T with ⟨_ | ⟨scope, outer⟩, file⟩ <;>
    simp [declare, mapTypes, Scope.declare, Scope.mapTypes, Bindings.map_insert]

theorem mapTypes_declareEnumerator (name : String) :
    (T.declareEnumerator name).mapTypes g = (T.mapTypes g).declareEnumerator name := by
  have hnested : ∀ scopes, (declareInBlock? name scopes).map (List.map (Scope.mapTypes g)) =
      declareInBlock? name (scopes.map (Scope.mapTypes g)) := by
    intro scopes
    induction scopes with
    | nil => rfl
    | cons scope outer ih =>
        rcases scope with ⟨_ | _, bindings⟩
        · simp [declareInBlock?, Scope.declare, Scope.mapTypes, Bindings.map_insert]
        · simp only [declareInBlock?, List.map_cons, Scope.mapTypes, ← ih, Option.map_map]
          congr 1
  unfold declareEnumerator
  rw [show (T.mapTypes g).nested = T.nested.map (Scope.mapTypes g) from rfl, ← hnested]
  cases declareInBlock? name T.nested with
  | none => simp [mapTypes, Bindings.map_insert]
  | some nested => rfl

end SymbolTable

end CSyntax
