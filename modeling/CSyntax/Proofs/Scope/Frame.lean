import CSyntax.Parser.Script
import CSyntax.Proofs.Stream.Classification
import Mathlib.Data.List.Basic

/-!
# Frame — which scopes a rule may touch

A rule that has been carried out leaves the open scopes as many and of the same kinds as it found
them, and has bound words in one of them at most: in the innermost block.  This file states that as
a relation between two tables and shows how it comes about:

* `SymbolTable.Frame` — the relation, which is reflexive and transitive;
* `frame_declare`, `frame_declareEnumerator` — a declaration keeps within it;
* `Frame.leave_block`, `Frame.leave_record` — so does a scope that is opened and closed again, and
  of a block nothing is left at all;
* `RecordsEmpty` — no word is bound in the body of a record, which the relation carries along;
* `Within`, `Fades` — which words name types: only certain ones, or none besides those that did.
-/

namespace CSyntax
namespace SymbolTable

variable {T U V W : SymbolTable}

/-! ## Open scopes -/

/-- All open scopes from the innermost outwards; the file scope counts as a block. -/
def scopes (table : SymbolTable) : List Scope :=
  table.nested ++ [{ kind := .block, bindings := table.file }]

def kinds (table : SymbolTable) : List ScopeKind :=
  table.scopes.map (·.kind)

/-- The place of the innermost block among the open scopes. -/
def blockIndex (table : SymbolTable) : Nat :=
  table.kinds.idxOf .block

/-- The innermost scope is a block, so a declaration binds a word there. -/
def InBlock (table : SymbolTable) : Prop :=
  table.innermost.kind = .block

theorem scopes_injective (h : T.scopes = U.scopes) : T = U := by
  obtain ⟨hnested, hfile⟩ := List.append_inj' h rfl
  cases T
  cases U
  simp_all

@[simp] theorem scopes_enter (T : SymbolTable) (kind : ScopeKind) :
    (T.enter kind).scopes = .fresh kind :: T.scopes := rfl

theorem length_scopes (T : SymbolTable) : T.scopes.length = T.depth := by
  simp [scopes, depth]

theorem inBlock_iff_head : T.InBlock ↔ T.kinds.head? = some .block := by
  unfold InBlock innermost kinds scopes
  cases T.nested <;> simp

theorem inBlock_of_nested_eq_nil (h : T.nested = []) : T.InBlock := by
  simp [InBlock, innermost, h]

theorem InBlock.blockIndex (h : T.InBlock) : T.blockIndex = 0 := by
  obtain ⟨others, hkinds⟩ := List.head?_eq_some_iff.1 (inBlock_iff_head.1 h)
  simp [SymbolTable.blockIndex, hkinds]

/-- The file scope is a block, so there is always one. -/
theorem kind_at_blockIndex (T : SymbolTable) : T.kinds[T.blockIndex]? = some .block := by
  have hmem : ScopeKind.block ∈ T.kinds := by simp [kinds, scopes]
  exact List.getElem?_idxOf hmem

/-- The table left by closing a scope has the other scopes. -/
theorem leave?_eq_some_iff : T.leave? = some U ↔ ∃ scope, T.scopes = scope :: U.scopes := by
  unfold leave? scopes
  rcases T with ⟨_ | ⟨scope, outer⟩, file⟩
  · simp
  · constructor
    · intro h
      cases h
      exact ⟨scope, rfl⟩
    · rintro ⟨other, h⟩
      have hscopes : ({ nested := outer, file := file } : SymbolTable).scopes = U.scopes :=
        (List.cons.inj h).2
      exact congrArg some (scopes_injective hscopes)

/-! ## Declarations -/

theorem scopes_declare (T : SymbolTable) (name : String) (meaning : Meaning) :
    (T.declare name meaning).scopes = T.scopes.modify 0 (·.declare name meaning) := by
  unfold declare scopes
  cases T.nested <;> simp [Scope.declare]

theorem declare_of_nested_eq_nil (hT : T.nested = []) (name : String) (meaning : Meaning) :
    T.declare name meaning = { T with file := T.file.insert name meaning } := by
  rcases T with ⟨nested, file⟩
  cases hT
  rfl

theorem scopes_declareEnumerator (T : SymbolTable) (name : String) :
    (T.declareEnumerator name).scopes =
      T.scopes.modify T.blockIndex (·.declare name .ordinary) := by
  rcases T with ⟨nested, file⟩
  simp only [declareEnumerator, scopes, blockIndex, kinds]
  induction nested with
  | nil => simp [declareInBlock?, Scope.declare]
  | cons scope outer ih =>
      rcases scope with ⟨kind, bindings⟩
      cases kind with
      | block => simp [declareInBlock?]
      | record =>
          -- A record is passed over on both sides, and the place moves by one.
          have hskip : (ScopeKind.record == ScopeKind.block) = false := rfl
          cases hfound : declareInBlock? name outer with
          | none => simpa [declareInBlock?, hfound, List.idxOf_cons, hskip] using ih
          | some found => simpa [declareInBlock?, hfound, List.idxOf_cons, hskip] using ih

/-! ## Frames -/

/-- The second table has as many scopes as the first and of the same kinds, and those besides the
innermost block bind the same words. -/
structure Frame (T U : SymbolTable) : Prop where
  kinds : U.kinds = T.kinds
  others : ∀ i, i ≠ T.blockIndex → U.scopes[i]? = T.scopes[i]?

namespace Frame

theorem refl (T : SymbolTable) : T.Frame T :=
  ⟨rfl, fun _ _ => rfl⟩

theorem blockIndex (h : T.Frame U) : U.blockIndex = T.blockIndex := by
  rw [SymbolTable.blockIndex, h.kinds, SymbolTable.blockIndex]

theorem trans (h : T.Frame U) (h' : U.Frame V) : T.Frame V where
  kinds := h'.kinds.trans h.kinds
  others i hi := (h'.others i (h.blockIndex ▸ hi)).trans (h.others i hi)

theorem depth (h : T.Frame U) : U.depth = T.depth := by
  have hlength := congrArg List.length h.kinds
  simpa [SymbolTable.kinds, length_scopes] using hlength

theorem inBlock (h : T.Frame U) (hT : T.InBlock) : U.InBlock := by
  rw [inBlock_iff_head, h.kinds]
  exact inBlock_iff_head.1 hT

theorem nested_eq_nil (h : T.Frame U) (hT : T.nested = []) : U.nested = [] := by
  have hdepth := h.depth
  simpa [SymbolTable.depth, hT] using hdepth

theorem of_modify {g : Scope → Scope} (hg : ∀ scope, (g scope).kind = scope.kind)
    (h : U.scopes = T.scopes.modify T.blockIndex g) : T.Frame U where
  kinds := by
    apply List.ext_getElem?
    intro i
    simp only [SymbolTable.kinds, h, List.getElem?_map, List.getElem?_modify]
    cases T.scopes[i]? with
    | none => rfl
    | some scope => simp [apply_ite Scope.kind, hg]
  others i hi := by
    simp [h, hi.symm]

end Frame

theorem frame_declare (hT : T.InBlock) (name : String) (meaning : Meaning) :
    T.Frame (T.declare name meaning) := by
  apply Frame.of_modify (g := (·.declare name meaning)) (fun _ => rfl)
  rw [hT.blockIndex, scopes_declare]

theorem frame_declareEnumerator (T : SymbolTable) (name : String) :
    T.Frame (T.declareEnumerator name) :=
  .of_modify (g := (·.declare name .ordinary)) (fun _ => rfl) (scopes_declareEnumerator T name)

/-! ## Closing a scope -/

namespace Frame

/-- What has been bound in a block goes with it, and nothing outside has changed. -/
theorem leave_block (h : (T.enter .block).Frame V) : V.leave? = some T := by
  have hzero : (T.enter .block).blockIndex = 0 := InBlock.blockIndex rfl
  obtain ⟨scope, others, hV⟩ : ∃ scope others, V.scopes = scope :: others := by
    have hlength := congrArg List.length h.kinds
    cases hscopes : V.scopes with
    | nil => simp [SymbolTable.kinds, hscopes] at hlength
    | cons scope others => exact ⟨scope, others, rfl⟩
  have hothers : others = T.scopes := by
    apply List.ext_getElem?
    intro i
    have := h.others (i + 1) (by omega)
    simpa [hV] using this
  exact leave?_eq_some_iff.2 ⟨scope, by rw [hV, hothers]⟩

/-- The body of a record takes no declarations, and a constant in it is bound further out. -/
theorem leave_record (h : (T.enter .record).Frame V) (hleave : V.leave? = some W) :
    T.Frame W := by
  obtain ⟨scope, hV⟩ := leave?_eq_some_iff.1 hleave
  have hnext : (T.enter .record).blockIndex = T.blockIndex + 1 :=
    List.idxOf_cons_ne _ (by decide)
  refine ⟨?_, fun i hi => ?_⟩
  · have := h.kinds
    simp only [SymbolTable.kinds, hV, scopes_enter, List.map_cons] at this
    exact (List.cons.inj this).2
  · have := h.others (i + 1) (by omega)
    simpa [hV] using this

end Frame

/-! ## Bodies of records -/

/-- No word is bound in a scope that is the body of a record. -/
def RecordsEmpty (table : SymbolTable) : Prop :=
  ∀ scope ∈ table.scopes, scope.kind = .record → scope.bindings = []

theorem recordsEmpty_empty : RecordsEmpty .empty := by
  intro scope hscope hkind
  obtain rfl := List.mem_singleton.1 hscope
  cases hkind

namespace RecordsEmpty

theorem frame (hT : T.RecordsEmpty) (h : T.Frame U) : U.RecordsEmpty := by
  intro scope hscope hkind
  obtain ⟨i, hi⟩ := List.mem_iff_getElem?.1 hscope
  by_cases hblock : i = T.blockIndex
  · -- The one scope that may have changed is a block.
    have hplace := U.kind_at_blockIndex
    rw [h.blockIndex, ← hblock, kinds, List.getElem?_map, hi] at hplace
    exact absurd (hkind.symm.trans (Option.some.inj hplace)) (by decide)
  · rw [h.others i hblock] at hi
    exact hT scope (List.mem_of_getElem? hi) hkind

theorem enter (hT : T.RecordsEmpty) (kind : ScopeKind) : (T.enter kind).RecordsEmpty := by
  intro scope hscope hkind
  rcases List.mem_cons.1 hscope with rfl | hscope
  · rfl
  · exact hT scope hscope hkind

theorem leave (hT : T.RecordsEmpty) (h : T.leave? = some U) : U.RecordsEmpty := by
  obtain ⟨scope, hscopes⟩ := leave?_eq_some_iff.1 h
  intro other hother
  exact hT other (hscopes ▸ List.mem_cons_of_mem _ hother)

end RecordsEmpty

/-! ## Type names -/

theorem isTypeName_declare_ordinary (T : SymbolTable) (name other : String) :
    (T.declare name .ordinary).isTypeName other =
      (!decide (name = other) && T.isTypeName other) := by
  by_cases h : name = other <;> simp [isTypeName, type?, lookup?_declare, h]

theorem isTypeName_declare_typeName (T : SymbolTable) (name other : String) (type : CType) :
    (T.declare name (.typeName type)).isTypeName other =
      (decide (name = other) || T.isTypeName other) := by
  by_cases h : name = other <;> simp [isTypeName, type?, lookup?_declare, h]

/-- Whether all type names of the table are among some words. -/
def Within (table : SymbolTable) (typedefs : String → Prop) : Prop :=
  ∀ name, table.isTypeName name = true → typedefs name

/-- No word has begun to name a type. -/
def Fades (T U : SymbolTable) : Prop :=
  U.Within fun name => T.isTypeName name = true

variable {typedefs : String → Prop}

namespace Within

theorem enter (h : T.Within typedefs) (kind : ScopeKind) : (T.enter kind).Within typedefs := by
  intro name hname
  exact h name (by simpa using hname)

theorem declare_ordinary (h : T.Within typedefs) (name : String) :
    (T.declare name .ordinary).Within typedefs := by
  intro other hother
  rw [isTypeName_declare_ordinary, Bool.and_eq_true] at hother
  exact h other hother.2

theorem declare_typeName (h : T.Within typedefs) {name : String}
    (hname : typedefs name) (type : CType) :
    (T.declare name (.typeName type)).Within typedefs := by
  intro other hother
  rw [isTypeName_declare_typeName, Bool.or_eq_true, decide_eq_true_eq] at hother
  rcases hother with rfl | hother
  · exact hname
  · exact h other hother

theorem fades (h : T.Within typedefs) (hU : T.Fades U) : U.Within typedefs :=
  fun name hname => h name (hU name hname)

end Within

theorem lookup?_eq_findSome? (T : SymbolTable) (name : String) :
    T.lookup? name = T.scopes.findSome? fun scope => scope.bindings.get? name := by
  simp only [lookup?, scopes, List.findSome?_append]
  cases T.nested.findSome? fun scope => scope.bindings.get? name <;> simp

theorem isTypeName_iff {name : String} :
    T.isTypeName name = true ↔ ∃ type, T.lookup? name = some (.typeName type) := by
  unfold isTypeName type?
  split <;> simp_all

/-- A type name that is found beside a word bound as an ordinary one was found before. -/
theorem findSome?_of_modify {scopes : List Scope} {i : Nat} {name other : String} {type : CType}
    (h : (scopes.modify i (·.declare name .ordinary)).findSome? (·.bindings.get? other) =
      some (.typeName type)) :
    scopes.findSome? (·.bindings.get? other) = some (.typeName type) := by
  induction scopes generalizing i with
  | nil => simp at h
  | cons scope outer ih =>
      cases i with
      | zero =>
          simp only [List.modify_zero_cons, List.findSome?_cons, Scope.declare,
            Bindings.get?_insert] at h ⊢
          by_cases hname : name = other
          · simp [hname] at h
          · simpa [hname] using h
      | succ i =>
          simp only [List.modify_succ_cons, List.findSome?_cons] at h ⊢
          cases hscope : scope.bindings.get? other with
          | none => exact ih (by simpa [hscope] using h)
          | some meaning => simpa [hscope] using h

namespace Fades

theorem refl (T : SymbolTable) : T.Fades T :=
  fun _ h => h

theorem trans (h : T.Fades U) (h' : U.Fades V) : T.Fades V :=
  fun name hname => h name (h' name hname)

/-- A word that is bound as an ordinary one, in whichever scope, can only hide type names. -/
theorem of_modify {name : String} {i : Nat}
    (h : U.scopes = T.scopes.modify i (·.declare name .ordinary)) : T.Fades U := by
  intro other hother
  obtain ⟨type, htype⟩ := isTypeName_iff.1 hother
  rw [lookup?_eq_findSome?, h] at htype
  refine isTypeName_iff.2 ⟨type, ?_⟩
  rw [lookup?_eq_findSome?]
  exact findSome?_of_modify htype

theorem declareEnumerator (T : SymbolTable) (name : String) :
    T.Fades (T.declareEnumerator name) :=
  of_modify (scopes_declareEnumerator T name)

/-- The body of a record binds nothing, so nothing comes to light when it is left. -/
theorem leave_record (hframe : (T.enter .record).Frame V) (h : (T.enter .record).Fades V)
    (hleave : V.leave? = some W) : T.Fades W := by
  obtain ⟨scope, hV⟩ := leave?_eq_some_iff.1 hleave
  have hnext : (T.enter .record).blockIndex = T.blockIndex + 1 :=
    List.idxOf_cons_ne _ (by decide)
  have hscope : scope = .fresh .record := by
    have := hframe.others 0 (by omega)
    simpa [hV] using this
  intro name hname
  have hsame : V.lookup? name = W.lookup? name := by
    simp [lookup?_eq_findSome?, hV, hscope, Scope.fresh, List.findSome?_cons]
  have hinside : V.isTypeName name = true := by
    rwa [isTypeName, type?, hsame]
  simpa using h name hinside

end Fades

end SymbolTable
end CSyntax
