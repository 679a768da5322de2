import CSyntax.Proofs.Scope.Enumerators

/-!
# Stack — the symbol table as a stack of environments

Scopes are opened and closed in any order that nests, and words are declared in between.  What a
word means is said by the innermost scope that binds it.  A scope that is closed takes along all
that was declared in it.  Only an enumeration constant declared in the body of a record stays, since
it belongs to the block around the record.

* `SymbolTable.Operation` — opening, closing and declaring; `SymbolTable.after` carries operations
  out one after the other;
* `SymbolTable.Balanced` — the sequences that close all scopes they open and no others;
* `SymbolTable.exposed` — the constants that a sequence declares outside its own blocks;
* `SymbolTable.performAll_above` — what a sequence does above scopes that are open already;
* `SymbolTable.stack_of_scopes` — the laws of the stack, for every table that can be reached.
-/

namespace CSyntax
namespace SymbolTable

/-! ## Operations -/

/-- What can be done to a table. -/
inductive Operation
  | enter (kind : ScopeKind)
  | leave
  | declare (name : String) (meaning : Meaning)
  | declareEnumerator (name : String)

/-- The table behind an operation, unless it is refused. -/
def perform? (table : SymbolTable) : Operation → Option SymbolTable
  | .enter kind => some (table.enter kind)
  | .leave => table.leave?
  | .declare name meaning => some (table.declare name meaning)
  | .declareEnumerator name => some (table.declareEnumerator name)

/-- The table behind operations none of which is refused. -/
def performAll (table : SymbolTable) (operations : List Operation) : Option SymbolTable :=
  operations.foldlM perform? table

/-- The table behind operations, of which those that are refused change nothing. -/
def after (table : SymbolTable) (operations : List Operation) : SymbolTable :=
  operations.foldl (fun table operation => (table.perform? operation).getD table) table

/-- Of scopes that were opened before and of its own, the sequence closes all, and no others. -/
def Closes : (opened : Nat) → List Operation → Prop
  | opened, [] => opened = 0
  | opened, .enter _ :: rest => Closes (opened + 1) rest
  | 0, .leave :: _ => False
  | opened + 1, .leave :: rest => Closes opened rest
  | opened, .declare _ _ :: rest => Closes opened rest
  | opened, .declareEnumerator _ :: rest => Closes opened rest

/-- Each scope that the sequence opens it closes, and no other. -/
def Balanced (operations : List Operation) : Prop :=
  Closes 0 operations

/-- The constants that a sequence declares while no block is open among the scopes of the kinds and
those that it opens itself, in order. -/
def exposed (kinds : List ScopeKind) : List Operation → List String
  | [] => []
  | .enter kind :: rest => exposed (kind :: kinds) rest
  | .leave :: rest => exposed kinds.tail rest
  | .declare _ _ :: rest => exposed kinds rest
  | .declareEnumerator name :: rest =>
      if .block ∈ kinds then exposed kinds rest else name :: exposed kinds rest

def declareEnumerators (table : SymbolTable) (names : List String) : SymbolTable :=
  names.foldl declareEnumerator table

variable {T U : SymbolTable} {inner : List Scope} {kinds : List ScopeKind} {name : String}
  {operations : List Operation} {opened : Nat}

/-! ## Scopes above a table -/

/-- The table with further scopes open in it, the innermost first. -/
def above (table : SymbolTable) (inner : List Scope) : SymbolTable :=
  { table with nested := inner ++ table.nested }

/-- A constant is bound above the table if a block is open there, and else in the table itself. -/
theorem declareInBlock?_append (inner outer : List Scope) (name : String) :
    (.block ∈ inner.map (·.kind) ∧ ∃ changed, changed.map (·.kind) = inner.map (·.kind) ∧
      declareInBlock? name (inner ++ outer) = some (changed ++ outer)) ∨
    (.block ∉ inner.map (·.kind) ∧
      declareInBlock? name (inner ++ outer) = (declareInBlock? name outer).map (inner ++ ·)) := by
  induction inner with
  | nil => simp
  | cons scope others ih =>
      rcases scope with ⟨kind, bindings⟩
      cases kind with
      | block =>
          exact .inl ⟨by simp, .declare ⟨.block, bindings⟩ name .ordinary :: others, rfl, rfl⟩
      | record =>
          rcases ih with ⟨hblock, changed, hkinds, hdeclare⟩ | ⟨hblock, hdeclare⟩
          · exact .inl ⟨by simp [hblock], ⟨.record, bindings⟩ :: changed, by simp [hkinds],
              by simp [declareInBlock?, hdeclare]⟩
          · refine .inr ⟨by simpa using hblock, ?_⟩
            simp only [List.cons_append, declareInBlock?, hdeclare, Option.map_map]
            rfl

theorem declareEnumerator_above_of_mem (h : .block ∈ inner.map (·.kind)) (T : SymbolTable)
    (name : String) : ∃ changed, changed.map (·.kind) = inner.map (·.kind) ∧
      (T.above inner).declareEnumerator name = T.above changed := by
  obtain ⟨-, changed, hkinds, hdeclare⟩ | ⟨hblock, -⟩ := declareInBlock?_append inner T.nested name
  · exact ⟨changed, hkinds, by simp [declareEnumerator, above, hdeclare]⟩
  · exact absurd h hblock

theorem declareEnumerator_above_of_not_mem (h : .block ∉ inner.map (·.kind)) (T : SymbolTable)
    (name : String) :
    (T.above inner).declareEnumerator name = (T.declareEnumerator name).above inner := by
  obtain ⟨hblock, -⟩ | ⟨-, hdeclare⟩ := declareInBlock?_append inner T.nested name
  · exact absurd hblock h
  · simp only [declareEnumerator, above, hdeclare]
    cases declareInBlock? name T.nested <;> rfl

/-- A sequence above a table leaves the outermost of the open scopes, and binds in the table the
constants that no block keeps from it. -/
theorem performAll_above (inner : List Scope) (hcloses : Closes opened operations)
    (hlength : inner.length = opened + 1) (T : SymbolTable) :
    ∃ last, (T.above inner).performAll operations =
      some ((T.declareEnumerators (exposed (inner.map (·.kind)) operations)).above [last]) := by
  -- The scopes that are open above the table stand in for the operations that opened them, and only
  -- a constant that passes all of them changes the table.
  induction operations generalizing opened inner T with
  | nil =>
      obtain rfl : opened = 0 := hcloses
      obtain ⟨last, rfl⟩ := List.length_eq_one_iff.1 hlength
      exact ⟨last, rfl⟩
  | cons operation rest ih =>
      cases operation with
      | enter kind => exact ih (.fresh kind :: inner) hcloses (by simp [hlength]) T
      | leave =>
          cases opened with
          | zero => exact hcloses.elim
          | succ opened =>
              obtain ⟨scope, outer, rfl⟩ := List.exists_cons_of_length_eq_add_one hlength
              exact ih outer hcloses (by simpa using hlength) T
      | declare name meaning =>
          obtain ⟨scope, outer, rfl⟩ := List.exists_cons_of_length_eq_add_one hlength
          exact ih (scope.declare name meaning :: outer) hcloses hlength T
      | declareEnumerator name =>
          by_cases hblock : .block ∈ inner.map (·.kind)
          · obtain ⟨changed, hkinds, hdeclare⟩ := declareEnumerator_above_of_mem hblock T name
            have hchanged : changed.length = opened + 1 := by
              simpa [hlength] using congrArg List.length hkinds
            obtain ⟨last, hrest⟩ := ih changed hcloses hchanged T
            refine ⟨last, ?_⟩
            rw [exposed, if_pos hblock, ← hkinds, ← hrest, ← hdeclare]
            rfl
          · obtain ⟨last, hrest⟩ := ih inner hcloses hlength (T.declareEnumerator name)
            refine ⟨last, ?_⟩
            rw [exposed, if_neg hblock]
            rwa [← declareEnumerator_above_of_not_mem hblock] at hrest

/-! ## A scope that is opened and closed -/

/-- Of the constants that a sequence exposes, a block around it keeps all and the body of a record
none. -/
theorem exposed_append (kinds : List ScopeKind) (kind : ScopeKind)
    (hcloses : Closes kinds.length operations) :
    exposed (kinds ++ [kind]) operations =
      if kind = .block then [] else exposed kinds operations := by
  induction operations generalizing kinds with
  | nil => simp [exposed]
  | cons operation rest ih =>
      cases operation with
      | enter inner => exact ih (inner :: kinds) hcloses
      | leave =>
          cases kinds with
          | nil => exact hcloses.elim
          | cons inner outer => exact ih outer hcloses
      | declare name meaning => exact ih kinds hcloses
      | declareEnumerator name =>
          have hrest := ih kinds hcloses
          cases kind with
          | block => rwa [exposed, if_pos (by simp)]
          | record =>
              -- A record decides nothing, so the constant is kept by the blocks that keep it anyway.
              have hmem : .block ∈ kinds ++ [.record] ↔ .block ∈ kinds := by simp
              have hkind : ScopeKind.record ≠ .block := by decide
              rw [if_neg hkind] at hrest ⊢
              simp only [exposed, hmem, hrest]

/-- A scope of a balanced sequence goes with all that was bound in it.  The body of a record leaves
the constants that it does not hold, and a block leaves nothing. -/
theorem performAll_enclosed (h : Balanced operations) (T : SymbolTable) (kind : ScopeKind) :
    T.performAll (.enter kind :: operations ++ [.leave]) =
      some (T.declareEnumerators (if kind = .block then [] else exposed [] operations)) := by
  obtain ⟨last, hinside⟩ := performAll_above [.fresh kind] h rfl T
  calc T.performAll (.enter kind :: operations ++ [.leave])
      = ((T.above [.fresh kind]).performAll operations).bind (·.performAll [.leave]) := by
        simp only [performAll, List.cons_append, List.foldlM_cons, List.foldlM_append]
        rfl
    _ = some (T.declareEnumerators (exposed [kind] operations)) := by
        rw [hinside]
        rfl
    _ = some (T.declareEnumerators (if kind = .block then [] else exposed [] operations)) := by
        rw [← exposed_append [] kind h, List.nil_append]

/-! ## Constants that stay -/

theorem lookup?_declareEnumerators_of_not_mem {names : List String} (h : name ∉ names)
    (T : SymbolTable) : (T.declareEnumerators names).lookup? name = T.lookup? name := by
  induction names generalizing T with
  | nil => rfl
  | cons first others ih =>
      rw [List.mem_cons, not_or] at h
      calc (T.declareEnumerators (first :: others)).lookup? name
          = (T.declareEnumerator first).lookup? name := ih h.2 _
        _ = T.lookup? name := by
            rw [lookup?_eq_findSome?, scopes_declareEnumerator,
              findSome?_modify_of_ne (Ne.symm h.1), lookup?_eq_findSome?]

theorem block_declareEnumerators {names : List String} (T : SymbolTable) (name : String) :
    (T.declareEnumerators names).block.get? name =
      if name ∈ names then some .ordinary else T.block.get? name := by
  induction names generalizing T with
  | nil => rfl
  | cons first others ih =>
      have hfirst := ih (T.declareEnumerator first)
      rw [block_declareEnumerator, Bindings.get?_insert] at hfirst
      refine hfirst.trans ?_
      by_cases hname : first = name
      · simp [hname]
      · simp [hname, Ne.symm hname]

/-! ## The laws of the stack -/

/-- Of any table that operations make of the empty one: there is a scope, and the outermost is a
block, which cannot be left.  A word means what it is bound to in the innermost scope that binds it.
A block that is opened and closed again leaves the table as it was.  The body of a record that is
opened and closed again leaves the table with the constants that were declared in it and in no block
inside it; the innermost block binds these, and all other words mean what they did. -/
theorem stack_of_scopes (history : List Operation) :
    let T := empty.after history
    (1 ≤ T.depth ∧ T.scopes.length = T.depth ∧ T.scopes.getLast?.map (·.kind) = some .block) ∧
    (T.perform? .leave = none ↔ T.depth = 1) ∧
    (T.depth = 1 → ∀ cursor position, (Request.leave position).perform ⟨cursor, T⟩ =
      (.error (.atPosition position (.internal .fileScopeLeft)), ⟨cursor, T⟩)) ∧
    (∀ name meaning, T.lookup? name = some meaning ↔
      ∃ inner scope outer, T.scopes = inner ++ scope :: outer ∧
        (∀ other ∈ inner, other.bindings.get? name = none) ∧
        scope.bindings.get? name = some meaning) ∧
    ∀ operations, Balanced operations →
      T.performAll (.enter .block :: operations ++ [.leave]) = some T ∧
      ∃ U, T.performAll (.enter .record :: operations ++ [.leave]) = some U ∧
        U = T.declareEnumerators (exposed [] operations) ∧
        (∀ name ∈ exposed [] operations, U.block.get? name = some .ordinary) ∧
        ∀ name, name ∉ exposed [] operations → U.lookup? name = T.lookup? name := by
  intro T
  refine ⟨⟨Nat.succ_pos _, T.length_scopes, ?_⟩, T.leave?_eq_none_iff, ?refused, ?lookup, ?closed⟩
  · simp [scopes]
  case refused =>
    intro hdepth cursor position
    simp only [Request.perform, T.leave?_eq_none_iff.2 hdepth]
  case lookup =>
    intro name meaning
    rw [lookup?_eq_findSome?, List.findSome?_eq_some_iff]
    constructor
    · rintro ⟨inner, scope, outer, hscopes, hget, hinner⟩
      exact ⟨inner, scope, outer, hscopes, hinner, hget⟩
    · rintro ⟨inner, scope, outer, hscopes, hinner, hget⟩
      exact ⟨inner, scope, outer, hscopes, hget, hinner⟩
  case closed =>
    intro operations hbalanced
    have hblock : T.performAll (.enter .block :: operations ++ [.leave]) = some T :=
      performAll_enclosed hbalanced T .block
    have hrecord : T.performAll (.enter .record :: operations ++ [.leave]) =
        some (T.declareEnumerators (exposed [] operations)) :=
      performAll_enclosed hbalanced T .record
    refine ⟨hblock, _, hrecord, rfl, fun name hname => ?_, fun name hname => ?_⟩
    · rw [block_declareEnumerators, if_pos hname]
    · exact lookup?_declareEnumerators_of_not_mem hname T

/-- Constants of a record inside a record and behind it stay, and those of a block inside are gone.
The one that stays hides a type name of its spelling in the block around both records. -/
theorem stack_of_scopes_nested :
    let history : List Operation :=
      [.leave, .declare "A" (.typeName (.named "int")), .enter .block, .enter .record]
    let operations : List Operation :=
      [.enter .record, .declareEnumerator "A", .enter .block, .declareEnumerator "B", .leave, .leave,
        .declareEnumerator "C", .declare "D" .ordinary]
    let T := empty.after history
    Balanced operations ∧ T.isTypeName "A" = true ∧
      ∃ U, T.performAll (.enter .record :: operations ++ [.leave]) = some U ∧
        U = T.declareEnumerators ["A", "C"] ∧ U.block.get? "A" = some .ordinary ∧
        U.lookup? "B" = T.lookup? "B" := by
  intro history operations T
  have hbalanced : Balanced operations := rfl
  have hexposed : exposed [] operations = ["A", "C"] := by decide
  obtain ⟨-, -, -, -, hclosed⟩ := stack_of_scopes history
  obtain ⟨-, U, hperform, hU, hmem, hnot⟩ := hclosed operations hbalanced
  rw [hexposed] at hU hmem hnot
  exact ⟨hbalanced, by decide +kernel, U, hperform, hU, hmem "A" (by simp), hnot "B" (by simp)⟩

end SymbolTable
end CSyntax
