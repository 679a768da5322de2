import CSyntax.Proofs.Run.Freshness
import CSyntax.Proofs.Scope.Frame
import CSyntax.Proofs.Scope.Walk

/-!
# Agreement — symbol tables as environments of a walk

A symbol table becomes an environment when the types behind `typedef` names are forgotten.  This file
shows that declaring and scoping agree (`SymbolTable.environment_declare`, `environment_leave`), and
sets up how what a rule reads is compared with the walk over its result:

* `Reads` — a conclusion about a table, drawn if nothing that was read hides a `typedef` name
  without a trace in the tree;
* `Plain` — the usual conclusion, that the table stays and all words fit it.

Parameters of a function type leave their types in the tree and not their names.  They are counted:
`Reads` tells those that the result still has from those that are lost.
-/

namespace CSyntax

/-! ## Tables as environments -/

def Meaning.isType : Meaning → Bool
  | .typeName _ => true
  | .ordinary => false

/-- Bindings that tell types from other words alone. -/
def Bindings.kinds (bindings : Bindings Meaning) : Bindings Bool :=
  bindings.map fun b => (b.1, b.2.isType)

namespace Bindings

theorem kinds_insert (bindings : Bindings Meaning) (name : String) (meaning : Meaning) :
    (bindings.insert name meaning).kinds = bindings.kinds.insert name meaning.isType := by
  simp [kinds, insert, List.filter_map, Function.comp_def]

theorem get?_kinds (bindings : Bindings Meaning) (name : String) :
    bindings.kinds.get? name = (bindings.get? name).map Meaning.isType := by
  simp [kinds, get?, List.find?_map, Function.comp_def]

end Bindings

namespace SymbolTable

/-- What a walk knows where the table stands. -/
def environment (table : SymbolTable) : Environment :=
  { nested := table.nested.map fun scope => scope.bindings.kinds, file := table.file.kinds }

@[simp] theorem environment_enter (table : SymbolTable) (kind : ScopeKind) :
    (table.enter kind).environment = table.environment.enter := rfl

theorem environment_declare (table : SymbolTable) (name : String) (meaning : Meaning) :
    (table.declare name meaning).environment =
      table.environment.bind name meaning.isType := by
  unfold declare
  cases h : table.nested <;>
    simp [environment, Environment.bind, Environment.bindFile, h, Scope.declare,
      Bindings.kinds_insert]

theorem environment_leave {table outer : SymbolTable} (h : table.leave? = some outer) :
    outer.environment = table.environment.leave := by
  unfold leave? at h
  cases hnested : table.nested with
  | nil => simp [hnested] at h
  | cons scope scopes =>
      obtain rfl : { table with nested := scopes } = outer := by simpa [hnested] using h
      simp [environment, Environment.leave, hnested]

theorem isTypedef_environment (table : SymbolTable) (name : String) :
    table.environment.isTypedef name = table.isTypeName name := by
  have hnested : table.environment.nested.findSome? (fun scope => scope.get? name) =
      (table.nested.findSome? fun scope => scope.bindings.get? name).map Meaning.isType := by
    simp only [environment, List.findSome?_map, Function.comp_def, Bindings.get?_kinds]
    induction table.nested with
    | nil => rfl
    | cons scope scopes ih =>
        simp only [List.findSome?_cons]
        cases scope.bindings.get? name with
        | none => exact ih
        | some meaning => rfl
  have hfile : table.environment.file.get? name =
      (table.file.get? name).map Meaning.isType := Bindings.get?_kinds _ _
  simp only [Environment.isTypedef, hnested, hfile, isTypeName, type?, lookup?]
  generalize table.nested.findSome? (fun scope => scope.bindings.get? name) = inner
  generalize table.file.get? name = outer
  rcases inner with _ | _ | _
  · rcases outer with _ | _ | _ <;> rfl
  · rfl
  · rfl

/-- Declaring touches the innermost scope alone. -/
@[simp] theorem leave?_declare (table : SymbolTable) (name : String) (meaning : Meaning) :
    (table.declare name meaning).leave? = table.leave? := by
  unfold declare
  cases h : table.nested <;> simp [leave?, h]

/-! ## What fits a table -/

/-- Whether all words are used as the table has them. -/
def Fits (table : SymbolTable) (mentions : List Mention) : Prop :=
  ∀ m ∈ mentions, table.environment.fits m = true

variable {table : SymbolTable}

@[simp] theorem fits_nil : table.Fits [] := by
  simp [Fits]

@[simp] theorem fits_append {ms ns : List Mention} :
    table.Fits (ms ++ ns) ↔ table.Fits ms ∧ table.Fits ns := by
  simp [Fits, or_imp, forall_and]

theorem fits_identifier {name : String} :
    table.Fits [.identifier name] ↔ table.isTypeName name = false := by
  simp [Fits, Environment.fits, isTypedef_environment]

theorem fits_typeName {name : String} :
    table.Fits [.typeName name] ↔ table.isTypeName name = true := by
  simp [Fits, Environment.fits, isTypedef_environment]

/-- Tables in which the same words are types fit the same mentions. -/
theorem Fits.of_isTypeName {other : SymbolTable} {ms : List Mention} (h : table.Fits ms)
    (hsame : ∀ name, other.isTypeName name = table.isTypeName name) : other.Fits ms := by
  intro m hm
  have := h m hm
  cases m <;> simp_all [Environment.fits, isTypedef_environment]

theorem read_eq_some {ms : List Mention} {env : Environment} :
    table.environment.read ms = some env ↔ table.Fits ms ∧ env = table.environment := by
  unfold Environment.read Fits
  rw [← List.all_eq_true]
  by_cases h : ms.all table.environment.fits = true
  · rw [if_pos h, Option.some_inj]
    exact ⟨fun henv => ⟨h, henv.symm⟩, fun henv => henv.2.symm⟩
  · rw [if_neg h]
    exact ⟨nofun, fun henv => absurd henv.1 h⟩

@[simp] theorem read_of_fits {ms : List Mention} (h : table.Fits ms) :
    table.environment.read ms = some table.environment :=
  read_eq_some.2 ⟨h, rfl⟩

end SymbolTable

/-! ## Parameters that leave no name -/

/-- The parameters that were read, one for each list of parameters that begins with it. -/
def parametersIn (returns : List Returned) : List Parameter :=
  returns.filterMap fun
    | ⟨.parameters, (parameter :: _, _)⟩ => some parameter
    | _ => none

@[simp] theorem parametersIn_append (R S : List Returned) :
    parametersIn (R ++ S) = parametersIn R ++ parametersIn S :=
  List.filterMap_append

/-- Whether the parameter's name, if it has one, is not among some words. -/
def Parameter.Clear (p : Parameter) (typedefs : String → Prop) : Prop :=
  ∀ name, p.name = some name → ¬ typedefs name

/-- Whether no enumeration constants are listed and all that is declared as a type is among some
words. -/
def Allowed (typedefs : String → Prop) (mentions : List Mention) : Prop :=
  .enumerators ∉ mentions ∧ ∀ name, .alias name ∈ mentions → typedefs name

@[simp] theorem allowed_append {typedefs : String → Prop} {ms ns : List Mention} :
    Allowed typedefs (ms ++ ns) ↔ Allowed typedefs ms ∧ Allowed typedefs ns := by
  simp only [Allowed, List.mem_append]
  grind

/-! ## Conclusions about what was read -/

/-- What follows from reading at a table.  `A` says how the table has changed, and holds unless
enumeration constants were listed.  Of the parameters that were read some are kept; if the others
have names that are no `typedef` names, and all that is mentioned is allowed, then `P` holds. -/
structure Reads (typedefs : String → Prop) (table : SymbolTable) (kept read : List Parameter)
    (mentions : List Mention) (A P : Prop) : Prop where
  count : ∀ p, kept.count p ≤ read.count p
  frame : .enumerators ∉ mentions → A
  holds : table.Within typedefs → Allowed typedefs mentions →
    (∀ p, kept.count p < read.count p → p.Clear typedefs) → P

namespace Reads

variable {typedefs : String → Prop} {T U : SymbolTable} {kept kept' read read' : List Parameter}
  {ms ns : List Mention} {A B P Q : Prop}

theorem mono (h : Reads typedefs T kept read ms A P) (hAB : A → B)
    (hPQ : T.Within typedefs → Allowed typedefs ms → A → P → Q) :
    Reads typedefs T kept read ms B Q where
  count := h.count
  frame henum := hAB (h.frame henum)
  holds hwithin hallowed hclear :=
    hPQ hwithin hallowed (h.frame hallowed.1) (h.holds hwithin hallowed hclear)

theorem of_mentions (h : Reads typedefs T kept read ms A P) (hms : ms ⊆ ns) :
    Reads typedefs T kept read ns A P where
  count := h.count
  frame henum := h.frame fun hmem => henum (hms hmem)
  holds hwithin hallowed hclear :=
    h.holds hwithin ⟨fun hmem => hallowed.1 (hms hmem), fun name hmem => hallowed.2 name (hms hmem)⟩
      hclear

/-- Where nothing has been read the conclusions have to hold anyway. -/
theorem nothing (hA : A) (hP : T.Within typedefs → Allowed typedefs ms → P) :
    Reads typedefs T [] [] ms A P where
  count _ := Nat.le_refl _
  frame _ := hA
  holds hwithin hallowed _ := hP hwithin hallowed

/-- What is read one after the other, the second at the table that the first leaves. -/
theorem append (h : Reads typedefs T kept read ms A P) (h' : Reads typedefs U kept' read' ns B Q)
    (hU : T.Within typedefs → Allowed typedefs ms → A → P → U.Within typedefs) :
    Reads typedefs T (kept ++ kept') (read ++ read') (ms ++ ns) (A ∧ B) (P ∧ Q) where
  count p := by
    have := h.count p
    have := h'.count p
    simp only [List.count_append]
    omega
  frame henum := by
    rw [List.mem_append, not_or] at henum
    exact ⟨h.frame henum.1, h'.frame henum.2⟩
  holds hwithin hallowed hclear := by
    obtain ⟨hms, hns⟩ := allowed_append.1 hallowed
    -- What is kept of the one part makes up for nothing that is lost of the other.
    have hP : P := by
      refine h.holds hwithin hms fun p hp => hclear p ?_
      have := h'.count p
      simp only [List.count_append]
      omega
    refine ⟨hP, h'.holds (hU hwithin hms (h.frame hms.1) hP) hns fun p hp => hclear p ?_⟩
    have := h.count p
    simp only [List.count_append]
    omega

/-- The usual case of `append`, where the first part leaves the table. -/
theorem append_same (h : Reads typedefs T kept read ms (U = T) P)
    (h' : Reads typedefs U kept' read' ns B Q) :
    Reads typedefs T (kept ++ kept') (read ++ read') (ms ++ ns) (U = T ∧ B) (P ∧ Q) := by
  refine append h h' ?_
  rintro hwithin - rfl -
  exact hwithin

/-- If nothing is kept, all names that were read are clear. -/
theorem drop (h : Reads typedefs T kept read ms A P) :
    Reads typedefs T [] read ms A (P ∧ ∀ p ∈ kept, p.Clear typedefs) where
  count _ := Nat.zero_le _
  frame := h.frame
  holds hwithin hallowed hclear := by
    have hread : ∀ p, 0 < read.count p → p.Clear typedefs := by simpa using hclear
    refine ⟨h.holds hwithin hallowed fun p hp => hread p (by omega), ?_⟩
    intro p hp
    have := List.count_pos_iff.2 hp
    have := h.count p
    exact hread p (by omega)

end Reads

/-- What is read leaves the table as it is, and all words in it fit the table. -/
def Plain (typedefs : String → Prop) (table : SymbolTable) (mentions : List Mention)
    (after : SymbolTable) (read : List Parameter) : Prop :=
  Reads typedefs table [] read mentions (after = table) (table.Fits mentions)

namespace Plain

variable {typedefs : String → Prop} {T U V : SymbolTable} {read read' : List Parameter}
  {ms ns : List Mention}

theorem of_fits (h : T.Fits ms) : Plain typedefs T ms T [] :=
  .nothing rfl fun _ _ => h

@[simp] theorem nil : Plain typedefs T [] T [] :=
  of_fits SymbolTable.fits_nil

theorem append (h : Plain typedefs T ms U read) (h' : Plain typedefs U ns V read') :
    Plain typedefs T (ms ++ ns) V (read ++ read') := by
  refine (Reads.append_same h h').mono ?_ ?_
  · rintro ⟨rfl, rfl⟩
    rfl
  · rintro - - ⟨rfl, -⟩ hfits
    exact SymbolTable.fits_append.2 hfits

theorem congr (h : Plain typedefs T ms U read) (hms : ∀ m, m ∈ ns ↔ m ∈ ms) :
    Plain typedefs T ns U read := by
  refine (h.of_mentions fun m hm => (hms m).2 hm).mono id ?_
  intro _ _ _ hfits m hm
  exact hfits m ((hms m).1 hm)

/-- Enumeration constants are not spoken of. -/
theorem of_enumerators (h : .enumerators ∈ ms) : Plain typedefs T ms U read where
  count _ := Nat.zero_le _
  frame henum := absurd h henum
  holds _ hallowed _ := absurd h hallowed.1

/-- A scope that is opened for the purpose and left again. -/
theorem scope {kind : ScopeKind} (h : Plain typedefs (T.enter kind) ms U read)
    (hleave : U.leave? = some V) : Plain typedefs T ms V read where
  count := h.count
  frame henum := by
    rw [h.frame henum, SymbolTable.leave?_enter, Option.some_inj] at hleave
    exact hleave.symm
  holds hwithin hallowed hclear :=
    (h.holds (hwithin.enter kind) hallowed hclear).of_isTypeName fun name => by simp

end Plain

end CSyntax
