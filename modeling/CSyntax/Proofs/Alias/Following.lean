import CSyntax.Proofs.Alias.Chain
import CSyntax.Proofs.Scope.Entries
import Mathlib.Logic.Relation

/-!
# Following — resolution goes to the end of a chain

What a name stands for is said by the last `typedef` of the name, among the statements of a block
first and then at file scope.  Resolution follows that from name to name and takes no more steps
than there are names with an alias.  For any tree, read or built by hand, that is enough: it comes
to the end of a chain, however long, and where there is none, to a name that leads back to itself
(`TranslationUnit.resolve_reaches`).

* `lastTypedef?`, `CType.Renames` — what a name stands for, said of the declarations alone;
* `CType.Follows`, `CType.Final`, `CType.Recurs` — the types on the way, its end, and the types on
  a cycle;
* `Represents.follows_iff`, `Represents.recurs_iff` — the same said with links that are in force.
-/

namespace CSyntax

/-- The declarations that stand among the statements themselves. -/
def Statement.declarations (items : List Statement) : List Declaration :=
  items.flatMap fun
    | .declaration _ group => group.declarations
    | _ => []

/-- The declarations at file scope. -/
def TranslationUnit.fileDeclarations (unit : TranslationUnit) : List Declaration :=
  unit.declarations.flatMap fun
    | .declaration group => group.declarations
    | .function _ => []

/-- The type that the last `typedef` of the name gives it. -/
def lastTypedef? (declarations : List Declaration) (name : String) : Option CType :=
  (declarations.filter fun d => d.isTypedef && d.name = name).getLast?.map (·.type)

/-- The type that the name has in the first of the places that has a `typedef` of it. -/
def typedefIn? (places : List (List Declaration)) (name : String) : Option CType :=
  places.findSome? (lastTypedef? · name)

/-! ## Ways through declarations -/

namespace CType

/-- One step of following: from a name to the type that it stands for. -/
inductive Renames (places : List (List Declaration)) : CType → CType → Prop
  | step {name : String} {type : CType} :
      typedefIn? places name = some type → Renames places (.named name) type

/-- The second type is on the way from the first. -/
def Follows (places : List (List Declaration)) : CType → CType → Prop :=
  Relation.ReflTransGen (Renames places)

/-- The type is no name, or a name that is declared in none of the places. -/
def Final (places : List (List Declaration)) (type : CType) : Prop :=
  ∀ next, ¬ Renames places type next

/-- The way from the type comes back to it. -/
def Recurs (places : List (List Declaration)) (type : CType) : Prop :=
  Relation.TransGen (Renames places) type type

/-- Following from the type runs into a cycle. -/
def RunsRound (places : List (List Declaration)) (type : CType) : Prop :=
  ∃ passed, Follows places type passed ∧ Recurs places passed

/-- What is made of a type is the end of the way from it, or a name on the cycle that the way runs
into. -/
structure Reaches (places : List (List Declaration)) (resolve : CType → CType) (type : CType) :
    Prop where
  follows : Follows places type (resolve type)
  final : ¬ RunsRound places type → Final places (resolve type)
  idempotent : ¬ RunsRound places type → resolve (resolve type) = resolve type
  recurs : RunsRound places type →
    (∃ name, resolve type = .named name) ∧ Recurs places (resolve type)

end CType

/-! ## Aliases of declarations -/

variable {places : List (List Declaration)} {scopes : List (Bindings CType)} {name : String}
  {type target : CType}

/-- Of the aliases of declarations the last one of a name is kept. -/
theorem get?_ofList_typedefs (declarations : List Declaration) (name : String) :
    (Bindings.ofList ((declarations.filter (·.isTypedef)).map fun d =>
      (d.name, d.type))).get? name = lastTypedef? declarations name := by
  induction declarations using List.reverseRecOn with
  | nil => rfl
  | append_singleton front last ih =>
      cases htypedef : last.isTypedef with
      | false =>
          rw [lastTypedef?] at ih ⊢
          simpa [List.filter_append, htypedef] using ih
      | true =>
          rw [lastTypedef?] at ih ⊢
          have hlast : [last].filter (·.isTypedef) = [last] := by simp [htypedef]
          rw [List.filter_append, hlast, List.map_append, List.map_singleton,
            Bindings.ofList_concat, Bindings.get?_insert, ih]
          by_cases hname : last.name = name <;> simp [List.filter_append, htypedef, hname]

theorem Statement.get?_aliases (items : List Statement) (name : String) :
    (Statement.aliases items).get? name = lastTypedef? (Statement.declarations items) name := by
  rw [← get?_ofList_typedefs, Statement.declarations, List.filter_flatMap, List.map_flatMap]
  refine congrArg (Bindings.get? · name) (congrArg Bindings.ofList ?_)
  exact List.flatMap_congr fun item _ => by cases item <;> rfl

theorem TranslationUnit.get?_typedefs (unit : TranslationUnit) (name : String) :
    unit.typedefs.get? name = lastTypedef? unit.fileDeclarations name := by
  rw [← get?_ofList_typedefs, TranslationUnit.fileDeclarations, List.filter_flatMap,
    List.map_flatMap]
  refine congrArg (Bindings.get? · name) (congrArg Bindings.ofList ?_)
  exact List.flatMap_congr fun external _ => by cases external <;> rfl

/-! ## Ways and links -/

/-- The scopes give each name the type that the declarations give it. -/
def Represents (scopes : List (Bindings CType)) (places : List (List Declaration)) : Prop :=
  ∀ name, aliasIn? scopes name = typedefIn? places name

namespace Represents

variable (h : Represents scopes places)

include h

theorem follows_iff : CType.Follows places type target ↔
    ∃ links, Leads links type target ∧ InForce scopes links := by
  constructor
  · intro hfollows
    induction hfollows using Relation.ReflTransGen.head_induction_on with
    | refl => exact ⟨[], .stop _, inForce_nil⟩
    | head hstep _ ih =>
        obtain ⟨links, hleads, hforce⟩ := ih
        cases hstep with
        | step htypedef =>
            exact ⟨_ :: links, .step hleads, inForce_cons.2 ⟨(h _).trans htypedef, hforce⟩⟩
  · rintro ⟨links, hleads, hforce⟩
    induction hleads with
    | stop _ => exact .refl
    | step _ ih =>
        obtain ⟨halias, hforce⟩ := inForce_cons.1 hforce
        exact .head (.step ((h _).symm.trans halias)) (ih hforce)

theorem recurs_iff : CType.Recurs places type ↔ Circles scopes type := by
  constructor
  · intro hrecurs
    obtain ⟨next, hstep, hback⟩ := Relation.TransGen.head'_iff.1 hrecurs
    obtain ⟨links, hleads, hforce⟩ := h.follows_iff.1 hback
    cases hstep with
    | step htypedef =>
        exact ⟨_ :: links, List.cons_ne_nil _ _, .step hleads,
          inForce_cons.2 ⟨(h _).trans htypedef, hforce⟩⟩
  · rintro ⟨links, hne, hleads, hforce⟩
    cases hleads with
    | stop _ => exact absurd rfl hne
    | step hback =>
        obtain ⟨halias, hforce⟩ := inForce_cons.1 hforce
        exact Relation.TransGen.head'_iff.2 ⟨_, .step ((h _).symm.trans halias),
          h.follows_iff.2 ⟨_, hback, hforce⟩⟩

theorem final_iff : CType.Final places type ↔ Settled scopes type := by
  constructor
  · rintro hfinal name rfl
    refine Option.eq_none_iff_forall_ne_some.2 fun next hnext => ?_
    exact hfinal next (.step ((h _).symm.trans hnext))
  · rintro hsettled next ⟨htypedef⟩
    cases (hsettled _ rfl).symm.trans ((h _).trans htypedef)

/-- Resolution in the scopes comes to the end of the way, or stays on the cycle. -/
theorem reaches (type : CType) : CType.Reaches places (CType.resolve scopes) type := by
  obtain ⟨links, hleads, hforce, hstop⟩ := exists_leads_resolve scopes type
  have hfollows := h.follows_iff.2 ⟨links, hleads, hforce⟩
  have hsettled : ¬ CType.RunsRound places type → Settled scopes (type.resolve scopes) := by
    intro hround
    refine hstop.resolve_right fun hcircle => hround ?_
    exact ⟨_, hfollows, h.recurs_iff.2 hcircle⟩
  refine ⟨hfollows, fun hround => h.final_iff.2 (hsettled hround), fun hround => ?_, ?_⟩
  · exact resolve_of_leads (.stop _) inForce_nil (hsettled hround)
  · rintro ⟨passed, hpassed, hrecurs⟩
    -- A way that comes to an end passes no cycle.
    have hcircle : Circles scopes (type.resolve scopes) := by
      refine hstop.resolve_left fun hend => ?_
      obtain ⟨front, hfront, hpassing⟩ := h.follows_iff.1 hpassed
      obtain ⟨more, rfl, hmore⟩ := hfront.continues hpassing hleads hforce hend
      exact hmore.not_circles (inForce_append.1 hforce).2 hend (h.recurs_iff.1 hrecurs)
    -- What lies on a cycle stands for something, so it is a name.
    have hback := h.recurs_iff.2 hcircle
    obtain ⟨next, hstep, -⟩ := Relation.TransGen.head'_iff.1 hback
    refine ⟨?_, hback⟩
    cases hresult : type.resolve scopes with
    | named name => exact ⟨name, rfl⟩
    | _ =>
        rw [hresult] at hstep
        cases hstep

end Represents

/-! ## Trees -/

/-- In every tree and at every block of statements a type is resolved to the end of the way from it,
or to a name on the cycle that the way runs into. -/
theorem TranslationUnit.resolve_reaches (unit : TranslationUnit) (block : List Statement)
    (type : CType) :
    CType.Reaches [unit.fileDeclarations] unit.resolve type ∧
      CType.Reaches [Statement.declarations block, unit.fileDeclarations] (unit.resolveIn block)
        type := by
  have hfile : Represents [unit.typedefs] [unit.fileDeclarations] := by
    intro name
    simp only [aliasIn?, typedefIn?, List.findSome?_cons, List.findSome?_nil, unit.get?_typedefs]
  have hblock : Represents [Statement.aliases block, unit.typedefs]
      [Statement.declarations block, unit.fileDeclarations] := by
    intro name
    simp only [aliasIn?, typedefIn?, List.findSome?_cons, List.findSome?_nil, unit.get?_typedefs,
      Statement.get?_aliases]
  exact ⟨hfile.reaches type, hblock.reaches type⟩

/-- A `typedef` in a block turns a chain of the file scope into a cycle through both. -/
example :
    let synonym (name : String) (type : CType) : DeclarationGroup :=
      ⟨type, [⟨name, type, none, true, none, ⟨false, false⟩, .start none⟩], .start none⟩
    let unit : TranslationUnit :=
      ⟨[.declaration (synonym "T" (.named "int")), .declaration (synonym "U" (.named "T"))]⟩
    let block : List Statement := [.declaration (.start none) (synonym "T" (.named "U"))]
    unit.resolve (.named "U") = .named "int" ∧ unit.resolveIn block (.named "U") = .named "U" := by
  decide +kernel

end CSyntax
