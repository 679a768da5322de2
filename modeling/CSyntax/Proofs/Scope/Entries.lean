import CSyntax.Proofs.Alias.Visible
import CSyntax.Symbols
import Mathlib.Data.List.Induction

/-!
# Entries — what a finished tree declares at file scope

A tree lists its declarations in source order, and the enumeration constants stand in its types and
expressions.  This file reads off what is declared at file scope, one entry after the other:

* `CType.constants`, `Expr.constants` — the enumeration constants that a type or an expression
  declares where it stands, those of records among them; a list of parameters keeps its own;
* `TranslationUnit.fileEntries` — the words that a unit declares at file scope, with what each means;
* `TranslationUnit.Ends` — an entry is the last one of its word.

A word's last entry decides (`Bindings.get?_ofList_eq_some_iff`), and the aliases of the unit are the
entries that are type names (`TranslationUnit.typedefs_eq`).
-/

namespace CSyntax

/-! ## Enumeration constants -/

mutual

/-- The enumeration constants that a type declares where it stands. -/
def CType.constants : CType → List String
  | .named _ => []
  | .pointer target => target.constants
  | .array element size => element.constants ++ Expr.constantsOption size
  -- Parameters are declared in a scope of their own.
  | .function result _ _ => result.constants
  | .record _ _ members => Member.constantsOption members
  | .enumeration _ enumerators => Enumerator.constantsOption enumerators

def Member.constants : Member → List String
  | ⟨_, type⟩ => type.constants

def Member.constantsList : List Member → List String
  | [] => []
  | member :: members => member.constants ++ Member.constantsList members

def Member.constantsOption : Option (List Member) → List String
  | none => []
  | some members => Member.constantsList members

def Enumerator.constants : Enumerator → List String
  | ⟨name, value⟩ => name :: Expr.constantsOption value

def Enumerator.constantsList : List Enumerator → List String
  | [] => []
  | enumerator :: enumerators => enumerator.constants ++ Enumerator.constantsList enumerators

def Enumerator.constantsOption : Option (List Enumerator) → List String
  | none => []
  | some enumerators => Enumerator.constantsList enumerators

/-- The enumeration constants that an expression declares where it stands. -/
def Expr.constants : Expr → List String
  | .identifier _ _ | .integer _ _ | .floating _ _ | .character _ _ | .string _ _ => []
  | .call _ callee values => callee.constants ++ Expr.constantsList values
  | .unary _ _ operand => operand.constants
  | .binary _ _ left right => left.constants ++ right.constants
  | .index _ array subscript => array.constants ++ subscript.constants
  | .member _ base _ _ => base.constants
  | .assign _ _ target value => target.constants ++ value.constants
  | .conditional _ condition whenTrue whenFalse =>
      condition.constants ++ whenTrue.constants ++ whenFalse.constants
  | .cast _ type operand => type.constants ++ operand.constants
  | .sizeofType _ type => type.constants
  | .sizeofExpr _ operand => operand.constants
  | .initializerList _ items => Expr.constantsList items

def Expr.constantsList : List Expr → List String
  | [] => []
  | value :: values => value.constants ++ Expr.constantsList values

def Expr.constantsOption : Option Expr → List String
  | none => []
  | some value => value.constants

end

@[simp] theorem Member.constantsList_eq (members : List Member) :
    Member.constantsList members = members.flatMap Member.constants := by
  induction members with
  | nil => rfl
  | cons member members ih => exact congrArg (member.constants ++ ·) ih

@[simp] theorem Enumerator.constantsList_eq (enumerators : List Enumerator) :
    Enumerator.constantsList enumerators = enumerators.flatMap Enumerator.constants := by
  induction enumerators with
  | nil => rfl
  | cons enumerator enumerators ih => exact congrArg (enumerator.constants ++ ·) ih

@[simp] theorem Expr.constantsList_eq (values : List Expr) :
    Expr.constantsList values = values.flatMap Expr.constants := by
  induction values with
  | nil => rfl
  | cons value values ih => exact congrArg (value.constants ++ ·) ih

@[simp] theorem Member.constantsOption_none : Member.constantsOption none = [] := rfl

@[simp] theorem Enumerator.constantsOption_none : Enumerator.constantsOption none = [] := rfl

@[simp] theorem Expr.constantsOption_none : Expr.constantsOption none = [] := rfl

namespace CType

@[simp] theorem constants_record (kind : RecordKind) (tag : Option String)
    (members : Option (List Member)) :
    (record kind tag members).constants = Member.constantsOption members := rfl

@[simp] theorem constants_enumeration (tag : Option String)
    (enumerators : Option (List Enumerator)) :
    (enumeration tag enumerators).constants = Enumerator.constantsOption enumerators := rfl

/-- The enumeration constants in a type apart from those in what it is built around. -/
def outerConstants : CType → List String
  | .pointer target => target.outerConstants
  | .array element size => element.outerConstants ++ Expr.constantsOption size
  | .function result _ _ => result.outerConstants
  | _ => []

end CType

/-! ## Declarations -/

/-- A word that is declared, with what it means from there on. -/
abbrev Entry := String × Meaning

/-- Words that are declared as ordinary ones. -/
def ordinaries (names : List String) : List Entry :=
  names.map fun name => (name, .ordinary)

/-- What a declaration means its name to be. -/
def Declaration.meaning (d : Declaration) : Meaning :=
  if d.isTypedef then .typeName d.type else .ordinary

/-- A declaration binds its name after the constants in its declarator and before those in its
initial value.  The base of the type belongs to the group. -/
def Declaration.entries (d : Declaration) : List Entry :=
  ordinaries d.type.outerConstants ++ [(d.name, d.meaning)] ++
    ordinaries (Expr.constantsOption d.initial)

def DeclarationGroup.entries (group : DeclarationGroup) : List Entry :=
  ordinaries group.base.constants ++ group.declarations.flatMap Declaration.entries

/-- A function leaves its name and the constants in its type; its body is a scope of its own. -/
def FunctionDefinition.entries (f : FunctionDefinition) : List Entry :=
  ordinaries f.type.constants ++ [(f.name, .ordinary)]

def ExternalDeclaration.entries : ExternalDeclaration → List Entry
  | .declaration group => group.entries
  | .function definition => definition.entries

namespace TranslationUnit

/-- What is declared at file scope, in source order. -/
def fileEntries (unit : TranslationUnit) : List Entry :=
  unit.declarations.flatMap ExternalDeclaration.entries

/-- The entry is the last one of its word. -/
def Ends (unit : TranslationUnit) (name : String) (meaning : Meaning) : Prop :=
  ∃ before after, unit.fileEntries = before ++ (name, meaning) :: after ∧ ∀ m, (name, m) ∉ after

/-- An ordinary declaration of the word stands behind all those that make it a name of the type. -/
def Retracts (unit : TranslationUnit) (name : String) (type : CType) : Prop :=
  ∃ before after, unit.fileEntries = before ++ (name, .ordinary) :: after ∧
    (name, .typeName type) ∈ before ∧ ∀ m, (name, m) ∉ after

end TranslationUnit

/-! ## Last entries -/

namespace Bindings

variable {α : Type} {entries : List (String × α)} {name : String} {value : α}

theorem ofList_concat (entries : List (String × α)) (name : String) (value : α) :
    ofList (entries ++ [(name, value)]) = (ofList entries).insert name value := by
  simp [ofList]

/-- A word is bound as its last entry says. -/
theorem get?_ofList_eq_some_iff : (ofList entries).get? name = some value ↔
    ∃ before after, entries = before ++ (name, value) :: after ∧ ∀ v, (name, v) ∉ after := by
  -- From the end, since the last entry is the one that counts.
  induction entries using List.reverseRecOn with
  | nil => simp [ofList]
  | append_singleton entries last ih =>
      obtain ⟨other, found⟩ := last
      rw [ofList_concat, get?_insert]
      constructor
      · intro h
        split at h
        · rename_i hname
          cases h
          exact ⟨entries, [], by rw [hname], by simp⟩
        · rename_i hname
          obtain ⟨before, after, hentries, hlast⟩ := ih.1 h
          refine ⟨before, after ++ [(other, found)], by simp [hentries], fun v hv => ?_⟩
          rcases List.mem_append.1 hv with hv | hv
          · exact hlast v hv
          · exact hname (Prod.mk.inj (List.mem_singleton.1 hv)).1.symm
      · rintro ⟨before, after, hentries, hlast⟩
        rcases List.eq_nil_or_concat after with rfl | ⟨front, entry, rfl⟩
        · obtain ⟨-, hsame⟩ := List.append_inj' hentries rfl
          cases hsame
          simp
        · have hsplit : entries ++ [(other, found)] =
              (before ++ (name, value) :: front) ++ [entry] := by simp [hentries]
          obtain ⟨hfront, hsame⟩ := List.append_inj' hsplit rfl
          cases hsame
          have hname : other ≠ name := by
            rintro rfl
            exact hlast found (by simp)
          rw [if_neg hname]
          exact ih.2 ⟨before, front, hfront, fun v hv => hlast v (by simp [hv])⟩

theorem get?_ofList_eq_none_iff :
    (ofList entries).get? name = none ↔ ∀ value, (name, value) ∉ entries := by
  induction entries using List.reverseRecOn with
  | nil => simp [ofList]
  | append_singleton entries last ih =>
      obtain ⟨other, found⟩ := last
      rw [ofList_concat, get?_insert]
      by_cases hname : other = name
      · subst hname
        simpa using ⟨found, fun _ => rfl⟩
      · simp [hname, ih, Ne.symm hname]

/-- The bindings after some entries depend on what words were bound to, and on nothing else. -/
theorem get?_insertAll_congr {bindings others : Bindings α}
    (h : ∀ name, bindings.get? name = others.get? name) (entries : List (String × α)) :
    ∀ name, (bindings.insertAll entries).get? name = (others.insertAll entries).get? name := by
  induction entries generalizing bindings others with
  | nil => exact h
  | cons entry entries ih =>
      refine ih fun name => ?_
      rw [get?_insert, get?_insert, h]

theorem insertAll_append (bindings : Bindings α) (entries others : List (String × α)) :
    bindings.insertAll (entries ++ others) = (bindings.insertAll entries).insertAll others := by
  simp [insertAll]

theorem get?_insertAll_ordinaries (bindings : Bindings Meaning) (names : List String)
    (name : String) : (bindings.insertAll (ordinaries names)).get? name =
      if name ∈ names then some .ordinary else bindings.get? name := by
  induction names generalizing bindings with
  | nil => simp [insertAll, ordinaries]
  | cons first others ih =>
      have hstep : bindings.insertAll (ordinaries (first :: others)) =
          (bindings.insert first .ordinary).insertAll (ordinaries others) := rfl
      rw [hstep, ih, get?_insert]
      by_cases hname : first = name
      · simp [hname]
      · simp [hname, Ne.symm hname]

end Bindings

/-! ## Aliases -/

/-- The alias that an entry declares, if it makes its word a type name. -/
def Entry.alias? : Entry → Option (String × CType)
  | (name, .typeName type) => some (name, type)
  | (_, .ordinary) => none

namespace Entry

variable {name : String} {type : CType}

theorem alias?_eq_some_iff {entry : Entry} :
    entry.alias? = some (name, type) ↔ entry = (name, .typeName type) := by
  rcases entry with ⟨other, _ | _⟩ <;> simp [alias?]

@[simp] theorem filterMap_alias?_ordinaries (names : List String) :
    (ordinaries names).filterMap alias? = [] := by
  induction names with
  | nil => rfl
  | cons first others ih => exact ih

theorem mem_aliases_iff {entries : List Entry} :
    (name, type) ∈ entries.filterMap alias? ↔ (name, .typeName type) ∈ entries := by
  simp [List.mem_filterMap, alias?_eq_some_iff]

end Entry

theorem Declaration.filterMap_entries (d : Declaration) :
    d.entries.filterMap Entry.alias? = if d.isTypedef then [(d.name, d.type)] else [] := by
  unfold Declaration.entries Declaration.meaning
  rw [List.filterMap_append, List.filterMap_append, Entry.filterMap_alias?_ordinaries,
    Entry.filterMap_alias?_ordinaries]
  cases d.isTypedef <;> rfl

theorem DeclarationGroup.filterMap_entries (group : DeclarationGroup) :
    group.entries.filterMap Entry.alias? = group.aliases := by
  unfold DeclarationGroup.entries DeclarationGroup.aliases
  rw [List.filterMap_append, Entry.filterMap_alias?_ordinaries, List.nil_append]
  induction group.declarations with
  | nil => rfl
  | cons d others ih =>
      rw [List.flatMap_cons, List.filterMap_append, d.filterMap_entries, ih]
      cases h : d.isTypedef <;> simp [h]

namespace TranslationUnit

variable {unit : TranslationUnit} {name : String} {type : CType}

/-- The aliases at file scope are the entries that make words type names. -/
theorem typedefs_eq (unit : TranslationUnit) :
    unit.typedefs = Bindings.ofList (unit.fileEntries.filterMap Entry.alias?) := by
  unfold typedefs fileEntries
  congr 1
  induction unit.declarations with
  | nil => rfl
  | cons first others ih =>
      rw [List.flatMap_cons, List.flatMap_cons, List.filterMap_append, ← ih]
      cases first with
      | declaration group => rw [ExternalDeclaration.entries, group.filterMap_entries]
      | function f => simp [ExternalDeclaration.entries, FunctionDefinition.entries, Entry.alias?]

/-- A word whose last entry makes it a type name is an alias of that type. -/
theorem typedefs_of_ends (h : unit.Ends name (.typeName type)) :
    unit.typedefs.get? name = some type := by
  obtain ⟨before, after, hentries, hlast⟩ := h
  rw [typedefs_eq, Bindings.get?_ofList_eq_some_iff]
  refine ⟨before.filterMap Entry.alias?, after.filterMap Entry.alias?, ?_, fun other hother => ?_⟩
  · rw [hentries, List.filterMap_append, List.filterMap_cons]
    rfl
  · exact hlast _ (Entry.mem_aliases_iff.1 hother)

/-- The last entry of an alias makes it a type name, or takes the word back. -/
theorem ends_of_typedefs (h : unit.typedefs.get? name = some type) :
    unit.Ends name (.typeName type) ∨ unit.Ends name .ordinary ∧ unit.Retracts name type := by
  have hmem : (name, .typeName type) ∈ unit.fileEntries := by
    rw [typedefs_eq] at h
    exact Entry.mem_aliases_iff.1 (Bindings.mem_of_get?_ofList h)
  obtain ⟨meaning, hmeaning⟩ :
      ∃ meaning, (Bindings.ofList unit.fileEntries).get? name = some meaning := by
    refine Option.ne_none_iff_exists'.1 fun hnone => ?_
    exact Bindings.get?_ofList_eq_none_iff.1 hnone _ hmem
  obtain ⟨before, after, hentries, hlast⟩ := Bindings.get?_ofList_eq_some_iff.1 hmeaning
  -- If the last entry of the word is a type it is this one, and else it takes the alias back.
  cases meaning with
  | typeName other =>
      have hends : unit.Ends name (.typeName other) := ⟨before, after, hentries, hlast⟩
      obtain rfl := Option.some.inj ((typedefs_of_ends hends).symm.trans h)
      exact .inl hends
  | ordinary =>
      refine .inr ⟨⟨before, after, hentries, hlast⟩, before, after, hentries, ?_, hlast⟩
      rw [hentries] at hmem
      rcases List.mem_append.1 hmem with hbefore | hrest
      · exact hbefore
      · rcases List.mem_cons.1 hrest with hsame | hafter
        · cases hsame
        · exact absurd hafter (hlast _)

theorem typedefs_eq_none (h : ∀ meaning, (name, meaning) ∉ unit.fileEntries) :
    unit.typedefs.get? name = none := by
  rw [typedefs_eq, Bindings.get?_ofList_eq_none_iff]
  exact fun type htype => h _ (Entry.mem_aliases_iff.1 htype)

end TranslationUnit

end CSyntax
