import CSyntax.Proofs.Alias.Chain
import CSyntax.Proofs.Scope.Walk

/-!
# Visible — aliases as they are declared, one after the other

The last declarations of a tree forget where a `typedef` stood.  This file reads a tree in source
order instead, and keeps for every visible alias the chain of aliases that stands behind it where it
is declared:

* `Chain` — the aliases that are followed from a type, and the type at their end;
* `Aliases` — the open scopes, with `visible?` and `declared?`;
* `TranslationUnit.aliases`, `FunctionDefinition.aliases` — the aliases at the end of a unit, and
  at the end of a function's body;
* `Aliases.GroundsUnit` — every `typedef` names a type that is visible where it stands, and reuses
  no name of the language;
* `Aliases.Resolves` — resolution goes along the chains that are in force (`GroundsUnit.resolves`,
  `GroundsUnit.resolves_body`).
-/

namespace CSyntax

/-! ## Chains -/

/-- The aliases that are followed from a type, and the type at their end. -/
structure Chain where
  links : List Link
  target : CType
  deriving DecidableEq

/-- The chain leads from the type to an end: a type that is no name, or a name of the language. -/
structure Chain.Ends (chain : Chain) (type : CType) : Prop where
  leads : Leads chain.links type chain.target
  target : ∀ name, chain.target = .named name → name ∈ ArithmeticType.spellings

/-- A chain in force is followed to its end, if the names of the language have no aliases. -/
theorem Chain.Ends.resolve {chain : Chain} {type : CType} {scopes : List (Bindings CType)}
    (h : chain.Ends type) (hforce : InForce scopes chain.links)
    (hnone : ∀ name ∈ ArithmeticType.spellings, aliasIn? scopes name = none) :
    type.resolve scopes = chain.target ∧ Settled scopes chain.target := by
  have hsettled : Settled scopes chain.target :=
    fun name htarget => hnone name (h.target name htarget)
  exact ⟨resolve_of_leads h.leads hforce hsettled, hsettled⟩

/-! ## Scopes -/

/-- The open scopes, as far as aliases go.  Each binds words to the chains behind them, and to
nothing if they are declared as ordinary words. -/
structure Aliases where
  innermost : Bindings (Option Chain)
  outer : List (Bindings (Option Chain))

namespace Aliases

def fresh : Aliases :=
  { innermost := [], outer := [] }

def enter (aliases : Aliases) : Aliases :=
  { innermost := [], outer := aliases.innermost :: aliases.outer }

/-- Binds a word in the innermost scope. -/
def bind (aliases : Aliases) (name : String) (chain? : Option Chain) : Aliases :=
  { aliases with innermost := aliases.innermost.insert name chain? }

/-- The chain behind a name that is declared last, in the innermost scope, as an alias. -/
def declared? (aliases : Aliases) (name : String) : Option Chain :=
  (aliases.innermost.get? name).join

/-- The chain behind a name that is an alias where it stands. -/
def visible? (aliases : Aliases) (name : String) : Option Chain :=
  ((aliases.innermost :: aliases.outer).findSome? (·.get? name)).join

/-- Whether a name is an alias. -/
def Shows (aliases : Aliases) (name : String) : Prop :=
  aliases.visible? name ≠ none

/-- The chain behind a type where it stands. -/
def chain (aliases : Aliases) : CType → Chain
  | .named name => (aliases.visible? name).getD { links := [], target := .named name }
  | type => { links := [], target := type }

/-- The chain behind an alias whose type stands where the aliases are visible. -/
def chainOf (aliases : Aliases) (d : Declaration) : Chain :=
  { links := (d.name, d.type) :: (aliases.chain d.type).links
    target := (aliases.chain d.type).target }

/-! ## Reading a tree -/

/-- A declaration binds its name.  Its type stands at the start of the group, where `start` was
visible. -/
def declare (start aliases : Aliases) (d : Declaration) : Aliases :=
  aliases.bind d.name (if d.isTypedef then some (start.chainOf d) else none)

def group (aliases : Aliases) (g : DeclarationGroup) : Aliases :=
  g.declarations.foldl aliases.declare aliases

/-- Of the items of a block only declarations bind names in the block itself. -/
def item (aliases : Aliases) : Statement → Aliases
  | .declaration _ g => aliases.group g
  | _ => aliases

/-- Parameters bind their names in the scope of the body. -/
def parameter (aliases : Aliases) (p : Parameter) : Aliases :=
  p.name.elim aliases fun name => aliases.bind name none

/-- The aliases where the body of a function begins. -/
def inside (aliases : Aliases) (f : FunctionDefinition) : Aliases :=
  f.parameters.foldl parameter (aliases.bind f.name none).enter

def external (aliases : Aliases) : ExternalDeclaration → Aliases
  | .declaration g => aliases.group g
  | .function f => aliases.bind f.name none

end Aliases

/-- The aliases at the end of external declarations. -/
def aliasesBehind (list : List ExternalDeclaration) : Aliases :=
  list.foldl Aliases.external .fresh

/-- The aliases at the end of the unit. -/
def TranslationUnit.aliases (unit : TranslationUnit) : Aliases :=
  aliasesBehind unit.declarations

/-- The aliases at the end of the body of a function that stands behind external declarations. -/
def FunctionDefinition.aliases (f : FunctionDefinition) (before : List ExternalDeclaration) :
    Aliases :=
  f.body.foldl Aliases.item ((aliasesBehind before).inside f)

namespace Aliases

variable {aliases start : Aliases} {name other : String} {chain : Chain} {type : CType}

theorem visible?_bind (aliases : Aliases) (name other : String) (chain? : Option Chain) :
    (aliases.bind name chain?).visible? other =
      if name = other then chain? else aliases.visible? other := by
  by_cases h : name = other <;>
    simp [visible?, bind, List.findSome?_cons, Bindings.get?_insert, h]

@[simp] theorem visible?_enter (aliases : Aliases) (name : String) :
    aliases.enter.visible? name = aliases.visible? name := by
  simp [visible?, enter, List.findSome?_cons]

theorem visible?_of_declared? (h : aliases.declared? name = some chain) :
    aliases.visible? name = some chain := by
  have hget : aliases.innermost.get? name = some (some chain) := Option.join_eq_some_iff.1 h
  simp [visible?, hget]

theorem declared?_bind (aliases : Aliases) (name other : String) (chain? : Option Chain) :
    (aliases.bind name chain?).declared? other =
      if name = other then chain? else aliases.declared? other := by
  by_cases h : name = other <;> simp [declared?, bind, Bindings.get?_insert, h]

/-- Parameters keep what is kept when a word is declared as an ordinary one. -/
theorem parameters_of_bind (P : Aliases → Prop) (h : P aliases)
    (hbind : ∀ aliases name, P aliases → P (aliases.bind name none)) (list : List Parameter) :
    P (list.foldl parameter aliases) := by
  refine List.foldlRecOn list parameter h fun now hnow p _ => ?_
  unfold parameter
  cases p.name with
  | none => exact hnow
  | some name => exact hbind now name hnow

end Aliases

/-! ## The last declarations -/

/-- The bindings with those of some entries in addition, a later one replacing an earlier. -/
def Bindings.insertAll {α : Type} (bindings : Bindings α) (entries : List (String × α)) :
    Bindings α :=
  entries.foldl (fun bindings entry => bindings.insert entry.1 entry.2) bindings

namespace Aliases

variable {aliases start : Aliases} {name other : String} {chain : Chain} {type : CType}

/-- The alias that is declared last in the innermost scope is the last one of its name. -/
def Follows (aliases : Aliases) (last : Bindings CType) : Prop :=
  ∀ name chain, aliases.declared? name = some chain →
    ∃ type links, chain.links = (name, type) :: links ∧ last.get? name = some type

namespace Follows

variable {last : Bindings CType}

theorem declare (h : aliases.Follows last) (d : Declaration) :
    (start.declare aliases d).Follows
      (if d.isTypedef then last.insert d.name d.type else last) := by
  intro name chain hdeclared
  rw [Aliases.declare, declared?_bind] at hdeclared
  by_cases hname : d.name = name
  · subst hname
    cases htypedef : d.isTypedef with
    | false => simp [htypedef] at hdeclared
    | true =>
        obtain rfl : start.chainOf d = chain := by simpa [htypedef] using hdeclared
        exact ⟨d.type, _, rfl, by simp [Bindings.get?_insert]⟩
  · obtain ⟨type, links, hlinks, hlast⟩ := h name chain (by simpa [hname] using hdeclared)
    refine ⟨type, links, hlinks, ?_⟩
    split
    · simpa [Bindings.get?_insert, hname] using hlast
    · exact hlast

theorem group (h : aliases.Follows last) (g : DeclarationGroup) :
    (aliases.group g).Follows (last.insertAll g.aliases) := by
  unfold Aliases.group Bindings.insertAll DeclarationGroup.aliases
  rw [List.foldl_map, List.foldl_filter]
  exact List.foldl_rel h fun d _ now last hnow => hnow.declare d

theorem bind_none (h : aliases.Follows last) (name : String) :
    (aliases.bind name none).Follows last := by
  intro other chain hdeclared
  rw [declared?_bind] at hdeclared
  split at hdeclared
  · cases hdeclared
  · exact h other chain hdeclared

theorem fresh : Aliases.fresh.Follows [] := by
  intro name chain hdeclared
  cases hdeclared

theorem inside (aliases : Aliases) (f : FunctionDefinition) : (aliases.inside f).Follows [] := by
  have hstart : (aliases.bind f.name none).enter.Follows [] := by
    intro name chain hdeclared
    cases hdeclared
  exact parameters_of_bind (·.Follows []) hstart (fun _ name h => h.bind_none name) f.parameters

/-- At the end of a block its aliases are the last ones of their names. -/
theorem body (h : aliases.Follows []) (items : List Statement) :
    (items.foldl Aliases.item aliases).Follows (Statement.aliases items) := by
  unfold Statement.aliases Bindings.ofList
  rw [List.foldl_flatMap]
  refine List.foldl_rel h fun s _ now last hnow => ?_
  cases s with
  | declaration _ g => exact hnow.group g
  | _ => exact hnow

/-- At the end of a unit its aliases are the last ones of their names. -/
theorem unit (unit : TranslationUnit) : unit.aliases.Follows unit.typedefs := by
  unfold TranslationUnit.aliases aliasesBehind TranslationUnit.typedefs Bindings.ofList
  rw [List.foldl_flatMap]
  refine List.foldl_rel fresh fun e _ now last hnow => ?_
  cases e with
  | declaration g => exact hnow.group g
  | function f => exact hnow.bind_none f.name

end Follows

/-! ## Types that are grounded -/

/-- The type is no name, or one of the language, or an alias. -/
def Grounds (aliases : Aliases) (type : CType) : Prop :=
  ∀ name, type = .named name → name ∈ ArithmeticType.spellings ∨ aliases.Shows name

/-- The aliases that a group declares have grounded types and names of their own. -/
def GroundsGroup (aliases : Aliases) (g : DeclarationGroup) : Prop :=
  ∀ d ∈ g.declarations, d.isTypedef = true →
    d.name ∉ ArithmeticType.spellings ∧ aliases.Grounds d.type

def GroundsItem (aliases : Aliases) : Statement → Prop
  | .declaration _ g => aliases.GroundsGroup g
  | _ => True

def GroundsBody (aliases : Aliases) : List Statement → Prop
  | [] => True
  | item :: items => aliases.GroundsItem item ∧ (aliases.item item).GroundsBody items

def GroundsExternal (aliases : Aliases) : ExternalDeclaration → Prop
  | .declaration g => aliases.GroundsGroup g
  | .function f => (aliases.inside f).GroundsBody f.body

def GroundsUnit (aliases : Aliases) : List ExternalDeclaration → Prop
  | [] => True
  | first :: others => aliases.GroundsExternal first ∧ (aliases.external first).GroundsUnit others

/-! ## Chains that come to an end -/

/-- The chains behind all visible aliases come to an end. -/
def Sound (aliases : Aliases) : Prop :=
  ∀ name chain, aliases.visible? name = some chain → chain.Ends (.named name)

theorem sound_fresh : Sound fresh := by
  intro name chain h
  simp [visible?, fresh, List.findSome?_cons] at h

namespace Sound

theorem enter (h : aliases.Sound) : aliases.enter.Sound := by
  intro name chain hvisible
  exact h name chain (by simpa using hvisible)

theorem bind (h : aliases.Sound) {chain? : Option Chain}
    (hchain : ∀ chain ∈ chain?, chain.Ends (.named name)) : (aliases.bind name chain?).Sound := by
  intro other chain hvisible
  rw [visible?_bind] at hvisible
  split at hvisible
  · rename_i hname
    exact hname ▸ hchain chain hvisible
  · exact h other chain hvisible

theorem bind_none (h : aliases.Sound) (name : String) : (aliases.bind name none).Sound :=
  h.bind fun _ hchain => nomatch hchain

theorem chain_ends (h : aliases.Sound) (hgrounds : aliases.Grounds type) :
    (aliases.chain type).Ends type := by
  cases type with
  | named name =>
      cases hvisible : aliases.visible? name with
      | none =>
          have hspelling : name ∈ ArithmeticType.spellings :=
            (hgrounds name rfl).resolve_right fun hshows => hshows hvisible
          simp only [chain, hvisible, Option.getD_none]
          refine ⟨.stop _, ?_⟩
          rintro _ ⟨⟩
          exact hspelling
      | some chain =>
          simp only [Aliases.chain, hvisible, Option.getD_some]
          exact h name chain hvisible
  | _ => exact ⟨.stop _, nofun⟩

theorem chainOf_ends {d : Declaration} (h : aliases.Sound) (hgrounds : aliases.Grounds d.type) :
    (aliases.chainOf d).Ends (.named d.name) :=
  have hends := h.chain_ends hgrounds
  ⟨.step hends.leads, hends.target⟩

theorem group {g : DeclarationGroup} (h : aliases.Sound) (hgrounds : aliases.GroundsGroup g) :
    (aliases.group g).Sound := by
  -- Types are read in the aliases before the group, while names are bound one after the other.
  refine List.foldlRecOn g.declarations aliases.declare h fun now hnow d hd => ?_
  refine hnow.bind fun chain hchain => ?_
  split at hchain
  · rename_i htypedef
    cases hchain
    exact h.chainOf_ends (hgrounds d hd htypedef).2
  · cases hchain

theorem item {s : Statement} (h : aliases.Sound) (hgrounds : aliases.GroundsItem s) :
    (aliases.item s).Sound := by
  cases s with
  | declaration _ g => exact h.group hgrounds
  | _ => exact h

theorem body {items : List Statement} (h : aliases.Sound) (hgrounds : aliases.GroundsBody items) :
    (items.foldl Aliases.item aliases).Sound := by
  induction items generalizing aliases with
  | nil => exact h
  | cons first others ih => exact ih (h.item hgrounds.1) hgrounds.2

theorem inside (h : aliases.Sound) (f : FunctionDefinition) : (aliases.inside f).Sound :=
  parameters_of_bind Sound (h.bind_none f.name).enter (fun _ name h => h.bind_none name)
    f.parameters

theorem external {e : ExternalDeclaration} (h : aliases.Sound)
    (hgrounds : aliases.GroundsExternal e) : (aliases.external e).Sound := by
  cases e with
  | declaration g => exact h.group hgrounds
  | function f => exact h.bind_none f.name

end Sound

/-! ## Resolution -/

/-- What resolution in the scopes makes of names, in terms of the aliases at their end.  A name that
is declared last as an alias stands for the end of its chain, if all aliases behind it are in force;
and no name that has an alias is left, unless its aliases lead back to it. -/
structure Resolves (aliases : Aliases) (scopes : List (Bindings CType)) : Prop where
  target : ∀ name chain, aliases.declared? name = some chain →
    InForce scopes chain.links.tail →
      CType.resolve scopes (.named name) = chain.target ∧ Settled scopes chain.target
  circles : ∀ type name, CType.resolve scopes type = .named name →
    aliasIn? scopes name ≠ none → Circles scopes (.named name)

/-- Names resolve so if the last declarations are in force and chains come to ends without an
alias. -/
theorem Resolves.of_follows {last : Bindings CType} {scopes : List (Bindings CType)}
    (hfollows : aliases.Follows last) (hsound : aliases.Sound)
    (hlast : ∀ name type, last.get? name = some type → aliasIn? scopes name = some type)
    (hnone : ∀ name ∈ ArithmeticType.spellings, aliasIn? scopes name = none) :
    aliases.Resolves scopes where
  target name chain hdeclared hforce := by
    have hends : chain.Ends (.named name) := hsound name chain (visible?_of_declared? hdeclared)
    obtain ⟨type, links, hlinks, hfirst⟩ := hfollows name chain hdeclared
    -- The first link is in force because it is the last declaration of its name.
    have hlinksForce : InForce scopes chain.links := by
      rw [hlinks] at hforce ⊢
      exact inForce_cons.2 ⟨hlast name type hfirst, hforce⟩
    exact hends.resolve hlinksForce hnone
  circles _ _ := circles_of_resolve

/-! ## Whole units -/

theorem GroundsGroup.name_not_mem {g : DeclarationGroup} (h : aliases.GroundsGroup g) {entry : Link}
    (hentry : entry ∈ g.aliases) : entry.1 ∉ ArithmeticType.spellings := by
  obtain ⟨d, hd, rfl⟩ := List.mem_map.1 hentry
  obtain ⟨hmem, htypedef⟩ := List.mem_filter.1 hd
  exact (h d hmem htypedef).1

theorem GroundsBody.exists_of_mem {items : List Statement} {item : Statement}
    (h : aliases.GroundsBody items) (hmem : item ∈ items) :
    ∃ now : Aliases, now.GroundsItem item := by
  induction items generalizing aliases with
  | nil => cases hmem
  | cons first others ih =>
      rcases List.mem_cons.1 hmem with rfl | hmem
      · exact ⟨aliases, h.1⟩
      · exact ih h.2 hmem

/-- No alias of a block has a name of the language. -/
theorem GroundsBody.get?_eq_none {items : List Statement} (h : aliases.GroundsBody items)
    (hname : name ∈ ArithmeticType.spellings) : (Statement.aliases items).get? name = none := by
  refine Option.eq_none_iff_forall_ne_some.2 fun type htype => ?_
  obtain ⟨item, hmem, hentry⟩ := List.mem_flatMap.1 (Bindings.mem_of_get?_ofList htype)
  obtain ⟨now, hitem⟩ := h.exists_of_mem hmem
  cases item with
  | declaration _ g => exact hitem.name_not_mem hentry hname
  | _ => cases hentry

namespace GroundsUnit

variable {list before behind : List ExternalDeclaration} {unit : TranslationUnit}

theorem sound (h : aliases.GroundsUnit list) (haliases : aliases.Sound) :
    (list.foldl Aliases.external aliases).Sound := by
  induction list generalizing aliases with
  | nil => exact haliases
  | cons first others ih => exact ih h.2 (haliases.external h.1)

theorem append : aliases.GroundsUnit (before ++ behind) ↔
    aliases.GroundsUnit before ∧ (before.foldl Aliases.external aliases).GroundsUnit behind := by
  induction before generalizing aliases with
  | nil => simp [GroundsUnit]
  | cons first others ih => simp [GroundsUnit, ih, and_assoc]

/-- No alias of a unit has a name of the language. -/
theorem get?_eq_none (h : aliases.GroundsUnit unit.declarations)
    (hname : name ∈ ArithmeticType.spellings) : unit.typedefs.get? name = none := by
  refine Option.eq_none_iff_forall_ne_some.2 fun type htype => ?_
  obtain ⟨e, hmem, hentry⟩ := List.mem_flatMap.1 (Bindings.mem_of_get?_ofList htype)
  obtain ⟨before, behind, hsplit⟩ := List.append_of_mem hmem
  rw [hsplit, append] at h
  have hexternal := h.2.1
  cases e with
  | declaration g => exact hexternal.name_not_mem hentry hname
  | function f => cases hentry

/-- At file scope names resolve as the aliases of the unit say. -/
theorem resolves (h : fresh.GroundsUnit unit.declarations) :
    unit.aliases.Resolves [unit.typedefs] := by
  refine .of_follows (Follows.unit unit) (h.sound sound_fresh) ?_ ?_
  · intro name type hlast
    simp [aliasIn?, hlast]
  · intro name hname
    simp [aliasIn?, h.get?_eq_none hname]

/-- In the body of a function names resolve as the aliases at its end say. -/
theorem resolves_body {f : FunctionDefinition} (h : fresh.GroundsUnit unit.declarations)
    (hunit : unit.declarations = before ++ .function f :: behind) :
    (f.aliases before).Resolves [Statement.aliases f.body, unit.typedefs] := by
  have hparts := append.1 (hunit ▸ h)
  have hbefore : (aliasesBehind before).Sound := hparts.1.sound sound_fresh
  have hbody : ((aliasesBehind before).inside f).GroundsBody f.body := hparts.2.1
  refine .of_follows ((Follows.inside _ f).body f.body) ((hbefore.inside f).body hbody) ?_ ?_
  · intro name type hlast
    simp [aliasIn?, hlast]
  · intro name hname
    simp [aliasIn?, h.get?_eq_none hname, hbody.get?_eq_none hname]

end GroundsUnit

end Aliases

end CSyntax
