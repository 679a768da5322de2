import CSyntax.Resolution
import Mathlib.Data.List.Nodup
import Mathlib.Data.List.Perm.Subperm

/-!
# Chain — aliases on the way from a type to what it stands for

Following a type name goes from alias to alias through the last declarations of a tree, and gives up
after as many steps as there are aliases.  This file tells what comes out:

* `Leads` — aliases, one after the other, that lead from a type to a type;
* `InForce`, `Settled` — which of them are followed, and where following comes to an end;
* `resolve_of_leads` — a way that is in force and comes to an end is followed to its end;
* `exists_leads_resolve`, `circles_of_resolve` — only a name that leads back to itself is left.
-/

namespace CSyntax

/-- A name and the type that it is an alias of. -/
abbrev Link := String × CType

/-- Links, each of which begins at the name that the one before it leads to. -/
inductive Leads : List Link → CType → CType → Prop
  | stop (type : CType) : Leads [] type type
  | step {links : List Link} {name : String} {next target : CType} :
      Leads links next target → Leads ((name, next) :: links) (.named name) target

/-- The alias that the first of the scopes that binds the name gives it. -/
def aliasIn? (scopes : List (Bindings CType)) (name : String) : Option CType :=
  scopes.findSome? (·.get? name)

/-- All links are aliases in the scopes. -/
def InForce (scopes : List (Bindings CType)) (links : List Link) : Prop :=
  ∀ link ∈ links, aliasIn? scopes link.1 = some link.2

instance (scopes : List (Bindings CType)) (links : List Link) :
    Decidable (InForce scopes links) :=
  inferInstanceAs (Decidable (∀ link ∈ links, aliasIn? scopes link.1 = some link.2))

/-- The type is no name, or a name without an alias. -/
def Settled (scopes : List (Bindings CType)) (type : CType) : Prop :=
  ∀ name, type = .named name → aliasIn? scopes name = none

/-- The aliases of the scopes lead from the type back to it. -/
def Circles (scopes : List (Bindings CType)) (type : CType) : Prop :=
  ∃ links, links ≠ [] ∧ Leads links type type ∧ InForce scopes links

variable {scopes : List (Bindings CType)} {links others : List Link} {name : String}
  {type next target result : CType}

/-! ## Ways -/

@[simp] theorem inForce_nil : InForce scopes [] := by
  simp [InForce]

@[simp] theorem inForce_cons {link : Link} :
    InForce scopes (link :: links) ↔
      aliasIn? scopes link.1 = some link.2 ∧ InForce scopes links := by
  simp [InForce]

@[simp] theorem inForce_append :
    InForce scopes (links ++ others) ↔ InForce scopes links ∧ InForce scopes others := by
  simp [InForce, or_imp, forall_and]

namespace Leads

theorem append (h : Leads links type next) (h' : Leads others next target) :
    Leads (links ++ others) type target := by
  induction h with
  | stop _ => exact h'
  | step _ ih => exact .step (ih h')

/-- A way that passes a name comes to the name and goes on from there. -/
theorem split (h : Leads (links ++ (name, next) :: others) type target) :
    Leads links type (.named name) ∧ Leads others next target := by
  induction links generalizing type with
  | nil =>
      cases h with
      | step hothers => exact ⟨.stop _, hothers⟩
  | cons link links ih =>
      cases h with
      | step hrest => exact ⟨.step (ih hrest).1, (ih hrest).2⟩

/-- Of two ways from a type one continues the other, if the longer one cannot be continued. -/
theorem continues (h : Leads links type next) (hlinks : InForce scopes links)
    (h' : Leads others type target) (hothers : InForce scopes others)
    (hend : Settled scopes target) :
    ∃ more, others = links ++ more ∧ Leads more next target := by
  induction h generalizing others with
  | stop type => exact ⟨others, rfl, h'⟩
  | step h ih =>
      obtain ⟨hlink, hrest⟩ := inForce_cons.1 hlinks
      cases h' with
      | stop _ => cases hlink.symm.trans (hend _ rfl)
      | step h' =>
          obtain ⟨hother, hforce⟩ := inForce_cons.1 hothers
          obtain rfl := Option.some.inj (hlink.symm.trans hother)
          obtain ⟨more, rfl, hmore⟩ := ih hrest h' hforce
          exact ⟨more, rfl, hmore⟩

/-- No way leads on from a settled type. -/
theorem eq_of_settled (h : Leads links type target) (hlinks : InForce scopes links)
    (hsettled : Settled scopes type) : type = target := by
  cases h with
  | stop _ => rfl
  | step _ => cases (inForce_cons.1 hlinks).1.symm.trans (hsettled _ rfl)

/-- A type on a way that comes to an end does not lead back to itself. -/
theorem not_circles (h : Leads links type target) (hlinks : InForce scopes links)
    (hend : Settled scopes target) : ¬ Circles scopes type := by
  rintro ⟨round, hne, hround, hforce⟩
  -- Going round once leaves a shorter way to the same end.
  induction hlength : links.length using Nat.strongRecOn generalizing links with
  | ind n ih =>
      obtain ⟨more, rfl, hmore⟩ := hround.continues hforce h hlinks hend
      have hpos := List.length_pos_iff.2 hne
      refine ih more.length ?_ hmore (inForce_append.1 hlinks).2 rfl
      rw [List.length_append] at hlength
      omega

end Leads

/-! ## Circles -/

namespace Circles

/-- What a circle leads to is on the circle. -/
theorem leads (hcircle : Circles scopes type) (h : Leads links type target)
    (hlinks : InForce scopes links) : Circles scopes target := by
  induction h with
  | stop _ => exact hcircle
  | step h ih =>
      obtain ⟨hlink, hrest⟩ := inForce_cons.1 hlinks
      -- The first link of the way is the first of the circle, which is entered one link later.
      refine ih ?_ hrest
      obtain ⟨round, hne, hround, hforce⟩ := hcircle
      cases hround with
      | stop _ => exact absurd rfl hne
      | step hround =>
          obtain ⟨hfirst, hback⟩ := inForce_cons.1 hforce
          obtain rfl := Option.some.inj (hlink.symm.trans hfirst)
          exact ⟨_, List.append_ne_nil_of_right_ne_nil _ (List.cons_ne_nil _ _),
            hround.append (.step (.stop _)), by simp [hlink, hback]⟩

/-- A way that passes one name twice ends on a circle. -/
theorem of_repeated (h : Leads links type target) (hlinks : InForce scopes links)
    (hrepeated : ¬ (links.map (·.1)).Nodup) : Circles scopes target := by
  induction h with
  | stop _ => simp at hrepeated
  | @step rest name next target h ih =>
      have hforce := (inForce_cons.1 hlinks).2
      by_cases hname : name ∈ rest.map (·.1)
      · obtain ⟨⟨_, again⟩, hmem, rfl⟩ := List.mem_map.1 hname
        obtain ⟨before, behind, rfl⟩ := List.append_of_mem hmem
        obtain ⟨hback, hon⟩ := h.split
        have hcircle : Circles scopes (.named _) :=
          ⟨_, List.cons_ne_nil _ before, .step hback, by simp_all⟩
        exact hcircle.leads (.step hon) (inForce_append.1 hforce).2
      · refine ih hforce fun hnodup => hrepeated ?_
        exact List.nodup_cons.2 ⟨hname, hnodup⟩

end Circles

/-! ## Following -/

/-- Following goes along aliases, and stops where a type is settled or the steps are used up. -/
theorem exists_leads_follow (scopes : List (Bindings CType)) (steps : Nat) (type : CType) :
    ∃ links, Leads links type (type.follow scopes steps) ∧ InForce scopes links ∧
      (Settled scopes (type.follow scopes steps) ∨ links.length = steps) := by
  -- One alias for each step, until none is found.
  induction steps generalizing type with
  | zero => exact ⟨[], .stop _, inForce_nil, .inr rfl⟩
  | succ steps ih =>
      cases type with
      | named name =>
          cases halias : aliasIn? scopes name with
          | none =>
              have hfollow : (CType.named name).follow scopes (steps + 1) = .named name := by
                simp only [aliasIn?] at halias
                simp [CType.follow, halias]
              rw [hfollow]
              refine ⟨[], .stop _, inForce_nil, .inl ?_⟩
              rintro _ ⟨⟩
              exact halias
          | some next =>
              have hfollow : (CType.named name).follow scopes (steps + 1) =
                  next.follow scopes steps := by
                simp only [aliasIn?] at halias
                simp [CType.follow, halias]
              rw [hfollow]
              obtain ⟨links, hleads, hforce, hstop⟩ := ih next
              exact ⟨(name, next) :: links, .step hleads, inForce_cons.2 ⟨halias, hforce⟩,
                hstop.imp_right fun h => by simp [h]⟩
      | _ => exact ⟨[], .stop _, inForce_nil, .inl nofun⟩

theorem mem_of_aliasIn? (h : aliasIn? scopes name = some type) :
    name ∈ scopes.flatten.map (·.1) := by
  obtain ⟨scope, hscope, hget⟩ := List.exists_of_findSome?_eq_some h
  obtain ⟨entry, hfind, -⟩ := Option.map_eq_some_iff.1 hget
  have hname : entry.1 = name := by simpa using List.find?_some hfind
  exact List.mem_map.2 ⟨entry, List.mem_flatten.2 ⟨scope, hscope, List.mem_of_find?_eq_some hfind⟩,
    hname⟩

/-- There are not more different names on a way than there are aliases. -/
theorem length_le_of_nodup (hlinks : InForce scopes links) (h : (links.map (·.1)).Nodup) :
    links.length ≤ scopes.flatten.length := by
  have hsub : links.map (·.1) ⊆ scopes.flatten.map (·.1) := by
    intro name hname
    obtain ⟨link, hmem, rfl⟩ := List.mem_map.1 hname
    exact mem_of_aliasIn? (hlinks link hmem)
  have hlength := (List.subperm_of_subset h hsub).length_le
  rwa [List.length_map, List.length_map] at hlength

/-- Resolution goes along aliases, and what it leaves unsettled is on a circle. -/
theorem exists_leads_resolve (scopes : List (Bindings CType)) (type : CType) :
    ∃ links, Leads links type (type.resolve scopes) ∧ InForce scopes links ∧
      (Settled scopes (type.resolve scopes) ∨ Circles scopes (type.resolve scopes)) := by
  obtain ⟨links, hleads, hforce, hstop⟩ :=
    exists_leads_follow scopes (scopes.flatten.length + 1) type
  refine ⟨links, hleads, hforce, hstop.imp_right fun hlength => ?_⟩
  -- All steps were used up, which are more than there are names, so some name came twice.
  refine .of_repeated hleads hforce fun hnodup => ?_
  have := length_le_of_nodup hforce hnodup
  omega

/-- Only a name that leads back to itself is left unresolved. -/
theorem circles_of_resolve (h : type.resolve scopes = .named name)
    (hname : aliasIn? scopes name ≠ none) : Circles scopes (.named name) := by
  obtain ⟨links, -, -, hsettled | hcircle⟩ := exists_leads_resolve scopes type
  · exact absurd (hsettled name h) hname
  · exact h ▸ hcircle

/-- A way that is in force and comes to an end is followed to its end. -/
theorem resolve_of_leads (h : Leads links type target) (hlinks : InForce scopes links)
    (hend : Settled scopes target) : type.resolve scopes = target := by
  obtain ⟨passed, hleads, hforce, hstop⟩ := exists_leads_resolve scopes type
  obtain ⟨more, rfl, hmore⟩ := hleads.continues hforce h hlinks hend
  have hrest : InForce scopes more := (inForce_append.1 hlinks).2
  rcases hstop with hsettled | hcircle
  · exact hmore.eq_of_settled hrest hsettled
  · exact absurd hcircle (hmore.not_circles hrest hend)

end CSyntax
