import CSyntax.Proofs.Scope.Reading

/-!
# Shapes — specifiers and declarators leave the table

Parameters are declared in a scope that is closed with their list, and members of records declare
nothing, so whatever stands in a type leaves the table as it was.  Names of parameters are lost from
the tree: the words behind them fit the table only if those names hide no `typedef` name, which is
what `Shapes.plain` draws from `Shapes`.
-/

namespace CSyntax

variable {typedefs : String → Prop} {T U V : SymbolTable}

/-! ## Declarators -/

theorem Declarator.mentions_type (d : Declarator) (base : CType) :
    (d.type base).mentions = base.mentions ++ d.modifiers.flatMap TypeModifier.mentions := by
  unfold Declarator.type
  induction d.modifiers generalizing base with
  | nil => simp
  | cons first others ih =>
      rw [List.foldl_cons, ih, List.flatMap_cons, ← List.append_assoc]
      congr 1
      cases first with
      | pointer => simp [TypeModifier.apply, TypeModifier.mentions, CType.mentions]
      | array size => simp [TypeModifier.apply, TypeModifier.mentions, CType.mentions]
      | function parameters variadic =>
          simp only [TypeModifier.apply, TypeModifier.mentions, CType.mentions,
            CType.mentionsList_eq, List.flatMap_map]
          rfl

theorem Environment.isTypedef_bind (env : Environment) (name other : String) (value : Bool) :
    (env.bind name value).isTypedef other =
      if name = other then value else env.isTypedef other := by
  unfold Environment.bind Environment.bindFile Environment.isTypedef
  cases h : env.nested with
  | nil => by_cases hn : name = other <;> simp [Bindings.get?_insert, hn]
  | cons scope outer =>
      by_cases hn : name = other <;> simp [List.findSome?_cons, Bindings.get?_insert, hn]

@[simp] theorem Environment.isTypedef_enter (env : Environment) (name : String) :
    env.enter.isTypedef name = env.isTypedef name := by
  simp [Environment.isTypedef, Environment.enter, List.findSome?_cons]

/-- Parameters whose names hide no `typedef` name fit the environment in which their walk begins. -/
theorem Environment.fits_of_walk {env env' : Environment} {list : List Parameter}
    (h : list.foldlM Parameter.walk env = some env') (hclear : ∀ p ∈ list, p.Clear typedefs)
    (hwithin : ∀ name, env.isTypedef name = true → typedefs name) :
    ∀ m ∈ list.flatMap Parameter.mentions, env.fits m = true := by
  induction list generalizing env with
  | nil => simp
  | cons first others ih =>
      rw [List.foldlM_cons] at h
      obtain ⟨next, hfirst, hothers⟩ := Option.bind_eq_some_iff.1 h
      unfold Parameter.walk Environment.read at hfirst
      by_cases hread : first.mentions.all env.fits = true
      · rw [if_pos hread] at hfirst
        obtain rfl : first.name.elim env (fun name => env.bind name false) = next := by
          simpa using hfirst
        -- A parameter that is no `typedef` name leaves all type names in force.
        have hsame : ∀ name, (first.name.elim env fun name => env.bind name false).isTypedef name =
            env.isTypedef name := by
          intro name
          cases hname : first.name with
          | none => rfl
          | some other =>
              rw [Option.elim_some, isTypedef_bind]
              split
              · subst name
                have hnot := hclear first List.mem_cons_self other hname
                exact (Bool.eq_false_iff.2 fun ht => hnot (hwithin other ht)).symm
              · rfl
        have hrest := ih hothers (fun p hp => hclear p (List.mem_cons_of_mem _ hp))
          (fun name hname => hwithin name (hsame name ▸ hname))
        intro m hm
        rw [List.flatMap_cons] at hm
        rcases List.mem_append.1 hm with hm | hm
        · exact List.all_eq_true.1 hread m hm
        · have := hrest m hm
          cases m <;> simp_all [Environment.fits]
      · rw [if_neg hread] at hfirst
        cases hfirst

namespace Shapes

variable {ms ns : List TypeModifier} {read read' : List Parameter}

theorem nil : Shapes typedefs T [] T [] :=
  .nothing rfl fun _ _ => by simp

theorem append (h : Shapes typedefs T ms U read) (h' : Shapes typedefs U ns V read') :
    Shapes typedefs T (ms ++ ns) V (read ++ read') := by
  unfold Shapes
  rw [List.flatMap_append, List.flatMap_append]
  refine (Reads.append_same h h').mono ?_ ?_
  · rintro ⟨rfl, rfl⟩
    rfl
  · rintro - - ⟨rfl, -⟩ ⟨hms, hns⟩
    exact fun m hm => (List.mem_append.1 hm).elim (hms m) (hns m)

theorem perm (h : Shapes typedefs T ms U read) (hperm : ms.Perm ns) :
    Shapes typedefs T ns U read where
  count p := by
    rw [← (hperm.flatMap_right TypeModifier.parameters).count_eq]
    exact h.count p
  frame := (h.of_mentions (hperm.flatMap_right TypeModifier.mentions).subset).frame
  holds hwithin hallowed hclear := by
    simp only [← (hperm.flatMap_right TypeModifier.parameters).count_eq] at hclear
    have hfits := (h.of_mentions (hperm.flatMap_right TypeModifier.mentions).subset).holds
      hwithin hallowed hclear
    exact fun m hm => hfits m (hperm.mem_iff.2 hm)

theorem pointers (h : Shapes typedefs T ms U read) (count : Nat) :
    Shapes typedefs T (List.replicate count .pointer ++ ms) U read := by
  induction count with
  | zero => exact h
  | succ count ih =>
      refine (ih.mono id ?_ : Reads ..)
      intro _ _ _ hfits m hm
      rw [List.replicate_succ, List.cons_append] at hm
      rcases List.mem_cons.1 hm with rfl | hm
      · trivial
      · exact hfits m hm

/-- If all names of parameters are clear, then all words fit the table itself. -/
theorem fits_of_clear (hfits : ∀ m ∈ ms, m.Fits T)
    (hclear : ∀ p ∈ ms.flatMap TypeModifier.parameters, p.Clear typedefs)
    (hwithin : T.Within typedefs) : T.Fits (ms.flatMap TypeModifier.mentions) := by
  intro mention hmention
  obtain ⟨m, hm, hmention⟩ := List.mem_flatMap.1 hmention
  cases m with
  | pointer => simp [TypeModifier.mentions] at hmention
  | array size => exact hfits _ hm mention hmention
  | function parameters variadic =>
      obtain ⟨env, hwalk⟩ := hfits _ hm
      have := Environment.fits_of_walk hwalk
        (fun p hp => hclear p (List.mem_flatMap.2 ⟨_, hm, hp⟩))
        (fun name hname => hwithin name (by simpa [SymbolTable.isTypedef_environment] using hname))
        mention hmention
      cases mention <;> simp_all [Environment.fits]

theorem plain (h : Shapes typedefs T ms U read) :
    Plain typedefs T (ms.flatMap TypeModifier.mentions) U read := by
  refine h.drop.mono id ?_
  rintro hwithin - - ⟨hfits, hclear⟩
  exact fits_of_clear hfits hclear hwithin

/-- A function may keep the names of its own parameters; those of all others are lost. -/
theorem keep_last {list : List Parameter} {variadic : Bool}
    (h : Shapes typedefs T (ms ++ [.function list variadic]) U read) :
    Reads typedefs T list read
      (ms.flatMap TypeModifier.mentions ++ list.flatMap Parameter.mentions) (U = T)
      (T.Fits (ms.flatMap TypeModifier.mentions) ∧
        ∃ env, list.foldlM Parameter.walk T.environment.enter = some env) := by
  have hparameters : (ms ++ [TypeModifier.function list variadic]).flatMap TypeModifier.parameters =
      ms.flatMap TypeModifier.parameters ++ list := by simp [TypeModifier.parameters]
  have hmentions : (ms ++ [TypeModifier.function list variadic]).flatMap TypeModifier.mentions =
      ms.flatMap TypeModifier.mentions ++ list.flatMap Parameter.mentions := by
    simp [TypeModifier.mentions]
  unfold Shapes at h
  rw [hparameters, hmentions] at h
  have hcount : ∀ p, (ms.flatMap TypeModifier.parameters).count p + list.count p ≤ read.count p :=
    fun p => by simpa [List.count_append] using h.count p
  refine { count := fun p => ?_, frame := h.frame, holds := fun hwithin hallowed hclear => ?_ }
  · have := hcount p
    omega
  · have hfits := h.holds hwithin hallowed fun p hp => hclear p (by
      rw [List.count_append] at hp
      omega)
    have hlast := hfits (.function list variadic) (by simp)
    refine ⟨fits_of_clear (fun m hm => hfits m (by simp [hm])) (fun p hp => ?_) hwithin, hlast⟩
    have := hcount p
    have := List.count_pos_iff.2 hp
    exact hclear p (by omega)

end Shapes

namespace Grammar

open Script Script.Gives Script.Quiet

theorem gives_pointerTail :
    pointerTail.Gives typedefs T fun _ U read => Plain typedefs T [] U read := by
  refine Quiet.bind peek fun token _ => ?_
  split
  · refine Quiet.bind advance fun _ _ => Gives.bind (Gives.rule _) fun count U read h => ?_
    exact Gives.pure (by simpa using h)
  · exact Quiet.bind advance fun _ _ => Gives.rule .pointerTail
  · exact Quiet.bind advance fun _ _ => Gives.rule .pointerTail
  · exact Gives.pure Plain.nil

theorem gives_pointers :
    pointers.Gives typedefs T fun _ U read => Plain typedefs T [] U read := by
  refine Quiet.bind (accept _) fun found _ => ?_
  split
  · refine Gives.bind (Gives.rule _) fun count U read h => Gives.pure ?_
    simpa using h
  · exact Gives.pure Plain.nil

theorem quiet_isVoid : parameterList.isVoid.Quiet typedefs T fun _ => True := by
  refine Quiet.bind (nextIs _) fun found _ => ?_
  split
  · exact Quiet.bind (peekNth 1) fun _ _ => Quiet.pure trivial
  · exact Quiet.pure trivial

theorem gives_parameterList : parameterList.Gives typedefs T fun result U read =>
    Reads typedefs T result.1 read (result.1.flatMap Parameter.mentions) (U = T)
      (∃ env, result.1.foldlM Parameter.walk T.environment.enter = some env) := by
  refine Quiet.bind quiet_isVoid fun found _ => ?_
  split
  · refine Quiet.bind advance fun _ _ => Quiet.bind advance fun _ _ => Gives.pure ?_
    exact .nothing rfl fun _ _ => ⟨_, rfl⟩
  · refine Gives.enter _ ?_
    have hlist : parameterList.parametersUnlessClosed.Gives typedefs (T.enter .block)
        (Nonterminal.parameters.Promise typedefs (T.enter .block)) := by
      refine Quiet.bind (nextIs _) fun found _ => ?_
      split
      · exact Gives.pure (.nothing rfl fun _ _ => ⟨_, rfl⟩)
      · exact Gives.rule .parameters
    refine Gives.bind hlist fun result U read h => Quiet.bind (expect _) fun close _ => ?_
    refine Gives.leave _ fun V hleave => Gives.pure ?_
    obtain ⟨list, variadic⟩ := result
    rw [List.append_nil]
    -- The conclusion is about the table in which the scope was opened.
    refine { count := h.count, frame := fun henum => ?_, holds := fun hwithin hallowed hclear => ?_ }
    · rw [h.frame henum, SymbolTable.leave?_enter, Option.some_inj] at hleave
      exact hleave.symm
    · exact h.holds (hwithin.enter .block) hallowed hclear

theorem gives_suffixes : suffixes.Gives typedefs T fun modifiers U read =>
    Shapes typedefs T modifiers U read := by
  have array : ∀ {size : Option Expr} {U V : SymbolTable} {read read' : List Parameter}
      {more : List TypeModifier}, Plain typedefs T (Expr.mentionsOption size) U read →
        Shapes typedefs U more V read' →
          Shapes typedefs T (.array size :: more) V (read ++ read') := by
    intro size U V read read' more h h'
    have hreads : Reads typedefs T [] read (Expr.mentionsOption size) (U = T)
        (∀ m ∈ [TypeModifier.array size], m.Fits T) :=
      h.mono id fun _ _ _ hfits => by simpa [TypeModifier.Fits] using hfits
    have hshapes : Shapes typedefs T [.array size] U read := by
      simpa [Shapes, TypeModifier.parameters, TypeModifier.mentions] using hreads
    exact hshapes.append h'
  refine Quiet.bind (accept _) fun found _ => ?_
  split
  · refine Quiet.bind (accept _) fun closed _ => ?_
    split
    · refine Gives.bind (Gives.rule _) fun more U read h => Gives.pure ?_
      have hnone : Plain typedefs T (Expr.mentionsOption none) T [] := Plain.nil
      simpa using array hnone h
    · refine Gives.bind (Gives.rule _) fun size U read h => Quiet.bind (expect _) fun _ _ => ?_
      refine Gives.bind (Gives.rule _) fun more V read' h' => Gives.pure ?_
      have hsize : Plain typedefs T (Expr.mentionsOption (some size)) U read := h
      simpa using array hsize h'
  · refine Quiet.bind (accept _) fun found _ => ?_
    split
    · refine Gives.bind gives_parameterList fun result U read h => ?_
      obtain ⟨list, variadic⟩ := result
      refine Gives.bind (Gives.rule _) fun more V read' h' => Gives.pure ?_
      have hfirst : Shapes typedefs T [.function list variadic] U read := by
        have : Reads typedefs T list read (list.flatMap Parameter.mentions) (U = T)
            (∀ m ∈ [TypeModifier.function list variadic], m.Fits T) :=
          h.mono id fun _ _ _ hfits => by simpa [TypeModifier.Fits] using hfits
        simpa [Shapes, TypeModifier.parameters, TypeModifier.mentions] using this
      simpa using hfirst.append h'
    · exact Gives.pure Shapes.nil

theorem quiet_opensDeclarator (mode : DeclaratorMode) :
    (opensDeclarator mode).Quiet typedefs T fun _ => True := by
  unfold opensDeclarator
  split
  · exact Quiet.pure trivial
  · refine Quiet.bind (peekNth 1) fun second _ => ?_
    split <;> exact Quiet.pure trivial

theorem gives_declaratorCore (mode : DeclaratorMode) : (declaratorCore mode).Gives typedefs T
    fun d U read => Shapes typedefs T d.modifiers U read := by
  refine Quiet.bind peek fun token _ => ?_
  split
  · split
    · exact Gives.pure Shapes.nil
    · exact Quiet.bind advance fun _ _ => Gives.pure Shapes.nil
  · split
    · exact Gives.pure Shapes.nil
    · exact Quiet.bind advance fun _ _ => Gives.pure Shapes.nil
  · refine Quiet.bind (quiet_opensDeclarator mode) fun found _ => ?_
    split
    · refine Quiet.bind advance fun _ _ => Gives.bind (Gives.rule _) fun inner U read h => ?_
      exact Quiet.bind (expect _) fun _ _ => Gives.pure (by simpa using h)
    · exact Gives.pure Shapes.nil
  · split
    · exact Gives.refuse
    · exact Gives.pure Shapes.nil

theorem gives_declarator (mode : DeclaratorMode) : (declarator mode).Gives typedefs T
    fun d U read => Shapes typedefs T d.modifiers U read := by
  refine Gives.bind gives_pointers fun count U read h => ?_
  refine Gives.bind (gives_declaratorCore mode) fun core V read' h' => ?_
  refine Gives.bind gives_suffixes fun after W read'' h'' => Gives.pure ?_
  have hstart : Shapes typedefs T [] U read := by
    have : Reads typedefs T [] read [] (U = T) (∀ m ∈ ([] : List TypeModifier), m.Fits T) :=
      h.mono id fun _ _ _ _ => by simp
    simpa [Shapes] using this
  -- The modifiers are applied in another order than they are read in.
  have hperm : (core.modifiers ++ after).Perm (after.reverse ++ core.modifiers) :=
    List.perm_append_comm.trans ((List.reverse_perm after).symm.append_right _)
  have := ((hstart.append (h'.append h'')).perm hperm).pointers count
  simpa using this

end Grammar

/-! ## Specifiers -/

theorem ArithmeticType.mem_spellings {words : List Keyword} {name : String}
    (h : canonical? words = some name) : name ∈ spellings := by
  unfold canonical? at h
  dsimp only at h
  split at h
  · cases h
  · split at h
    all_goals repeat' split at h
    all_goals first
      | cases h; done
      | (cases h; decide)

/-- What a tally gains, without the parameters that are read. -/
def Adds (typedefs : String → Prop) (table : SymbolTable) (tally result : SpecifierTally)
    (after : SymbolTable) (read : List Parameter) : Prop :=
  (tally.Bare → result.Bare) ∧
    ∃ new, result.mentions = tally.mentions ++ new ∧ Plain typedefs table new after read

namespace Adds

variable {a b c : SpecifierTally} {read read' : List Parameter}

/-- A word that names no type by itself adds nothing. -/
theorem of_other (h : b.other = a.other) : Adds typedefs T a b T [] := by
  refine ⟨fun hbare type htype => hbare type (h ▸ htype), [], ?_, Plain.nil⟩
  simp [SpecifierTally.mentions, h]

theorem of_type {type : CType} (ha : a.hasType = false) (hbare : type.Bare)
    (htype : Plain typedefs T type.mentions U read) :
    Adds typedefs T a { a with other := some type } U read := by
  have hnone : a.other = none := by
    cases hother : a.other with
    | none => rfl
    | some other => simp [SpecifierTally.hasType, hother] at ha
  refine ⟨?_, type.mentions, by simp [SpecifierTally.mentions, hnone], htype⟩
  rintro - other hother
  obtain rfl : type = other := by simpa using hother
  exact hbare

theorem trans (h : Adds typedefs T a b U read) (h' : Adds typedefs U b c V read') :
    Adds typedefs T a c V (read ++ read') := by
  obtain ⟨hbare, new, hb, hnew⟩ := h
  obtain ⟨hbare', new', hc, hnew'⟩ := h'
  refine ⟨fun ha => hbare' (hbare ha), new ++ new', ?_, hnew.append hnew'⟩
  rw [hc, hb, List.append_assoc]

end Adds

namespace Grammar

open Script Script.Gives Script.Quiet

theorem quiet_requireTag (tag : Option String) :
    (requireTag tag).Quiet typedefs T fun _ => True := by
  unfold requireTag
  split
  · exact Quiet.pure trivial
  · exact Quiet.bind peek fun _ _ => Gives.refuse

theorem gives_record (kind : RecordKind) : (record kind).Gives typedefs T fun type U read =>
    type.Bare ∧ Plain typedefs T type.mentions U read := by
  refine Quiet.bind acceptWord fun tag _ => Quiet.bind (accept _) fun found _ => ?_
  split
  · refine Gives.enter _ (Gives.bind (Gives.rule _) fun members U read h => ?_)
    refine Quiet.bind (expect _) fun close _ => Gives.leave _ fun V hleave =>
      Gives.pure ⟨⟨rfl, rfl⟩, ?_⟩
    have := Plain.scope h hleave
    simpa [CType.mentions, Member.mentionsOption] using this
  · exact Quiet.bind (quiet_requireTag tag) fun _ _ => Gives.pure ⟨⟨rfl, rfl⟩, Plain.nil⟩

theorem gives_recordType : recordType.Gives typedefs T fun type U read =>
    type.Bare ∧ Plain typedefs T type.mentions U read := by
  refine Quiet.bind advance fun token _ => ?_
  split
  · exact gives_record .struct
  · exact gives_record .union
  · exact Gives.contradictAt

theorem gives_enumeration : enumeration.Gives typedefs T fun type U read =>
    type.Bare ∧ Plain typedefs T type.mentions U read := by
  refine Quiet.bind acceptWord fun tag _ => Quiet.bind (accept _) fun found _ => ?_
  split
  · refine Gives.bind (Gives.rule _) fun enumerators U read _ =>
      Quiet.bind (expect _) fun _ _ => Gives.pure ⟨⟨rfl, rfl⟩, Plain.of_enumerators ?_⟩
    simp [CType.mentions, Enumerator.mentionsOption]
  · exact Quiet.bind (quiet_requireTag tag) fun _ _ => Gives.pure ⟨⟨rfl, rfl⟩, Plain.nil⟩

theorem gives_enumerationType : enumerationType.Gives typedefs T fun type U read =>
    type.Bare ∧ Plain typedefs T type.mentions U read :=
  Quiet.bind (expect _) fun _ _ => gives_enumeration

theorem gives_typeWord (tally : SpecifierTally) (token : Token) (word : Keyword) :
    (typeWord tally token word).Gives typedefs T fun result U read =>
      Adds typedefs T tally result U read := by
  unfold typeWord
  split
  · exact Gives.refuse
  · refine Quiet.bind advance fun _ _ => ?_
    split
    · split
      · exact Gives.pure (Adds.of_other rfl)
      · exact Gives.refuse
    · exact Gives.contradictAt

theorem gives_taggedType (tally : SpecifierTally) (token : Token) (word : Keyword) :
    (taggedType tally token word).Gives typedefs T fun result U read =>
      Adds typedefs T tally result U read := by
  unfold taggedType
  split
  · exact Gives.refuse
  · rename_i htally
    have hnone : tally.hasType = false := by simpa using htally
    split
    · refine Gives.bind gives_enumerationType fun type U read h => Gives.pure ?_
      simpa using Adds.of_type hnone h.1 h.2
    · refine Gives.bind gives_recordType fun type U read h => Gives.pure ?_
      simpa using Adds.of_type hnone h.1 h.2

theorem gives_specifier (tally : SpecifierTally) : (specifier tally).Gives typedefs T
    fun result? U read => Adds typedefs T tally (result?.getD tally) U read := by
  refine Quiet.bind peek fun token htoken => ?_
  split
  · split
    · split
      · exact Gives.refuse
      · exact Quiet.bind advance fun _ _ => Gives.pure (Adds.of_other (by simp))
    · split
      · exact Quiet.bind advance fun _ _ => Gives.pure (Adds.of_other (by simp))
      · split
        · refine Gives.bind (gives_typeWord tally token _) fun result U read h => Gives.pure ?_
          simpa using h
        · split
          · refine Gives.bind (gives_taggedType tally token _) fun result U read h => Gives.pure ?_
            simpa using h
          · exact Gives.pure (Adds.of_other rfl)
  · rename_i name hkind
    split
    · exact Gives.pure (Adds.of_other rfl)
    · rename_i htally
      refine Quiet.bind advance fun _ _ => Gives.pure ?_
      have hnone : tally.hasType = false := by simpa using htally
      have hname : T.isTypeName name = true := by simpa [hkind, TokenKind.Current] using htoken
      refine Adds.of_type hnone ⟨rfl, rfl⟩ (Plain.of_fits ?_)
      rw [CType.mentions]
      split
      · exact SymbolTable.fits_nil
      · exact SymbolTable.fits_typeName.2 hname
  · exact Gives.pure (Adds.of_other rfl)

theorem gives_specifierTail (tally : SpecifierTally) : (specifierTail tally).Gives typedefs T
    fun result U read => Adds typedefs T tally result U read := by
  refine Gives.bind (gives_specifier tally) fun result? U read h => ?_
  split
  · rename_i next
    exact (Gives.rule (.specifierTail next)).mono fun result V read' h' => Adds.trans h h'
  · exact Gives.pure (by simpa using h)

theorem gives_specifiers : specifiers.Gives typedefs T fun result U read =>
    result.base.Bare ∧ Plain typedefs T result.base.mentions U read := by
  refine Quiet.bind here fun position _ => ?_
  refine Gives.bind (gives_specifierTail .empty) fun tally U read h => ?_
  obtain ⟨hbare, new, hnew, hplain⟩ := h
  have htally : Plain typedefs T tally.mentions U read := by
    rw [hnew]
    exact hplain
  split
  · rename_i base hbase
    refine Gives.pure ?_
    unfold SpecifierTally.type? at hbase
    split at hbase
    · rename_i type htype
      cases hbase
      refine ⟨hbare (fun _ hnone => by cases hnone) _ htype, ?_⟩
      simpa [SpecifierTally.mentions, htype] using htally
    · rename_i hother
      obtain ⟨name, hname, rfl⟩ := Option.map_eq_some_iff.1 hbase
      refine ⟨⟨rfl, rfl⟩, ?_⟩
      have hspelling := ArithmeticType.mem_spellings hname
      simpa [SpecifierTally.mentions, hother, CType.mentions, hspelling] using htally
  · exact Quiet.bind peek fun _ _ => Gives.refuse

theorem gives_typeName : typeName.Gives typedefs T fun type U read =>
    Plain typedefs T type.mentions U read := by
  refine Gives.bind gives_specifiers fun specifiers U read h => ?_
  refine Gives.bind (gives_declarator .nameless) fun d V read' h' => Gives.pure ?_
  rw [Declarator.mentions_type, List.append_nil]
  exact h.2.append (Shapes.plain h')

/-! ## Members -/

theorem gives_memberDeclarators (specifiers : Specifiers) :
    (memberDeclarators specifiers).Gives typedefs T
      (Nonterminal.Promise typedefs T (.memberDeclarators specifiers)) := by
  refine Gives.bind (gives_declarator .named) fun d U read h => ?_
  split
  · exact Gives.contradict
  · rename_i name position hname
    have hfirst : ∀ m, m ∈ Member.mentions { name := name, type := d.type specifiers.base } ↔
        m ∈ specifiers.base.mentions ++ d.modifiers.flatMap TypeModifier.mentions := by
      intro m
      rw [Member.mentions, Declarator.mentions_type]
    refine Quiet.bind (accept _) fun found _ => ?_
    split
    · refine Gives.bind (Gives.rule _) fun others V read' h' => Gives.pure ?_
      obtain ⟨new, hnew, hplain⟩ := h'
      refine ⟨d.modifiers.flatMap TypeModifier.mentions ++ new, ?_, ?_⟩
      · intro m
        have h₁ := hfirst m
        have h₂ := hnew m
        rw [List.flatMap_cons, List.mem_append, h₁, h₂]
        grind
      · simpa using (Shapes.plain h).append hplain
    · refine Gives.pure ⟨_, fun m => ?_, by simpa using Shapes.plain h⟩
      simpa using hfirst m

theorem gives_memberDeclaration : memberDeclaration.Gives typedefs T fun list U read =>
    Plain typedefs T (list.flatMap Member.mentions) U read := by
  refine Gives.bind gives_specifiers fun specifiers U read h => ?_
  split
  · exact Gives.fail
  · refine Gives.bind (Gives.rule _) fun list V read' h' => Quiet.bind peek fun token _ => ?_
    split
    · refine Quiet.bind advance fun _ _ => Gives.pure ?_
      obtain ⟨new, hnew, hplain⟩ := h'
      rw [List.append_nil]
      exact (h.2.append hplain).congr hnew
    · exact Gives.refuse

theorem gives_members : members.Gives typedefs T fun list U read =>
    Plain typedefs T (list.flatMap Member.mentions) U read := by
  refine Quiet.bind (nextIs _) fun found _ => ?_
  split
  · exact Gives.pure Plain.nil
  · refine Gives.bind gives_memberDeclaration fun first U read h => ?_
    refine Gives.bind (Gives.rule _) fun others V read' h' => Gives.pure ?_
    simpa using h.append h'

end Grammar

end CSyntax
