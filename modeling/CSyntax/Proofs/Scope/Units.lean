import CSyntax.Proofs.Scope.Shapes
import Mathlib.Data.List.Count

/-!
# Units — declarations and statements change the table as a walk does

A declarator that is complete is declared before its initial value is read, a block leaves the table
that it found, and a function is declared between its parameters and its body.  This file follows
the table through the scripts of parameters, declarations, statements and functions, and closes the
contract `scoping`.

* `valid_scoping` — the scripts of all rules keep it;
* `walk_of_parse` — a unit that was read can be walked from one end to the other.
-/

namespace CSyntax

variable {typedefs : String → Prop} {T U V : SymbolTable}

/-! ## Declarations -/

theorem Declarator.core_type (d : Declarator) (base : CType) : (d.type base).core = base.core := by
  unfold Declarator.type
  induction d.modifiers generalizing base with
  | nil => rfl
  | cons first others ih =>
      rw [List.foldl_cons, ih]
      cases first <;> rfl

theorem Declarator.wrapping_type (d : Declarator) (base : CType) :
    (d.type base).wrapping = base.wrapping ++ d.modifiers.flatMap TypeModifier.mentions := by
  unfold Declarator.type
  induction d.modifiers generalizing base with
  | nil => simp
  | cons first others ih =>
      rw [List.foldl_cons, ih, List.flatMap_cons, ← List.append_assoc]
      congr 1
      cases first with
      | pointer => simp [TypeModifier.apply, TypeModifier.mentions, CType.wrapping]
      | array size => rfl
      | function parameters variadic =>
          simp only [TypeModifier.apply, TypeModifier.mentions, CType.wrapping, List.flatMap_map]
          rfl

namespace Grammar

open Script Script.Gives Script.Quiet

theorem gives_parameter : parameter.Gives typedefs T fun p U read =>
    Reads typedefs T [] read p.mentions (U.leave? = T.leave?)
      (U.Within typedefs ∧ p.walk T.environment = some U.environment) := by
  refine Quiet.bind here fun position _ => Gives.bind gives_specifiers fun specifiers U read h => ?_
  refine Gives.bind (gives_declarator .either) fun d V read' h' => ?_
  have htype : Plain typedefs T (d.type specifiers.base).mentions V (read ++ read') := by
    rw [Declarator.mentions_type]
    exact h.2.append (Shapes.plain h')
  dsimp only
  split
  · rename_i name hname
    refine Gives.declare name .ordinary (Gives.pure ?_)
    rw [List.append_nil]
    refine htype.mono (fun hV => hV ▸ V.leave?_declare name _) ?_
    rintro hwithin - rfl hfits
    refine ⟨hwithin.declare_ordinary name, ?_⟩
    simp [Parameter.walk, Parameter.mentions, hfits, hname, SymbolTable.environment_declare,
      Meaning.isType]
  · rename_i hname
    refine Gives.pure ?_
    rw [List.append_nil]
    refine htype.mono (congrArg _) ?_
    rintro hwithin - rfl hfits
    exact ⟨hwithin, by simp [Parameter.walk, Parameter.mentions, hfits, hname]⟩

theorem gives_parameters : parameters.Gives typedefs T fun result U read =>
    Reads typedefs T result.1 (read ++ result.1.head?.toList)
      (result.1.flatMap Parameter.mentions) (U.leave? = T.leave?)
      (∃ env, result.1.foldlM Parameter.walk T.environment = some env) := by
  refine Quiet.bind (accept _) fun found _ => ?_
  split
  · refine Gives.pure ?_
    exact .nothing rfl fun _ _ => ⟨_, rfl⟩
  · refine Gives.bind gives_parameter fun first U read h => Quiet.bind (accept _) fun found _ => ?_
    split
    · refine Gives.bind (Gives.rule _) fun result V read' h' => Gives.pure ?_
      obtain ⟨others, variadic⟩ := result
      have := Reads.append h h' fun _ _ _ hfirst => hfirst.1
      refine { count := fun p => ?_, frame := fun henum => ?_,
               holds := fun hwithin hallowed hclear => ?_ }
      · have := this.count p
        simp only [List.nil_append, List.count_append, List.append_nil, List.head?_cons,
          Option.toList_some, List.count_cons, List.count_nil] at this ⊢
        omega
      · obtain ⟨hleave, hleave'⟩ := this.frame henum
        exact hleave'.trans hleave
      · obtain ⟨⟨-, hwalk⟩, env, hothers⟩ := this.holds hwithin hallowed fun p hp =>
          hclear p (by
            simp only [List.nil_append, List.count_append, List.append_nil, List.head?_cons,
              Option.toList_some, List.count_cons, List.count_nil] at hp ⊢
            omega)
        refine ⟨env, ?_⟩
        rw [List.foldlM_cons, hwalk]
        exact hothers
    · refine Gives.pure ?_
      refine { count := fun p => ?_, frame := fun henum => ?_,
               holds := fun hwithin hallowed hclear => ?_ }
      · simp [List.count_append]
      · exact h.frame (by simpa using henum)
      · obtain ⟨-, hwalk⟩ := h.holds hwithin (by simpa using hallowed) fun p hp =>
          hclear p (by simpa [List.count_append] using hp)
        refine ⟨U.environment, ?_⟩
        rw [List.foldlM_cons, hwalk]
        rfl

/-! ## Initial values -/

theorem gives_initialValue : initialValue.Gives typedefs T fun value U read =>
    Plain typedefs T value.mentions U read := by
  refine Quiet.bind here fun position _ => Quiet.bind (accept _) fun found _ => ?_
  split
  · refine Gives.bind (Gives.rule _) fun items U read h => Quiet.bind (expect _) fun _ _ => ?_
    exact Gives.pure (by simpa [Expr.mentions] using h)
  · exact gives_expression _

theorem gives_initializerItems : initializerItems.Gives typedefs T fun items U read =>
    Plain typedefs T (items.flatMap Expr.mentions) U read := by
  refine Quiet.bind (nextIs _) fun found _ => ?_
  split
  · exact Gives.pure Plain.nil
  · refine Gives.bind gives_initialValue fun first U read h => Quiet.bind (accept _) fun found _ => ?_
    split
    · refine Gives.bind (Gives.rule _) fun others V read' h' => Gives.pure ?_
      simpa using h.append h'
    · exact Gives.pure (by simpa using h)

theorem gives_initial? (specifiers : Specifiers) : (initial? specifiers).Gives typedefs T
    fun value U read => Plain typedefs T (Expr.mentionsOption value) U read := by
  unfold initial?
  split
  · exact Gives.pure Plain.nil
  · refine Quiet.bind (accept _) fun found _ => ?_
    split
    · refine Gives.bind gives_initialValue fun value U read h => Gives.pure ?_
      simpa [Expr.mentionsOption] using h
    · exact Gives.pure Plain.nil

/-! ## Groups -/

/-- A declaration behind a declarator that was read at a table `T` and left the table `U`. -/
theorem gives_initDeclarator {specifiers : Specifiers} {d : Declarator} {read : List Parameter}
    (hbare : specifiers.base.Bare)
    (h : Plain typedefs T (d.modifiers.flatMap TypeModifier.mentions) U read) :
    (initDeclarator specifiers d).Gives typedefs U fun value V read' =>
      Reads typedefs T [] (read ++ read') value.mentions (V.leave? = T.leave?)
        (V.Within typedefs ∧
          value.walk specifiers.base T.environment = some V.environment) := by
  unfold initDeclarator
  split
  · exact Gives.contradict
  · rename_i name position hname
    refine Gives.declare name _ (Gives.bind (gives_initial? specifiers) fun initial V read' h' => ?_)
    refine Gives.pure ?_
    rw [List.append_nil]
    have htype : Reads typedefs T [] read
        ((if specifiers.isTypedef then [.alias name] else []) ++ (d.type specifiers.base).mentions)
        (U = T) (T.Fits (d.modifiers.flatMap TypeModifier.mentions)) := by
      refine h.of_mentions ?_
      rw [Declarator.mentions_type]
      exact List.subset_append_of_subset_right _ (List.subset_append_right _ _)
    -- The table in which the initial value is read.
    have hdeclared : T.Within typedefs →
        Allowed typedefs (if specifiers.isTypedef then [.alias name] else []) →
        (T.declare name (if specifiers.isTypedef then .typeName (d.type specifiers.base)
          else .ordinary)).Within typedefs := by
      intro hwithin hallowed
      split
      · rename_i htypedef
        exact hwithin.declare_typeName (hallowed.2 name (by simp [htypedef])) _
      · exact hwithin.declare_ordinary name
    refine (Reads.append htype h' ?_).mono ?_ ?_
    · rintro hwithin hallowed rfl -
      exact hdeclared hwithin (allowed_append.1 hallowed).1
    · rintro ⟨rfl, rfl⟩
      exact U.leave?_declare name _
    · rintro hwithin hallowed ⟨rfl, rfl⟩ ⟨hfits, hinitial⟩
      refine ⟨hdeclared hwithin (allowed_append.1 (allowed_append.1 hallowed).1).1, ?_⟩
      have hcore : (d.type specifiers.base).core = specifiers.base := by
        rw [Declarator.core_type, hbare.1]
      have hwrapping : U.environment.read (d.type specifiers.base).wrapping =
          some U.environment := by
        rw [Declarator.wrapping_type, hbare.2, List.nil_append]
        exact SymbolTable.read_of_fits hfits
      have hmeaning : Meaning.isType (if specifiers.isTypedef then
          .typeName (d.type specifiers.base) else .ordinary) = specifiers.isTypedef := by
        cases specifiers.isTypedef <;> rfl
      have henv := U.environment_declare name (if specifiers.isTypedef then
          .typeName (d.type specifiers.base) else .ordinary)
      rw [hmeaning] at henv
      simp only [Declaration.walk, hcore, if_true, hwrapping, Option.bind_eq_bind,
        Option.bind_some, ← henv]
      exact SymbolTable.read_of_fits hinitial

theorem gives_declarations {specifiers : Specifiers} {d : Declarator} {read : List Parameter}
    (hbare : specifiers.base.Bare)
    (h : Plain typedefs T (d.modifiers.flatMap TypeModifier.mentions) U read) :
    (declarations specifiers d).Gives typedefs U fun list V read' =>
      Reads typedefs T [] (read ++ read') (list.flatMap Declaration.mentions)
        (V.leave? = T.leave?)
        (V.Within typedefs ∧
          list.foldlM (Declaration.walk specifiers.base) T.environment = some V.environment) := by
  refine Gives.bind (gives_initDeclarator hbare h) fun first V read' hfirst => ?_
  refine Quiet.bind (accept _) fun found _ => ?_
  split
  · refine Gives.bind (Gives.rule _) fun others W read'' h' => Gives.pure ?_
    have := Reads.append hfirst (h' hbare) fun _ _ _ h => h.1
    rw [List.append_nil, ← List.append_assoc, List.flatMap_cons]
    refine this.mono (fun hleave => hleave.2.trans hleave.1) ?_
    rintro - - - ⟨⟨-, hwalk⟩, hwithin, hothers⟩
    refine ⟨hwithin, ?_⟩
    rw [List.foldlM_cons, hwalk]
    exact hothers
  · refine Gives.pure ?_
    rw [List.append_nil, List.flatMap_cons, List.flatMap_nil, List.append_nil]
    refine hfirst.mono id ?_
    rintro - - - ⟨hwithin, hwalk⟩
    refine ⟨hwithin, ?_⟩
    rw [List.foldlM_cons, hwalk]
    rfl

theorem gives_initDeclarators (specifiers : Specifiers) :
    (initDeclarators specifiers).Gives typedefs T
      (Nonterminal.Promise typedefs T (.initDeclarators specifiers)) := by
  refine Gives.bind (gives_declarator .named) fun d U read h => ?_
  by_cases hbare : specifiers.base.Bare
  · exact (gives_declarations hbare (Shapes.plain h)).mono fun list V read' h' _ => h'
  · exact Gives.of_forall fun list V read' hbare' => absurd hbare' hbare

/-- What is read of a group, and how the table changes. -/
def Groups (typedefs : String → Prop) (table : SymbolTable) (group : DeclarationGroup)
    (after : SymbolTable) (read : List Parameter) : Prop :=
  Reads typedefs table [] read group.mentions (after.leave? = table.leave?)
    (after.Within typedefs ∧ group.walk table.environment = some after.environment)

theorem gives_groupFrom {specifiers : Specifiers} {d : Declarator} {read read' : List Parameter}
    (hbare : specifiers.base.Bare) (h : Plain typedefs T specifiers.base.mentions U read)
    (h' : Plain typedefs U (d.modifiers.flatMap TypeModifier.mentions) V read') :
    (groupFrom specifiers d).Gives typedefs V fun group W read'' =>
      Groups typedefs T group W (read ++ (read' ++ read'')) := by
  refine Gives.bind (gives_declarations hbare h') fun list W read'' hlist => ?_
  refine Quiet.bind (expect _) fun _ _ => Gives.pure ?_
  rw [List.append_nil]
  refine (Reads.append_same h hlist).mono ?_ ?_
  · rintro ⟨rfl, hleave⟩
    exact hleave
  · rintro - - ⟨rfl, -⟩ ⟨hfits, hwithin, hwalk⟩
    refine ⟨hwithin, ?_⟩
    rw [DeclarationGroup.walk, SymbolTable.read_of_fits hfits]
    exact hwalk

theorem groups_bareGroup {specifiers : Specifiers} {read : List Parameter}
    (h : Plain typedefs T specifiers.base.mentions U read) :
    Groups typedefs T (bareGroup specifiers) U read := by
  have hmentions : (bareGroup specifiers).mentions = specifiers.base.mentions := by
    simp [DeclarationGroup.mentions, bareGroup]
  unfold Groups
  rw [hmentions]
  refine h.mono (congrArg _) ?_
  rintro hwithin - rfl hfits
  refine ⟨hwithin, ?_⟩
  simp [DeclarationGroup.walk, bareGroup, hfits]

theorem gives_declarationGroup : declarationGroup.Gives typedefs T fun group U read =>
    Groups typedefs T group U read := by
  refine Gives.bind gives_specifiers fun specifiers U read h => ?_
  refine Quiet.bind (accept _) fun found _ => ?_
  split
  · exact Gives.pure (by simpa using groups_bareGroup h.2)
  · refine Gives.bind (gives_declarator .named) fun d V read' h' => ?_
    exact gives_groupFrom h.1 h.2 (Shapes.plain h')

end Grammar

/-! ## Statements -/

/-- What is read of a statement, which leaves the table. -/
def Steps (typedefs : String → Prop) (table : SymbolTable) (statement : Statement)
    (after : SymbolTable) (read : List Parameter) : Prop :=
  Reads typedefs table [] read statement.mentions (after = table)
    (statement.walk table.environment = some table.environment)

namespace Steps

variable {s s' : Statement} {read read' read'' : List Parameter} {ms ns : List Mention}

/-- A statement without statements in it, all words of which are looked at together. -/
theorem of_plain (h : Plain typedefs T ms U read) (hms : s.mentions = ms)
    (hwalk : ∀ env : Environment, env.read ms = some env → s.walk env = some env) :
    Steps typedefs T s U read := by
  unfold Steps
  rw [hms]
  exact h.mono id fun _ _ _ hfits => hwalk _ (SymbolTable.read_of_fits hfits)

/-- A statement in which words stand before one statement. -/
theorem of_head (h : Plain typedefs T ms U read) (h' : Steps typedefs U s V read')
    (hms : s'.mentions = ms ++ s.mentions)
    (hwalk : ∀ env : Environment, env.read ms = some env → s.walk env = some env →
      s'.walk env = some env) :
    Steps typedefs T s' V (read ++ read') := by
  unfold Steps
  rw [hms]
  refine (Reads.append_same h h').mono (fun hV => hV.2.trans hV.1) ?_
  rintro - - ⟨rfl, -⟩ ⟨hfits, hs⟩
  exact hwalk _ (SymbolTable.read_of_fits hfits) hs

/-- A statement in which words stand behind one statement. -/
theorem of_last (h : Steps typedefs T s U read) (h' : Plain typedefs U ms V read')
    (hms : s'.mentions = s.mentions ++ ms)
    (hwalk : ∀ env : Environment, env.read ms = some env → s.walk env = some env →
      s'.walk env = some env) :
    Steps typedefs T s' V (read ++ read') := by
  unfold Steps
  rw [hms]
  refine (Reads.append_same h h').mono (fun hV => hV.2.trans hV.1) ?_
  rintro - - ⟨rfl, -⟩ ⟨hs, hfits⟩
  exact hwalk _ (SymbolTable.read_of_fits hfits) hs

end Steps

namespace Grammar

open Script Script.Gives Script.Quiet

theorem gives_condition : condition.Gives typedefs T fun value U read =>
    Plain typedefs T value.mentions U read := by
  refine Quiet.bind (expect _) fun _ _ => Gives.bind (Gives.rule _) fun value U read h => ?_
  exact Quiet.bind (expect _) fun _ _ => Gives.pure (by simpa using h)

theorem gives_expressionUnless (mark : Punctuator) : (expressionUnless mark).Gives typedefs T
    fun value U read => Plain typedefs T (Expr.mentionsOption value) U read := by
  refine Quiet.bind (nextIs _) fun found _ => ?_
  split
  · exact Gives.pure Plain.nil
  · refine Gives.bind (gives_expression _) fun value U read h => Gives.pure ?_
    simpa [Expr.mentionsOption] using h

theorem gives_block : block.Gives typedefs T fun items U read =>
    Reads typedefs T [] read (Statement.mentionsList items) (U = T)
      ((Statement.walkList T.environment.enter items).map Environment.leave =
        some T.environment) := by
  refine Quiet.bind (expect _) fun _ _ => Gives.enter _ ?_
  refine Gives.bind (Gives.rule _) fun items U read h => Quiet.bind (expect _) fun close _ => ?_
  refine Gives.leave _ fun V hleave => Gives.pure ?_
  rw [List.append_nil]
  have hT : .enumerators ∉ Statement.mentionsList items → V = T := by
    intro henum
    rw [h.frame henum, SymbolTable.leave?_enter, Option.some_inj] at hleave
    exact hleave.symm
  refine { count := h.count, frame := hT, holds := fun hwithin hallowed hclear => ?_ }
  have hwalk := h.holds (hwithin.enter .block) hallowed hclear
  rw [← SymbolTable.environment_enter T .block, hwalk, Option.map_some, Option.some_inj,
    ← SymbolTable.environment_leave hleave, hT hallowed.1]

/-- What a `for` loop begins with may declare words in the scope of the loop. -/
theorem gives_forStart : forStart.Gives typedefs T fun start U read =>
    Reads typedefs T [] read ((start.map ForStart.mentions).getD []) (U.leave? = T.leave?)
      (U.Within typedefs ∧
        (start.map (ForStart.walk T.environment)).getD (some T.environment) =
          some U.environment) := by
  refine Quiet.bind (accept _) fun found _ => ?_
  split
  · exact Gives.pure (.nothing rfl fun hwithin _ => ⟨hwithin, rfl⟩)
  · refine Quiet.bind peek fun token _ => ?_
    split
    · refine Gives.bind gives_declarationGroup fun group U read h => Gives.pure ?_
      rw [List.append_nil]
      exact h
    · refine Gives.bind (gives_expression _) fun value U read h => ?_
      refine Quiet.bind (expect _) fun _ _ => Gives.pure ?_
      rw [List.append_nil]
      refine h.mono (congrArg _) ?_
      rintro hwithin - rfl hfits
      exact ⟨hwithin, SymbolTable.read_of_fits hfits⟩

theorem gives_forLoop (position : Position) : (forLoop position).Gives typedefs T
    fun statement U read => Steps typedefs T statement U read := by
  refine Quiet.bind (expect _) fun _ _ => Gives.enter _ ?_
  refine Gives.bind gives_forStart fun start U₁ read₁ h₁ => ?_
  refine Gives.bind (gives_expressionUnless _) fun condition U₂ read₂ h₂ => ?_
  refine Quiet.bind (expect _) fun _ _ => ?_
  refine Gives.bind (gives_expressionUnless _) fun step U₃ read₃ h₃ => ?_
  refine Quiet.bind (expect _) fun _ _ => ?_
  refine Gives.bind (Gives.rule _) fun body U₄ read₄ h₄ => ?_
  refine Gives.leave _ fun V hleave => Gives.pure ?_
  have hinside := Reads.append h₁ (Reads.append_same (h₂.append h₃) h₄) fun _ _ _ h => h.1
  have hreads : read₁ ++ (read₂ ++ (read₃ ++ (read₄ ++ []))) =
      read₁ ++ (read₂ ++ read₃ ++ read₄) := by simp
  have hmentions : (Statement.for position start condition step body).mentions =
      (start.map ForStart.mentions).getD [] ++ (Expr.mentionsOption condition ++
        Expr.mentionsOption step ++ body.mentions) := by simp [Statement.mentions]
  unfold Steps
  rw [hreads, hmentions]
  have hT : .enumerators ∉ (start.map ForStart.mentions).getD [] ++
      (Expr.mentionsOption condition ++ Expr.mentionsOption step ++ body.mentions) →
      U₄ = U₁ ∧ V = T := by
    intro henum
    obtain ⟨hscope, hsame, hbody⟩ := hinside.frame henum
    -- Only what the loop begins with declares words, and they go with the scope of the loop.
    rw [hbody, hsame, hscope, SymbolTable.leave?_enter, Option.some_inj] at hleave
    exact ⟨hbody.trans hsame, hleave.symm⟩
  refine { count := hinside.count, frame := fun henum => (hT henum).2,
           holds := fun hwithin hallowed hclear => ?_ }
  obtain ⟨⟨-, hstart⟩, hfits, hbody⟩ := hinside.holds (hwithin.enter .block) hallowed hclear
  obtain ⟨-, rfl, -⟩ := hinside.frame hallowed.1
  obtain ⟨rfl, rfl⟩ := hT hallowed.1
  have henv := SymbolTable.environment_leave hleave
  have hhead := SymbolTable.read_of_fits hfits
  rw [SymbolTable.environment_enter] at hstart
  simp only [Statement.walk, hstart, hhead, hbody, Option.bind_eq_bind, Option.bind_some]
  rw [henv]
  rfl

theorem gives_labelledStatement : labelledStatement.Gives typedefs T fun statement U read =>
    Steps typedefs T statement U read := by
  refine Quiet.bind advance fun token _ => ?_
  split
  · refine Gives.bind (Gives.rule _) fun value U read h => Quiet.bind (expect _) fun _ _ => ?_
    refine Gives.bind (Gives.rule _) fun body V read' h' => Gives.pure ?_
    rw [List.append_nil]
    refine Steps.of_head h h' (by simp [Statement.mentions]) ?_
    intro env hread hbody
    simp [Statement.walk, hread, hbody]
  · refine Quiet.bind (expect _) fun _ _ => ?_
    refine Gives.bind (Gives.rule _) fun body U read h => Gives.pure ?_
    rw [List.append_nil]
    exact Steps.of_head Plain.nil h (by simp [Statement.mentions]) (by simp [Statement.walk])
  · refine Quiet.bind (expect _) fun _ _ => ?_
    refine Gives.bind (Gives.rule _) fun body U read h => Gives.pure ?_
    rw [List.append_nil]
    exact Steps.of_head Plain.nil h (by simp [Statement.mentions]) (by simp [Statement.walk])
  · exact Gives.contradictAt

theorem gives_selectionStatement : selectionStatement.Gives typedefs T fun statement U read =>
    Steps typedefs T statement U read := by
  refine Quiet.bind advance fun token _ => Gives.bind gives_condition fun condition U read h => ?_
  refine Gives.bind (Gives.rule _) fun body V read' h' => ?_
  split
  · refine Quiet.bind (accept _) fun found _ => ?_
    split
    · refine Gives.bind (Gives.rule _) fun otherwise W read'' h'' => Gives.pure ?_
      rw [List.append_nil, ← List.append_assoc]
      unfold Steps
      have hall := Reads.append (Reads.append_same h h') h'' fun hwithin _ hV _ =>
        (hV.2.trans hV.1) ▸ hwithin
      refine (hall.of_mentions ?_).mono ?_ ?_
      · simp [Statement.mentions, Statement.mentionsOption]
      · rintro ⟨⟨rfl, rfl⟩, rfl⟩
        rfl
      · rintro - - ⟨⟨rfl, rfl⟩, rfl⟩ ⟨⟨hfits, hbody⟩, hotherwise⟩
        simp [Statement.walk, Statement.walkOption, hfits, hbody, hotherwise]
    · refine Gives.pure ?_
      rw [List.append_nil]
      refine Steps.of_head h h' (by simp [Statement.mentions, Statement.mentionsOption]) ?_
      intro env hread hbody
      simp [Statement.walk, Statement.walkOption, hread, hbody]
  · refine Gives.pure ?_
    rw [List.append_nil]
    refine Steps.of_head h h' (by simp [Statement.mentions]) ?_
    intro env hread hbody
    simp [Statement.walk, hread, hbody]
  · exact Gives.contradictAt

theorem gives_iterationStatement : iterationStatement.Gives typedefs T fun statement U read =>
    Steps typedefs T statement U read := by
  refine Quiet.bind advance fun token _ => ?_
  split
  · refine Gives.bind gives_condition fun condition U read h => ?_
    refine Gives.bind (Gives.rule _) fun body V read' h' => Gives.pure ?_
    rw [List.append_nil]
    refine Steps.of_head h h' (by simp [Statement.mentions]) ?_
    intro env hread hbody
    simp [Statement.walk, hread, hbody]
  · refine Gives.bind (Gives.rule _) fun body U read h => ?_
    refine Quiet.bind (expect _) fun _ _ => Gives.bind gives_condition fun condition V read' h' => ?_
    refine Quiet.bind (expect _) fun _ _ => Gives.pure ?_
    rw [List.append_nil]
    refine Steps.of_last h h' (by simp [Statement.mentions]) ?_
    intro env hread hbody
    simp [Statement.walk, hread, hbody]
  · exact gives_forLoop _
  · exact Gives.contradictAt

theorem gives_jumpFrom (token : Token) : (jumpFrom token).Gives typedefs T
    fun statement U read => Steps typedefs T statement U read := by
  unfold jumpFrom
  split
  · refine Quiet.bind expectWord fun name _ => Gives.pure ?_
    exact Steps.of_plain Plain.nil (by simp [Statement.mentions]) (by simp [Statement.walk])
  · exact Gives.pure <|
      Steps.of_plain Plain.nil (by simp [Statement.mentions]) (by simp [Statement.walk])
  · exact Gives.pure <|
      Steps.of_plain Plain.nil (by simp [Statement.mentions]) (by simp [Statement.walk])
  · refine Gives.bind (gives_expressionUnless _) fun value U read h => Gives.pure ?_
    rw [List.append_nil]
    exact Steps.of_plain h (by simp [Statement.mentions]) (by simp [Statement.walk])
  · exact Gives.contradictAt

theorem gives_jumpStatement : jumpStatement.Gives typedefs T fun statement U read =>
    Steps typedefs T statement U read := by
  refine Quiet.bind advance fun token _ => Gives.bind (gives_jumpFrom token) fun jump U read h => ?_
  refine Quiet.bind (expect _) fun _ _ => Gives.pure ?_
  rwa [List.append_nil]

theorem gives_expressionStatement (position : Position) :
    (expressionStatement position).Gives typedefs T fun statement U read =>
      Steps typedefs T statement U read := by
  refine Gives.bind (gives_expression _) fun value U read h => ?_
  refine Quiet.bind (expect _) fun _ _ => Gives.pure ?_
  rw [List.append_nil]
  exact Steps.of_plain h (by simp [Statement.mentions]) (by simp [Statement.walk])

theorem gives_statement : statement.Gives typedefs T fun statement U read =>
    Steps typedefs T statement U read := by
  refine Quiet.bind peek fun token _ => ?_
  split
  · refine Gives.bind gives_block fun items U read h => Gives.pure ?_
    rw [List.append_nil]
    unfold Steps
    rw [Statement.mentions]
    refine h.mono id ?_
    rintro - - - hwalk
    obtain ⟨inner, hinner, hleave⟩ := Option.map_eq_some_iff.1 hwalk
    simp [Statement.walk, hinner, hleave]
  · refine Quiet.bind advance fun _ _ => Gives.pure ?_
    exact Steps.of_plain Plain.nil (by simp) (by simp)
  · split
    · exact gives_selectionStatement
    · exact gives_iterationStatement
    · exact gives_jumpStatement
    · exact gives_labelledStatement
    · exact gives_expressionStatement _
  · refine Quiet.bind (peekNth 1) fun second _ => ?_
    split
    · exact gives_labelledStatement
    · exact gives_expressionStatement _
  · exact gives_expressionStatement _

theorem gives_blockItem (token : Token) : (blockItem token).Gives typedefs T
    fun statement U read => Reads typedefs T [] read statement.mentions (U.leave? = T.leave?)
      (U.Within typedefs ∧
        statement.walk T.environment = some U.environment) := by
  unfold blockItem
  split
  · refine Gives.bind gives_declarationGroup fun group U read h => Gives.pure ?_
    rw [List.append_nil, Statement.mentions]
    refine h.mono id ?_
    rintro - - - ⟨hwithin, hwalk⟩
    exact ⟨hwithin, by rw [Statement.walk, hwalk]⟩
  · refine gives_statement.mono fun statement U read h => h.mono (congrArg _) ?_
    rintro hwithin - rfl hwalk
    exact ⟨hwithin, hwalk⟩

theorem gives_blockItems : blockItems.Gives typedefs T fun items U read =>
    Reads typedefs T [] read (Statement.mentionsList items) (U.leave? = T.leave?)
      (Statement.walkList T.environment items = some U.environment) := by
  refine Quiet.bind peek fun token _ => ?_
  split
  · exact Gives.pure (.nothing rfl fun _ _ => rfl)
  · exact Gives.refuse
  · refine Gives.bind (gives_blockItem token) fun first U read h => ?_
    refine Gives.bind (Gives.rule _) fun others V read' h' => Gives.pure ?_
    rw [List.append_nil]
    refine (Reads.append h h' fun _ _ _ h => h.1).mono (fun hleave => hleave.2.trans hleave.1) ?_
    rintro - - - ⟨⟨-, hwalk⟩, hothers⟩
    rw [Statement.walkList, hwalk]
    exact hothers

end Grammar

/-! ## Functions -/

/-- The table with the names of parameters declared. -/
def SymbolTable.declareNames (table : SymbolTable) (list : List Parameter) : SymbolTable :=
  list.foldl (fun table p => p.name.elim table fun name => table.declare name .ordinary) table

/-- The environment with the names of parameters bound. -/
def Environment.bindNames (env : Environment) (list : List Parameter) : Environment :=
  list.foldl (fun env p => p.name.elim env fun name => env.bind name false) env

theorem SymbolTable.environment_declareNames (table : SymbolTable) (list : List Parameter) :
    (table.declareNames list).environment = table.environment.bindNames list := by
  induction list generalizing table with
  | nil => rfl
  | cons first others ih =>
      unfold declareNames Environment.bindNames at ih ⊢
      rw [List.foldl_cons, List.foldl_cons, ih]
      cases first.name with
      | none => rfl
      | some name => rw [Option.elim_some, Option.elim_some, environment_declare]; rfl

theorem SymbolTable.leave?_declareNames (table : SymbolTable) (list : List Parameter) :
    (table.declareNames list).leave? = table.leave? := by
  induction list generalizing table with
  | nil => rfl
  | cons first others ih =>
      unfold declareNames at ih ⊢
      rw [List.foldl_cons, ih]
      cases first.name with
      | none => rfl
      | some name => exact table.leave?_declare name .ordinary

theorem SymbolTable.Within.declareNames {table : SymbolTable} (h : table.Within typedefs)
    (list : List Parameter) : (table.declareNames list).Within typedefs := by
  induction list generalizing table with
  | nil => exact h
  | cons first others ih =>
      unfold SymbolTable.declareNames at ih ⊢
      rw [List.foldl_cons]
      cases first.name with
      | none => exact ih h
      | some name => exact ih (h.declare_ordinary name)

namespace Environment

theorem eq_bindNames_of_walk {env env' : Environment} {list : List Parameter}
    (h : list.foldlM Parameter.walk env = some env') : env' = env.bindNames list := by
  induction list generalizing env with
  | nil => simpa [bindNames, eq_comm] using h
  | cons first others ih =>
      rw [List.foldlM_cons] at h
      obtain ⟨next, hfirst, hothers⟩ := Option.bind_eq_some_iff.1 h
      unfold Parameter.walk Environment.read at hfirst
      split at hfirst
      · obtain rfl : first.name.elim env (fun name => env.bind name false) = next := by
          simpa using hfirst
        exact ih hothers
      · cases hfirst

/-- Where a scope is open, names in it and names of the file are bound independently. -/
theorem bindFile_bindNames {env : Environment} (h : env.nested ≠ []) (name : String) (value : Bool)
    (list : List Parameter) :
    (env.bindNames list).bindFile name value = (env.bindFile name value).bindNames list := by
  induction list generalizing env with
  | nil => rfl
  | cons first others ih =>
      obtain ⟨scope, outer, hnested⟩ := List.exists_cons_of_ne_nil h
      unfold bindNames at ih ⊢
      rw [List.foldl_cons, List.foldl_cons]
      cases first.name with
      | none => exact ih h
      | some other =>
          rw [Option.elim_some, Option.elim_some, ih (by simp [bind, hnested])]
          simp [bind, bindFile, hnested]

end Environment

namespace Grammar

open Script Script.Gives Script.Quiet

theorem gives_declareParameters (list : List Parameter) :
    (declareParameters list).Gives typedefs T fun _ U read =>
      U = T.declareNames list ∧ read = [] := by
  induction list generalizing T with
  | nil => exact ⟨rfl, rfl⟩
  | cons first others ih =>
      unfold declareParameters SymbolTable.declareNames
      rw [List.foldl_cons]
      split
      · rename_i name hname
        rw [hname]
        exact Gives.declare name .ordinary ih
      · rename_i hname
        rw [hname]
        exact ih

theorem gives_functionDefinition (specifiers : Specifiers) (d : Declarator) :
    (functionDefinition specifiers d).Gives typedefs T fun f U read =>
      d.parameters? = some f.parameters ∧ f.type = d.type specifiers.base ∧
        Reads typedefs T [] read (Statement.mentionsList f.body)
          (U = T.declare f.name .ordinary)
          (∃ inner, Statement.walkList ((U.enter .block).declareNames f.parameters).environment
              f.body = some inner ∧ inner.leave = U.environment) := by
  unfold functionDefinition
  split
  · exact Gives.contradict
  · rename_i name position hname
    split
    · exact Gives.fail
    · split
      · exact Gives.contradict
      · rename_i list hlist
        refine Gives.declare name .ordinary (Quiet.bind (expect _) fun _ _ => Gives.enter _ ?_)
        refine Gives.bind (gives_declareParameters list) ?_
        rintro _ _ _ ⟨rfl, rfl⟩
        refine Gives.bind (Gives.rule _) fun body U read h => ?_
        refine Quiet.bind (expect _) fun close _ => Gives.leave _ fun V hleave => Gives.pure ?_
        refine ⟨hlist, rfl, ?_⟩
        rw [List.append_nil, List.nil_append]
        -- Unless enumeration constants are listed, the block of the body is left with the table
        -- around it.
        have hT : .enumerators ∉ Statement.mentionsList body → V = T.declare name .ordinary := by
          intro henum
          rw [h.frame henum, SymbolTable.leave?_declareNames, SymbolTable.leave?_enter,
            Option.some_inj] at hleave
          exact hleave.symm
        refine { count := h.count, frame := hT, holds := fun hwithin hallowed hclear => ?_ }
        have hwalk := h.holds
          (((hwithin.declare_ordinary name).enter .block).declareNames list) hallowed hclear
        exact ⟨_, hT hallowed.1 ▸ hwalk, (SymbolTable.environment_leave hleave).symm⟩

/-- A function is walked if its result, its parameters and its body are. -/
theorem walk_functionDefinition {f : FunctionDefinition} {result : CType} {variadic : Bool}
    {env : Environment} {inner : Environment} (hT : T.nested = [])
    (htype : f.type = .function result (f.parameters.map (·.type)) variadic)
    (hresult : T.Fits result.mentions)
    (hparameters : f.parameters.foldlM Parameter.walk T.environment.enter = some env)
    (hbody : Statement.walkList
      (((T.declare f.name .ordinary).enter .block).declareNames f.parameters).environment f.body =
        some inner) :
    f.walk T.environment = some inner.leave := by
  have henv : env.bindFile f.name false =
      (((T.declare f.name .ordinary).enter .block).declareNames f.parameters).environment := by
    rw [Environment.eq_bindNames_of_walk hparameters, SymbolTable.environment_declareNames,
      Environment.bindFile_bindNames (List.cons_ne_nil _ _), SymbolTable.environment_enter,
      SymbolTable.environment_declare]
    congr 1
    simp [Environment.bind, Environment.bindFile, Environment.enter, SymbolTable.environment, hT,
      Meaning.isType]
  rw [← henv] at hbody
  simp only [FunctionDefinition.walk, htype, if_true, SymbolTable.read_of_fits hresult, hparameters,
    hbody, Option.bind_eq_bind, Option.bind_some]
  rfl

/-! ## Units -/

theorem nested_eq_nil_of_leave? (hT : T.nested = []) (h : U.leave? = T.leave?) :
    U.nested = [] := by
  unfold SymbolTable.leave? at h
  cases hU : U.nested with
  | nil => rfl
  | cons scope outer => simp [hT, hU] at h

/-- What is read of an external declaration, and how the file scope changes. -/
def Extends (typedefs : String → Prop) (table : SymbolTable) (e : ExternalDeclaration)
    (after : SymbolTable) (read : List Parameter) : Prop :=
  Reads typedefs table e.parameters read e.mentions True
    (after.Within typedefs ∧ (table.nested = [] →
      after.nested = [] ∧ e.walk table.environment = some after.environment))

theorem Extends.of_groups {group : DeclarationGroup} {read : List Parameter}
    (h : Groups typedefs T group U read) : Extends typedefs T (.declaration group) U read := by
  refine (h.mono (fun _ => trivial) ?_ : Reads typedefs T [] read group.mentions _ _)
  rintro - - hleave ⟨hwithin, hwalk⟩
  exact ⟨hwithin, fun hT => ⟨nested_eq_nil_of_leave? hT hleave, hwalk⟩⟩

theorem gives_function {specifiers : Specifiers} {d : Declarator} {read read' : List Parameter}
    (h : Plain typedefs T specifiers.base.mentions U read)
    (h' : Shapes typedefs U d.modifiers V read') :
    (functionDefinition specifiers d).Gives typedefs V fun f W read'' =>
      Extends typedefs T (.function f) W (read ++ (read' ++ read'')) := by
  refine (gives_functionDefinition specifiers d).mono ?_
  rintro f W read'' ⟨hlist, htype, hbody⟩
  -- The parameter list is the last modifier of the declarator.
  obtain ⟨ms, variadic, hmodifiers⟩ :
      ∃ ms variadic, d.modifiers = ms ++ [.function f.parameters variadic] := by
    unfold Declarator.parameters? at hlist
    split at hlist
    · rename_i list variadic hlast
      cases hlist
      obtain ⟨ms, hms⟩ := List.getLast?_eq_some_iff.1 hlast
      exact ⟨ms, variadic, hms⟩
    · cases hlist
  have hfunction : f.type = .function ((Declarator.mk none ms).type specifiers.base)
      (f.parameters.map (·.type)) variadic := by
    rw [htype]
    simp [Declarator.type, hmodifiers, TypeModifier.apply]
  have hresult : ((Declarator.mk none ms).type specifiers.base).mentions =
      specifiers.base.mentions ++ ms.flatMap TypeModifier.mentions := Declarator.mentions_type _ _
  rw [hmodifiers] at h'
  have hhead := Reads.append_same h (Shapes.keep_last h')
  have hall := Reads.append hhead hbody fun hwithin _ hV _ => (hV.2.trans hV.1) ▸ hwithin
  rw [List.nil_append, List.append_nil, List.append_assoc] at hall
  refine ((hall.of_mentions ?_).mono (fun _ => trivial) ?_ :
    Reads typedefs T f.parameters _ f.mentions _ _)
  · intro m hm
    simp only [FunctionDefinition.mentions, hfunction, CType.mentions, hresult, List.mem_append]
      at hm ⊢
    grind
  · rintro hwithin - ⟨⟨rfl, rfl⟩, rfl⟩ ⟨⟨hbase, hms, env, hwalk⟩, inner, hinner, hleave⟩
    refine ⟨hwithin.declare_ordinary f.name, fun hT => ⟨?_, ?_⟩⟩
    · exact nested_eq_nil_of_leave? hT (V.leave?_declare f.name .ordinary)
    · have hfits : V.Fits ((Declarator.mk none ms).type specifiers.base).mentions := by
        rw [hresult]
        exact SymbolTable.fits_append.2 ⟨hbase, hms⟩
      rw [ExternalDeclaration.walk, ← hleave]
      exact walk_functionDefinition hT hfunction hfits hwalk hinner

theorem gives_externalDeclaration :
    externalDeclaration.Gives typedefs T fun e U read => Extends typedefs T e U read := by
  refine Gives.bind gives_specifiers fun specifiers U read h => ?_
  refine Quiet.bind (accept _) fun found _ => ?_
  split
  · refine Gives.pure ?_
    rw [List.append_nil]
    exact Extends.of_groups (groups_bareGroup h.2)
  · refine Gives.bind (gives_declarator .named) fun d V read' h' => ?_
    have hgroup : (groupFrom specifiers d).Gives typedefs V fun group W read'' =>
        Extends typedefs T (.declaration group) W (read ++ (read' ++ read'')) :=
      (gives_groupFrom h.1 h.2 (Shapes.plain h')).mono fun _ _ _ => Extends.of_groups
    split
    · refine Quiet.bind (nextIs _) fun found _ => ?_
      split
      · refine Gives.bind (gives_function h.2 h') fun f W read'' hf => Gives.pure ?_
        rw [List.append_nil]
        exact hf
      · refine Gives.bind hgroup fun group W read'' hg => Gives.pure ?_
        rw [List.append_nil]
        exact hg
    · refine Gives.bind hgroup fun group W read'' hg => Gives.pure ?_
      rw [List.append_nil]
      exact hg

theorem gives_externalDeclarations :
    externalDeclarations.Gives typedefs T (Nonterminal.externalDeclarations.Promise typedefs T) := by
  refine Quiet.bind peek fun token _ => ?_
  split
  · exact Gives.pure (.nothing trivial fun _ _ _ => ⟨_, rfl⟩)
  · refine Gives.bind gives_externalDeclaration fun first U read h => ?_
    refine Gives.bind (Gives.rule _) fun others V read' h' => Gives.pure ?_
    rw [List.append_nil]
    refine (Reads.append h h' fun _ _ _ hP => hP.1).mono (fun _ => trivial) ?_
    rintro - - - ⟨⟨-, hfirst⟩, hothers⟩ hT
    obtain ⟨hU, hwalk⟩ := hfirst hT
    obtain ⟨env, henv⟩ := hothers hU
    refine ⟨env, ?_⟩
    rw [List.foldlM_cons, hwalk]
    exact henv

end Grammar

/-! ## The contract holds -/

/-- The scripts of all rules keep their promises. -/
theorem valid_scoping : (scoping typedefs).Valid := by
  intro f T _
  -- Of all rules only the one for parameters adds to the parameters that are read.
  have keeps : (∀ result, parametersIn [⟨f, result⟩] = []) →
      (Grammar.script f).Gives typedefs T (f.Promise typedefs T) →
        (Grammar.script f).Meets (scoping typedefs) T fun result U R =>
          (scoping typedefs).post f T result U (R ++ [⟨f, result⟩]) := by
    intro hnone h
    refine Script.Meets.mono h fun result U R hpost => ?_
    change f.Promise typedefs T result U (parametersIn (R ++ [⟨f, result⟩]))
    rwa [parametersIn_append, hnone, List.append_nil]
  cases f with
  | expression limit => exact keeps (fun _ => rfl) (Grammar.gives_expression limit)
  | infixTail limit left => exact keeps (fun _ => rfl) (Grammar.gives_infixTail limit left)
  | postfixTail operand => exact keeps (fun _ => rfl) (Grammar.gives_postfixTail operand)
  | «arguments» => exact keeps (fun _ => rfl) Grammar.gives_arguments
  | adjacentStrings => exact keeps (fun _ => rfl) Grammar.gives_adjacentStrings
  | typeName => exact keeps (fun _ => rfl) Grammar.gives_typeName
  | specifierTail tally => exact keeps (fun _ => rfl) (Grammar.gives_specifierTail tally)
  | members => exact keeps (fun _ => rfl) Grammar.gives_members
  | memberDeclarators specifiers =>
      exact keeps (fun _ => rfl) (Grammar.gives_memberDeclarators specifiers)
  | enumerators => exact keeps (fun _ => rfl) (Script.Gives.of_forall fun _ _ _ => trivial)
  | pointerTail => exact keeps (fun _ => rfl) Grammar.gives_pointerTail
  | declarator mode => exact keeps (fun _ => rfl) (Grammar.gives_declarator mode)
  | suffixes => exact keeps (fun _ => rfl) Grammar.gives_suffixes
  | parameters =>
      refine Script.Meets.mono Grammar.gives_parameters fun result U R hpost => ?_
      change Nonterminal.parameters.Promise typedefs T result U
        (parametersIn (R ++ [⟨.parameters, result⟩]))
      rw [parametersIn_append]
      rcases result with ⟨_ | ⟨first, others⟩, variadic⟩
      · exact hpost
      · exact hpost
  | initializerItems => exact keeps (fun _ => rfl) Grammar.gives_initializerItems
  | initDeclarators specifiers =>
      exact keeps (fun _ => rfl) (Grammar.gives_initDeclarators specifiers)
  | statement => exact keeps (fun _ => rfl) Grammar.gives_statement
  | blockItems => exact keeps (fun _ => rfl) Grammar.gives_blockItems
  | externalDeclarations => exact keeps (fun _ => rfl) Grammar.gives_externalDeclarations

namespace Parser

/-- In a run all requests do to the table what the contract says. -/
theorem models_scoping {origin : Source} {depth : Nat} {f : Nonterminal} {s : ParserState}
    (h : s.Sound origin) (hm : s.isMarked = false) :
    (scoping typedefs).Models ParserState.table (fun _ => True) (eventsAt depth f s) := by
  intro r t hmem _ _ answer u hperform
  refine ⟨trivial, ?_⟩
  obtain ⟨hsound, may⟩ := admits_eventsAt h hm r t hmem
  obtain ⟨-, -, hfresh⟩ := Request.sound_perform hsound may hperform
  -- Tokens are classified by the table in force when they are handed out.
  have current : ∀ token : Token, token.Fresh origin t.table → token.kind.Current t.table := by
    intro token hfresh
    cases hkind : token.kind with
    | identifier name =>
        have := hfresh.isTypeName (show name ∈ _ by simp [hkind, TokenKind.words])
        simpa [hkind, TokenKind.Current] using this
    | typeName name =>
        have := hfresh.isTypeName (show name ∈ _ by simp [hkind, TokenKind.words])
        simpa [hkind, TokenKind.Current] using this
    | _ => trivial
  cases r with
  | peek n =>
      obtain ⟨-, rfl⟩ := Prod.mk.inj hperform
      exact ⟨rfl, current answer (hfresh answer rfl)⟩
  | advance =>
      obtain ⟨-, rfl⟩ := Prod.mk.inj hperform
      exact ⟨rfl, current answer (hfresh answer rfl)⟩
  | mark =>
      obtain ⟨-, rfl⟩ := Prod.mk.inj hperform
      rfl
  | reset m =>
      obtain ⟨-, rfl⟩ := Prod.mk.inj hperform
      rfl
  | release m =>
      obtain ⟨-, rfl⟩ := Prod.mk.inj hperform
      rfl
  | enter kind =>
      obtain ⟨-, rfl⟩ := Prod.mk.inj hperform
      rfl
  | leave position =>
      rcases hleave : t.table.leave? with _ | outer
      · simp [Request.perform, hleave] at hperform
      · simp only [Request.perform, hleave, Prod.mk.injEq] at hperform
        obtain ⟨-, rfl⟩ := hperform
        exact hleave
  | declare name meaning =>
      obtain ⟨-, rfl⟩ := Prod.mk.inj hperform
      rfl
  | declareEnumerator name =>
      obtain ⟨-, rfl⟩ := Prod.mk.inj hperform
      rfl

/-- What a rule has read of a text fits the table where it was begun. -/
theorem promise_runAt {origin : Source} {depth : Nat} {f : Nonterminal} {s t : ParserState}
    {result : f.Result} (typedefs : String → Prop) (h : s.Sound origin) (hm : s.isMarked = false)
    (hrun : runAt depth f s = (.ok result, t)) :
    f.Promise typedefs s.table result t.table (parametersIn (returnsAt depth f s)) :=
  ((Contract.sound valid_scoping trivial trivial (models_scoping h hm)).2 result t hrun).2

/-- The parameters in all function declarators of a text. -/
def parametersRead (text : String) (file : Option String) : List Parameter :=
  parametersIn (returns text file)

end Parser

/-- The parameters of functions with a body, whose names are in the unit. -/
def TranslationUnit.parameters (unit : TranslationUnit) : List Parameter :=
  unit.declarations.flatMap ExternalDeclaration.parameters

/-- A unit without lists of enumeration constants can be walked, if the parameters whose names are
lost are not spelled like `typedef` names of the unit: all its words are used as they are bound. -/
theorem walk_of_parse {text : String} {file : Option String} {unit : TranslationUnit}
    (h : parse text file = .ok unit) (henum : .enumerators ∉ unit.mentions)
    (hparam : ∀ p ∈ (Parser.parametersRead text file).diff unit.parameters,
      ∀ name ∈ p.name, .alias name ∉ unit.mentions) :
    unit.walk.isSome = true := by
  unfold parse Parser.runUnit at h
  rcases hrun : Parser.runAt ((Source.ofString text file).rest.length + 1) .externalDeclarations
    (.ofSource (Source.ofString text file)) with ⟨error | list, t⟩
  · simp only [hrun] at h
    cases h
  · simp only [hrun] at h
    obtain rfl : { declarations := list } = unit := by simpa [Except.map] using h
    have hreads := Parser.promise_runAt (fun name => .alias name ∈
      TranslationUnit.mentions { declarations := list }) (ParserState.sound_ofSource _) rfl hrun
    obtain ⟨env, henv⟩ := hreads.holds (fun name hname => by
        simp [ParserState.ofSource, SymbolTable.isTypeName, SymbolTable.type?, SymbolTable.lookup?,
          SymbolTable.empty] at hname) ⟨henum, fun name hname => hname⟩ (fun p hp => by
        refine hparam p ?_
        rw [← List.count_pos_iff, List.count_diff]
        exact Nat.sub_pos_of_lt hp) rfl
    exact Option.isSome_iff_exists.2 ⟨env, henv⟩

/-- A text in which a parameter, a loop and a block hide a `typedef` name, each as far as its scope
goes. -/
def hidingText : String :=
  "typedef int t; t f(t a, int t) { for (t; t; ) if (t) ; return a; }
   void g(t u) { { t t = u; } for (int t; t; ) if (t) ; t w; }"

theorem walk_of_parse_hidingText :
    ∃ unit, parse hidingText none = .ok unit ∧ unit.walk.isSome = true := by
  have hconditions : (parse hidingText none).toOption.any (fun unit =>
      decide (.enumerators ∉ unit.mentions ∧
        ∀ p ∈ (Parser.parametersRead hidingText none).diff unit.parameters,
          ∀ name ∈ p.name, .alias name ∉ unit.mentions)) = true := by decide +kernel
  rcases hparse : parse hidingText none with error | unit
  · simp [hparse, Except.toOption] at hconditions
  · have hunit : .enumerators ∉ unit.mentions ∧
        ∀ p ∈ (Parser.parametersRead hidingText none).diff unit.parameters,
          ∀ name ∈ p.name, .alias name ∉ unit.mentions := by
      simpa only [hparse, Except.toOption, Option.any_some, decide_eq_true_eq] using hconditions
    exact ⟨unit, rfl, walk_of_parse hparse hunit.1 hunit.2⟩

end CSyntax
