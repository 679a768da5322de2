import CSyntax.Proofs.Span.Declarations

/-!
# Statements — the stretches of statements and functions

A statement stands where its first token does, and its parts stand in the stretch from there on.  All
rules together keep the contract of stretches (`valid_spanning`).
-/

namespace CSyntax
namespace Grammar

open Script Position

variable {o : Outlook} {N a b c : Nat} {token : Token}

/-! ## Parts of statements -/

theorem spans_condition (hN : N ≤ a + 1) : condition.Spans o N a fun e b =>
    e.Everywhere (placed o.Real) .operand ∧ e.position.Within a b := by
  refine .expect nofun fun _ b hab _ => .call (f := .expression .comma) (by omega) trivial ?_
  rintro e c hbc - ⟨he, hwithin⟩
  exact .expect nofun fun _ d hcd _ => .pure ⟨he, hwithin.mono (by omega) (by omega)⟩

theorem spans_expressionUnless (mark : Punctuator) (hN : N ≤ a + 1) :
    (expressionUnless mark).Spans o N a fun value b =>
      (∀ e ∈ value, e.Everywhere (placed o.Real) .operand) ∧
        Ascend a b (value.map (·.position)).toList := by
  refine .nextIs (fun _ _ _ => (Spans.pure ⟨nofun, .nil⟩).known) ((spans_expression _ hN).bind ?_)
  rintro e b - - ⟨he, hwithin⟩
  refine .pure ⟨?_, .singleton hwithin⟩
  rintro _ ⟨⟩
  exact he

theorem spans_block (hN : N ≤ a + 1) : block.Spans o N a fun items b => a < b ∧
    (∀ s ∈ items, s.Everywhere (placed o.Real)) ∧ Ascend a b (items.map (·.position)) := by
  refine .expect nofun fun _ b hab _ => .enter (.call (f := .blockItems) (by omega) trivial ?_)
  rintro items c hbc - ⟨hitems, hascend⟩
  exact .expect nofun fun _ d hcd _ =>
    .leave (.pure ⟨by omega, hitems, hascend.mono (by omega) (by omega)⟩)

/-- What a loop begins with is in order. -/
def Starting (real : Position → Prop) : ForStart → Prop
  | .declaration group => group.Everywhere (placed real)
  | .expression value => value.Everywhere (placed real) .operand

theorem spans_forStart (hN : N ≤ a + 1) : forStart.Spans o N a fun start b =>
    (∀ s ∈ start, Starting o.Real s) ∧ Ascend a b (start.map (·.position)).toList := by
  refine .accept nofun (fun b hab _ => .pure ⟨nofun, .nil⟩) (.peek fun token _ => ?_)
  split
  · refine (Spans.bind (spans_declarationGroup hN) ?_).known
    rintro group b - - ⟨hgroup, hwithin⟩
    refine .pure ⟨?_, .singleton hwithin⟩
    rintro _ ⟨⟩
    exact hgroup
  · refine (Spans.bind (spans_expression _ hN) ?_).known
    rintro value b - - ⟨hvalue, hwithin⟩
    refine .expect nofun fun _ c hbc _ =>
      .pure ⟨?_, .singleton (hwithin.mono (Nat.le_refl _) (Nat.le_of_lt hbc))⟩
    rintro _ ⟨⟩
    exact hvalue

/-! ## Statements -/

/-- A statement stands where its first token does, and its parts in the stretch that is read. -/
theorem stands_statement {s : Statement} (hshows : o.Shows a token)
    (hposition : s.position = token.position) (hascend : Ascend b c s.parts) (hab : a ≤ b)
    (hac : a < c) (hc : c ≤ o.stop.offset)
    (hexprs : ∀ e ∈ s.exprs, e.Everywhere (placed o.Real) .operand)
    (hgroups : ∀ g ∈ s.groups, g.Everywhere (placed o.Real))
    (hbodies : ∀ t ∈ s.bodies, t.Everywhere (placed o.Real)) :
    s.Everywhere (placed o.Real) ∧ s.position.Within a c := by
  refine ⟨Statement.everywhere_placed (b := c) ?_ ?_ hexprs hgroups hbodies,
    hposition ▸ hshows.within hac⟩
  · rw [hposition]
    exact hshows.real (Nat.lt_of_lt_of_le hac hc)
  · rw [hposition, hshows.offset]
    exact hascend.mono hab (Nat.le_refl _)

theorem spans_forLoop (hshows : o.Shows a token) (hN : N ≤ b + 1) (hab : a < b) :
    (forLoop token.position).Spans o N b fun s c =>
      s.Everywhere (placed o.Real) ∧ s.position.Within a c := by
  refine .expect nofun fun _ c hbc _ => .enter ((spans_forStart (by omega)).bind ?_)
  rintro start d hcd - ⟨hstart, hstartPlace⟩
  refine (spans_expressionUnless _ (by omega)).bind ?_
  rintro condition e hde - ⟨hcondition, hconditionPlace⟩
  refine .expect nofun fun _ f hef _ => (spans_expressionUnless _ (by omega)).bind ?_
  rintro step g hfg - ⟨hstep, hstepPlace⟩
  refine .expect nofun fun _ h hgh _ => .call (f := .statement) (by omega) trivial ?_
  rintro body i hhi hi ⟨hbody, hbodyPlace⟩
  have hascend : Ascend c i (Statement.for token.position start condition step body).parts :=
    ((hstartPlace.append hconditionPlace (by omega) (by omega) (by omega)).append hstepPlace
      (by omega) (by omega) (by omega)).append (.singleton hbodyPlace) (by omega) (by omega) (by omega)
  have hexprs : ∀ x ∈ condition.toList ++ step.toList, x.Everywhere (placed o.Real) .operand :=
    List.forall_mem_append.2 ⟨by simpa using hcondition, by simpa using hstep⟩
  have hbodies : ∀ t ∈ [body], t.Everywhere (placed o.Real) := List.forall_mem_singleton.2 hbody
  refine .leave (.pure (stands_statement hshows rfl hascend (by omega) (by omega) hi ?_ ?_ hbodies))
  · rcases start with _ | group | value
    · exact hexprs
    · exact hexprs
    · exact List.forall_mem_cons.2 ⟨hstart _ rfl, hexprs⟩
  · rcases start with _ | group | value
    · exact nofun
    · exact List.forall_mem_singleton.2 (hstart _ rfl)
    · exact nofun

theorem spans_expressionStatement (hshows : o.Shows a token) (hN : N ≤ a + 1) :
    (expressionStatement token.position).Spans o N a fun s b =>
      s.Everywhere (placed o.Real) ∧ s.position.Within a b := by
  refine (spans_expression _ hN).bind ?_
  rintro value b hab - ⟨hvalue, hwithin⟩
  have hlt : a < b := Nat.lt_of_le_of_lt hwithin.1 hwithin.2
  exact .expect nofun fun _ c hbc hc => .pure (stands_statement hshows rfl (b := a)
    (.singleton (hwithin.mono (Nat.le_refl _) (Nat.le_of_lt hbc))) (Nat.le_refl _) (by omega) hc
    (List.forall_mem_singleton.2 hvalue) nofun nofun)

/-- The token that a statement begins with tells which parts follow, and a body is a statement. -/
theorem spans_labelledStatement (hshows : o.Shows a token) (hN : N ≤ a + 1)
    (hkind : token.kind ≠ .endOfFile) : labelledStatement.SpansFrom o N a token fun s b =>
      s.Everywhere (placed o.Real) ∧ s.position.Within a b := by
  refine .advance hkind fun b hab _ => ?_
  split
  · refine .call (f := .expression .conditional) (by omega) trivial ?_
    rintro value c hbc - ⟨hvalue, hplace⟩
    refine .expect nofun fun _ d hcd _ => .call (f := .statement) (by omega) trivial ?_
    rintro body e hde he ⟨hbody, hplace'⟩
    exact .pure (stands_statement hshows rfl (.cons hplace (.singleton hplace') (by omega) hde)
      (by omega) (by omega) he (List.forall_mem_singleton.2 hvalue) nofun
      (List.forall_mem_singleton.2 hbody))
  · refine .expect nofun fun _ c hbc _ => .call (f := .statement) (by omega) trivial ?_
    rintro body d hcd hd ⟨hbody, hplace⟩
    exact .pure (stands_statement hshows rfl (.singleton hplace) (by omega) (by omega) hd nofun nofun
      (List.forall_mem_singleton.2 hbody))
  · refine .expect nofun fun _ c hbc _ => .call (f := .statement) (by omega) trivial ?_
    rintro body d hcd hd ⟨hbody, hplace⟩
    exact .pure (stands_statement hshows rfl (.singleton hplace) (by omega) (by omega) hd nofun nofun
      (List.forall_mem_singleton.2 hbody))
  · exact .contradictAt

theorem spans_selectionStatement (hshows : o.Shows a token) (hN : N ≤ a + 1)
    (hkind : token.kind ≠ .endOfFile) : selectionStatement.SpansFrom o N a token fun s b =>
      s.Everywhere (placed o.Real) ∧ s.position.Within a b := by
  refine .advance hkind fun b hab _ => (spans_condition (by omega)).bind ?_
  rintro condition c hbc - ⟨hcondition, hplace⟩
  refine .call (f := .statement) (by omega) trivial ?_
  rintro body d hcd hd ⟨hbody, hplace'⟩
  have hexprs : ∀ x ∈ [condition], x.Everywhere (placed o.Real) .operand :=
    List.forall_mem_singleton.2 hcondition
  have hboth : Ascend b d [condition.position, body.position] :=
    .cons hplace (.singleton hplace') (Nat.le_refl _) hcd
  split
  · refine .accept nofun (fun e hde _ => .call (f := .statement) (by omega) trivial ?_) (.pure ?_)
    · rintro otherwise f hef hf ⟨hotherwise, hplace''⟩
      refine .pure (stands_statement hshows rfl (b := b) ?_ (by omega) (by omega) hf hexprs nofun ?_)
      · exact hboth.append (.singleton hplace'') (by omega) (by omega) hef
      · exact List.forall_mem_cons.2 ⟨hbody, List.forall_mem_singleton.2 hotherwise⟩
    · exact stands_statement hshows rfl hboth (by omega) (by omega) hd hexprs nofun
        (List.forall_mem_singleton.2 hbody)
  · exact .pure (stands_statement hshows rfl hboth (by omega) (by omega) hd hexprs nofun
      (List.forall_mem_singleton.2 hbody))
  · exact .contradictAt

theorem spans_iterationStatement (hshows : o.Shows a token) (hN : N ≤ a + 1)
    (hkind : token.kind ≠ .endOfFile) : iterationStatement.SpansFrom o N a token fun s b =>
      s.Everywhere (placed o.Real) ∧ s.position.Within a b := by
  refine .advance hkind fun b hab _ => ?_
  split
  · refine (spans_condition (by omega)).bind ?_
    rintro condition c hbc - ⟨hcondition, hplace⟩
    refine .call (f := .statement) (by omega) trivial ?_
    rintro body d hcd hd ⟨hbody, hplace'⟩
    exact .pure (stands_statement hshows rfl (.cons hplace (.singleton hplace') (Nat.le_refl _) hcd)
      (by omega) (by omega) hd (List.forall_mem_singleton.2 hcondition) nofun
      (List.forall_mem_singleton.2 hbody))
  · refine .call (f := .statement) (by omega) trivial ?_
    rintro body c hbc - ⟨hbody, hplace⟩
    refine .expect nofun fun _ d hcd _ => (spans_condition (by omega)).bind ?_
    rintro condition e hde - ⟨hcondition, hplace'⟩
    refine .expect nofun fun _ f hef hf => .pure (stands_statement hshows rfl (b := b) (c := f) ?_
      (by omega) (by omega) hf (List.forall_mem_singleton.2 hcondition) nofun
      (List.forall_mem_singleton.2 hbody))
    exact .cons hplace (.singleton (hplace'.mono (Nat.le_refl _) (Nat.le_of_lt hef))) (by omega)
      (by omega)
  · exact spans_forLoop hshows (by omega) hab
  · exact .contradictAt

/-- What a jump has behind its word is in order, wherever the semicolon follows. -/
theorem spans_jumpFrom (hshows : o.Shows a token) (hN : N ≤ b + 1) (hab : a < b) :
    (jumpFrom token).Spans o N b fun s c => ∀ d, c < d → d ≤ o.stop.offset →
      s.Everywhere (placed o.Real) ∧ s.position.Within a d := by
  unfold jumpFrom
  split
  · refine .expectWord fun _ c hbc _ => .pure fun d hcd hd => ?_
    exact stands_statement hshows rfl .nil (Nat.le_refl _) (by omega) hd nofun nofun nofun
  · refine .pure fun d hbd hd => ?_
    exact stands_statement hshows rfl .nil (Nat.le_refl _) (by omega) hd nofun nofun nofun
  · refine .pure fun d hbd hd => ?_
    exact stands_statement hshows rfl .nil (Nat.le_refl _) (by omega) hd nofun nofun nofun
  · refine (spans_expressionUnless _ hN).bind ?_
    rintro value c hbc - ⟨hvalue, hplace⟩
    refine .pure fun d hcd hd => ?_
    exact stands_statement hshows rfl (hplace.mono (Nat.le_refl _) (Nat.le_of_lt hcd)) (by omega)
      (by omega) hd (by simpa [Statement.exprs] using hvalue) nofun nofun
  · exact .contradictAt

theorem spans_jumpStatement (hshows : o.Shows a token) (hN : N ≤ a + 1)
    (hkind : token.kind ≠ .endOfFile) : jumpStatement.SpansFrom o N a token fun s b =>
      s.Everywhere (placed o.Real) ∧ s.position.Within a b := by
  refine .advance hkind fun b hab _ => (spans_jumpFrom hshows (by omega) hab).bind ?_
  intro jump c hbc _ hjump
  exact .expect nofun fun _ d hcd hd => .pure (hjump d hcd hd)

theorem spans_statement (hN : N ≤ a + 1) : statement.Spans o N a fun s b =>
    s.Everywhere (placed o.Real) ∧ s.position.Within a b := by
  refine .peek fun token hshows => ?_
  split
  · refine (Spans.bind (spans_block hN) ?_).known
    rintro items b - hb ⟨hab, hitems, hascend⟩
    exact .pure (stands_statement hshows rfl hascend (Nat.le_refl _) hab hb nofun nofun hitems)
  · rename_i hkind
    exact .advance (by simp [hkind]) fun b hab hb =>
      .pure (stands_statement hshows rfl .nil (Nat.le_refl _) hab hb nofun nofun nofun)
  · rename_i word hword
    have hkind : token.kind ≠ .endOfFile := by simp [hword]
    split
    · exact spans_selectionStatement hshows hN hkind
    · exact spans_iterationStatement hshows hN hkind
    · exact spans_jumpStatement hshows hN hkind
    · exact spans_labelledStatement hshows hN hkind
    · exact (spans_expressionStatement hshows hN).known
  · rename_i name hkind
    refine .peekNth fun second => ?_
    split
    · exact spans_labelledStatement hshows hN (by simp [hkind])
    · exact (spans_expressionStatement hshows hN).known
  · exact (spans_expressionStatement hshows hN).known

theorem spans_blockItem (hshows : o.Shows a token) (hN : N ≤ a + 1) :
    (blockItem token).Spans o N a fun s b =>
      s.Everywhere (placed o.Real) ∧ s.position.Within a b := by
  unfold blockItem
  split
  · refine (spans_declarationGroup hN).bind ?_
    rintro group b - hb ⟨hgroup, hwithin⟩
    exact .pure (stands_statement hshows rfl (.singleton hwithin) (Nat.le_refl _)
      (Nat.lt_of_le_of_lt hwithin.1 hwithin.2) hb nofun (List.forall_mem_singleton.2 hgroup) nofun)
  · exact spans_statement hN

theorem spans_blockItems (hN : N ≤ a + 1) : blockItems.Spans o N a fun items b =>
    (∀ s ∈ items, s.Everywhere (placed o.Real)) ∧ Ascend a b (items.map (·.position)) := by
  refine .peek fun token hshows => ?_
  split
  · exact (Spans.pure ⟨nofun, .nil⟩).known
  · exact .refuse
  · refine (Spans.bind (spans_blockItem hshows hN) ?_).known
    rintro first b hab - ⟨hfirst, hwithin⟩
    have hlt : a < b := Nat.lt_of_le_of_lt hwithin.1 hwithin.2
    refine .call (f := .blockItems) (by omega) trivial ?_
    rintro others c hbc - ⟨hothers, hascend⟩
    exact .pure ⟨List.forall_mem_cons.2 ⟨hfirst, hothers⟩,
      .cons hwithin hascend (Nat.le_refl _) hbc⟩

/-! ## Functions and units -/

theorem spans_declareParameters (list : List Parameter) :
    (declareParameters list).Spans o N a fun _ _ => True := by
  induction list with
  | nil => exact .pure trivial
  | cons first others ih =>
      unfold declareParameters
      split
      · exact .declare ih
      · exact ih

theorem stand_parameters {d : Declarator} {list : List Parameter} (hd : d.Stands o.Real a b)
    (hlist : d.parameters? = some list) : Parameter.Stand o.Real a b list := by
  unfold Declarator.parameters? at hlist
  split at hlist
  · rename_i variadic hlast
    obtain rfl := Option.some.inj hlist
    cases hd.modifiers _ (List.mem_of_getLast? hlast) with
    | function h => exact h
  · cases hlist

theorem spans_functionDefinition {specifiers : Specifiers} {d : Declarator} (hN : N ≤ b + 1)
    (hab : a ≤ b) (h : specifiers.base.Everywhere (placed o.Real)) (hreal : o.Real specifiers.position)
    (hlt : specifiers.position.offset < a) (hd : d.Stands o.Real a b) :
    (functionDefinition specifiers d).Spans o N b fun f _ =>
      f.Everywhere (placed o.Real) ∧ f.position = specifiers.position := by
  unfold functionDefinition
  split
  · exact .contradict
  · split
    · exact .fail
    · split
      · exact .contradict
      · rename_i list hlist
        have hparameters := stand_parameters hd hlist
        refine .declare (.expect nofun fun _ c hbc _ =>
          .enter ((spans_declareParameters list).bind fun _ d hcd _ _ =>
            .call (f := .blockItems) (by omega) trivial ?_))
        rintro body e hde - ⟨hbody, hascend⟩
        refine .expect nofun fun _ f hef _ => .leave (.pure ⟨⟨⟨hreal, hparameters.real, ?_⟩,
          everywhere_placed h hd, hparameters.types, hbody⟩, rfl⟩)
        exact (hparameters.ascend.append hascend (by omega) hab hde).pairwise_cons hlt

theorem spans_externalDeclaration (hN : N ≤ a + 1) : externalDeclaration.Spans o N a fun d b =>
    d.Everywhere (placed o.Real) ∧ d.position.Within a b := by
  refine (spans_specifiers hN).bind ?_
  rintro specifiers b hab - ⟨hbase, hwithin, hreal⟩
  have behind : ∀ {p : Position} {c : Nat}, p = specifiers.position → b ≤ c → p.Within a c :=
    fun hsame hbc => hsame ▸ hwithin.mono (Nat.le_refl _) hbc
  refine .accept nofun (fun c hbc _ => ?_) ((spans_declarator _ (by omega)).bind ?_)
  · exact .pure ⟨everywhere_declarations hbase hreal hwithin.2 (declarations_nil (b := c)),
      behind rfl (Nat.le_of_lt hbc)⟩
  · intro d c hbc _ hd
    have group : (groupFrom specifiers d >>= fun group =>
        pure (ExternalDeclaration.declaration group)).Spans o N c fun d b =>
          d.Everywhere (placed o.Real) ∧ d.position.Within a b := by
      refine (spans_groupFrom (by omega) hbc hbase hreal hwithin.2 hd).bind ?_
      rintro group e hce - ⟨hgroup, hsame⟩
      exact .pure ⟨hgroup, behind hsame (by omega)⟩
    split
    · refine .nextIs (fun _ _ _ => (Spans.bind (spans_functionDefinition (by omega) hbc hbase hreal
        hwithin.2 hd) ?_).known) group
      rintro f e hce - ⟨hf, hsame⟩
      exact .pure ⟨hf, behind hsame (by omega)⟩
    · exact group

theorem spans_externalDeclarations (hN : N ≤ a + 1) : externalDeclarations.Spans o N a fun list b =>
    (∀ d ∈ list, d.Everywhere (placed o.Real)) ∧ Ascend a b (list.map (·.position)) := by
  refine .peek fun token hshows => ?_
  split
  · exact (Spans.pure ⟨nofun, .nil⟩).known
  · refine (Spans.bind (spans_externalDeclaration hN) ?_).known
    rintro first b hab - ⟨hfirst, hwithin⟩
    have hlt : a < b := Nat.lt_of_le_of_lt hwithin.1 hwithin.2
    refine .call (f := .externalDeclarations) (by omega) trivial ?_
    rintro others c hbc - ⟨hothers, hascend⟩
    exact .pure ⟨List.forall_mem_cons.2 ⟨hfirst, hothers⟩,
      .cons hwithin hascend (Nat.le_refl _) hbc⟩

/-! ## All rules -/

/-- A rule calls others further on than where it is begun. -/
theorem spans_script (f : Nonterminal) (hN : N ≤ a + 1) (hf : f.StartsAt o.Real a) :
    (script f).Spans o N a (fun result b => f.Covers o.Real a b result) := by
  cases f with
  | expression limit => exact spans_expression limit hN
  | infixTail limit left => exact spans_infixTail limit hN hf.1 hf.2
  | postfixTail operand => exact spans_postfixTail hN hf.1 hf.2
  | «arguments» => exact spans_arguments hN
  | adjacentStrings => exact spans_adjacentStrings hN
  | typeName => exact spans_typeName hN
  | specifierTail tally => exact spans_specifierTail hN hf
  | members => exact spans_members hN
  | memberDeclarators specifiers => exact spans_memberDeclarators hN hf
  | enumerators => exact spans_enumerators hN
  | pointerTail => exact spans_pointerTail hN
  | declarator mode => exact spans_declarator mode hN
  | suffixes => exact spans_suffixes hN
  | parameters => exact spans_parameters hN
  | initializerItems => exact spans_initializerItems hN
  | initDeclarators specifiers => exact spans_initDeclarators hN hf
  | statement => exact spans_statement hN
  | blockItems => exact spans_blockItems hN
  | externalDeclarations => exact spans_externalDeclarations hN

end Grammar

/-- Every rule reads a stretch of the text, whatever the offset from which rules are begun. -/
theorem valid_spanning (o : Outlook) (N : Nat) : (spanning o N).Valid := by
  rintro f x ⟨hrests, hN, hstop, hf⟩
  exact Grammar.spans_script f (Nat.le_succ_of_le hN) hf x hrests rfl hstop

end CSyntax
