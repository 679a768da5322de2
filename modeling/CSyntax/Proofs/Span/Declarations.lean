import CSyntax.Proofs.Span.Expressions

/-!
# Declarations — the stretches of declarations

The specifiers of a declaration take up a stretch, its declarators stretches behind it, and the
initial values stretches behind their declarators.  Parameters stand in the stretch of the declarator
whose wrapping they are in.
-/

namespace CSyntax
namespace Grammar

open Script Position

variable {β : Type} {o : Outlook} {N a b : Nat}

/-! ## Declarators -/

theorem spans_pointerTail (hN : N ≤ a + 1) : pointerTail.Spans o N a fun _ _ => True := by
  refine .peek fun token _ => ?_
  split
  · rename_i hkind
    exact .advance (by simp [hkind]) fun b hab _ =>
      .call (by omega) trivial fun _ _ _ _ _ => .pure trivial
  · rename_i hkind
    exact .advance (by simp [hkind]) fun b hab _ => .rule (by omega) trivial fun _ _ _ _ => trivial
  · rename_i hkind
    exact .advance (by simp [hkind]) fun b hab _ => .rule (by omega) trivial fun _ _ _ _ => trivial
  · exact (Spans.pure trivial).known

theorem spans_pointers (hN : N ≤ a + 1) : pointers.Spans o N a fun _ _ => True :=
  .accept nofun
    (fun b hab _ => .call (f := .pointerTail) (by omega) trivial fun _ _ _ _ _ => .pure trivial)
    (.pure trivial)

/-- The parenthesis behind a lonely `void` has been seen before the word is taken. -/
theorem meets_isVoid (x : Site) :
    parameterList.isVoid.Meets (spanning o N) x fun found y _ => y = x ∧ (found = true →
      ∃ first second, x.ahead 0 = some first ∧ first.kind = .keyword .void ∧
        x.ahead 1 = some second ∧ second.kind = .punctuator .closeParen) := by
  refine ⟨trivial, ?_⟩
  rintro first y ⟨rfl, hfirst, -⟩
  change Meets _ (if decide (first.kind = .keyword .void) = true then _ else _) y _
  split
  · rename_i hvoid
    refine ⟨trivial, ?_⟩
    rintro second z ⟨rfl, hsecond, -⟩
    refine ⟨rfl, fun hclosed => ?_⟩
    exact ⟨first, second, hfirst, of_decide_eq_true hvoid, hsecond, of_decide_eq_true hclosed⟩
  · exact ⟨rfl, nofun⟩

theorem stand_nil {real : Position → Prop} : Parameter.Stand real a b [] :=
  ⟨nofun, nofun, .nil⟩

theorem spans_parameterList (hN : N ≤ a) :
    parameterList.Spans o N a fun list b => Parameter.Stand o.Real a b list.1 := by
  intro x hrests hhere hstop
  refine (meets_isVoid x).bind ?_
  rintro found _ - ⟨rfl, hvoid⟩
  dsimp only
  split
  · obtain ⟨first, second, hfirst, hword, hsecond, hclose⟩ := hvoid (by assumption)
    refine ⟨trivial, fun token y hstep => ?_⟩
    obtain rfl : first = token := Option.some.inj (hfirst.symm.trans hstep.1)
    obtain ⟨hy, hlt, hby⟩ := hrests.advance hstep (by simp [hword])
    refine ⟨trivial, fun token' z hstep' => ?_⟩
    obtain rfl : second = token' := by
      refine Option.some.inj (hsecond.symm.trans ?_)
      rw [← hstep'.1, hstep.2.1]
    obtain ⟨hz, hlt', hbz⟩ := hy.advance hstep' (by simp [hclose])
    exact ⟨hz, by omega, hbz, stand_nil⟩
  · have hrest : (do
        Script.enter .block
        let list ← parameterList.parametersUnlessClosed
        let close ← expectMark .closeParen
        Script.leave close.position
        return list).Spans o N a fun list b => Parameter.Stand o.Real a b list.1 := by
      have hlist : parameterList.parametersUnlessClosed.Spans o N a fun list b =>
          Parameter.Stand o.Real a b list.1 :=
        .nextIs (fun _ _ _ => (Spans.pure stand_nil).known) (.rule hN trivial fun _ _ _ h => h)
      refine .enter (hlist.bind fun list b hab _ h => ?_)
      exact .expect nofun fun close c hbc _ =>
        .leave (.pure (h.mono (Nat.le_refl _) (Nat.le_of_lt hbc)))
    exact hrest _ hrests hhere hstop

theorem spans_suffixes (hN : N ≤ a + 1) :
    suffixes.Spans o N a fun modifiers b => ∀ m ∈ modifiers, m.Stands o.Real a b := by
  -- One more wrapping is read before the others.
  have more : ∀ {m : TypeModifier} {b : Nat}, m.Stands o.Real a b → a < b →
      (do
        let others ← Script.rule .suffixes
        return m :: others).Spans o N b fun modifiers c => ∀ m ∈ modifiers, m.Stands o.Real a c := by
    intro m b hm hab
    refine .call (f := .suffixes) (by omega) trivial fun others c hbc _ hothers => .pure ?_
    refine List.forall_mem_cons.2 ⟨hm.mono (Nat.le_refl _) hbc, fun m' hm' => ?_⟩
    exact (hothers m' hm').mono (Nat.le_of_lt hab) (Nat.le_refl _)
  refine .accept nofun (fun b hab _ => ?_) (.accept nofun (fun b hab _ => ?_) (.pure nofun))
  · refine .accept nofun (fun c hbc _ => more (.array nofun) (by omega)) ?_
    refine .call (f := .expression .conditional) (by omega) trivial ?_
    rintro size c hbc - ⟨hsize, -⟩
    refine .expect nofun fun _ d hcd _ => more (.array ?_) (by omega)
    rintro _ ⟨⟩
    exact hsize
  · refine (spans_parameterList (by omega)).bind ?_
    rintro ⟨list, variadic⟩ c hbc - hlist
    exact more (.function (hlist.mono (Nat.le_of_lt hab) (Nat.le_refl _))) (by omega)

/-- Looking behind the parenthesis takes nothing. -/
theorem spans_opensDeclarator {mode : DeclaratorMode} {token : Token} {next : Bool → Script β}
    {Q : β → Nat → Prop} (h : ∀ nested, (next nested).SpansFrom o N a token Q) :
    (opensDeclarator mode >>= next).SpansFrom o N a token Q := by
  cases mode with
  | named => exact h true
  | nameless =>
      change (Script.peekNth 1 >>= _ >>= next).SpansFrom o N a token Q
      rw [bind_assoc]
      refine .peekNth fun second => ?_
      split <;> exact h _
  | either =>
      change (Script.peekNth 1 >>= _ >>= next).SpansFrom o N a token Q
      rw [bind_assoc]
      refine .peekNth fun second => ?_
      split <;> exact h _

theorem spans_declaratorCore (mode : DeclaratorMode) (hN : N ≤ a + 1) :
    (declaratorCore mode).Spans o N a fun d b => d.Stands o.Real a b := by
  have nameless : ∀ {token : Token}, (pure { name := none, modifiers := [] } : Script Declarator).SpansFrom
      o N a token fun d b => d.Stands o.Real a b :=
    (Spans.pure ⟨nofun, nofun⟩).known
  refine .peek fun token hshows => ?_
  have named : ∀ name : String, token.kind ≠ .endOfFile → (do
      let _ ← Script.advance
      return ({ name := some (name, token.position), modifiers := [] } : Declarator)).SpansFrom
        o N a token fun d b => d.Stands o.Real a b := by
    intro name hkind
    refine .advance hkind fun b hab hb => .pure ⟨?_, nofun⟩
    rintro _ ⟨⟩
    exact ⟨hshows.within hab, hshows.real (by omega)⟩
  split
  · rename_i hkind
    split
    · exact nameless
    · exact named _ (by simp [hkind])
  · rename_i hkind
    split
    · exact nameless
    · exact named _ (by simp [hkind])
  · rename_i hkind
    refine spans_opensDeclarator fun nested => ?_
    split
    · refine .advance (by simp [hkind]) fun b hab _ =>
        .call (f := .declarator mode) (by omega) trivial fun inner c hbc _ hinner =>
          .expect nofun fun _ d hcd _ => .pure ⟨fun n hn => ?_, fun m hm => ?_⟩
      · obtain ⟨hwithin, hreal⟩ := hinner.name n hn
        exact ⟨hwithin.mono (by omega) (by omega), hreal⟩
      · exact (hinner.modifiers m hm).mono (by omega) (by omega)
    · exact nameless
  · split
    · exact .refuse
    · exact nameless

theorem spans_declarator (mode : DeclaratorMode) (hN : N ≤ a + 1) :
    (declarator mode).Spans o N a fun d b => d.Stands o.Real a b := by
  refine (spans_pointers hN).bind fun count b hab _ _ =>
    (spans_declaratorCore mode (by omega)).bind fun core c hbc _ hcore =>
      (spans_suffixes (by omega)).bind fun after d hcd _ hafter => .pure ⟨fun n hn => ?_, ?_⟩
  · obtain ⟨hwithin, hreal⟩ := hcore.name n hn
    exact ⟨hwithin.mono hab hcd, hreal⟩
  · intro m hm
    rcases List.mem_append.1 hm with hm | hinner
    · rcases List.mem_append.1 hm with hpointer | hsuffix
      · rw [List.eq_of_mem_replicate hpointer]
        exact .pointer
      · exact (hafter m (List.mem_reverse.1 hsuffix)).mono (by omega) (Nat.le_refl _)
    · exact (hcore.modifiers m hinner).mono hab hcd

/-! ## Specifiers, parameters and members -/

theorem spans_requireTag (tag : Option String) : (requireTag tag).Spans o N a fun _ _ => True := by
  cases tag with
  | some _ => exact .pure trivial
  | none => exact .peek fun _ _ => .refuse

theorem spans_record (kind : RecordKind) (hN : N ≤ a) :
    (record kind).Spans o N a fun type _ => type.Everywhere (placed o.Real) := by
  refine .acceptWord fun tag b hab _ => .accept nofun (fun c hbc _ => ?_) ?_
  · refine .enter (.call (f := .members) (by omega) trivial fun members d _ _ hmembers => ?_)
    exact .expect nofun fun close e _ _ =>
      .leave (.pure (.intro trivial (List.forall_mem_map.2 hmembers) nofun))
  · exact (spans_requireTag tag).bind fun _ _ _ _ _ => .pure (.intro trivial nofun nofun)

theorem spans_recordType {token : Token} (hN : N ≤ a + 1) (hkind : token.kind ≠ .endOfFile) :
    recordType.SpansFrom o N a token fun type b => type.Everywhere (placed o.Real) ∧ a < b := by
  refine .advance hkind fun b hab _ => ?_
  split
  · exact (spans_record _ (by omega)).weaken fun type c hbc htype => ⟨htype, by omega⟩
  · exact (spans_record _ (by omega)).weaken fun type c hbc htype => ⟨htype, by omega⟩
  · exact .contradictAt

theorem spans_enumeration (hN : N ≤ a) :
    enumeration.Spans o N a fun type _ => type.Everywhere (placed o.Real) := by
  refine .acceptWord fun tag b hab _ => .accept nofun (fun c hbc _ => ?_) ?_
  · refine .call (f := .enumerators) (by omega) trivial fun enumerators d _ _ henumerators =>
      .expect nofun fun close e _ _ => .pure (.intro trivial nofun ?_)
    intro value hvalue
    obtain ⟨enumerator, hmem, hsome⟩ := List.mem_filterMap.1 hvalue
    exact henumerators enumerator hmem value hsome
  · exact (spans_requireTag tag).bind fun _ _ _ _ _ => .pure (.intro trivial nofun nofun)

theorem spans_enumerationType (hN : N ≤ a + 1) :
    enumerationType.Spans o N a fun type b => type.Everywhere (placed o.Real) ∧ a < b :=
  .expect nofun fun _ b hab _ =>
    (spans_enumeration (by omega)).weaken fun type c hbc htype => ⟨htype, by omega⟩

theorem spans_enumerator (hN : N ≤ a + 1) : enumerator.Spans o N a fun enumerator b =>
    a < b ∧ ∀ value ∈ enumerator.value, value.Everywhere (placed o.Real) .operand := by
  refine .expectWord fun name b hab _ => .declareEnumerator (.accept nofun (fun c hbc _ => ?_) ?_)
  · refine .call (f := .expression .conditional) (by omega) trivial ?_
    rintro value d hcd - ⟨hvalue, -⟩
    refine .pure ⟨by omega, ?_⟩
    rintro _ ⟨⟩
    exact hvalue
  · exact .pure ⟨hab, nofun⟩

theorem spans_enumerators (hN : N ≤ a + 1) : enumerators.Spans o N a fun enumerators _ =>
    ∀ e ∈ enumerators, ∀ value ∈ e.value, value.Everywhere (placed o.Real) .operand := by
  refine .nextIs (fun _ _ _ => (Spans.pure nofun).known) ((spans_enumerator hN).bind ?_)
  rintro first b - - ⟨hab, hfirst⟩
  refine .accept nofun (fun c hbc _ => ?_) (.pure (List.forall_mem_singleton.2 hfirst))
  exact .call (f := .enumerators) (by omega) trivial fun others d _ _ hothers =>
    .pure (List.forall_mem_cons.2 ⟨hfirst, hothers⟩)

/-- A type that has been read stands in the tally. -/
def Holds (real : Position → Prop) (tally : SpecifierTally) : Prop :=
  ∀ type ∈ tally.other, type.Everywhere (placed real)

theorem holds_other {real : Position → Prop} {tally : SpecifierTally} {type : CType}
    (h : type.Everywhere (placed real)) : Holds real { tally with other := some type } := by
  rintro _ ⟨⟩
  exact h

theorem spans_typeWord {tally : SpecifierTally} {token : Token} (word : Keyword)
    (hkind : token.kind ≠ .endOfFile) (h : Holds o.Real tally) :
    (typeWord tally token word).SpansFrom o N a token fun t b => Holds o.Real t ∧ a < b := by
  unfold typeWord
  split
  · exact .refuse
  · refine .advance hkind fun b hab _ => ?_
    split
    · split
      · exact .pure ⟨h, hab⟩
      · exact .refuse
    · exact .contradictAt

theorem spans_taggedType {tally : SpecifierTally} {token : Token} (word : Keyword) (hN : N ≤ a + 1)
    (hkind : token.kind ≠ .endOfFile) :
    (taggedType tally token word).SpansFrom o N a token fun t b => Holds o.Real t ∧ a < b := by
  unfold taggedType
  split
  · exact .refuse
  · split
    · exact (spans_enumerationType hN).known.bind fun type b _ _ ⟨htype, hab⟩ =>
        .pure ⟨holds_other htype, hab⟩
    · exact (spans_recordType hN hkind).bind fun type b _ _ ⟨htype, hab⟩ =>
        .pure ⟨holds_other htype, hab⟩

/-- Every specifier takes some token. -/
theorem spans_specifier {tally : SpecifierTally} (hN : N ≤ a + 1) (h : Holds o.Real tally) :
    (specifier tally).Spans o N a fun next b => ∀ t ∈ next, Holds o.Real t ∧ a < b := by
  have read : ∀ {t : SpecifierTally} {b : Nat}, Holds o.Real t → a < b →
      ∀ u ∈ some t, Holds o.Real u ∧ a < b := by
    rintro t b ht hab _ ⟨⟩
    exact ⟨ht, hab⟩
  have modified : ∀ word, Holds o.Real (tally.addModifier word) := by
    intro word
    simpa [Holds] using h
  refine .peek fun token _ => ?_
  split
  · rename_i word hword
    have hkind : token.kind ≠ .endOfFile := by simp [hword]
    split
    · split
      · exact .refuse
      · exact .advance hkind fun b hab _ => .pure (read (modified word) hab)
    · split
      · exact .advance hkind fun b hab _ => .pure (read (modified word) hab)
      · split
        · exact (spans_typeWord word hkind h).bind fun t b _ _ ht => .pure (read ht.1 ht.2)
        · split
          · exact (spans_taggedType word hN hkind).bind fun t b _ _ ht => .pure (read ht.1 ht.2)
          · exact (Spans.pure nofun).known
  · rename_i hkind
    split
    · exact (Spans.pure nofun).known
    · exact .advance (by simp [hkind]) fun b hab _ =>
        .pure (read (holds_other (.intro trivial nofun nofun)) hab)
  · exact (Spans.pure nofun).known

theorem spans_specifierTail {tally : SpecifierTally} (hN : N ≤ a + 1) (h : Holds o.Real tally) :
    (specifierTail tally).Spans o N a fun tally' b =>
      Holds o.Real tally' ∧ (b = a → tally' = tally) := by
  refine (spans_specifier hN h).bind fun next b hab _ hnext => ?_
  split
  · rename_i t
    obtain ⟨ht, hlt⟩ := hnext t rfl
    refine .rule (f := .specifierTail t) (by omega) ht ?_
    rintro tally' c hbc ⟨htally, -⟩
    exact ⟨htally, by omega⟩
  · exact .pure ⟨h, fun _ => rfl⟩

/-- The specifiers of a declaration take up a stretch of their own, as one of them names a type. -/
theorem spans_specifiers (hN : N ≤ a + 1) : specifiers.Spans o N a fun specifiers b =>
    specifiers.base.Everywhere (placed o.Real) ∧ specifiers.position.Within a b ∧
      o.Real specifiers.position := by
  have hempty : Holds o.Real .empty := fun _ htype => by cases htype
  refine .here fun token hshows => (spans_specifierTail hN hempty).bind ?_
  rintro tally b hab hb ⟨htally, hsame⟩
  split
  · rename_i base hbase
    have hlt : a < b := by
      refine Nat.lt_of_le_of_ne hab fun heq => ?_
      rw [hsame heq.symm] at hbase
      cases hbase
    refine .pure ⟨?_, hshows.within hlt, hshows.real (by omega)⟩
    -- The base is the type that was read, or a name alone.
    unfold SpecifierTally.type? at hbase
    split at hbase
    · rename_i type hother
      obtain rfl := Option.some.inj hbase
      exact htally _ hother
    · obtain ⟨name, -, rfl⟩ := Option.map_eq_some_iff.1 hbase
      exact .intro trivial (List.forall_mem_nil _) (List.forall_mem_nil _)
  · exact .peek fun _ _ => .refuse

theorem everywhere_placed {base : CType} {d : Declarator} (h : base.Everywhere (placed o.Real))
    (hd : d.Stands o.Real a b) : (d.type base).Everywhere (placed o.Real) :=
  h.wrap allowWrapping_placed fun m hm => (hd.modifiers m hm).everywhere

theorem spans_typeName (hN : N ≤ a + 1) :
    typeName.Spans o N a fun type _ => type.Everywhere (placed o.Real) := by
  refine (spans_specifiers hN).bind ?_
  rintro specifiers b hab - ⟨hbase, -⟩
  exact (spans_declarator _ (by omega)).bind fun d c _ _ hd => .pure (everywhere_placed hbase hd)

theorem spans_parameter (hN : N ≤ a + 1) : parameter.Spans o N a fun p b =>
    p.type.Everywhere (placed o.Real) ∧ o.Real p.position ∧ p.position.Within a b := by
  refine .here fun token hshows => (spans_specifiers hN).bind ?_
  rintro specifiers b hab hb ⟨hbase, hwithin, -⟩
  have hlt : a < b := Nat.lt_of_le_of_lt hwithin.1 hwithin.2
  refine (spans_declarator _ (by omega)).bind fun d c hbc _ hd => ?_
  have hparameter : (d.type specifiers.base).Everywhere (placed o.Real) ∧ o.Real token.position ∧
      token.position.Within a c :=
    ⟨everywhere_placed hbase hd, hshows.real (by omega), hshows.within (by omega)⟩
  dsimp only
  split
  · exact .declare (.pure hparameter)
  · exact .pure hparameter

theorem spans_parameters (hN : N ≤ a + 1) :
    parameters.Spans o N a fun list b => Parameter.Stand o.Real a b list.1 := by
  refine .accept nofun (fun b hab _ => .pure stand_nil) ((spans_parameter hN).bind ?_)
  rintro first b hab - ⟨htype, hreal, hwithin⟩
  refine .accept nofun (fun c hbc _ => ?_) (.pure ?_)
  · refine .call (f := .parameters) (by omega) trivial fun list d hcd _ hlist => .pure ?_
    exact ⟨List.forall_mem_cons.2 ⟨htype, hlist.types⟩, List.forall_mem_cons.2 ⟨hreal, hlist.real⟩,
      .cons hwithin hlist.ascend (by omega) hcd⟩
  · exact ⟨List.forall_mem_singleton.2 htype, List.forall_mem_singleton.2 hreal, .singleton hwithin⟩

theorem spans_memberDeclarators {specifiers : Specifiers} (hN : N ≤ a + 1)
    (h : specifiers.base.Everywhere (placed o.Real)) :
    (memberDeclarators specifiers).Spans o N a fun members _ =>
      ∀ member ∈ members, member.type.Everywhere (placed o.Real) := by
  refine (spans_declarator _ hN).bind fun d b hab _ hd => ?_
  split
  · exact .contradict
  · refine .accept nofun (fun c hbc _ => ?_)
      (.pure (List.forall_mem_singleton.2 (everywhere_placed h hd)))
    exact .call (f := .memberDeclarators specifiers) (by omega) h fun others e _ _ hothers =>
      .pure (List.forall_mem_cons.2 ⟨everywhere_placed h hd, hothers⟩)

theorem spans_memberDeclaration (hN : N ≤ a + 1) : memberDeclaration.Spans o N a fun members b =>
    a < b ∧ ∀ member ∈ members, member.type.Everywhere (placed o.Real) := by
  refine (spans_specifiers hN).bind ?_
  rintro specifiers b hab - ⟨hbase, hwithin, -⟩
  have hlt : a < b := Nat.lt_of_le_of_lt hwithin.1 hwithin.2
  split
  · exact .fail
  · refine .call (f := .memberDeclarators specifiers) (by omega) hbase fun members c hbc _ hmembers =>
      .peek fun token _ => ?_
    split
    · rename_i hkind
      exact .advance (by simp [hkind]) fun d hcd _ => .pure ⟨by omega, hmembers⟩
    · exact .refuse

theorem spans_members (hN : N ≤ a + 1) : members.Spans o N a fun members _ =>
    ∀ member ∈ members, member.type.Everywhere (placed o.Real) := by
  refine .nextIs (fun _ _ _ => (Spans.pure nofun).known) ((spans_memberDeclaration hN).bind ?_)
  rintro first b - - ⟨hlt, hfirst⟩
  exact .call (f := .members) (by omega) trivial fun others c _ _ hothers =>
    .pure (List.forall_mem_append.2 ⟨hfirst, hothers⟩)

/-! ## Declarations -/

theorem spans_initialValue (hN : N ≤ a + 1) : initialValue.Spans o N a fun e b =>
    e.Everywhere (placed o.Real) .initial ∧ e.position.Within a b := by
  refine .here fun token hshows => .accept nofun (fun b hab _ => ?_) ?_
  · refine .call (f := .initializerItems) (by omega) trivial ?_
    rintro items c hbc - ⟨hitems, hascend⟩
    refine .expect nofun fun _ d hcd hd => .pure ⟨?_, hshows.within (by omega)⟩
    refine Expr.everywhere_before (hshows.real (by omega)) rfl nofun hitems hascend ?_
    exact Nat.lt_of_le_of_lt (Nat.le_of_eq hshows.offset) hab
  · refine (spans_expression _ hN).weaken ?_
    rintro e b - ⟨he, hwithin⟩
    exact ⟨he.inRole _, hwithin⟩

theorem spans_initializerItems (hN : N ≤ a + 1) : initializerItems.Spans o N a fun items b =>
    (∀ e ∈ items, e.Everywhere (placed o.Real) .initial) ∧ Ascend a b (items.map (·.position)) := by
  refine .nextIs (fun _ _ _ => (Spans.pure ⟨nofun, .nil⟩).known) ((spans_initialValue hN).bind ?_)
  rintro first b hab - ⟨hfirst, hwithin⟩
  refine .accept nofun (fun c hbc _ => .call (f := .initializerItems) ?_ trivial ?_) (.pure ?_)
  · have := hwithin.1
    have := hwithin.2
    omega
  · rintro others d hcd - ⟨hothers, hascend⟩
    exact .pure ⟨List.forall_mem_cons.2 ⟨hfirst, hothers⟩, .cons hwithin hascend (by omega) hcd⟩
  · exact ⟨List.forall_mem_singleton.2 hfirst, .singleton hwithin⟩

theorem spans_initial? (specifiers : Specifiers) (hN : N ≤ a + 1) :
    (initial? specifiers).Spans o N a fun initial b =>
      (∀ e ∈ initial, e.Everywhere (placed o.Real) .initial) ∧
        Ascend a b (initial.map (·.position)).toList := by
  unfold initial?
  split
  · exact .pure ⟨nofun, .nil⟩
  · refine .accept nofun (fun b hab _ => (spans_initialValue (by omega)).bind ?_) (.pure ⟨nofun, .nil⟩)
    rintro e c hbc - ⟨he, hwithin⟩
    refine .pure ⟨?_, .singleton (hwithin.mono (Nat.le_of_lt hab) (Nat.le_refl _))⟩
    rintro _ ⟨⟩
    exact he

/-- The declarator has been read up to where the initial value begins. -/
theorem spans_initDeclarator {specifiers : Specifiers} {d : Declarator} (hN : N ≤ b + 1)
    (h : specifiers.base.Everywhere (placed o.Real)) (hd : d.Stands o.Real a b) :
    (initDeclarator specifiers d).Spans o N b fun declaration c =>
      declaration.Everywhere (placed o.Real) ∧ o.Real declaration.position ∧
        Ascend a c declaration.places := by
  unfold initDeclarator
  split
  · exact .contradict
  · rename_i name position hname
    obtain ⟨hwithin, hreal⟩ := hd.name _ hname
    refine .declare ((spans_initial? specifiers hN).bind ?_)
    rintro initial c hbc - ⟨hinitial, hascend⟩
    exact .pure ⟨⟨everywhere_placed h hd, hinitial⟩, hreal,
      .cons hwithin hascend (Nat.le_refl _) hbc⟩

theorem spans_declarations {specifiers : Specifiers} {d : Declarator} (hN : N ≤ b + 1) (hab : a ≤ b)
    (h : specifiers.base.Everywhere (placed o.Real)) (hd : d.Stands o.Real a b) :
    (declarations specifiers d).Spans o N b fun list c => Declaration.Stand o.Real a c list := by
  refine (spans_initDeclarator hN h hd).bind ?_
  rintro first c hbc - ⟨hfirst, hreal, hplaces⟩
  refine .accept nofun (fun e hce _ => ?_) (.pure ?_)
  · refine .call (f := .initDeclarators specifiers) (by omega) h fun others f hef _ hothers =>
      .pure ?_
    exact ⟨List.forall_mem_cons.2 ⟨hfirst, hothers.everywhere⟩,
      List.forall_mem_cons.2 ⟨hreal, hothers.real⟩,
      hplaces.append hothers.ascend (by omega) (by omega) hef⟩
  · exact ⟨List.forall_mem_singleton.2 hfirst, List.forall_mem_singleton.2 hreal,
      by simpa using hplaces⟩

theorem spans_initDeclarators {specifiers : Specifiers} (hN : N ≤ a + 1)
    (h : specifiers.base.Everywhere (placed o.Real)) :
    (initDeclarators specifiers).Spans o N a fun list b => Declaration.Stand o.Real a b list :=
  (spans_declarator _ hN).bind fun d b hab _ hd => spans_declarations (by omega) hab h hd

/-- The specifiers of a group stand in the stretch before its declarations. -/
theorem everywhere_declarations {specifiers : Specifiers} {list : List Declaration} {c : Nat}
    (h : specifiers.base.Everywhere (placed o.Real)) (hreal : o.Real specifiers.position)
    (hlt : specifiers.position.offset < b) (hlist : Declaration.Stand o.Real b c list) :
    DeclarationGroup.Everywhere (placed o.Real)
      { base := specifiers.base, declarations := list, position := specifiers.position } :=
  ⟨⟨hreal, hlist.real, hlist.ascend.pairwise_cons hlt⟩, h, hlist.everywhere⟩

theorem declarations_nil {real : Position → Prop} : Declaration.Stand real a b [] :=
  ⟨nofun, nofun, .nil⟩

theorem spans_groupFrom {specifiers : Specifiers} {d : Declarator} (hN : N ≤ b + 1) (hab : a ≤ b)
    (h : specifiers.base.Everywhere (placed o.Real)) (hreal : o.Real specifiers.position)
    (hlt : specifiers.position.offset < a) (hd : d.Stands o.Real a b) :
    (groupFrom specifiers d).Spans o N b fun group _ =>
      group.Everywhere (placed o.Real) ∧ group.position = specifiers.position :=
  (spans_declarations hN hab h hd).bind fun _ _ _ _ hlist => .expect nofun fun _ _ _ _ =>
    .pure ⟨everywhere_declarations h hreal hlt hlist, rfl⟩

theorem spans_declarationGroup (hN : N ≤ a + 1) : declarationGroup.Spans o N a fun group b =>
    group.Everywhere (placed o.Real) ∧ group.position.Within a b := by
  refine (spans_specifiers hN).bind ?_
  rintro specifiers b hab - ⟨hbase, hwithin, hreal⟩
  refine .accept nofun (fun c hbc _ => ?_) ((spans_declarator _ (by omega)).bind ?_)
  · exact .pure ⟨everywhere_declarations hbase hreal hwithin.2 (declarations_nil (b := c)),
      hwithin.mono (Nat.le_refl _) (Nat.le_of_lt hbc)⟩
  · intro d c hbc _ hd
    refine (spans_groupFrom (by omega) hbc hbase hreal hwithin.2 hd).weaken ?_
    rintro group e hce ⟨hgroup, hsame⟩
    exact ⟨hgroup, hsame ▸ hwithin.mono (Nat.le_refl _) (by omega)⟩

end Grammar
end CSyntax
