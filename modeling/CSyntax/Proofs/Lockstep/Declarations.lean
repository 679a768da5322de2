import CSyntax.Proofs.Lockstep.Expressions

/-!
# Declarations — the scripts of types and declarations agree with themselves

Specifiers, declarators and declarations are built from data that differ in positions alone, and so
are the types and the parameters drawn from them.  Where a name has been asked for there is one, so
the contradiction of a declaration without a name is not reached.
-/

namespace CSyntax
namespace Grammar

open Script (Sync SyncAt SyncIf)
open Script.Sync

variable {K : Correspondence} {guarded sinks : Bool}

/-! ## Declarators -/

theorem sync_pointerTail : Sync K guarded pointerTail pointerTail Eq false := by
  refine peek ?_
  intro kind p p' _ _
  dsimp only
  split
  · exact .advance nofun fun _ _ _ => (rule .pointerTail).bind fun _ _ h => .pure (h ▸ rfl)
  · exact .advance nofun fun _ _ _ => rule .pointerTail
  · exact .advance nofun fun _ _ _ => rule .pointerTail
  · exact (pure rfl).at_

theorem sync_pointers : Sync K guarded pointers pointers Eq false :=
  acceptMark ((rule .pointerTail).bind fun _ _ h => .pure (h ▸ rfl)) (pure rfl)

theorem sync_isVoid :
    Sync K guarded parameterList.isVoid parameterList.isVoid Eq false := by
  refine nextIs ?_ (.pure rfl)
  have hsecond : Sync K guarded
      (Script.peekNth 1 >>= fun second =>
        Pure.pure (decide (second.kind = .punctuator .closeParen)))
      (Script.peekNth 1 >>= fun second =>
        Pure.pure (decide (second.kind = .punctuator .closeParen))) Eq false :=
    peekNth 1 fun _ _ _ => .pure rfl
  exact hsecond.at_

theorem sync_parametersUnlessClosed :
    Sync K true parameterList.parametersUnlessClosed parameterList.parametersUnlessClosed
      (Alike (Prod.map (List.map Parameter.erase) id)) false :=
  nextIsMark (Sync.pure (Alike.refl _)).at_ (rule .parameters)

theorem sync_parameterList :
    Sync K true parameterList parameterList (Alike (Prod.map (List.map Parameter.erase) id))
      false := by
  refine sync_isVoid.bind ?_
  rintro found _ rfl
  split
  · exact advance.bind fun _ _ _ => advance.bind fun _ _ _ => pure rfl
  · exact (enter _).bind fun _ _ _ => sync_parametersUnlessClosed.bind fun _ _ h =>
      expectMark.behind fun _ _ _ => (leave _ _).bind fun _ _ _ => pure h

theorem sync_suffixes :
    Sync K guarded suffixes suffixes (Alike (List.map TypeModifier.erase)) false := by
  have more : ∀ {m m' : TypeModifier}, Alike TypeModifier.erase m m' →
      Sync K true (Script.rule .suffixes >>= fun more => Pure.pure (m :: more))
        (Script.rule .suffixes >>= fun more => Pure.pure (m' :: more))
        (Alike (List.map TypeModifier.erase)) false := by
    intro m m' hm
    refine (rule .suffixes).bind fun rest rest' hrest => .pure ?_
    simp only [Alike, List.map_cons] at hm hrest ⊢
    rw [hm, hrest]
  refine acceptMark ?_ (acceptMark ?_ (pure rfl))
  · refine acceptMark (more rfl) ?_
    refine (rule (.expression _)).bind fun size size' hsize => expectMark.behind fun _ _ _ => more ?_
    exact congrArg (fun e => TypeModifier.array (some e)) hsize
  · refine sync_parameterList.bind fun list list' hlist => more ?_
    have hparts := Prod.ext_iff.1 hlist
    simp only [Prod.map_fst, Prod.map_snd, id_eq] at hparts
    simp only [Alike, TypeModifier.erase]
    rw [hparts.1, hparts.2]

/-- The token behind the parenthesis is looked at, and the parenthesis stays next. -/
theorem agree_opensDeclarator {α β : Type} (mode : DeclaratorMode) {x : Stand}
    {yes no : Script α} {yes' no' : Script β} {Q : α → β → Stand → Prop}
    (hyes : Script.Agree K x yes yes' Q) (hno : mode ≠ .named → Script.Agree K x no no' Q) :
    Script.Agree K x (opensDeclarator mode >>= fun nested => if nested = true then yes else no)
      (opensDeclarator mode >>= fun nested => if nested = true then yes' else no') Q := by
  cases mode with
  | named => exact hyes
  | nameless =>
      refine .peekNth ?_
      rintro ⟨kind, p⟩ ⟨kind', p'⟩ ⟨hkind, -, -⟩
      obtain rfl : kind = kind' := hkind.symm
      dsimp only [Script.bind]
      split
      · exact hyes
      · exact hyes
      · exact hyes
      · exact hno nofun
      · exact hno nofun
  | either =>
      refine .peekNth ?_
      rintro ⟨kind, p⟩ ⟨kind', p'⟩ ⟨hkind, -, -⟩
      obtain rfl : kind = kind' := hkind.symm
      dsimp only [Script.bind]
      split
      · exact hyes
      · exact hyes
      · exact hyes
      · exact hyes
      · exact hno nofun

/-- A declarator without name and wrappings, where none is asked for. -/
theorem ofDeclarators_empty {mode : DeclaratorMode} (hmode : mode ≠ .named) :
    K.OfDeclarators mode { name := none, modifiers := [] } { name := none, modifiers := [] } where
  named h := absurd h hmode
  name := .none
  modifiers := rfl

theorem ofDeclarators_name {mode : DeclaratorMode} {name : String} {p p' : Position}
    (hp : K.positions p p') : K.OfDeclarators mode
      { name := some (name, p), modifiers := [] } { name := some (name, p'), modifiers := [] } where
  named _ := nofun
  name := .some ⟨rfl, hp⟩
  modifiers := rfl

theorem sync_declaratorCore (mode : DeclaratorMode) :
    Sync K guarded (declaratorCore mode) (declaratorCore mode) (K.OfDeclarators mode) false := by
  have hword : ∀ (name : String) (kind : TokenKind) (p p' : Position), K.positions p p' →
      kind ≠ .endOfFile → SyncAt K kind guarded
        (if mode = .nameless then return { name := none, modifiers := [] }
          else do
            let _ ← Script.advance
            return { name := some (name, p), modifiers := [] })
        (if mode = .nameless then return { name := none, modifiers := [] }
          else do
            let _ ← Script.advance
            return { name := some (name, p'), modifiers := [] })
        (K.OfDeclarators mode) false := by
    intro name kind p p' hp hkind
    split
    · rename_i hmode
      exact (pure (ofDeclarators_empty (by simp [hmode]))).at_
    · exact .advance hkind fun _ _ _ => .pure (ofDeclarators_name hp)
  refine peek ?_
  intro kind p p' hp _
  dsimp only
  split
  · exact hword _ _ p p' hp nofun
  · exact hword _ _ p p' hp nofun
  · intro x hsaved hfacing hguard
    refine agree_opensDeclarator mode ?_ fun hmode => pure (ofDeclarators_empty hmode) x hsaved hguard
    have hinner : SyncAt K (.punctuator .openParen) guarded
        (Script.advance >>= fun _ => Script.rule (.declarator mode) >>= fun inner =>
          Script.expectMark .closeParen >>= fun _ => Pure.pure inner)
        (Script.advance >>= fun _ => Script.rule (.declarator mode) >>= fun inner =>
          Script.expectMark .closeParen >>= fun _ => Pure.pure inner)
        (K.OfDeclarators mode) false :=
      .advance nofun fun _ _ _ => (rule (.declarator mode)).bind fun _ _ h =>
        expectMark.behind fun _ _ _ => .pure h
    exact hinner x hsaved hfacing hguard
  · split
    · exact (refuse hp _).at_
    · rename_i hmode
      exact (pure (ofDeclarators_empty hmode)).at_

theorem sync_declarator (mode : DeclaratorMode) :
    Sync K guarded (declarator mode) (declarator mode) (K.OfDeclarators mode) false := by
  refine sync_pointers.bind ?_
  rintro count _ rfl
  refine (sync_declaratorCore mode).bind fun core core' hcore => sync_suffixes.bind
    fun after after' hafter => .pure { named := hcore.named, name := hcore.name, modifiers := ?_ }
  have hmodifiers := hcore.modifiers
  simp only [Alike, List.map_append, List.map_reverse] at hafter hmodifiers ⊢
  rw [hafter, hmodifiers]

theorem alike_type {mode : DeclaratorMode} {d d' : Declarator} {base base' : CType}
    (hd : K.OfDeclarators mode d d') (hbase : Alike CType.erase base base') :
    Alike CType.erase (d.type base) (d'.type base') := by
  have hmodifiers := hd.modifiers
  simp only [Alike] at hbase hmodifiers ⊢
  rw [Declarator.erase_type, Declarator.erase_type, hmodifiers, hbase]

/-! ## Records and enumerations -/

theorem sync_requireTag (tag : Option String) :
    Sync K guarded (requireTag tag) (requireTag tag) (fun _ _ => True) false := by
  cases tag with
  | some _ => exact pure trivial
  | none => exact peek fun _ _ _ hp _ => (refuse hp _).at_

theorem sync_record (kind : RecordKind) :
    Sync K guarded (record kind) (record kind) (Alike CType.erase) false := by
  refine acceptWord.bind ?_
  rintro tag _ rfl
  refine acceptMark ?_ ((sync_requireTag tag).bind fun _ _ _ => .pure rfl)
  refine (enter _).bind fun _ _ _ => (rule .members).bind fun list list' h =>
    expectMark.behind fun _ _ _ => (leave _ _).bind fun _ _ _ => .pure ?_
  simp only [Alike] at h
  simp [Alike, CType.erase, h]

theorem sync_recordType {word : Keyword} (hword : word = .struct ∨ word = .union) :
    SyncAt K (.keyword word) guarded recordType recordType (Alike CType.erase) true := by
  rcases hword with rfl | rfl
  · exact .advance (by simp) fun _ _ _ => sync_record .struct
  · exact .advance (by simp) fun _ _ _ => sync_record .union

theorem sync_enumeration :
    Sync K guarded enumeration enumeration (Alike CType.erase) false := by
  refine acceptWord.bind ?_
  rintro tag _ rfl
  refine acceptMark ?_ ((sync_requireTag tag).bind fun _ _ _ => .pure rfl)
  refine (rule .enumerators).bind fun list list' h => expectMark.behind fun _ _ _ => .pure ?_
  simp only [Alike] at h
  simp [Alike, CType.erase, h]

theorem sync_enumerationType :
    Sync K guarded enumerationType enumerationType (Alike CType.erase) true :=
  Sync.behind (expect (by simp)) fun _ _ _ => sync_enumeration

theorem sync_enumerator :
    Sync K guarded enumerator enumerator (Alike Enumerator.erase) true := by
  refine expectWord.behind ?_
  rintro name _ rfl
  refine (declareEnumerator name).bind fun _ _ _ => acceptMark ?_ (.pure rfl)
  refine (rule (.expression _)).bind fun value value' h => .pure ?_
  simp only [Alike] at h
  simp [Alike, Enumerator.erase, h]

theorem sync_enumerators :
    Sync K guarded enumerators enumerators (Alike (List.map Enumerator.erase)) false := by
  refine nextIsMark (Sync.pure (Alike.refl _)).at_ ?_
  refine sync_enumerator.behind fun first first' hfirst => acceptMark ?_ (.pure ?_)
  · refine (rule .enumerators).bind fun others others' hothers => .pure ?_
    simp only [Alike, List.map_cons] at hfirst hothers ⊢
    rw [hfirst, hothers]
  · exact congrArg ([·]) hfirst

/-! ## Specifiers -/

theorem sync_typeWord {tally tally' : SpecifierTally} (h : Alike SpecifierTally.erase tally tally')
    {word : Keyword} (hword : word.isTypeWord = true) {p p' : Position} (hp : K.positions p p') :
    SyncAt K (.keyword word) guarded (typeWord tally ⟨.keyword word, p⟩ word)
      (typeWord tally' ⟨.keyword word, p'⟩ word) (Alike SpecifierTally.erase) true := by
  have hsame : tally.erase = tally'.erase := h
  have hwords : tally.words = tally'.words := by
    simpa using congrArg SpecifierTally.words hsame
  have hother : tally.other.isSome = tally'.other.isSome := by
    simpa using congrArg (·.other.isSome) hsame
  rw [typeWord_eq hword, typeWord_eq hword, hother, hwords]
  split
  · exact (refuse hp _).at_
  · refine .advance (by simp) fun _ _ _ => ?_
    dsimp only
    split
    · refine .pure ?_
      simp only [Alike, SpecifierTally.erase, SpecifierTally.mk.injEq] at h ⊢
      exact ⟨trivial, h.2⟩
    · exact refuse hp _

theorem sync_taggedType {tally tally' : SpecifierTally}
    (h : Alike SpecifierTally.erase tally tally') {word : Keyword} (hword : word.isTagged = true)
    {p p' : Position} (hp : K.positions p p') :
    SyncAt K (.keyword word) guarded (taggedType tally ⟨.keyword word, p⟩ word)
      (taggedType tally' ⟨.keyword word, p'⟩ word) (Alike SpecifierTally.erase) true := by
  have htype : tally.hasType = tally'.hasType := by
    simpa using congrArg SpecifierTally.hasType h
  have hnamed : ∀ {type type' : CType}, Alike CType.erase type type' → Alike SpecifierTally.erase
      { tally with other := some type } { tally' with other := some type' } := by
    intro type type' ht
    simp only [Alike, SpecifierTally.erase, SpecifierTally.mk.injEq] at h ht ⊢
    exact ⟨h.1, congrArg some ht, h.2.2⟩
  unfold taggedType
  rw [htype]
  split
  · exact (refuse hp _).at_
  · split
    · exact (sync_enumerationType.behind fun _ _ ht => .pure (hnamed ht)).at_
    · have hrecord : word = .struct ∨ word = .union := by
        cases word <;> simp_all [Keyword.isTagged]
      exact (sync_recordType hrecord).behind fun _ _ ht => .pure (hnamed ht)

/-- A specifier that is read has been taken. -/
theorem sync_specifier {tally tally' : SpecifierTally}
    (h : Alike SpecifierTally.erase tally tally') :
    SyncIf K (specifier tally) (specifier tally') (Alike (Option.map SpecifierTally.erase))
      Option.isSome := by
  have hsame : tally.erase = tally'.erase := h
  have hstorage : tally.hasStorageClass = tally'.hasStorageClass := by
    simpa using congrArg SpecifierTally.hasStorageClass hsame
  have htype : tally.hasType = tally'.hasType := by
    simpa using congrArg SpecifierTally.hasType hsame
  have hmodifier : ∀ word, Alike (Option.map SpecifierTally.erase) (some (tally.addModifier word))
      (some (tally'.addModifier word)) := by
    intro word
    simp only [Alike, Option.map_some, SpecifierTally.erase_addModifier, hsame]
  intro x hsaved
  -- The only outcome for which nothing is taken.
  have hnothing : ∀ kind, Script.Agree K (x.face kind) (Pure.pure (none : Option SpecifierTally))
      (Pure.pure (none : Option SpecifierTally)) fun a a' y =>
        Alike (Option.map SpecifierTally.erase) a a' ∧ y.saved = none ∧
          (x.behind = true ∨ a.isSome = true → y.behind = true) :=
    fun kind => .done ⟨rfl, hsaved, fun hx => hx.elim id (by simp)⟩
  refine .peek ?_
  rintro ⟨kind, p⟩ ⟨kind', p'⟩ ⟨hkind, hp, -⟩
  obtain rfl : kind = kind' := hkind.symm
  dsimp only [Script.bind]
  split
  · rename_i word
    rw [hstorage]
    split
    · split
      · exact (refuse hp _ : Sync K false _ _ _ true).at_.taken hsaved _
      · refine SyncAt.taken ?_ hsaved _
        exact .advance (by simp) fun _ _ _ => .pure (hmodifier word)
    · split
      · refine SyncAt.taken ?_ hsaved _
        exact .advance (by simp) fun _ _ _ => .pure (hmodifier word)
      · split
        · rename_i htype
          refine SyncAt.taken ?_ hsaved _
          refine (sync_typeWord h htype hp).behind fun next next' hnext => ?_
          exact .pure (Alike.some_iff.2 hnext)
        · split
          · rename_i htagged
            refine SyncAt.taken ?_ hsaved _
            refine (sync_taggedType h htagged hp).behind fun next next' hnext => ?_
            exact .pure (Alike.some_iff.2 hnext)
          · exact hnothing _
  · rename_i name
    rw [htype]
    split
    · exact hnothing _
    · refine SyncAt.taken ?_ hsaved _
      refine .advance (by simp) fun _ _ _ => .pure ?_
      simp only [SpecifierTally.erase, SpecifierTally.mk.injEq] at hsame
      simp [Alike, SpecifierTally.erase, hsame]
  · exact hnothing _

theorem sync_specifierTail {tally tally' : SpecifierTally}
    (h : Alike SpecifierTally.erase tally tally') :
    Sync K guarded (specifierTail tally) (specifierTail tally') (Alike SpecifierTally.erase)
      false := by
  refine (sync_specifier h).bind ?_ ?_
  · rintro (_ | next) (_ | next') hnext htaken <;> simp at hnext htaken
    exact rule (.specifierTail hnext)
  · rintro (_ | next) (_ | next') hnext htaken <;> simp at hnext htaken
    exact pure h

/-- No type is named before the first specifier, so where one is named a token has been taken. -/
theorem sync_specifierTail_empty :
    SyncIf K (specifierTail .empty) (specifierTail .empty) (Alike SpecifierTally.erase)
      fun tally => tally.type?.isSome := by
  intro x hsaved
  refine (sync_specifier rfl x hsaved).bind ?_
  rintro (_ | next) (_ | next') y ⟨hnext, hy, hbehind⟩ <;> simp at hnext
  · refine .done ⟨rfl, hy, ?_⟩
    rintro (hx | hnone)
    · exact hbehind (Or.inl hx)
    · cases hnone
  · have htaken : y.behind = true := hbehind (Or.inr rfl)
    have hrule : Sync K true (Script.rule (.specifierTail next))
        (Script.rule (.specifierTail next')) (Alike SpecifierTally.erase) false :=
      rule (.specifierTail hnext)
    refine (hrule y hy fun _ => htaken).mono ?_
    rintro t t' z ⟨ht, hz, hend⟩
    exact ⟨ht, hz, fun _ => hend (Or.inl htaken)⟩

theorem alike_type? {tally tally' : SpecifierTally} (h : Alike SpecifierTally.erase tally tally') :
    Alike (Option.map CType.erase) tally.type? tally'.type? := by
  simp only [Alike] at h ⊢
  rw [SpecifierTally.erase_type?, SpecifierTally.erase_type?, h]

theorem sync_specifiers : Sync K guarded specifiers specifiers K.OfSpecifiers true := by
  refine here.bind fun p p' hp => sync_specifierTail_empty.bind ?_ ?_
  · intro tally tally' h htaken
    have htype := alike_type? h
    simp only [Alike, SpecifierTally.erase, SpecifierTally.mk.injEq] at h
    rcases htally : tally.type? with _ | base <;> rcases htally' : tally'.type? with _ | base' <;>
      simp [htally, htally'] at htype htaken
    exact pure { base := htype, storage := h.2.2.1, isTypedef := h.2.2.2.1,
                 qualifiers := h.2.2.2.2, position := hp }
  · intro tally tally' h hnot
    have htype := alike_type? h
    rcases htally : tally.type? with _ | base <;> rcases htally' : tally'.type? with _ | base' <;>
      simp [htally, htally'] at htype hnot
    exact peek fun _ _ _ hfound _ => (refuse hfound _).at_

theorem sync_typeName : Sync K guarded typeName typeName (Alike CType.erase) true :=
  sync_specifiers.behind fun _ _ hspecifiers => (sync_declarator _).bind fun _ _ hd =>
    .pure (alike_type hd hspecifiers.base)

/-! ## Parameters and members -/

theorem sync_parameter : Sync K guarded parameter parameter (Alike Parameter.erase) true := by
  refine here.bind fun p p' _ => sync_specifiers.behind fun specifiers specifiers' hspecifiers =>
    (sync_declarator .either).bind fun d d' hd => ?_
  have htype := alike_type hd hspecifiers.base
  simp only [Alike] at htype
  have hname := hd.name
  cases hn : d.name <;> cases hn' : d'.name <;> simp only [hn, hn'] at hname
  · dsimp only [Option.map_none]
    exact .pure (by simp [Alike, Parameter.erase, htype])
  · cases hname
  · cases hname
  · obtain ⟨hsame⟩ := hname
    dsimp only [Option.map_some]
    rw [hsame.1]
    exact (declare _ rfl).bind fun _ _ _ => .pure (by simp [Alike, Parameter.erase, htype])

theorem sync_parameters :
    Sync K guarded parameters parameters (Alike (Prod.map (List.map Parameter.erase) id)) false := by
  refine acceptMark (.pure (Alike.refl _)) ?_
  refine sync_parameter.behind fun first first' hfirst => acceptMark ?_ (.pure ?_)
  · refine (rule .parameters).bind fun list list' hlist => .pure ?_
    have hparts := Prod.ext_iff.1 hlist
    simp only [Alike, Prod.map, id_eq, List.map_cons] at hparts hfirst ⊢
    rw [hfirst, hparts.1, hparts.2]
  · simp only [Alike, Prod.map, List.map_cons] at hfirst ⊢
    rw [hfirst]

/-- Declarators that have a name, with their names and positions. -/
theorem exists_name {d d' : Declarator} (h : K.OfDeclarators .named d d') :
    ∃ name p p', d.name = some (name, p) ∧ d'.name = some (name, p') ∧ K.positions p p' := by
  have hname := h.name
  rcases hn : d.name with _ | ⟨name, p⟩
  · exact absurd hn (h.named rfl)
  · rcases hn' : d'.name with _ | ⟨name', p'⟩
    · rw [hn, hn'] at hname
      cases hname
    · rw [hn, hn'] at hname
      obtain ⟨hsame⟩ := hname
      obtain ⟨rfl, hp⟩ : name = name' ∧ K.positions p p' := hsame
      exact ⟨name, p, p', rfl, rfl, hp⟩

theorem sync_memberDeclarators {specifiers specifiers' : Specifiers}
    (h : K.OfSpecifiers specifiers specifiers') :
    Sync K guarded (memberDeclarators specifiers) (memberDeclarators specifiers')
      (Alike (List.map Member.erase)) false := by
  refine (sync_declarator .named).bind fun d d' hd => ?_
  obtain ⟨name, p, p', hn, hn', -⟩ := exists_name hd
  have htype := alike_type hd h.base
  simp only [Alike] at htype
  rw [hn, hn']
  refine acceptMark ?_ (.pure (by simp [Alike, Member.erase, htype]))
  have hrule : Sync K true (Script.rule (.memberDeclarators specifiers))
      (Script.rule (.memberDeclarators specifiers')) (Alike (List.map Member.erase)) false :=
    rule (.memberDeclarators h)
  refine hrule.bind fun others others' hothers => .pure ?_
  simp only [Alike] at hothers
  simp [Alike, Member.erase, htype, hothers]

theorem sync_memberDeclaration :
    Sync K guarded memberDeclaration memberDeclaration (Alike (List.map Member.erase)) true := by
  refine sync_specifiers.behind fun specifiers specifiers' h => ?_
  rw [h.isTypedef, h.storage]
  split
  · exact .fail ⟨⟨_, rfl⟩, rfl, h.position⟩
  · have hrule : Sync K true (Script.rule (.memberDeclarators specifiers))
        (Script.rule (.memberDeclarators specifiers')) (Alike (List.map Member.erase)) false :=
      rule (.memberDeclarators h)
    refine hrule.bind fun list list' hlist => peek ?_
    intro kind p p' hp _
    dsimp only
    split
    · rename_i hkind
      exact .advance (by simp [hkind]) fun _ _ _ => .pure hlist
    · exact (refuse hp _).at_

theorem sync_members :
    Sync K guarded members members (Alike (List.map Member.erase)) false := by
  refine nextIsMark (Sync.pure (Alike.refl _)).at_ ?_
  refine sync_memberDeclaration.behind fun first first' hfirst => (rule .members).bind
    fun others others' hothers => .pure ?_
  simp only [Alike, List.map_append] at hfirst hothers ⊢
  rw [hfirst, hothers]

/-! ## Declarations -/

theorem sync_initialValue :
    Sync K guarded initialValue initialValue (Alike Expr.erase) true := by
  refine here.bind fun p p' _ => acceptMark ?_ (sync_expression _)
  refine (rule .initializerItems).bind fun items items' h => expectMark.behind fun _ _ _ => .pure ?_
  simp only [Alike] at h
  simp [Alike, Expr.erase, h]

theorem sync_initializerItems :
    Sync K guarded initializerItems initializerItems (Alike (List.map Expr.erase)) false := by
  refine nextIsMark (Sync.pure (Alike.refl _)).at_ ?_
  refine sync_initialValue.behind fun first first' hfirst => acceptMark ?_ (.pure ?_)
  · refine (rule .initializerItems).bind fun others others' hothers => .pure ?_
    simp only [Alike, List.map_cons] at hfirst hothers ⊢
    rw [hfirst, hothers]
  · exact congrArg ([·]) hfirst

theorem sync_initial? {specifiers specifiers' : Specifiers}
    (h : K.OfSpecifiers specifiers specifiers') :
    Sync K guarded (initial? specifiers) (initial? specifiers') (Alike (Option.map Expr.erase))
      false := by
  unfold initial?
  rw [h.isTypedef]
  split
  · exact pure rfl
  · exact acceptMark (sync_initialValue.behind fun _ _ hvalue => .pure (Alike.some_iff.2 hvalue))
      (.pure rfl)

theorem sync_initDeclarator {specifiers specifiers' : Specifiers} {d d' : Declarator}
    (h : K.OfSpecifiers specifiers specifiers') (hd : K.OfDeclarators .named d d') :
    Sync K guarded (initDeclarator specifiers d) (initDeclarator specifiers' d')
      (Alike Declaration.erase) false := by
  obtain ⟨name, p, p', hn, hn', -⟩ := exists_name hd
  have htype := alike_type hd h.base
  simp only [Alike] at htype
  unfold initDeclarator
  rw [hn, hn']
  dsimp only
  refine (declare name ?_).bind fun _ _ _ => (sync_initial? h).bind fun value value' hvalue =>
    .pure ?_
  · rw [h.isTypedef]
    split
    · exact congrArg Meaning.typeName htype
    · rfl
  · simp only [Alike] at hvalue
    simp [Alike, Declaration.erase, htype, hvalue, h.isTypedef, h.storage, h.qualifiers]

theorem sync_declarations {specifiers specifiers' : Specifiers} {d d' : Declarator}
    (h : K.OfSpecifiers specifiers specifiers') (hd : K.OfDeclarators .named d d') :
    Sync K guarded (declarations specifiers d) (declarations specifiers' d')
      (Alike (List.map Declaration.erase)) false := by
  refine (sync_initDeclarator h hd).bind fun first first' hfirst => acceptMark ?_ (.pure ?_)
  · have hrule : Sync K true (Script.rule (.initDeclarators specifiers))
        (Script.rule (.initDeclarators specifiers')) (Alike (List.map Declaration.erase)) false :=
      rule (.initDeclarators h)
    refine hrule.bind fun others others' hothers => .pure ?_
    simp only [Alike, List.map_cons] at hfirst hothers ⊢
    rw [hfirst, hothers]
  · exact congrArg ([·]) hfirst

theorem sync_initDeclarators {specifiers specifiers' : Specifiers}
    (h : K.OfSpecifiers specifiers specifiers') :
    Sync K guarded (initDeclarators specifiers) (initDeclarators specifiers')
      (Alike (List.map Declaration.erase)) false :=
  (sync_declarator _).bind fun _ _ hd => sync_declarations h hd

theorem sync_groupFrom {specifiers specifiers' : Specifiers} {d d' : Declarator}
    (h : K.OfSpecifiers specifiers specifiers') (hd : K.OfDeclarators .named d d') :
    Sync K guarded (groupFrom specifiers d) (groupFrom specifiers' d')
      (Alike DeclarationGroup.erase) true := by
  refine (sync_declarations h hd).bind fun list list' hlist => expectMark.behind fun _ _ _ =>
    .pure ?_
  have hbase := h.base
  simp only [Alike] at hlist hbase
  simp [Alike, DeclarationGroup.erase, hlist, hbase]

theorem alike_bareGroup {specifiers specifiers' : Specifiers}
    (h : K.OfSpecifiers specifiers specifiers') :
    Alike DeclarationGroup.erase (bareGroup specifiers) (bareGroup specifiers') := by
  have hbase := h.base
  simp only [Alike] at hbase
  simp [Alike, bareGroup, DeclarationGroup.erase, hbase]

theorem sync_declarationGroup :
    Sync K guarded declarationGroup declarationGroup (Alike DeclarationGroup.erase) true := by
  refine sync_specifiers.behind fun specifiers specifiers' h => acceptMark (.pure ?_) ?_
  · exact alike_bareGroup h
  · exact (sync_declarator _).bind fun _ _ hd => (sync_groupFrom h hd).weaken

end Grammar
end CSyntax
