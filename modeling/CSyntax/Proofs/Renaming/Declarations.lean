import CSyntax.Proofs.Renaming.Expressions

/-!
# Declarations — scripts of types and declarations with new names

A tag is a word behind the keyword of a record or an enumeration.  A member is the word in a member
declarator; which word that is depends on whether the type has been named before, and the scanner
keeps account of it as the tally of the specifiers does.
-/

namespace CSyntax
namespace Grammar

open Script (Renames RenamesAt Tracks)

variable {ρ : Renaming} {P : Nat → Prop} {depth : Nat} {σ υ : Scanner} {space : NameSpace}

/-! ## Declarators -/

theorem renames_pointerTail (calls : Parser.RenamesCalls ρ P depth) (hσ : σ.Declaring space υ) :
    Renames ρ P depth σ pointerTail pointerTail Eq fun _ => σ := by
  have hsame := Scanner.expecting_nothing hσ.expects
  refine .peek ?_
  rintro ⟨kind, p⟩ ⟨kind', p'⟩ second htwins
  rcases htwins.cases with ⟨-, rfl⟩ | ⟨name, hname, hname'⟩
  · dsimp only
    split
    · exact .take hσ.expects (by simp) hsame fun _ => (calls (.pointerTail hσ)).bind
        fun _ _ h => .pure (h ▸ rfl) rfl
    · exact .take hσ.expects (by simp) hsame fun _ => calls (.pointerTail hσ)
    · exact .take hσ.expects (by simp) hsame fun _ => calls (.pointerTail hσ)
    · exact .any (.pure rfl rfl)
  · cases kind <;> cases hname <;> cases kind' <;> cases hname' <;> exact .any (.pure rfl rfl)

theorem renames_pointers (calls : Parser.RenamesCalls ρ P depth) (hσ : σ.Declaring space υ) :
    Renames ρ P depth σ pointers pointers Eq fun _ => σ :=
  .acceptMark (Scanner.expecting_nothing hσ.expects)
    ((calls (.pointerTail hσ)).bind fun _ _ h => .pure (h ▸ rfl) rfl)
    fun _ _ => .any (.pure rfl rfl)

theorem renames_parametersUnlessClosed (calls : Parser.RenamesCalls ρ P depth) (hσ : σ.Calm) :
    Renames ρ P depth σ parameterList.parametersUnlessClosed parameterList.parametersUnlessClosed
      (Renamed (Prod.map (List.map (Parameter.respell ρ)) id)
        (Prod.map (List.map Parameter.erase) id)) fun _ => σ :=
  .nextIsMark (fun _ _ => .any (.pure rfl rfl)) fun _ _ => .any (calls (.parameters hσ))

/-- What is read of a parameter list unless the word `void` stands alone in it. -/
def parameterList.listed : Script (List Parameter × Bool) := do
  Script.enter .block
  let list ← parameterList.parametersUnlessClosed
  let close ← Script.expectMark .closeParen
  Script.leave close.position
  return list

/-- Whether the word `void` stands alone is found out before anything is taken. -/
theorem parameterList_eq : parameterList =
    Script.nextIs (.keyword .void) >>= fun found =>
      if found = true then
        Script.peekNth 1 >>= fun second =>
          if second.kind = .punctuator .closeParen then
            Script.advance >>= fun _ => Script.advance >>= fun _ => Pure.pure ([], false)
          else parameterList.listed
      else parameterList.listed := by
  unfold parameterList parameterList.isVoid
  rw [bind_assoc]
  congr 1
  funext found
  cases found with
  | false => rfl
  | true =>
      simp only [if_true, bind_assoc, pure_bind, decide_eq_true_eq]
      rfl

/-- Behind the opening parenthesis of a parameter list. -/
theorem renames_parameterList (calls : Parser.RenamesCalls ρ P depth) (hσ : σ.expects = .nothing) :
    Renames ρ P depth (σ.within .list .nothing) parameterList parameterList
      (Renamed (Prod.map (List.map (Parameter.respell ρ)) id)
        (Prod.map (List.map Parameter.erase) id)) fun _ => σ := by
  have hclose := Scanner.close_list hσ (Or.inl rfl)
  have listed : Renames ρ P depth (σ.within .list .nothing) parameterList.listed
      parameterList.listed (Renamed (Prod.map (List.map (Parameter.respell ρ)) id)
        (Prod.map (List.map Parameter.erase) id)) fun _ => σ :=
    (Renames.enter .block).bind fun _ _ _ =>
      (renames_parametersUnlessClosed calls (.list σ)).bind fun list list' hlist =>
        (Renames.expectMark hclose).bind fun close close' _ =>
          (Renames.leave close.position close'.position).bind fun _ _ _ => .pure hlist rfl
  rw [parameterList_eq]
  refine .nextIs rfl (fun token hvoid v v' hv htoken => ?_) fun _ _ => .any listed
  have hword : token.kind ≠ .endOfFile := by simp [hvoid]
  have hinside : (σ.within .list .nothing).after token.kind token.position.offset =
      σ.within .list .nothing := by
    rw [hvoid]
    rfl
  refine .peekNth_one hv htoken hword fun second second' third hsecond _ htwins => ?_
  rw [hinside] at htwins
  rw [htwins.kind (Or.inl (Scanner.Calm.list σ).nameSpace)]
  by_cases hclosed : second.kind = .punctuator .closeParen
  · rw [if_pos hclosed]
    have hlast : RenamesAt ρ P depth (σ.within .list .nothing) second
        (Script.advance >>= fun _ => Pure.pure ([], false))
        (Script.advance >>= fun _ => Pure.pure ([], false))
        (Renamed (Prod.map (List.map (Parameter.respell ρ)) id)
          (Prod.map (List.map Parameter.erase) id)) fun _ => σ :=
      .take rfl (by simp [hclosed]) (by rw [hclosed]; exact hclose) fun _ => .pure rfl rfl
    exact .advance hv htoken hword (hv.clear htoken fun h => by cases h) fun _ _ w w' _ _ hw hnext =>
      hlast w w' (hinside ▸ hw) (hnext.trans hsecond)
  · rw [if_neg hclosed]
    exact listed v v' hv

theorem renames_suffixes (calls : Parser.RenamesCalls ρ P depth) (hσ : σ.Settled) :
    Renames ρ P depth σ suffixes suffixes
      (Renamed (List.map (TypeModifier.respell ρ)) (List.map TypeModifier.erase)) fun _ => σ := by
  have more : ∀ {m m' : TypeModifier}, Renamed (TypeModifier.respell ρ) TypeModifier.erase m m' →
      Renames ρ P depth σ (Script.rule .suffixes >>= fun more => Pure.pure (m :: more))
        (Script.rule .suffixes >>= fun more => Pure.pure (m' :: more))
        (Renamed (List.map (TypeModifier.respell ρ)) (List.map TypeModifier.erase)) fun _ => σ := by
    intro m m' hm
    refine (calls (.suffixes hσ)).bind fun rest rest' hrest => .pure ?_ rfl
    simp only [Renamed, Alike, List.map_cons] at hm hrest ⊢
    rw [hm, hrest]
  have hclose := Scanner.close_list hσ.expects (Or.inr (Or.inl rfl))
  refine .acceptMark rfl (.acceptMark hclose (more rfl) fun _ _ => .any ?_) fun _ _ => .any ?_
  · refine (calls (.expression .conditional (.list σ) .nothing)).bind fun size size' hsize =>
      (Renames.expectMark hclose).bind fun _ _ _ => more ?_
    exact congrArg (fun e => TypeModifier.array (some e)) hsize
  · refine .acceptMark hσ.openParen ?_ fun _ _ => .any (.pure rfl rfl)
    refine (renames_parameterList calls hσ.expects).bind fun list list' hlist => more ?_
    have hparts := Prod.ext_iff.1 hlist
    simp only [Prod.map_fst, Prod.map_snd, id_eq] at hparts
    simp only [Renamed, Alike, TypeModifier.respell, TypeModifier.erase]
    rw [hparts.1, hparts.2]

/-- Only where words are ordinary is the token behind the parenthesis looked at. -/
theorem renamesAt_opensDeclarator {α β : Type} {mode : DeclaratorMode}
    (hσ : σ.Declaring space υ) (hmode : space = .ordinary ∨ mode = .named) {token : Token}
    (hopen : token.kind = .punctuator .openParen) {yes no : Script α} {yes' no' : Script β}
    {E : α → β → Prop} {τ : α → Scanner} (hyes : RenamesAt ρ P depth σ token yes yes' E τ)
    (hno : mode ≠ .named → RenamesAt ρ P depth σ token no no' E τ) :
    RenamesAt ρ P depth σ token
      (opensDeclarator mode >>= fun nested => if nested = true then yes else no)
      (opensDeclarator mode >>= fun nested => if nested = true then yes' else no') E τ := by
  have hend : token.kind ≠ .endOfFile := by simp [hopen]
  have inside : mode ≠ .named → ∀ offset third,
      (σ.after token.kind token.position.offset).nameSpace offset third = .ordinary := by
    intro hnamed offset third
    obtain rfl := hmode.resolve_right hnamed
    rw [hopen]
    change (σ.mark .openParen).nameSpace _ _ = _
    rw [hσ.settled_of_ordinary.1.openParen]
    exact (Scanner.Calm.list σ).nameSpace
  cases mode with
  | named => exact hyes
  | nameless =>
      refine .peekNth_one hend fun second second' third htwins => ?_
      dsimp only [Script.bind]
      rw [htwins.kind (Or.inl (inside (by simp) _ _))]
      split
      · exact hyes
      · exact hyes
      · exact hyes
      · exact hno (by simp)
      · exact hno (by simp)
  | either =>
      refine .peekNth_one hend fun second second' third htwins => ?_
      dsimp only [Script.bind]
      rw [htwins.kind (Or.inl (inside (by simp) _ _))]
      split
      · exact hyes
      · exact hyes
      · exact hyes
      · exact hyes
      · exact hno (by simp)

theorem renames_declaratorCore (calls : Parser.RenamesCalls ρ P depth) {mode : DeclaratorMode}
    (hσ : σ.Declaring space υ) (hmode : space = .ordinary ∨ mode = .named) :
    Renames ρ P depth σ (declaratorCore mode) (declaratorCore mode) (ρ.OfDeclarators space)
      fun _ => υ := by
  -- Names are left out only where words are ordinary.
  have missing : mode ≠ .named → Renames ρ P depth σ
      (Pure.pure { name := none, modifiers := [] }) (Pure.pure { name := none, modifiers := [] })
      (ρ.OfDeclarators space) fun _ => υ := by
    intro hnamed
    obtain rfl := hmode.resolve_right hnamed
    exact .pure ⟨rfl, rfl⟩ hσ.settled_of_ordinary.2
  have word : ∀ {kind : TokenKind} {name : String} (p p' : Position), kind.words = [name] →
      RenamesAt ρ P depth σ ⟨kind, p⟩
        (if mode = .nameless then return { name := none, modifiers := [] }
          else do
            let _ ← Script.advance
            return { name := some (name, p), modifiers := [] })
        (if mode = .nameless then return { name := none, modifiers := [] }
          else do
            let _ ← Script.advance
            return { name := some (ρ.name space name, p'), modifiers := [] })
        (ρ.OfDeclarators space) fun _ => υ := by
    intro kind name p p' hname
    have hword : σ.after kind p.offset = υ := by
      rw [← hσ.word]
      cases kind <;> first | rfl | cases hname
    split
    · rename_i hnameless
      exact .any (missing (by simp [hnameless]))
    · exact .take hσ.expects (by rintro rfl; cases hname) hword
        fun _ => .pure ⟨rfl, rfl⟩ rfl
  refine .peek ?_
  rintro ⟨kind, p⟩ ⟨kind', p'⟩ second htwins
  rw [hσ.nameSpace] at htwins
  rcases htwins.cases with ⟨hnone, rfl⟩ | ⟨name, hname, hname'⟩
  · dsimp only at hnone ⊢
    split
    · simp [TokenKind.words] at hnone
    · simp [TokenKind.words] at hnone
    · obtain ⟨τ, τ', hopen, hinner, hclose⟩ := hσ.nested
      refine renamesAt_opensDeclarator hσ hmode rfl ?_ fun hnamed => .any (missing hnamed)
      exact .take hσ.expects (by simp) hopen fun _ => (calls (.declarator hinner hmode)).bind
        fun inner inner' h => (Renames.expectMark hclose).bind fun _ _ _ => .pure h rfl
    · split
      · exact .any .refuse
      · rename_i hnamed
        exact .any (missing hnamed)
  · dsimp only at hname hname' ⊢
    cases kind <;> cases hname <;> cases kind' <;> cases hname' <;> exact word p p' rfl

theorem renames_declarator (calls : Parser.RenamesCalls ρ P depth) {mode : DeclaratorMode}
    (hσ : σ.Declaring space υ) (hmode : space = .ordinary ∨ mode = .named) :
    Renames ρ P depth σ (declarator mode) (declarator mode) (ρ.OfDeclarators space) fun _ => υ := by
  refine (renames_pointers calls hσ).bind ?_
  rintro count _ rfl
  refine (renames_declaratorCore calls hσ hmode).bind fun core core' hcore =>
    (renames_suffixes calls hσ.settled).bind fun after after' hafter => .pure ⟨hcore.name, ?_⟩ rfl
  have hmodifiers := hcore.modifiers
  simp only [Renamed, Alike, List.map_append, List.map_reverse] at hafter hmodifiers ⊢
  rw [hafter, hmodifiers]
  simp [TypeModifier.respell]

/-- A declarator where words are ordinary. -/
theorem renames_ordinaryDeclarator (calls : Parser.RenamesCalls ρ P depth) (hσ : σ.Calm)
    (mode : DeclaratorMode) : Renames ρ P depth σ (declarator mode) (declarator mode)
      (ρ.OfDeclarators .ordinary) fun _ => σ :=
  renames_declarator calls (.calm hσ) (Or.inl rfl)

theorem renamed_type {d d' : Declarator} {base base' : CType} (hd : ρ.OfDeclarators space d d')
    (hbase : Renamed (CType.respell ρ) CType.erase base base') :
    Renamed (CType.respell ρ) CType.erase (d.type base) (d'.type base') := by
  have hmodifiers := hd.modifiers
  simp only [Renamed, Alike] at hbase hmodifiers ⊢
  calc ((d.type base).respell ρ).erase
      = ((d.modifiers.map (TypeModifier.respell ρ)).map TypeModifier.erase).foldl TypeModifier.apply
          (base.respell ρ).erase := by
        rw [Declarator.respell_type]
        exact Declarator.erase_type ⟨d.name, d.modifiers.map (TypeModifier.respell ρ)⟩ _
    _ = (d'.type base').erase := by rw [hmodifiers, hbase, Declarator.erase_type]

/-! ## Records and enumerations -/

/-- Behind a keyword of a record or an enumeration: a tag, perhaps. -/
theorem renames_acceptTag {record : Bool} :
    Renames ρ P depth (υ.expecting (.tag record)) Script.acceptWord Script.acceptWord
      (fun tag tag' => tag' = tag.map ρ.tag)
      fun tag => υ.expecting (if tag.isSome then .body record else .tag record) := by
  have hword : Renames ρ P depth (υ.expecting (.tag record)) Script.acceptWord Script.acceptWord
      (fun tag tag' => tag' = tag.map (ρ.name .tag))
      fun tag => if tag.isSome then (υ.expecting (.tag record)).word else υ.expecting (.tag record) :=
    .acceptWord (fun _ _ => rfl) fun h => by cases h
  have hends : ∀ tag : Option String,
      (if tag.isSome then (υ.expecting (.tag record)).word else υ.expecting (.tag record)) =
        υ.expecting (if tag.isSome then .body record else .tag record) := by
    intro tag
    cases tag <;> rfl
  simp only [hends] at hword
  exact hword

/-- A type that is told by its tag alone. -/
theorem renamesAt_tagAlone {record : Bool} (hυ : υ.expects = .nothing) (tag : Option String)
    {tag' : Option String} {type type' : CType}
    (h : Renamed (CType.respell ρ) CType.erase type type') (htag : tag' = tag.map ρ.tag)
    {token : Token} (htoken : token.kind ≠ .punctuator .openBrace) :
    RenamesAt ρ P depth (υ.expecting (if tag.isSome then .body record else .tag record)) token
      (requireTag tag >>= fun _ => Pure.pure type) (requireTag tag' >>= fun _ => Pure.pure type')
      (Renamed (CType.respell ρ) CType.erase) fun _ => υ := by
  subst htag
  cases tag with
  | none => exact .any (.peek fun _ _ _ _ => .any .refuse)
  | some name =>
      refine .relax (fun _ => Scanner.agrees_idle (.body record) .nothing htoken) ?_
      exact .any (.pure h (Scanner.expecting_nothing hυ).symm)

theorem renames_record (calls : Parser.RenamesCalls ρ P depth) (hυ : υ.expects = .nothing)
    (kind : RecordKind) :
    Renames ρ P depth (υ.expecting (.tag true)) (record kind) (record kind)
      (Renamed (CType.respell ρ) CType.erase) fun _ => υ := by
  refine renames_acceptTag.bind fun tag tag' htag => ?_
  have hopen : (υ.expecting (if tag.isSome then .body true else .tag true)).mark .openBrace =
      υ.within (.record false false) .nothing := by
    cases tag <;> rfl
  refine .acceptMark hopen ?_ fun token htoken => ?_
  · have hclose : (υ.within (.record false false) .nothing).mark .closeBrace = υ :=
      Scanner.expecting_nothing hυ
    refine (Renames.enter _).bind fun _ _ _ => (calls (.members υ)).bind fun list list' h =>
      (Renames.expectMark hclose).bind fun close close' _ =>
        (Renames.leave close.position close'.position).bind fun _ _ _ => .pure ?_ rfl
    simp only [Renamed, Alike] at h
    simp [Renamed, Alike, CType.respell, CType.erase, htag, h]
  · exact renamesAt_tagAlone hυ tag (by simp [Renamed, Alike, CType.respell, CType.erase, htag])
      htag htoken

theorem renamesAt_recordType (calls : Parser.RenamesCalls ρ P depth) (hυ : υ.expects = .nothing)
    {word : Keyword} (p : Position)
    (hafter : ∀ offset, σ.after (.keyword word) offset = υ.expecting (.tag true)) :
    RenamesAt ρ P depth σ ⟨.keyword word, p⟩ recordType recordType
      (Renamed (CType.respell ρ) CType.erase) fun _ => υ := by
  refine .advance_same rfl (by simp) (hafter _) fun p' => ?_
  dsimp only
  split
  · exact renames_record calls hυ .struct
  · exact renames_record calls hυ .union
  · exact .contradictAt

theorem renames_enumeration (calls : Parser.RenamesCalls ρ P depth) (hυ : υ.expects = .nothing) :
    Renames ρ P depth (υ.expecting (.tag false)) enumeration enumeration
      (Renamed (CType.respell ρ) CType.erase) fun _ => υ := by
  refine renames_acceptTag.bind fun tag tag' htag => ?_
  have hopen : (υ.expecting (if tag.isSome then .body false else .tag false)).mark .openBrace =
      υ.within .list .nothing := by
    cases tag <;> rfl
  refine .acceptMark hopen ?_ fun token htoken => ?_
  · refine (calls (.enumerators (.list υ))).bind fun list list' h =>
      (Renames.expectMark (Scanner.close_list hυ (Or.inr (Or.inr (Or.inr rfl))))).bind
        fun _ _ _ => .pure ?_ rfl
    simp only [Renamed, Alike] at h
    simp [Renamed, Alike, CType.respell, CType.erase, htag, h]
  · exact renamesAt_tagAlone hυ tag (by simp [Renamed, Alike, CType.respell, CType.erase, htag])
      htag htoken

theorem renames_enumerationType (calls : Parser.RenamesCalls ρ P depth)
    (hυ : υ.expects = .nothing)
    (hafter : ∀ offset, σ.after (.keyword .enum) offset = υ.expecting (.tag false)) :
    Renames ρ P depth σ enumerationType enumerationType (Renamed (CType.respell ρ) CType.erase)
      fun _ => υ :=
  (Renames.expect rfl (by simp) hafter).bind fun _ _ _ => renames_enumeration calls hυ

theorem renames_enumerator (calls : Parser.RenamesCalls ρ P depth) (hσ : σ.Calm) :
    Renames ρ P depth σ enumerator enumerator
      (Renamed (Enumerator.respell ρ) Enumerator.erase) fun _ => σ := by
  have hword : Renames ρ P depth σ Script.expectWord Script.expectWord
      (fun name name' => name' = name) fun _ => σ :=
    .expectWord (fun _ _ => hσ.nameSpace) hσ.not_statement hσ.word
  refine (hword.orderly Script.Orderly.expectWord).bind ?_
  rintro name _ ⟨rfl, hname⟩
  refine (Renames.declareEnumerator hname).bind fun _ _ _ => .acceptMark rfl ?_
    fun _ _ => .any (.pure rfl rfl)
  refine (calls (.expression .conditional hσ .initial)).bind fun value value' h => .pure ?_ rfl
  simp only [Renamed, Alike] at h
  simp [Renamed, Alike, Enumerator.respell, Enumerator.erase, h]

theorem renames_enumerators (calls : Parser.RenamesCalls ρ P depth) (hσ : σ.Calm) :
    Renames ρ P depth σ enumerators enumerators
      (Renamed (List.map (Enumerator.respell ρ)) (List.map Enumerator.erase)) fun _ => σ := by
  refine .nextIsMark (fun _ _ => .any (.pure rfl rfl)) fun _ _ => .any ?_
  refine (renames_enumerator calls hσ).bind fun first first' hfirst =>
    .acceptMark hσ.comma ?_ fun _ _ => .any (.pure ?_ rfl)
  · refine (calls (.enumerators hσ)).bind fun others others' hothers => .pure ?_ rfl
    simp only [Renamed, Alike, List.map_cons] at hfirst hothers ⊢
    rw [hfirst, hothers]
  · exact congrArg ([·]) hfirst

/-! ## Specifiers -/

section Tallies

variable {tally tally' : SpecifierTally}

theorem renamed_words (h : Renamed (SpecifierTally.respell ρ) SpecifierTally.erase tally tally') :
    tally.words = tally'.words := by
  simpa using congrArg SpecifierTally.words h

theorem renamed_hasType
    (h : Renamed (SpecifierTally.respell ρ) SpecifierTally.erase tally tally') :
    tally.hasType = tally'.hasType := by
  simpa using congrArg SpecifierTally.hasType h

theorem renamed_hasStorageClass
    (h : Renamed (SpecifierTally.respell ρ) SpecifierTally.erase tally tally') :
    tally.hasStorageClass = tally'.hasStorageClass := by
  simpa using congrArg SpecifierTally.hasStorageClass h

theorem renamed_type? (h : Renamed (SpecifierTally.respell ρ) SpecifierTally.erase tally tally') :
    Renamed (Option.map (CType.respell ρ)) (Option.map CType.erase) tally.type? tally'.type? := by
  simp only [Renamed, Alike] at h ⊢
  rw [SpecifierTally.respell_type?, SpecifierTally.erase_type?, SpecifierTally.erase_type?, h]

/-- A tally that names a record, an enumeration or a type name. -/
theorem renamed_other (h : Renamed (SpecifierTally.respell ρ) SpecifierTally.erase tally tally')
    {type type' : CType} (htype : Renamed (CType.respell ρ) CType.erase type type') :
    Renamed (SpecifierTally.respell ρ) SpecifierTally.erase { tally with other := some type }
      { tally' with other := some type' } := by
  simp only [Renamed, Alike, SpecifierTally.respell, SpecifierTally.erase,
    SpecifierTally.mk.injEq] at h htype ⊢
  exact ⟨h.1, congrArg some htype, h.2.2⟩

theorem hasType_of_type? {base : CType} (h : tally.type? = some base) : tally.hasType = true := by
  unfold SpecifierTally.type? at h
  unfold SpecifierTally.hasType
  cases hother : tally.other with
  | some type => rfl
  | none =>
      cases hwords : tally.words with
      | nil => simp [hother, hwords, ArithmeticType.canonical?] at h
      | cons word words => rfl

theorem renamesAt_typeWord (hσ : σ.Opens)
    (h : Renamed (SpecifierTally.respell ρ) SpecifierTally.erase tally tally') {word : Keyword}
    (hword : word.isTypeWord = true) (p p' : Position) :
    RenamesAt ρ P depth (σ.typedAs tally.hasType) ⟨.keyword word, p⟩
      (typeWord tally ⟨.keyword word, p⟩ word) (typeWord tally' ⟨.keyword word, p'⟩ word)
      (Renamed (SpecifierTally.respell ρ) SpecifierTally.erase)
      fun result => σ.typedAs result.hasType := by
  have hother : tally.other.isSome = tally'.other.isSome := by
    simpa using congrArg (·.other.isSome) h
  rw [typeWord_eq hword, typeWord_eq hword, hother, renamed_words h]
  split
  · exact .any .refuse
  · refine .take (hσ.expects _) (by simp) (hσ.typeWord _ hword) fun _ => ?_
    dsimp only
    split
    · refine .pure ?_ (congrArg σ.typedAs (by simp [SpecifierTally.hasType]))
      simp only [Renamed, Alike, SpecifierTally.respell, SpecifierTally.erase,
        SpecifierTally.mk.injEq] at h ⊢
      exact ⟨trivial, h.2⟩
    · exact .refuse

theorem renamesAt_taggedType (calls : Parser.RenamesCalls ρ P depth) (hσ : σ.Opens)
    (h : Renamed (SpecifierTally.respell ρ) SpecifierTally.erase tally tally') {word : Keyword}
    (hword : word.isTagged = true) (p p' : Position) :
    RenamesAt ρ P depth (σ.typedAs tally.hasType) ⟨.keyword word, p⟩
      (taggedType tally ⟨.keyword word, p⟩ word) (taggedType tally' ⟨.keyword word, p'⟩ word)
      (Renamed (SpecifierTally.respell ρ) SpecifierTally.erase)
      fun result => σ.typedAs result.hasType := by
  have hend := hσ.expects true
  unfold taggedType
  rw [renamed_hasType h]
  split
  · exact .any .refuse
  · have htagged : ∀ offset, (σ.typedAs tally'.hasType).after (.keyword word) offset =
        (σ.typedAs true).expecting (.tag (word ≠ .enum)) := fun _ => hσ.tagged _ hword
    split
    · rename_i henum
      subst henum
      exact .any ((renames_enumerationType calls hend htagged).bind fun _ _ ht =>
        .pure (renamed_other h ht) rfl)
    · rename_i hne
      rw [decide_eq_true hne] at htagged
      exact (renamesAt_recordType calls hend p htagged).bind fun _ _ ht =>
        .pure (renamed_other h ht) rfl

theorem renamesAt_modifier (hσ : σ.Opens)
    (h : Renamed (SpecifierTally.respell ρ) SpecifierTally.erase tally tally') {word : Keyword}
    (hword : word.isStorageClass = true ∨ word.isQualifier = true) (p : Position) :
    RenamesAt ρ P depth (σ.typedAs tally.hasType) ⟨.keyword word, p⟩
      (Script.advance >>= fun _ => Pure.pure (some (tally.addModifier word)))
      (Script.advance >>= fun _ => Pure.pure (some (tally'.addModifier word)))
      (Renamed (Option.map (SpecifierTally.respell ρ)) (Option.map SpecifierTally.erase))
      fun result => σ.typedAs (result.getD tally).hasType := by
  refine .take (hσ.expects _) (by simp) (hσ.modifier _ hword) fun _ => .pure ?_ ?_
  · simp only [Renamed, Alike] at h
    simp [Renamed, Alike, SpecifierTally.respell_addModifier, SpecifierTally.erase_addModifier, h]
  · refine congrArg σ.typedAs ?_
    cases word <;> rfl

/-- A tally that grows is the next specifier. -/
theorem renamesAt_some {token : Token} {prog prog' : Script SpecifierTally}
    (h : RenamesAt ρ P depth (σ.typedAs tally.hasType) token prog prog'
      (Renamed (SpecifierTally.respell ρ) SpecifierTally.erase)
      fun result => σ.typedAs result.hasType) :
    RenamesAt ρ P depth (σ.typedAs tally.hasType) token
      (prog >>= fun result => Pure.pure (some result))
      (prog' >>= fun result => Pure.pure (some result))
      (Renamed (Option.map (SpecifierTally.respell ρ)) (Option.map SpecifierTally.erase))
      fun result => σ.typedAs (result.getD tally).hasType :=
  h.bind fun _ _ ht => .pure (congrArg some ht) rfl

/-- Before a type has been named, words are ordinary; behind it two words may differ. -/
theorem kind_of_twins {typed : Bool} {token token' : Token} {offset : Nat}
    {second : Option TokenKind} (hσ : σ.Opens)
    (h : ρ.Twins ((σ.typedAs typed).nameSpace offset second) token token') :
    token'.kind = token.kind ∨ typed = true ∧
      ∃ name name', token.kind.words = [name] ∧ token'.kind.words = [name'] := by
  cases typed with
  | false =>
      rw [hσ.nameSpace] at h
      exact Or.inl (h.kind (Or.inl rfl))
  | true =>
      rcases h.cases with ⟨-, hkind⟩ | ⟨name, hname, hname'⟩
      · exact Or.inl hkind
      · exact Or.inr ⟨rfl, name, _, hname, hname'⟩

/-- A word is a specifier only where no type has been named, and there words are ordinary. -/
theorem renames_specifier (calls : Parser.RenamesCalls ρ P depth) (hσ : σ.Opens)
    (h : Renamed (SpecifierTally.respell ρ) SpecifierTally.erase tally tally') :
    Renames ρ P depth (σ.typedAs tally.hasType) (specifier tally) (specifier tally')
      (Renamed (Option.map (SpecifierTally.respell ρ)) (Option.map SpecifierTally.erase))
      fun result => σ.typedAs (result.getD tally).hasType := by
  have nothing : Renames ρ P depth (σ.typedAs tally.hasType) (Pure.pure none) (Pure.pure none)
      (Renamed (Option.map (SpecifierTally.respell ρ)) (Option.map SpecifierTally.erase))
      fun result => σ.typedAs (result.getD tally).hasType := .pure rfl rfl
  refine .peek ?_
  rintro ⟨kind, p⟩ ⟨kind', p'⟩ second htwins
  rcases kind_of_twins hσ htwins with hsame | ⟨htyped, name, name', hname, hname'⟩
  · obtain rfl : kind' = kind := hsame
    dsimp only
    rw [← renamed_hasType h, ← renamed_hasStorageClass h]
    split
    · rename_i word
      split
      · rename_i hword
        split
        · exact .any .refuse
        · exact renamesAt_modifier hσ h (Or.inl hword) p
      · split
        · rename_i hword
          exact renamesAt_modifier hσ h (Or.inr hword) p
        · split
          · rename_i hword
            exact renamesAt_some (renamesAt_typeWord hσ h hword p p')
          · split
            · rename_i hword
              exact renamesAt_some (renamesAt_taggedType calls hσ h hword p p')
            · exact .any nothing
    · rename_i name
      split
      · exact .any nothing
      · rename_i htyped
        rw [Bool.not_eq_true] at htyped
        rw [htyped]
        refine .take (hσ.expects _) (by simp) hσ.word fun _ => .pure ?_ rfl
        exact congrArg some (renamed_other h rfl)
    · exact .any nothing
  · -- Where the type has been named, a word is no specifier, whatever its name.
    have htyped' : tally'.hasType = true := renamed_hasType h ▸ htyped
    rw [htyped] at nothing ⊢
    cases kind <;> cases hname <;> cases kind' <;> cases hname' <;>
      simp only [htyped', if_true] <;> exact .any nothing

theorem renames_specifierTail (calls : Parser.RenamesCalls ρ P depth) (hσ : σ.Opens)
    (h : Renamed (SpecifierTally.respell ρ) SpecifierTally.erase tally tally') :
    Renames ρ P depth (σ.typedAs tally.hasType) (specifierTail tally) (specifierTail tally')
      (Renamed (SpecifierTally.respell ρ) SpecifierTally.erase)
      fun result => σ.typedAs result.hasType := by
  refine (renames_specifier calls hσ h).bind ?_
  rintro (_ | next) (_ | next') hnext <;> simp [Renamed, Alike] at hnext
  · exact .pure h rfl
  · exact calls (.specifierTail hσ hnext)

end Tallies

theorem renames_specifiers (calls : Parser.RenamesCalls ρ P depth) (hσ : σ.Opens) :
    Renames ρ P depth σ specifiers specifiers ρ.OfSpecifiers fun _ => σ.typedAs true := by
  have hempty : Renamed (SpecifierTally.respell ρ) SpecifierTally.erase .empty .empty := rfl
  have htail : Renames ρ P depth (σ.typedAs false) (specifierTail .empty) (specifierTail .empty)
      (Renamed (SpecifierTally.respell ρ) SpecifierTally.erase)
      fun result => σ.typedAs result.hasType := renames_specifierTail calls hσ hempty
  rw [hσ.typedAs_false] at htail
  refine Renames.here.bind fun p p' _ => htail.bind fun tally tally' h => ?_
  have htype := renamed_type? h
  simp only [Renamed, Alike, SpecifierTally.respell, SpecifierTally.erase,
    SpecifierTally.mk.injEq] at h
  rcases hbase : tally.type? with _ | base <;> rcases hbase' : tally'.type? with _ | base' <;>
    simp [hbase, hbase', Renamed, Alike] at htype
  · exact .peek fun _ _ _ _ => .any .refuse
  · refine .pure ⟨htype, h.2.2.1, h.2.2.2.1, h.2.2.2.2⟩ ?_
    rw [hasType_of_type? hbase]

theorem renames_typeName (calls : Parser.RenamesCalls ρ P depth) (hσ : σ.Calm) :
    Renames ρ P depth σ typeName typeName (Renamed (CType.respell ρ) CType.erase) fun _ => σ := by
  have hspecifiers := renames_specifiers calls (.calm hσ)
  rw [hσ.typedAs] at hspecifiers
  exact hspecifiers.bind fun _ _ hspecifiers => (renames_ordinaryDeclarator calls hσ _).bind
    fun _ _ hd => .pure (renamed_type hd hspecifiers.base) rfl

/-! ## Parameters and members -/

theorem renames_parameter (calls : Parser.RenamesCalls ρ P depth) (hσ : σ.Calm) :
    Renames ρ P depth σ parameter parameter (Renamed (Parameter.respell ρ) Parameter.erase)
      fun _ => σ := by
  have hspecifiers := renames_specifiers calls (.calm hσ)
  rw [hσ.typedAs] at hspecifiers
  refine Renames.here.bind fun p p' _ => hspecifiers.bind fun specifiers specifiers' hbase =>
    ((renames_ordinaryDeclarator calls hσ .either).orderly (orderly_declarator _)).bind ?_
  rintro d d' ⟨hd, hwords⟩
  have hname : d'.name.map (·.1) = d.name.map (·.1) := hd.name
  have hdone : ∀ name, Renamed (Parameter.respell ρ) Parameter.erase
      ⟨name, d.type specifiers.base, p⟩ ⟨name, d'.type specifiers'.base, p'⟩ := by
    have htype := renamed_type hd hbase.base
    simp only [Renamed, Alike] at htype
    simp [Renamed, Alike, Parameter.respell, Parameter.erase, htype]
  dsimp only
  rw [hname]
  rcases hn : d.name with _ | ⟨name, q⟩
  · exact .pure (hdone none) rfl
  · have hunreserved := unreserved_of_name hwords hn
    exact (Renames.declare hunreserved rfl).bind fun _ _ _ => .pure (hdone (some name)) rfl

theorem renames_parameters (calls : Parser.RenamesCalls ρ P depth) (hσ : σ.Calm) :
    Renames ρ P depth σ parameters parameters
      (Renamed (Prod.map (List.map (Parameter.respell ρ)) id)
        (Prod.map (List.map Parameter.erase) id)) fun _ => σ := by
  refine .acceptMark (Scanner.expecting_nothing hσ.expects) (.pure rfl rfl) fun _ _ => .any ?_
  refine (renames_parameter calls hσ).bind fun first first' hfirst =>
    .acceptMark hσ.comma ?_ fun _ _ => .any (.pure ?_ rfl)
  · refine (calls (.parameters hσ)).bind fun list list' hlist => .pure ?_ rfl
    have hparts := Prod.ext_iff.1 hlist
    simp only [Renamed, Alike, Prod.map, id_eq, List.map_cons] at hparts hfirst ⊢
    rw [hfirst, hparts.1, hparts.2]
  · simp only [Renamed, Alike, Prod.map, List.map_cons, List.map_nil] at hfirst ⊢
    rw [hfirst]
    rfl

/-- Behind the type of a member declaration. -/
theorem renames_moreMembers (calls : Parser.RenamesCalls ρ P depth)
    {specifiers specifiers' : Specifiers} (h : ρ.OfSpecifiers specifiers specifiers') :
    Renames ρ P depth (σ.within (.record true false) .nothing)
      (Script.rule (.memberDeclarators specifiers)) (Script.rule (.memberDeclarators specifiers'))
      (Renamed (List.map (Member.respell ρ)) (List.map Member.erase))
      fun _ => σ.within (.record true true) .nothing :=
  calls (.memberDeclarators σ h)

theorem renames_memberDeclarators (calls : Parser.RenamesCalls ρ P depth)
    {specifiers specifiers' : Specifiers} (h : ρ.OfSpecifiers specifiers specifiers') :
    Renames ρ P depth (σ.within (.record true false) .nothing) (memberDeclarators specifiers)
      (memberDeclarators specifiers') (Renamed (List.map (Member.respell ρ)) (List.map Member.erase))
      fun _ => σ.within (.record true true) .nothing := by
  refine (renames_declarator calls (.member σ.brackets) (Or.inr rfl)).bind fun d d' hd => ?_
  have htype := renamed_type hd h.base
  have hname := hd.name
  simp only [Renamed, Alike] at htype
  rcases hn : d.name with _ | ⟨name, p⟩ <;> rcases hn' : d'.name with _ | ⟨name', p'⟩ <;>
    simp [hn, hn'] at hname
  · exact .contradict
  · have hmember : name' = ρ.member name := hname
    refine .acceptMark rfl ?_ fun _ _ => .any (.pure ?_ rfl)
    · refine (renames_moreMembers calls h).bind fun others others' hothers => .pure ?_ rfl
      simp only [Renamed, Alike] at hothers
      simp [Renamed, Alike, Member.respell, Member.erase, htype, hmember, hothers]
    · simp [Renamed, Alike, Member.respell, Member.erase, htype, hmember]

theorem renames_memberDeclaration (calls : Parser.RenamesCalls ρ P depth) :
    Renames ρ P depth (σ.within (.record false false) .nothing) memberDeclaration memberDeclaration
      (Renamed (List.map (Member.respell ρ)) (List.map Member.erase))
      fun _ => σ.within (.record false false) .nothing := by
  refine (renames_specifiers calls (.member σ.brackets)).bind fun specifiers specifiers' h => ?_
  rw [h.isTypedef, h.storage]
  split
  · exact .fail
  · refine (renames_moreMembers calls h).bind fun list list' hlist =>
      .peek fun token token' second htwins => ?_
    by_cases hkind : token.kind = .punctuator .semicolon
    · rw [if_pos hkind, if_pos ((htwins.kind_iff rfl).2 hkind)]
      exact .take rfl (by simp [hkind]) (by rw [hkind]; rfl) fun _ => .pure hlist rfl
    · rw [if_neg hkind]
      exact .any .refuse

theorem renames_members (calls : Parser.RenamesCalls ρ P depth) :
    Renames ρ P depth (σ.within (.record false false) .nothing) members members
      (Renamed (List.map (Member.respell ρ)) (List.map Member.erase))
      fun _ => σ.within (.record false false) .nothing := by
  refine .nextIsMark (fun _ _ => .any (.pure rfl rfl)) fun _ _ => .any ?_
  refine (renames_memberDeclaration calls).bind fun first first' hfirst =>
    (calls (.members σ)).bind fun others others' hothers => .pure ?_ rfl
  simp only [Renamed, Alike, List.map_append] at hfirst hothers ⊢
  rw [hfirst, hothers]

/-! ## Declarations -/

/-- The brace of an initial value belongs to no block. -/
theorem renames_initialValue (calls : Parser.RenamesCalls ρ P depth) (hσ : σ.Calm) {e : Expects}
    (he : e.Idle) (hopen : (σ.expecting e).mark .openBrace = σ.within .list .nothing) :
    Renames ρ P depth (σ.expecting e) initialValue initialValue
      (Renamed (Expr.respell ρ) Expr.erase) fun _ => σ := by
  refine Renames.here.bind fun p p' _ => .acceptMark hopen ?_
    fun _ _ => .any (renames_expression calls hσ he _)
  refine (calls (.initializerItems σ)).bind fun items items' h =>
    (Renames.expectMark (Scanner.close_list hσ.expects (Or.inr (Or.inr (Or.inr rfl))))).bind
      fun _ _ _ => .pure ?_ rfl
  simp only [Renamed, Alike] at h
  simp [Renamed, Alike, Expr.respell, Expr.erase, h]

theorem renames_initializerItems (calls : Parser.RenamesCalls ρ P depth) :
    Renames ρ P depth (σ.within .list .nothing) initializerItems initializerItems
      (Renamed (List.map (Expr.respell ρ)) (List.map Expr.erase))
      fun _ => σ.within .list .nothing := by
  refine .nextIsMark (fun _ _ => .any (.pure rfl rfl)) fun _ _ => .any ?_
  refine (renames_initialValue calls (.list σ) .nothing rfl).bind fun first first' hfirst =>
    .acceptMark (Scanner.Calm.list σ).comma ?_ fun _ _ => .any (.pure ?_ rfl)
  · refine (calls (.initializerItems σ)).bind fun others others' hothers => .pure ?_ rfl
    simp only [Renamed, Alike, List.map_cons] at hfirst hothers ⊢
    rw [hfirst, hothers]
  · exact congrArg ([·]) hfirst

section Groups

variable {specifiers specifiers' : Specifiers} {d d' : Declarator}

theorem renames_initial? (calls : Parser.RenamesCalls ρ P depth) (hσ : σ.Calm)
    (h : ρ.OfSpecifiers specifiers specifiers') :
    Renames ρ P depth σ (initial? specifiers) (initial? specifiers')
      (Renamed (Option.map (Expr.respell ρ)) (Option.map Expr.erase)) fun _ => σ := by
  unfold initial?
  rw [h.isTypedef]
  split
  · exact .pure rfl rfl
  · exact .acceptMark rfl ((renames_initialValue calls hσ .initial rfl).bind
      fun _ _ hvalue => .pure (congrArg some hvalue) rfl) fun _ _ => .any (.pure rfl rfl)

theorem renames_initDeclarator (calls : Parser.RenamesCalls ρ P depth) (hσ : σ.Calm)
    (h : ρ.OfSpecifiers specifiers specifiers') (hd : ρ.OfDeclarators .ordinary d d')
    (hwords : AllUnreserved d.words) :
    Renames ρ P depth σ (initDeclarator specifiers d) (initDeclarator specifiers' d')
      (Renamed (Declaration.respell ρ) Declaration.erase) fun _ => σ := by
  have htype := renamed_type hd h.base
  have hname := hd.name
  simp only [Renamed, Alike] at htype
  unfold initDeclarator
  rcases hn : d.name with _ | ⟨name, p⟩ <;> rcases hn' : d'.name with _ | ⟨name', p'⟩ <;>
    simp [hn, hn'] at hname
  · exact .contradict
  · obtain rfl : name' = name := hname
    have hunreserved := unreserved_of_name hwords hn
    refine (Renames.declare hunreserved ?_).bind fun _ _ _ =>
      (renames_initial? calls hσ h).bind fun value value' hvalue => .pure ?_ rfl
    · rw [h.isTypedef]
      cases specifiers'.isTypedef
      · rfl
      · exact congrArg Meaning.typeName htype
    · simp only [Renamed, Alike] at hvalue
      simp [Renamed, Alike, Declaration.respell, Declaration.erase, htype, hvalue, h.isTypedef,
        h.storage, h.qualifiers]

theorem renames_declarations (calls : Parser.RenamesCalls ρ P depth) (hσ : σ.Calm)
    (h : ρ.OfSpecifiers specifiers specifiers') (hd : ρ.OfDeclarators .ordinary d d')
    (hwords : AllUnreserved d.words) :
    Renames ρ P depth σ (declarations specifiers d) (declarations specifiers' d')
      (Renamed (List.map (Declaration.respell ρ)) (List.map Declaration.erase)) fun _ => σ := by
  refine (renames_initDeclarator calls hσ h hd hwords).bind fun first first' hfirst =>
    .acceptMark hσ.comma ?_ fun _ _ => .any (.pure ?_ rfl)
  · have hrule : Renames ρ P depth σ (Script.rule (.initDeclarators specifiers))
        (Script.rule (.initDeclarators specifiers'))
        (Renamed (List.map (Declaration.respell ρ)) (List.map Declaration.erase)) fun _ => σ :=
      calls (.initDeclarators hσ h)
    refine hrule.bind fun others others' hothers => .pure ?_ rfl
    simp only [Renamed, Alike, List.map_cons] at hfirst hothers ⊢
    rw [hfirst, hothers]
  · exact congrArg ([·]) hfirst

theorem renames_initDeclarators (calls : Parser.RenamesCalls ρ P depth) (hσ : σ.Calm)
    (h : ρ.OfSpecifiers specifiers specifiers') :
    Renames ρ P depth σ (initDeclarators specifiers) (initDeclarators specifiers')
      (Renamed (List.map (Declaration.respell ρ)) (List.map Declaration.erase)) fun _ => σ :=
  ((renames_ordinaryDeclarator calls hσ _).orderly (orderly_declarator _)).bind
    fun _ _ hd => renames_declarations calls hσ h hd.1 hd.2

theorem renames_groupFrom (calls : Parser.RenamesCalls ρ P depth) (hσ : σ.Calm)
    (h : ρ.OfSpecifiers specifiers specifiers') (hd : ρ.OfDeclarators .ordinary d d')
    (hwords : AllUnreserved d.words) :
    Renames ρ P depth σ (groupFrom specifiers d) (groupFrom specifiers' d')
      (Renamed (DeclarationGroup.respell ρ) DeclarationGroup.erase) fun _ => σ.mark .semicolon := by
  refine (renames_declarations calls hσ h hd hwords).bind fun list list' hlist =>
    (Renames.expectMark rfl).bind fun _ _ _ => .pure ?_ rfl
  have hbase := h.base
  simp only [Renamed, Alike] at hlist hbase
  simp [Renamed, Alike, DeclarationGroup.respell, DeclarationGroup.erase, hlist, hbase]

theorem renamed_bareGroup (h : ρ.OfSpecifiers specifiers specifiers') :
    Renamed (DeclarationGroup.respell ρ) DeclarationGroup.erase (bareGroup specifiers)
      (bareGroup specifiers') := by
  have hbase := h.base
  simp only [Renamed, Alike] at hbase
  simp [Renamed, Alike, bareGroup, DeclarationGroup.respell, DeclarationGroup.erase, hbase]

theorem renames_declarationGroup (calls : Parser.RenamesCalls ρ P depth) (hσ : σ.Calm) :
    Renames ρ P depth σ declarationGroup declarationGroup
      (Renamed (DeclarationGroup.respell ρ) DeclarationGroup.erase) fun _ => σ.mark .semicolon := by
  have hspecifiers := renames_specifiers calls (.calm hσ)
  rw [hσ.typedAs] at hspecifiers
  refine hspecifiers.bind fun specifiers specifiers' h =>
    .acceptMark rfl (.pure (renamed_bareGroup h) rfl) fun _ _ => .any ?_
  exact ((renames_ordinaryDeclarator calls hσ _).orderly (orderly_declarator _)).bind
    fun _ _ hd => renames_groupFrom calls hσ h hd.1 hd.2

end Groups

end Grammar
end CSyntax
