import CSyntax.Proofs.Prefix.Expressions

/-!
# Declarations — specifiers, declarators and lists can be completed

Specifiers without a type are completed by `int`, and a declarator that needs a name by one.  A
parenthesis where a declarator may begin is completed by an asterisk and the closing one, since it
could not stand for a parameter list.  Lists in braces are closed at once.

A storage class that completed specifiers have was there before they were completed.  For the
specifiers of a member this is where there is no completion at all.
-/

namespace CSyntax
namespace Grammar

open Script Script.Viable

variable {depth : Nat} {fault : ParseError} {place : Place} {T : SymbolTable} {N : Sequel}
  {mode : DeclaratorMode}

/-! ## Declarators off fillers -/

theorem reads_pointerTail (hT : T.KeywordFree) :
    pointerTail.Reads T [] (· = 0) T Sequel.word.Leads := by
  refine reads_look hT ?_
  intro kind hkind position
  fin_cases hkind <;> rfl

theorem opens_suffixes (hT : T.KeywordFree) : suffixes.Opens T .closer .closer :=
  .accept_not (.accept_not Opens.pure hT (by decide)) hT (by decide)

/-- A name is read where a declarator has to have one, and nothing elsewhere. -/
theorem opens_declaratorCore (hT : T.KeywordFree) (mode : DeclaratorMode) :
    (declaratorCore mode).Opens T (Nonterminal.declarator mode).lead .closer := by
  by_cases hmode : mode = .named
  · subst hmode
    refine ⟨[.name], { name := some ("x", .start none), modifiers := [] }, T,
      fun after _ => Sequel.leads_cons after List.mem_cons_self, Reads.peek ?_⟩
    rcases Filler.classify_name T with h | h
    all_goals
      rw [show T.classify Filler.name.piece.lexeme = _ from h]
      exact Reads.cons Reads.advance fun _ _ => .pure rfl
  · have hlead : (Nonterminal.declarator mode).lead = .closer := by cases mode <;> trivial
    rw [hlead]
    refine Opens.look (a := { name := none, modifiers := [] }) hT ?_
    intro kind hkind position
    fin_cases hkind <;> cases mode <;> first | rfl | exact absurd rfl hmode

theorem asterisk_notMem_lead (mode : DeclaratorMode) :
    .punctuator .asterisk ∉ (Nonterminal.declarator mode).lead.kinds := by
  cases mode <;> decide

/-- The core of a declarator stands behind its asterisks. -/
theorem opens_declarator_core {O : Sequel} (hT : T.KeywordFree)
    (hpointers : pointers.Opens T O (Nonterminal.declarator mode).lead) :
    (declarator mode).Opens T O .closer := by
  have hready : Place.anywhere.Ready T := { keywordFree := hT, holds := trivial }
  have hpointersSteady : pointers.Steady .anywhere fun _ => True :=
    .of_orderly orderly_pointers keeps_pointers
  have hcoreSteady : (declaratorCore mode).Steady .anywhere fun _ => True :=
    .of_orderly ((orderly_declaratorCore mode).weaken fun _ _ => trivial) (keeps_declaratorCore mode)
  refine hpointers.bind hpointersSteady hready (List.Subset.refl _) fun count U _ hU _ => ?_
  refine (opens_declaratorCore hU.keywordFree mode).bind hcoreSteady hU (List.Subset.refl _)
    fun core V _ hV _ => ?_
  exact (opens_suffixes hV.keywordFree).map

theorem opens_declarator (hT : T.KeywordFree) (mode : DeclaratorMode) :
    (declarator mode).Opens T (Nonterminal.declarator mode).lead .closer :=
  opens_declarator_core hT
    (.accept_not .pure hT (asterisk_notMem_lead mode))

/-- A pointer without a name. -/
theorem opens_declarator_asterisk (hT : T.KeywordFree) (hmode : mode ≠ .named) :
    (declarator mode).Opens T (.only (.punctuator .asterisk)) .closer := by
  have hlead : (Nonterminal.declarator mode).lead = .closer := by cases mode <;> trivial
  have htail : (rule .pointerTail >>= fun count => pure (count + 1) : Script Nat).Reads T []
      (· = 1) T Sequel.word.Leads :=
    (Reads.rule (f := .pointerTail) (reads_pointerTail hT)).map (by rintro _ rfl; rfl)
  refine opens_declarator_core hT ?_
  rw [hlead]
  exact .accept (N := .word) _ ⟨[], 1, T, fun _ h => h.mono (by decide),
    htail.before fun _ h => h.mono (by decide)⟩ hT (by decide)

/-! ## Declarators -/

theorem viable_pointerTail (calls : Calls depth fault) :
    pointerTail.Viable depth fault place .word .word fun _ => True := by
  have hmore : Viable (α := Nat) depth fault place (rule .pointerTail) .word .word fun _ => True :=
    (calls.anywhere .pointerTail rfl rfl).weaken fun _ _ => trivial
  refine peek (.of_orderly orderly_pointerTail keeps_pointerTail)
    (fun T hT => ⟨[], 0, T, fun _ => id, reads_pointerTail hT.keywordFree⟩) ?_
  intro T piece p hT
  dsimp only
  split
  · exact behind hT hmore.map
  · exact behind hT hmore
  · exact behind hT hmore
  · exact .pure

theorem viable_pointers (calls : Calls depth fault) (hsub : N.fillers ⊆ Sequel.word.fillers)
    (hasterisk : .punctuator .asterisk ∉ N.kinds) :
    pointers.Viable depth fault place N N fun _ => True :=
  accept ((calls.anywhere .pointerTail rfl rfl).map.mono (List.Subset.refl _) hsub fun _ => id) done
    hasterisk

/-! ### Parameter lists -/

theorem viable_parametersUnlessClosed (calls : Calls depth fault) :
    parameterList.parametersUnlessClosed.Viable depth fault .block (.only (.punctuator .closeParen))
      (.only (.punctuator .closeParen)) fun _ => True := by
  have hlist : Viable (α := List Parameter × Bool) depth fault .block (rule .parameters)
      (.only (.punctuator .ellipsis)) .closer fun _ => True :=
    (calls.rule .parameters rfl fun _ => id).weaken fun _ _ => trivial
  refine nextIs (fun T hT => Opens.look (a := ([], false)) hT.keywordFree ?_) done
    (hlist.mono (List.Subset.refl _) (by decide) fun _ => id)
  intro kind hkind position
  rw [List.mem_singleton.1 hkind]
  rfl

/-- The parameters and the scope that they are declared in. -/
def parameterScope : Script (List Parameter × Bool) := do
  enter .block
  let list ← parameterList.parametersUnlessClosed
  let close ← expectMark .closeParen
  leave close.position
  return list

theorem viable_parameterScope (calls : Calls depth fault) :
    parameterScope.Viable depth fault place (.only (.punctuator .closeParen)) .closer
      fun _ => True :=
  enclosed (.punctuator .closeParen) (viable_parametersUnlessClosed calls) (fun _ _ => rfl)
    (List.Subset.refl _) (by decide) fun _ _ => done

section

variable {v : View} {first second : Piece} {others : List Piece}

theorem takes_isVoid_not (h : v.kind first ≠ .keyword .void) :
    parameterList.isVoid.Takes (v.facing (first :: others)) false (v.facing (first :: others)) := by
  refine Takes.nextIs.bind ?_
  rw [if_neg (by simpa using h)]
  exact Takes.pure

theorem takes_isVoid (h : v.kind first = .keyword .void) :
    parameterList.isVoid.Takes (v.facing (first :: second :: others))
      (decide (v.kind second = .punctuator .closeParen)) (v.facing (first :: second :: others)) := by
  refine Takes.nextIs.bind ?_
  rw [if_pos (by simpa using h)]
  exact Takes.peekNth_one.bind Takes.pure

end

/-- The word `void` that has come alone may stand for no parameters. -/
theorem completes_void {first : Piece} (h : T.classify first.lexeme = .keyword .void)
    {S : Sequel} : parameterList.Completes T [first] S ([], false) := by
  refine ⟨[.punctuator .closeParen], T, ?_⟩
  rintro v after hv rfl -
  refine ⟨_, rfl, (takes_isVoid h).bind ?_⟩
  exact (Takes.advance hv).bind ((Takes.advance hv).bind Takes.pure)

theorem viable_parameterList (calls : Calls depth fault) :
    parameterList.Viable depth fault place (.only (.punctuator .closeParen)) .closer
      fun _ => True where
  steady := .of_orderly (orderly_parameterList.weaken fun _ _ => trivial) restores_parameterList.keeps
  continues T hT := by
    have hscope := (viable_parameterScope calls).continues T hT
    have hopens : parameterList.Opens T (.only (.punctuator .closeParen)) .closer := by
      obtain ⟨c, a, U, hleads, hreads⟩ := hscope.opens
      refine ⟨c, a, U, hleads, ?_⟩
      rintro v after hv rfl hafter
      obtain ⟨_, rfl, htakes⟩ := hreads v after hv rfl hafter
      obtain ⟨first, others, hpieces, hfirst⟩ := (hleads after hafter).faces hT.keywordFree
      rw [hpieces] at htakes ⊢
      have hkind : v.kind first = .punctuator .closeParen := List.mem_singleton.1 hfirst
      exact ⟨_, rfl, (takes_isVoid_not (by rw [hkind]; nofun)).bind htakes⟩
    refine { opens := hopens, resumes := fun p => ?_ }
    match p with
    | [] => exact .of_opens hopens
    | first :: p =>
        by_cases hvoid : T.classify first.lexeme = .keyword .void
        · match p with
          | [] => exact fun _ => Or.inl ⟨_, completes_void hvoid⟩
          | second :: p =>
              refine .past (takes_isVoid (v := .alone T [] fault) hvoid) ?_
              split
              · exact .advance (.advance .pure)
              · exact hscope.resumes _
        · exact .past (takes_isVoid_not (v := .alone T [] fault) hvoid) (hscope.resumes _)

theorem viable_suffixes (calls : Calls depth fault) :
    suffixes.Viable depth fault place .closer .closer fun _ => True := by
  have hmore : Viable (α := List TypeModifier) depth fault place (rule .suffixes) .closer .closer
      fun _ => True := (calls.anywhere .suffixes rfl rfl).weaken fun _ _ => trivial
  exact accept
    (accept hmore.map ((calls.expression .conditional).bind (by decide) fun _ _ =>
      (expect (.punctuator .closeBracket) (by decide)).andThen fun _ _ =>
        hmore.map) (by decide))
    (accept ((viable_parameterList calls).andThen fun _ _ => hmore.map) done
      (by decide)) (by decide)

/-! ### Declarators with their cores -/

/-- What is read behind a parenthesis that opens a declarator. -/
def nestedDeclarator (mode : DeclaratorMode) : Script Declarator := do
  let inner ← rule (.declarator mode)
  let _ ← expectMark .closeParen
  return inner

theorem viable_nestedDeclarator (calls : Calls depth fault) (mode : DeclaratorMode) :
    (nestedDeclarator mode).Viable depth fault place (Nonterminal.declarator mode).lead .closer
      fun _ => True := by
  have hinner : Viable (α := Declarator) depth fault place (rule (.declarator mode))
      (Nonterminal.declarator mode).lead .closer fun _ => True :=
    (calls.anywhere (.declarator mode) rfl rfl).weaken fun _ _ => trivial
  exact hinner.bind (by decide) fun _ _ => (expect (.punctuator .closeParen) (by decide)).map

theorem opens_nestedDeclarator_asterisk (hT : T.KeywordFree) (hmode : mode ≠ .named) :
    (nestedDeclarator mode).Opens T (.only (.punctuator .asterisk)) .closer := by
  have hready : Place.anywhere.Ready T := { keywordFree := hT, holds := trivial }
  have hinner : (rule (.declarator mode)).Opens T (.only (.punctuator .asterisk)) .closer :=
    Opens.rule (f := .declarator mode) (opens_declarator_asterisk hT hmode)
  exact hinner.bind (.rule fun _ => id) hready
    (by decide : (Sequel.only (.punctuator .closeParen)).fillers ⊆ _) fun inner U _ hU _ =>
      (Opens.expect _ hU.keywordFree (by decide)).map

section

variable {v : View} {first second : Piece} {others : List Piece}

/-- Whether a parenthesis opens a declarator is known when the token behind it is. -/
theorem exists_takes_opensDeclarator :
    ∃ found, (opensDeclarator mode).Takes (v.facing (first :: second :: others)) found
      (v.facing (first :: second :: others)) := by
  have hlooked : ∀ next : Token → Script Bool, (∀ token, ∃ found, next token = Pure.pure found) →
      ∃ found, (peekNth 1 >>= next).Takes (v.facing (first :: second :: others)) found
        (v.facing (first :: second :: others)) := by
    intro next hnext
    obtain ⟨found, hfound⟩ := hnext (v.next second)
    exact ⟨found, Takes.peekNth_one.bind (hfound ▸ Takes.pure)⟩
  cases mode with
  | named => exact ⟨true, Takes.pure⟩
  | nameless => exact hlooked _ fun token => by split <;> exact ⟨_, rfl⟩
  | either => exact hlooked _ fun token => by split <;> exact ⟨_, rfl⟩

theorem takes_opensDeclarator_asterisk (h : v.kind second = .punctuator .asterisk) :
    (opensDeclarator mode).Takes (v.facing (first :: second :: others)) true
      (v.facing (first :: second :: others)) := by
  cases mode with
  | named => exact Takes.pure
  | nameless | either =>
      refine Takes.peekNth_one.bind ?_
      rw [View.kind_next, h]
      exact Takes.pure

end

/-- A parenthesis that has come alone is completed as one that opens a declarator. -/
theorem resumes_opensDeclarator (calls : Calls depth fault) (hT : place.Ready T) {piece : Piece}
    {p : List Piece} {other : Declarator} :
    (opensDeclarator mode >>= fun opened => if opened = true then
      advance >>= fun _ => nestedDeclarator mode else pure other).Resumes depth fault T (piece :: p)
        .closer := by
  have hnested := (viable_nestedDeclarator calls mode).resumes hT p
  match p with
  | second :: p =>
      obtain ⟨found, htakes⟩ : ∃ found, (opensDeclarator mode).Takes
          (.alone T (piece :: second :: p) fault) found (.alone T (piece :: second :: p) fault) :=
        exists_takes_opensDeclarator (v := .alone T [] fault)
      refine .past htakes ?_
      split
      · exact .advance hnested
      · exact .pure
  | [] =>
      by_cases hmode : mode = .named
      · subst hmode
        exact .advance hnested
      · refine .of_opens_behind (opens_nestedDeclarator_asterisk hT.keywordFree hmode)
          hT.keywordFree fun v first others a w hv _ hfirst htakes => ?_
        have hkind : v.kind first = .punctuator .asterisk := List.mem_singleton.1 hfirst
        exact (takes_opensDeclarator_asterisk hkind).bind ((Takes.advance hv).bind htakes)

theorem viable_declaratorCore (calls : Calls depth fault) (mode : DeclaratorMode) :
    (declaratorCore mode).Viable depth fault place (Nonterminal.declarator mode).lead .closer
      fun _ => True := by
  refine peek (.of_orderly ((orderly_declaratorCore mode).weaken fun _ _ => trivial)
    (keeps_declaratorCore mode)) (fun T hT => opens_declaratorCore hT.keywordFree mode) ?_
  intro T piece p hT
  dsimp only
  split
  · split
    · exact .pure
    · exact .advance .pure
  · split
    · exact .pure
    · exact .advance .pure
  · exact resumes_opensDeclarator calls hT
  · split
    · exact .refuse
    · exact .pure

theorem viable_declarator (calls : Calls depth fault) (mode : DeclaratorMode) :
    (declarator mode).Viable depth fault place (Nonterminal.declarator mode).lead .closer
      fun d => AllUnreserved d.words :=
  have hparts := (viable_pointers calls (by cases mode <;> decide) (asterisk_notMem_lead mode)).bind
    (List.Subset.refl _) fun count _ => (viable_declaratorCore calls mode).andThen
      fun core _ => (viable_suffixes calls).map
  hparts.narrow (.of_orderly (orderly_declarator mode) (keeps_declarator mode))

theorem viable_declarator_named (calls : Calls depth fault) :
    (declarator .named).Viable depth fault place (.only .name) .closer
      fun d => AllUnreserved d.words ∧ d.name.isSome = true :=
  have hdeclarator := viable_declarator calls .named
  hdeclarator.narrow (hdeclarator.steady.named named_declarator)

/-! ## Records and enumerations -/

/-- A tag that is missing is missed at a token. -/
theorem resumes_requireTag {α : Type} {tag : Option String} {a : α} {piece : Piece} {p : List Piece}
    {S : Sequel} :
    (requireTag tag >>= fun _ => pure a).Resumes depth fault T (piece :: p) S := by
  cases tag with
  | some _ => exact .pure
  | none => exact .peek .refuse

theorem steady_requireTag {α : Type} {tag : Option String} {a : α} :
    (requireTag tag >>= fun _ => pure a : Script α).Steady place fun _ => True :=
  .bind (.of_orderly (orderly_requireTag tag) (keeps_requireTag tag)) fun _ _ => .pure trivial

theorem viable_record (calls : Calls depth fault) (kind : RecordKind) :
    (record kind).Viable depth fault place (.only .name) .word fun _ => True :=
  have hmembers : Viable (α := List Member) depth fault .anywhere (rule .members) .brace .brace
      fun _ => True := (calls.anywhere .members rfl rfl).weaken fun _ _ => trivial
  acceptWord.andThen fun _ _ =>
    acceptFirst (.punctuator .openBrace)
      (enclosed (.punctuator .closeBrace) hmembers (fun _ _ => trivial) (List.Subset.refl _)
        (by decide) fun _ _ => done)
      steady_requireTag (fun _ _ _ _ => resumes_requireTag) (by decide)

/-- The keyword of a record has come. -/
theorem resumes_recordType (calls : Calls depth fault) (hT : T.KeywordFree) {piece : Piece}
    {p : List Piece} : recordType.Resumes depth fault T (piece :: p) .word := by
  have hready : Place.anywhere.Ready T := { keywordFree := hT, holds := trivial }
  refine .advance ?_
  split
  · exact (viable_record calls .struct).resumes hready p
  · exact (viable_record calls .union).resumes hready p
  · exact .contradictAt

theorem viable_enumeration (calls : Calls depth fault) :
    enumeration.Viable depth fault place (.only .name) .word fun _ => True :=
  acceptWord.andThen fun _ _ =>
    acceptFirst (.punctuator .openBrace)
      ((calls.anywhere .enumerators rfl rfl).andThen fun _ _ =>
        (expect (.punctuator .closeBrace) (by decide)).map)
      steady_requireTag (fun _ _ _ _ => resumes_requireTag) (by decide)

theorem resumes_enumerationType (calls : Calls depth fault) (hT : T.KeywordFree) {piece : Piece}
    {p : List Piece} : enumerationType.Resumes depth fault T (piece :: p) .word := by
  have hready : Place.anywhere.Ready T := { keywordFree := hT, holds := trivial }
  unfold enumerationType Script.expect
  rw [bind_assoc]
  refine .peek ?_
  split
  · exact .advance ((viable_enumeration calls).resumes hready p)
  · exact .fail

theorem viable_enumerator (calls : Calls depth fault) :
    enumerator.Viable depth fault place (.only .name) .closer fun _ => True :=
  expectWord.andThen fun _ hname =>
    (declareEnumerator hname).andThen fun _ _ =>
      accept (calls.expression .conditional).map done (by decide)

theorem opens_enumerators (hT : T.KeywordFree) : enumerators.Opens T .brace .brace := by
  refine Opens.look (a := []) hT ?_
  intro kind hkind position
  rw [List.mem_singleton.1 hkind]
  rfl

theorem viable_enumerators (calls : Calls depth fault) :
    enumerators.Viable depth fault place .brace .brace fun _ => True :=
  nextIs (fun T hT => opens_enumerators hT.keywordFree) done
    ((viable_enumerator calls).bind (by decide) fun _ _ =>
      accept (calls.anywhere .enumerators rfl rfl).map done (by decide))

/-! ## Specifiers -/

variable {tally : SpecifierTally}

/-- Specifiers with a type end in front of what may come behind them. -/
theorem reads_specifierTail (hT : T.KeywordFree) (htype : tally.hasType = true) :
    (specifierTail tally).Reads T [] (· = tally) T Sequel.word.Leads := by
  have hnone : (specifier tally).Reads T [] (· = none) T Sequel.word.Leads := by
    refine reads_look hT ?_
    intro kind hkind position
    fin_cases hkind <;> first | rfl | exact if_pos htype
  exact hnone.last (fun found hfound => hfound ▸ .pure rfl) fun _ => id

/-- Without a type, they go on with `int`. -/
theorem reads_specifierTail_int (hT : T.KeywordFree) (htype : tally.hasType = false) :
    (specifierTail tally).Reads T [Filler.int.piece] (· = { tally with words := [.int] }) T
      Sequel.word.Leads := by
  obtain ⟨hother, hwords⟩ : tally.other = none ∧ tally.words = [] := by
    simpa [SpecifierTally.hasType] using htype
  have hword : (specifier tally).Reads T [Filler.int.piece]
      (· = some { tally with words := [.int] }) T fun _ => True := by
    rintro v after hv rfl -
    have hkind : v.kind Filler.int.piece = .keyword .int := hT.classify_keyword .int
    have htakes : (specifier tally).Takes (v.facing (Filler.int.piece :: after))
        (some { tally with words := tally.words ++ [.int] }) (v.facing after) :=
      takes_specifier_word hv hkind rfl hother (by rw [hwords]; decide)
    exact ⟨_, rfl, by simpa [hwords] using htakes⟩
  refine hword.cons fun found hfound => ?_
  subst hfound
  have htail : (specifierTail { tally with words := [.int] }).Reads T [] (· = _) T
      Sequel.word.Leads := reads_specifierTail hT (by simp [SpecifierTally.hasType])
  exact Reads.rule (f := .specifierTail _) htail

/-- As `Script.Resumes`; the specifier that is completed is the type of the tally. -/
def ResumesTyped (depth : Nat) (fault : ParseError) (tally : SpecifierTally)
    (prog : Script (Option SpecifierTally)) (T : SymbolTable) (p : List Piece) : Prop :=
  prog.Starves (Parser.StarvesAt depth) (.alone T p fault) →
    (∃ type, prog.Completes T p .word (some { tally with other := some type })) ∨
      prog.Barred (.alone T p fault)

namespace ResumesTyped

variable {p : List Piece}

theorem past {γ : Type} {first : Script γ} {next : γ → Script (Option SpecifierTally)} {a : γ}
    {U : SymbolTable} {p' : List Piece}
    (htakes : first.Takes (.alone T p fault) a (.alone U p' fault))
    (h : ResumesTyped depth fault tally (next a) U p') :
    ResumesTyped depth fault tally (first >>= next) T p := by
  intro hstarves
  rcases h (hstarves.past htakes) with ⟨type, hcompletes⟩ | hbarred
  · exact Or.inl ⟨type, hcompletes.past htakes⟩
  · exact Or.inr (hbarred.rest htakes)

theorem of_resumes {prog : Script CType} (h : prog.Resumes depth fault T p .word) :
    ResumesTyped depth fault tally
      (prog >>= fun type => pure (some { tally with other := some type })) T p := by
  intro hstarves
  rcases hstarves.bind with hfirst | ⟨_, _, -, hdone⟩
  · rcases h hfirst with ⟨type, hcompletes⟩ | hbarred
    · exact Or.inl ⟨type, hcompletes.map⟩
    · exact Or.inr hbarred.front
  · exact hdone.elim

end ResumesTyped

theorem not_starves_typeWord {piece : Piece} {p : List Piece} {word : Keyword} :
    ¬ (typeWord tally ⟨T.classify piece.lexeme, piece.position⟩ word).Starves
      (Parser.StarvesAt depth) (.alone T (piece :: p) fault) := by
  intro hstarves
  unfold typeWord at hstarves
  split at hstarves
  · exact hstarves
  · have hlater := hstarves.past (Takes.advance (v := .alone T [] fault) rfl)
    split at hlater
    · split at hlater <;> exact hlater
    · exact hlater

theorem resumes_taggedType (calls : Calls depth fault) (hT : T.KeywordFree) {piece : Piece}
    {p : List Piece} {token : Token} {word : Keyword} :
    ResumesTyped depth fault tally (taggedType tally token word >>= fun next => pure (some next)) T
      (piece :: p) := by
  unfold taggedType
  split
  · exact fun hstarves => hstarves.elim
  · split
    all_goals simp only [bind_assoc, pure_bind]
    · exact .of_resumes (resumes_enumerationType calls hT)
    · exact .of_resumes (resumes_recordType calls hT)

/-- Lexemes run out in a record or an enumeration, if they do so in a specifier. -/
theorem resumes_specifier (calls : Calls depth fault) (hT : T.KeywordFree) {piece : Piece}
    {p : List Piece} :
    ResumesTyped depth fault tally (specifier tally) T (piece :: p) := by
  refine .past (Takes.peek (v := .alone T [] fault)) ?_
  dsimp only [View.kind_next]
  split
  · split
    · split
      · exact fun hstarves => hstarves.elim
      · exact fun hstarves => hstarves.elim
    · split
      · exact fun hstarves => hstarves.elim
      · split
        · intro hstarves
          rcases hstarves.bind with hword | ⟨_, _, -, hdone⟩
          · exact absurd hword not_starves_typeWord
          · exact hdone.elim
        · split
          · exact resumes_taggedType calls hT
          · exact fun hstarves => hstarves.elim
  · split
    · exact fun hstarves => hstarves.elim
    · exact fun hstarves => hstarves.elim
  · exact fun hstarves => hstarves.elim

theorem sane_empty : SpecifierTally.Sane .empty :=
  nofun

theorem Joins.sane {next : SpecifierTally} (h : Joins tally next) (hsane : tally.Sane) :
    next.Sane := by
  cases h with
  | modifier word => cases word <;> exact hsane
  | word hother hcanonical =>
      intro _
      simpa [SpecifierTally.type?, hother] using hcanonical
  | type type => exact fun _ => rfl

theorem furnishes_refl (hsane : tally.Sane) (hT : T.KeywordFree) :
    ∃ result, Furnishes tally T [] fault result := by
  cases htype : tally.hasType with
  | true =>
      exact ⟨tally, hsane htype, fun hstorage => ⟨tally, .refl, hstorage⟩, [], T,
        reads_specifierTail hT htype⟩
  | false =>
      have hother : tally.other = none := by simp_all [SpecifierTally.hasType]
      have hint : ({ tally with words := [.int] } : SpecifierTally).type?.isSome = true := by
        simp only [SpecifierTally.type?, hother]
        decide
      exact ⟨{ tally with words := [.int] }, hint, fun hstorage => ⟨tally, .refl, hstorage⟩, [.int],
        T, reads_specifierTail_int hT htype⟩

theorem furnishes_of_starves (calls : Calls depth fault) (hsane : tally.Sane) (hT : T.KeywordFree)
    {p : List Piece}
    (hstarves : (specifierTail tally).Starves (Parser.StarvesAt depth) (.alone T p fault)) :
    (∃ result, Furnishes tally T p fault result) ∨
      (specifierTail tally).Barred (.alone T p fault) := by
  have hready : Place.anywhere.Ready T := { keywordFree := hT, holds := trivial }
  have hsteady : (specifier tally).Steady .anywhere fun _ => True :=
    .of_orderly (orderly_specifier tally) (keeps_specifier tally)
  cases p with
  | nil => exact Or.inl (furnishes_refl hsane hT)
  | cons piece p =>
      rcases hstarves.bind with hfirst | ⟨found, w, htakes, hlater⟩
      · rcases resumes_specifier calls hT hfirst with ⟨type, c, U, hreads⟩ | hbarred
        · have hU := (hsteady.leaves hready hreads).2.1.keywordFree
          refine Or.inl ⟨{ tally with other := some type }, rfl,
            fun hstorage => ⟨tally, .refl, hstorage⟩, c, U, ?_⟩
          exact hreads.last (fun found hfound => hfound ▸ Reads.rule (f := .specifierTail _)
            (reads_specifierTail hU rfl)) fun _ => id
        · exact Or.inr hbarred.front
      · have hleaves := hsteady _ _ w rfl hready htakes
        have hjoins := (joins_of_specifier htakes).1
        have halone := htakes.alone hleaves.taken
        rw [halone] at htakes hlater
        cases found with
        | none => exact hlater.elim
        | some next =>
            rcases calls.tails next _ _ ((hjoins next rfl).sane hsane) hleaves.ready.keywordFree
              (starves_rule.1 hlater) with ⟨result, htype, hstorage, hcompletes⟩ | hbarred
            · refine Or.inl ⟨result, htype, fun h => ?_, ?_⟩
              · obtain ⟨last, hgathers, hlast⟩ := hstorage h
                exact ⟨last, .step htakes hgathers, hlast⟩
              · exact Completes.past (a := some next)
                  (Completes.rule (f := .specifierTail next) hcompletes) htakes
            · exact Or.inr (.rest htakes (Barred.rule (f := .specifierTail next) hbarred))

/-! ### Specifiers with a type -/

/-- Specifiers that have been read and name a type. -/
theorem reads_specifiers {piece : Piece} {p : List Piece} {U : SymbolTable}
    (h : (specifierTail .empty).Reads T (piece :: p) (· = tally) U Sequel.word.Leads)
    (htype : tally.type?.isSome = true) :
    ∃ found, specifiers.Reads T (piece :: p) (· = found) U Sequel.word.Leads ∧
      (found.isTypedef || found.storage.isSome) = tally.hasStorageClass := by
  obtain ⟨base, hbase⟩ := Option.isSome_iff_exists.1 htype
  refine ⟨{ base := base
            storage := tally.storage
            isTypedef := tally.isTypedef
            qualifiers := tally.qualifiers
            position := piece.position }, Reads.peek ?_, rfl⟩
  refine h.last (fun found hfound => ?_) fun _ => id
  subst hfound
  rw [hbase]
  exact .pure rfl

theorem reads_specifiers_int (hT : T.KeywordFree) :
    ∃ found, specifiers.Reads T [Filler.int.piece] (· = found) T Sequel.word.Leads ∧
      (found.isTypedef || found.storage.isSome) = false :=
  reads_specifiers (reads_specifierTail_int hT rfl) (by decide)

theorem opens_specifiers (hT : T.KeywordFree) : specifiers.Opens T (.only .int) .word := by
  obtain ⟨found, hreads, -⟩ := reads_specifiers_int hT
  exact ⟨[.int], found, T, fun after _ => Sequel.leads_cons after List.mem_cons_self, hreads⟩

/-- The specifiers are completed, and a storage class among them has been gathered off the
lexemes. -/
theorem resumes_specifiers (calls : Calls depth fault) (hT : T.KeywordFree) {p : List Piece}
    (hstarves : specifiers.Starves (Parser.StarvesAt depth) (.alone T p fault)) :
    (∃ found, specifiers.Completes T p .word found ∧
      ((found.isTypedef || found.storage.isSome) = true →
        ∃ last, Gathers .empty (.alone T p fault) last ∧ last.hasStorageClass = true)) ∨
      specifiers.Barred (.alone T p fault) := by
  cases p with
  | nil =>
      obtain ⟨found, hreads, hstorage⟩ := reads_specifiers_int hT
      refine Or.inl ⟨found, ⟨[.int], T, hreads⟩, fun h => ?_⟩
      rw [hstorage] at h
      cases h
  | cons piece p =>
      have hhere : here.Takes (.alone T (piece :: p) fault) piece.position
          (.alone T (piece :: p) fault) := Takes.here (v := .alone T [] fault)
      rcases (hstarves.past hhere).bind with hfirst | ⟨tally, w, htail, hlater⟩
      · rcases furnishes_of_starves calls sane_empty hT hfirst with
          ⟨tally, htype, hstorage, c, U, hreads⟩ | hbarred
        · obtain ⟨found, hfound, hsame⟩ := reads_specifiers hreads htype
          exact Or.inl ⟨found, ⟨c, U, hfound⟩, fun h => hstorage (hsame ▸ h)⟩
        · exact Or.inr (.rest hhere hbarred.front)
      · -- A token has been looked at that ends the specifiers, so it is there to be refused.
        split at hlater
        · exact hlater.elim
        · obtain ⟨token, htoken⟩ := Option.isSome_iff_exists.1 (of_specifierTail htail).2
          have hpeek : Script.peek.Takes w token w :=
            Takes.request (by simp [View.perform, htoken]) Takes.pure
          exact (hlater.past hpeek).elim

theorem viable_specifiers (calls : Calls depth fault) :
    specifiers.Viable depth fault place (.only .int) .word fun _ => True where
  steady := .of_orderly orderly_specifiers keeps_specifiers
  continues _ hT :=
    { opens := opens_specifiers hT.keywordFree
      resumes := fun _ hstarves => (resumes_specifiers calls hT.keywordFree hstarves).imp_left
        fun ⟨found, hcompletes, _⟩ => ⟨found, hcompletes⟩ }

theorem viable_typeName (calls : Calls depth fault) :
    typeName.Viable depth fault place (.only .int) .closer fun _ => True :=
  (viable_specifiers calls).bind (by decide) fun _ _ => (viable_declarator calls .nameless).map

theorem opens_typeName (hT : T.KeywordFree) : typeName.Opens T (.only .int) .closer := by
  have hready : Place.anywhere.Ready T := { keywordFree := hT, holds := trivial }
  have hsteady : specifiers.Steady .anywhere fun _ => True :=
    .of_orderly orderly_specifiers keeps_specifiers
  exact (opens_specifiers hT).bind hsteady hready
    (by decide : (Nonterminal.declarator .nameless).lead.fillers ⊆ _) fun _ U _ hU _ =>
      (opens_declarator hU.keywordFree .nameless).map

theorem viable_parameter (calls : Calls depth fault) :
    parameter.Viable depth fault .block (.only .int) .closer fun _ => True := by
  refine here (.punctuator .closeParen) (fun position => (viable_specifiers calls).bind (by decide)
    fun specifiers _ => (viable_declarator calls .either).andThen fun d hd => ?_)
      (by decide) (by decide)
  have hnames : AllUnreserved (d.name.map (·.1)).toList := by
    simp only [Declarator.words, allUnreserved_append] at hd
    exact hd.1
  dsimp only
  split
  · rename_i name hname
    have hword : Unreserved name := by simpa [hname] using hnames
    exact (declare hword _).map
  · exact done

theorem opens_parameters (hT : T.KeywordFree) :
    parameters.Opens T (.only (.punctuator .ellipsis)) .closer :=
  .accept (N := .closer) _ .pure hT (by decide)

theorem viable_parameters (calls : Calls depth fault) :
    parameters.Viable depth fault .block (.only (.punctuator .ellipsis)) .closer fun _ => True := by
  have hmore : Viable (α := List Parameter × Bool) depth fault .block (rule .parameters)
      (.only (.punctuator .ellipsis)) .closer fun _ => True :=
    (calls.rule .parameters rfl fun _ => id).weaken fun _ _ => trivial
  exact acceptOr (.punctuator .ellipsis) done ((viable_parameter calls).andThen
    fun first _ => accept hmore.map done (by decide)) (by decide)

/-! ## Members -/

theorem viable_memberDeclarators (calls : Calls depth fault) (specifiers : Specifiers) :
    (memberDeclarators specifiers).Viable depth fault place (.only .name) .closer
      fun _ => True := by
  have hmore : Viable (α := List Member) depth fault place (rule (.memberDeclarators specifiers))
      (.only .name) .closer fun _ => True :=
    (calls.anywhere (.memberDeclarators specifiers) rfl rfl).weaken fun _ _ => trivial
  refine (viable_declarator_named calls).andThen fun d hd => ?_
  obtain ⟨⟨name, position⟩, hname⟩ := Option.isSome_iff_exists.1 hd.2
  rw [hname]
  exact accept hmore.map done (by decide)

/-- A single name is declared. -/
theorem opens_memberDeclarators (hT : T.KeywordFree) (specifiers : Specifiers) :
    (memberDeclarators specifiers).Opens T (.only .name) .closer := by
  have hready : Place.anywhere.Ready T := { keywordFree := hT, holds := trivial }
  have hsteady : (declarator .named).Steady .anywhere fun d => AllUnreserved d.words :=
    .of_orderly (orderly_declarator .named) (keeps_declarator .named)
  refine (opens_declarator hT .named).bind (hsteady.named named_declarator) hready
    (List.Subset.refl _) fun d U _ hU hd => ?_
  obtain ⟨⟨name, position⟩, hname⟩ := Option.isSome_iff_exists.1 hd.2
  rw [hname]
  exact .accept_not .pure hU.keywordFree (by decide)

/-- What is read behind the specifiers of members, which have no storage class. -/
def memberList (specifiers : Specifiers) : Script (List Member) := do
  let members ← rule (.memberDeclarators specifiers)
  let token ← peek
  if token.kind = .punctuator .semicolon then
    let _ ← advance
    return members
  else
    refuse token (.expectedOneOf [.punctuator .comma, .punctuator .semicolon] token.kind)

theorem viable_memberList (calls : Calls depth fault) (specifiers : Specifiers) :
    (memberList specifiers).Viable depth fault place (.only .name) .brace fun _ => True := by
  have hmore : Viable (α := List Member) depth fault place (rule (.memberDeclarators specifiers))
      (.only .name) .closer fun _ => True :=
    (calls.anywhere (.memberDeclarators specifiers) rfl rfl).weaken fun _ _ => trivial
  exact hmore.bind (by decide) fun _ _ =>
    expectOneOf (.punctuator .semicolon) (by decide) trivial

/-- Specifiers without a storage class are followed by a member. -/
theorem reads_memberDeclaration (calls : Calls depth fault) (hT : place.Ready T) {q : List Piece}
    {found : Specifiers} {U : SymbolTable}
    (h : specifiers.Reads T q (· = found) U Sequel.word.Leads)
    (hstorage : (found.isTypedef || found.storage.isSome) = false) :
    ∃ (c : List Filler) (members : List Member) (V : SymbolTable),
      memberDeclaration.Reads T (q ++ c.map Filler.piece) (· = members) V Sequel.brace.Leads := by
  have hU := ((viable_specifiers calls).steady.leaves hT h).2.1
  obtain ⟨c, members, V, hleads, hmembers⟩ := (viable_memberList calls found).opens hU
  refine ⟨c, members, V, h.bind (fun specifiers hfound => ?_) fun after hafter =>
    (hleads after hafter).mono (by decide)⟩
  subst hfound
  rw [if_neg (by simp [hstorage])]
  exact hmembers

/-- If a storage class is among the specifiers, the lexemes are barred. -/
theorem viable_memberDeclaration (calls : Calls depth fault) :
    memberDeclaration.Viable depth fault place (.only .int) .brace fun _ => True where
  steady := .of_orderly orderly_memberDeclaration keeps_memberDeclaration
  continues T hT := by
    refine { opens := ?_, resumes := fun p hstarves => ?_ }
    · obtain ⟨found, hreads, hstorage⟩ := reads_specifiers_int hT.keywordFree
      obtain ⟨c, members, V, hmembers⟩ := reads_memberDeclaration calls hT hreads hstorage
      exact ⟨.int :: c, members, V, fun after _ => Sequel.leads_cons after List.mem_cons_self,
        hmembers⟩
    · rcases hstarves.bind with hfirst | ⟨specifiers, w, htakes, hlater⟩
      · rcases resumes_specifiers calls hT.keywordFree hfirst with
          ⟨specifiers, ⟨c, U, hreads⟩, hgathered⟩ | hbarred
        · cases hstorage : specifiers.isTypedef || specifiers.storage.isSome with
          | true =>
              obtain ⟨last, hgathers, hlast⟩ := hgathered hstorage
              exact Or.inr ⟨_, last, .self, hgathers, hlast⟩
          | false =>
              obtain ⟨c', members, V, hmembers⟩ := reads_memberDeclaration calls hT hreads hstorage
              rw [List.append_assoc, ← List.map_append] at hmembers
              exact Or.inl ⟨members, c ++ c', V, hmembers⟩
        · exact Or.inr hbarred.front
      · have hleaves := (viable_specifiers calls).steady _ _ w rfl hT htakes
        have halone := htakes.alone hleaves.taken
        rw [halone] at htakes
        refine Resumes.past htakes ?_ hstarves
        split
        · exact .fail
        · exact (viable_memberList calls specifiers).resumes hleaves.ready _

theorem opens_members (hT : T.KeywordFree) : members.Opens T .brace .brace := by
  refine Opens.look (a := []) hT ?_
  intro kind hkind position
  rw [List.mem_singleton.1 hkind]
  rfl

theorem viable_members (calls : Calls depth fault) :
    members.Viable depth fault place .brace .brace fun _ => True :=
  nextIs (fun _ hT => opens_members hT.keywordFree) done
    ((viable_memberDeclaration calls).andThen fun _ _ =>
      (calls.anywhere .members rfl rfl).map)

end Grammar
end CSyntax
