import CSyntax.Proofs.Lockstep.Declarations

/-!
# Statements — the scripts of statements and units agree with themselves

A statement is chosen by the kind of one token or of two, and a function by what its declarator
declares; neither depends on positions.  `Nonterminal.Paired.sync` closes the relation over all
rules of the grammar.
-/

namespace CSyntax
namespace Grammar

open Script (Sync SyncAt SyncIf)
open Script.Sync

variable {K : Correspondence} {guarded sinks : Bool}

/-! ## Parts of statements -/

theorem sync_condition : Sync K guarded condition condition (Alike Expr.erase) true :=
  expectMark.behind fun _ _ _ => (rule (.expression _)).bind fun _ _ h =>
    expectMark.behind fun _ _ _ => .pure h

theorem sync_expressionUnless (mark : Punctuator) :
    Sync K guarded (expressionUnless mark) (expressionUnless mark) (Alike (Option.map Expr.erase))
      false :=
  nextIsMark (Sync.pure (Alike.refl _)).at_
    ((sync_expression _).behind fun _ _ h => .pure (Alike.some_iff.2 h))

theorem sync_block : Sync K guarded block block (Alike (List.map Statement.erase)) true :=
  expectMark.behind fun _ _ _ => (enter _).bind fun _ _ _ => (rule .blockItems).bind fun _ _ h =>
    expectMark.behind fun _ _ _ => (leave _ _).bind fun _ _ _ => .pure h

theorem sync_forStart :
    Sync K guarded forStart forStart (Alike (Option.map ForStart.erase)) true := by
  refine acceptMark (.pure (Alike.refl _)) (peek ?_)
  intro kind p p' _ _
  dsimp only
  split
  · exact Sync.at_ (sync_declarationGroup.behind fun _ _ h =>
      .pure (Alike.some_iff.2 (congrArg ForStart.declaration h)))
  · exact Sync.at_ ((sync_expression _).behind fun _ _ h => expectMark.behind fun _ _ _ =>
      .pure (Alike.some_iff.2 (congrArg ForStart.expression h)))

theorem sync_forLoop (p p' : Position) :
    Sync K guarded (forLoop p) (forLoop p') (Alike Statement.erase) true := by
  refine expectMark.behind fun _ _ _ => (enter _).bind fun _ _ _ => sync_forStart.behind
    fun start start' hstart => (sync_expressionUnless _).bind fun test test' htest =>
      expectMark.behind fun _ _ _ => (sync_expressionUnless _).bind fun step step' hstep =>
        expectMark.behind fun _ _ _ => (rule .statement).bind fun body body' hbody =>
          (leave _ _).bind fun _ _ _ => .pure ?_
  simp only [Alike] at hstart htest hstep hbody
  simp [Alike, Statement.erase, hstart, htest, hstep, hbody]

/-! ## Statements -/

theorem sync_expressionStatement (p p' : Position) :
    Sync K guarded (expressionStatement p) (expressionStatement p') (Alike Statement.erase) true :=
  (sync_expression _).behind fun _ _ h => expectMark.behind fun _ _ _ =>
    .pure (congrArg (Statement.expression .erased) h)

/-- A label goes on with a statement. -/
theorem sync_labelled {label label' : Statement → Statement}
    (hlabel : ∀ {body body' : Statement}, Alike Statement.erase body body' →
      Alike Statement.erase (label body) (label' body')) :
    Sync K true
      (Script.expectMark .colon >>= fun _ => Script.rule .statement >>= fun body =>
        Pure.pure (label body))
      (Script.expectMark .colon >>= fun _ => Script.rule .statement >>= fun body =>
        Pure.pure (label' body))
      (Alike Statement.erase) false := by
  refine expectMark.behind fun _ _ _ => ?_
  refine (rule .statement).bind fun body body' hbody => ?_
  exact .pure (hlabel hbody)

theorem sync_labelledStatement_word {word : Keyword}
    (hword : word.statementForm? = some .labelled) :
    SyncAt K (.keyword word) guarded labelledStatement labelledStatement (Alike Statement.erase)
      true := by
  cases word <;> cases hword
  case «case» =>
    refine .advance (by simp) fun p p' _ => ?_
    refine (rule (.expression .conditional)).bind fun value value' hvalue => ?_
    refine sync_labelled fun hbody => ?_
    simp only [Alike] at hvalue hbody
    simp [Alike, Statement.erase, hvalue, hbody]
  case default =>
    refine .advance (by simp) fun p p' _ => ?_
    exact sync_labelled fun hbody => congrArg (Statement.default .erased) hbody

theorem sync_labelledStatement_name (name : String) :
    SyncAt K (.identifier name) guarded labelledStatement labelledStatement (Alike Statement.erase)
      true := by
  refine .advance (by simp) fun p p' _ => ?_
  exact sync_labelled fun hbody => congrArg (Statement.label .erased name) hbody

theorem sync_selectionStatement {word : Keyword} (hword : word.statementForm? = some .selection) :
    SyncAt K (.keyword word) guarded selectionStatement selectionStatement (Alike Statement.erase)
      true := by
  cases word <;> cases hword
  case «if» =>
    refine .advance (by simp) fun p p' _ => ?_
    refine sync_condition.behind fun test test' htest => ?_
    refine (rule .statement).bind fun body body' hbody => ?_
    refine accept (by simp) ?_ (.pure ?_)
    · refine (rule .statement).bind fun other other' hother => .pure ?_
      simp only [Alike] at htest hbody hother
      simp [Alike, Statement.erase, htest, hbody, hother]
    · simp only [Alike] at htest hbody
      simp [Alike, Statement.erase, htest, hbody]
  case switch =>
    refine .advance (by simp) fun p p' _ => ?_
    refine sync_condition.behind fun test test' htest => ?_
    refine (rule .statement).bind fun body body' hbody => .pure ?_
    simp only [Alike] at htest hbody
    simp [Alike, Statement.erase, htest, hbody]

theorem sync_iterationStatement {word : Keyword} (hword : word.statementForm? = some .iteration) :
    SyncAt K (.keyword word) guarded iterationStatement iterationStatement (Alike Statement.erase)
      true := by
  cases word <;> cases hword
  case «while» =>
    refine .advance (by simp) fun p p' _ => ?_
    refine sync_condition.behind fun test test' htest => ?_
    refine (rule .statement).bind fun body body' hbody => .pure ?_
    simp only [Alike] at htest hbody
    simp [Alike, Statement.erase, htest, hbody]
  case «do» =>
    refine .advance (by simp) fun p p' _ => ?_
    refine (rule .statement).bind fun body body' hbody => ?_
    refine Sync.behind (expect (by simp)) fun _ _ _ => ?_
    refine sync_condition.behind fun test test' htest => ?_
    refine expectMark.behind fun _ _ _ => .pure ?_
    simp only [Alike] at htest hbody
    simp [Alike, Statement.erase, htest, hbody]
  case «for» => exact .advance (by simp) fun p p' _ => (sync_forLoop p p').weaken

/-- The words of jumps are all known to the rule for them. -/
theorem sync_jumpFrom {word : Keyword} (hword : word.statementForm? = some .jump) (p p' : Position) :
    Sync K guarded (jumpFrom ⟨.keyword word, p⟩) (jumpFrom ⟨.keyword word, p'⟩)
      (Alike Statement.erase) false := by
  cases word <;> cases hword
  case goto =>
    have hword : Sync K guarded Script.expectWord Script.expectWord Eq false := expectWord.weaken
    exact hword.bind fun name name' hname => .pure (congrArg (Statement.goto .erased) hname)
  case «continue» => exact .pure rfl
  case «break» => exact .pure rfl
  case «return» =>
    refine (sync_expressionUnless _).bind fun value value' hvalue => .pure ?_
    exact congrArg (Statement.return .erased) hvalue

theorem sync_jumpStatement {word : Keyword} (hword : word.statementForm? = some .jump) :
    SyncAt K (.keyword word) guarded jumpStatement jumpStatement (Alike Statement.erase) true := by
  refine .advance (by simp) fun p p' _ => ?_
  refine (sync_jumpFrom hword p p').bind fun jump jump' hjump => ?_
  exact expectMark.behind fun _ _ _ => .pure hjump

theorem sync_statement : Sync K guarded statement statement (Alike Statement.erase) true := by
  refine peek ?_
  intro kind p p' hp hread
  dsimp only
  split
  · refine (sync_block.behind fun _ _ h => .pure ?_).at_
    simp only [Alike] at h
    simp [Alike, Statement.erase, h]
  · exact .advance (by simp) fun _ _ _ => .pure rfl
  · split
    · rename_i hform
      exact sync_selectionStatement hform
    · rename_i hform
      exact sync_iterationStatement hform
    · rename_i hform
      exact sync_jumpStatement hform
    · rename_i hform
      exact sync_labelledStatement_word hform
    · exact (sync_expressionStatement p p').at_
  · rename_i name
    -- The word is still next behind the look at the token after it.
    intro x hsaved hfacing hguard
    refine .peekNth ?_
    rintro ⟨second, q⟩ ⟨second', q'⟩ ⟨hsecond, -, -⟩
    obtain rfl : second = second' := hsecond.symm
    dsimp only [Script.bind]
    split
    · exact sync_labelledStatement_name name x hsaved hfacing hguard
    · exact sync_expressionStatement p p' x hsaved hguard
  · exact (sync_expressionStatement p p').at_

theorem sync_blockItem {kind : TokenKind} {p p' : Position} :
    Sync K guarded (blockItem ⟨kind, p⟩) (blockItem ⟨kind, p'⟩) (Alike Statement.erase) true := by
  unfold blockItem
  split
  · exact sync_declarationGroup.behind fun _ _ h =>
      .pure (congrArg (Statement.declaration .erased) h)
  · exact sync_statement

theorem sync_blockItems :
    Sync K guarded blockItems blockItems (Alike (List.map Statement.erase)) false := by
  refine peek ?_
  intro kind p p' hp _
  dsimp only
  split
  · exact (Sync.pure (Alike.refl _)).at_
  · exact (refuse hp _).at_
  · refine (sync_blockItem.behind fun first first' hfirst => (rule .blockItems).bind
      fun others others' hothers => .pure ?_).at_
    simp only [Alike, List.map_cons] at hfirst hothers ⊢
    rw [hfirst, hothers]

/-! ## Functions and units -/

/-- Only the names of parameters are declared. -/
theorem sync_declareParameters {list list' : List Parameter}
    (h : Alike (List.map Parameter.erase) list list') :
    Sync K guarded (declareParameters list) (declareParameters list') (fun _ _ => True) false := by
  induction list generalizing list' with
  | nil =>
      obtain rfl : list' = [] := by simpa [Alike, eq_comm] using h
      exact pure trivial
  | cons first others ih =>
      obtain ⟨first', others', rfl, hfirst, hothers⟩ : ∃ first' others', list' = first' :: others' ∧
          first.erase = first'.erase ∧ Alike (List.map Parameter.erase) others others' := by
        cases list' with
        | nil => simp [Alike] at h
        | cons first' others' =>
            simp only [Alike, List.map_cons, List.cons.injEq] at h
            exact ⟨first', others', rfl, h.1, h.2⟩
      have hname : first.name = first'.name := by
        simpa using congrArg Parameter.name hfirst
      unfold declareParameters
      rw [hname]
      split
      · exact (declare _ rfl).bind fun _ _ _ => ih hothers
      · exact ih hothers

theorem alike_parameters? {mode : DeclaratorMode} {d d' : Declarator}
    (h : K.OfDeclarators mode d d') :
    Alike (Option.map (List.map Parameter.erase)) d.parameters? d'.parameters? := by
  have hmodifiers := h.modifiers
  simp only [Alike] at hmodifiers ⊢
  rw [Declarator.erase_parameters?, Declarator.erase_parameters?, hmodifiers]

/-- The declarator declares a function, so the contradiction of a body without parameters is not
reached. -/
theorem sync_functionDefinition {specifiers specifiers' : Specifiers} {d d' : Declarator}
    (h : K.OfSpecifiers specifiers specifiers') (hd : K.OfDeclarators .named d d')
    (hfunction : d.parameters?.isSome = true) :
    Sync K guarded (functionDefinition specifiers d) (functionDefinition specifiers' d')
      (Alike FunctionDefinition.erase) true := by
  obtain ⟨name, p, p', hn, hn', hp⟩ := exists_name hd
  have htype := alike_type hd h.base
  have hlist := alike_parameters? hd
  unfold functionDefinition
  rcases hparameters : d.parameters? with _ | list <;>
    rcases hparameters' : d'.parameters? with _ | list' <;>
      simp [hparameters, hparameters'] at hlist hfunction
  rw [hn, hn', h.isTypedef]
  dsimp only
  split
  · exact .fail ⟨⟨_, rfl⟩, rfl, hp⟩
  · refine (declare name rfl).bind fun _ _ _ => expectMark.behind fun _ _ _ => (enter _).bind
      fun _ _ _ => (sync_declareParameters hlist).bind fun _ _ _ => (rule .blockItems).bind
        fun body body' hbody => expectMark.behind fun _ _ _ => (leave _ _).bind fun _ _ _ =>
          .pure ?_
    simp only [Alike] at htype hlist hbody
    simp [Alike, FunctionDefinition.erase, htype, hlist, hbody, h.storage]

theorem sync_externalDeclaration :
    Sync K guarded externalDeclaration externalDeclaration (Alike ExternalDeclaration.erase)
      true := by
  refine sync_specifiers.behind fun specifiers specifiers' h => acceptMark (.pure ?_) ?_
  · exact congrArg ExternalDeclaration.declaration (alike_bareGroup h)
  · refine (sync_declarator _).bind fun d d' hd => ?_
    have hgroup : Sync K true
        (groupFrom specifiers d >>= fun group => Pure.pure (ExternalDeclaration.declaration group))
        (groupFrom specifiers' d' >>= fun group => Pure.pure (ExternalDeclaration.declaration group))
        (Alike ExternalDeclaration.erase) false :=
      (sync_groupFrom h hd).behind fun _ _ hg =>
        .pure (congrArg ExternalDeclaration.declaration hg)
    have hsome : d.parameters?.isSome = d'.parameters?.isSome := by
      simpa using congrArg Option.isSome (alike_parameters? hd)
    rw [← hsome]
    split
    · rename_i hfunction
      refine nextIsMark ?_ hgroup
      exact Sync.at_ ((sync_functionDefinition h hd hfunction).behind fun _ _ hf =>
        .pure (congrArg ExternalDeclaration.function hf))
    · exact hgroup

theorem sync_externalDeclarations :
    Sync K guarded externalDeclarations externalDeclarations
      (Alike (List.map ExternalDeclaration.erase)) false := by
  refine peek ?_
  intro kind p p' _ _
  simp only [Token.isEndOfFile, decide_eq_true_eq]
  split
  · exact (Sync.pure (Alike.refl _)).at_
  · refine (sync_externalDeclaration.behind fun first first' hfirst =>
      (rule .externalDeclarations).bind fun others others' hothers => .pure ?_).at_
    simp only [Alike, List.map_cons] at hfirst hothers ⊢
    rw [hfirst, hothers]

end Grammar

/-- Calls that answer each other are carried out by scripts that agree. -/
theorem Nonterminal.Paired.sync {K : Correspondence} {f f' : Nonterminal}
    {R : f.Result → f'.Result → Prop} (h : f.Paired K f' R) :
    Script.Sync K false (Grammar.script f) (Grammar.script f') R false := by
  cases h with
  | expression limit => exact (Grammar.sync_expression limit).weaken
  | infixTail limit h => exact Grammar.sync_infixTail limit h
  | postfixTail h => exact Grammar.sync_postfixTail h
  | «arguments» => exact Grammar.sync_arguments.weaken
  | adjacentStrings => exact Grammar.sync_adjacentStrings
  | typeName => exact Grammar.sync_typeName.weaken
  | specifierTail h => exact Grammar.sync_specifierTail h
  | members => exact Grammar.sync_members
  | memberDeclarators h => exact Grammar.sync_memberDeclarators h
  | enumerators => exact Grammar.sync_enumerators
  | pointerTail => exact Grammar.sync_pointerTail
  | declarator mode => exact Grammar.sync_declarator mode
  | suffixes => exact Grammar.sync_suffixes
  | parameters => exact Grammar.sync_parameters
  | initializerItems => exact Grammar.sync_initializerItems
  | initDeclarators h => exact Grammar.sync_initDeclarators h
  | statement => exact Grammar.sync_statement.weaken
  | blockItems => exact Grammar.sync_blockItems
  | externalDeclarations => exact Grammar.sync_externalDeclarations

end CSyntax
