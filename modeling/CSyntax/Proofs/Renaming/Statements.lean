import CSyntax.Proofs.Renaming.Labels

/-!
# Statements — scripts of statements and units with new names

A block is read where a statement may begin, and each statement ends where the next may begin.  At a
label the scripts go on together if its new name is that of an identifier; otherwise the second fails.
`Nonterminal.Renamed.renames` closes the relation over all rules of the grammar.
-/

namespace CSyntax
namespace Grammar

open Script (Renames RenamesAt Tracks)

variable {ρ : Renaming} {P : Nat → Prop} {depth : Nat} {σ : Scanner} {S : List Bracket}

/-! ## Parts of statements -/

/-- Behind `if`, `switch` or `while`. -/
theorem renames_condition (calls : Parser.RenamesCalls ρ P depth) :
    Renames ρ P depth ⟨S, .header⟩ condition condition (Renamed (Expr.respell ρ) Expr.erase)
      fun _ => ⟨S, .statement⟩ :=
  (Renames.expectMark rfl).bind fun _ _ _ =>
    (calls (.expression .comma (.header ⟨S, .header⟩) .nothing)).bind fun _ _ h =>
      (Renames.expectMark rfl).bind fun _ _ _ => .pure h rfl

theorem renames_fullExpression (calls : Parser.RenamesCalls ρ P depth) (hσ : σ.Calm) :
    Renames ρ P depth σ (expression .comma) (expression .comma)
      (Renamed (Expr.respell ρ) Expr.erase) fun _ => σ := by
  have h := renames_expression calls hσ .nothing .comma
  rwa [Scanner.expecting_nothing hσ.expects] at h

theorem renames_expressionUnless (calls : Parser.RenamesCalls ρ P depth) (hσ : σ.Calm)
    (mark : Punctuator) :
    Renames ρ P depth σ (expressionUnless mark) (expressionUnless mark)
      (Renamed (Option.map (Expr.respell ρ)) (Option.map Expr.erase)) fun _ => σ :=
  .nextIsMark (fun _ _ => .any (.pure rfl rfl)) fun _ _ =>
    .any ((renames_fullExpression calls hσ).bind fun _ _ h => .pure (congrArg some h) rfl)

theorem renames_block (calls : Parser.RenamesCalls ρ P depth) :
    Renames ρ P depth ⟨.block :: S, .statement⟩ block block
      (Renamed (List.map (Statement.respell ρ)) (List.map Statement.erase))
      fun _ => ⟨.block :: S, .statement⟩ :=
  (Renames.expectMark rfl).bind fun _ _ _ => (Renames.enter _).bind fun _ _ _ =>
    (calls (.blockItems (.block :: S))).bind fun _ _ h => (Renames.expectMark rfl).bind
      fun close close' _ => (Renames.leave close.position close'.position).bind
        fun _ _ _ => .pure h rfl

/-- In the header of a loop. -/
theorem renames_forStart (calls : Parser.RenamesCalls ρ P depth) :
    Renames ρ P depth (σ.within .header .nothing) forStart forStart
      (Renamed (Option.map (ForStart.respell ρ)) (Option.map ForStart.erase))
      fun _ => σ.within .header .nothing := by
  have hcalm := Scanner.Calm.header σ
  refine .acceptMark rfl (.pure rfl rfl) fun _ _ => .any ?_
  refine .peek_ordinary (fun _ _ => hcalm.nameSpace) fun kind p p' => ?_
  dsimp only
  split
  · exact .any ((renames_declarationGroup calls hcalm).bind fun _ _ h =>
      .pure (congrArg (fun group => some (ForStart.declaration group)) h) rfl)
  · exact .any ((renames_fullExpression calls hcalm).bind fun _ _ h =>
      (Renames.expectMark rfl).bind fun _ _ _ =>
        .pure (congrArg (fun e => some (ForStart.expression e)) h) rfl)

theorem renames_forLoop (calls : Parser.RenamesCalls ρ P depth) (p p' : Position) :
    Renames ρ P depth ⟨.block :: S, .header⟩ (forLoop p) (forLoop p')
      (Renamed (Statement.respell ρ) Statement.erase) fun _ => ⟨.block :: S, .statement⟩ := by
  have hcalm := Scanner.Calm.header ⟨.block :: S, .header⟩
  refine (Renames.expectMark rfl).bind fun _ _ _ => (Renames.enter _).bind fun _ _ _ =>
    (renames_forStart calls).bind fun start start' hstart =>
      (renames_expressionUnless calls hcalm _).bind fun test test' htest =>
        (Renames.expectMark rfl).bind fun _ _ _ =>
          (renames_expressionUnless calls hcalm _).bind fun step step' hstep =>
            (Renames.expectMark rfl).bind fun _ _ _ => (calls (.statement S)).bind
              fun body body' hbody => (Renames.leave p p').bind fun _ _ _ => .pure ?_ rfl
  simp only [Renamed, Alike] at hstart htest hstep hbody
  simp only [Renamed, Alike, Statement.respell, Statement.erase]
  rw [hstart, htest, hstep, hbody]

/-! ## Statements -/

/-- Inside a block. -/
theorem calm_block (S : List Bracket) : Scanner.Calm ⟨.block :: S, .nothing⟩ :=
  ⟨rfl, nofun⟩

theorem renames_expressionStatement (calls : Parser.RenamesCalls ρ P depth) (p p' : Position) :
    Renames ρ P depth ⟨.block :: S, .nothing⟩ (expressionStatement p) (expressionStatement p')
      (Renamed (Statement.respell ρ) Statement.erase) fun _ => ⟨.block :: S, .statement⟩ :=
  (renames_fullExpression calls (calm_block S)).bind fun _ _ h =>
    (Renames.expectMark rfl).bind fun _ _ _ => .pure (congrArg (Statement.expression .erased) h) rfl

/-- What a statement with a body ends with. -/
theorem renames_body (calls : Parser.RenamesCalls ρ P depth) {k k' : Statement → Statement}
    (hk : ∀ {b b' : Statement}, Renamed (Statement.respell ρ) Statement.erase b b' →
      Renamed (Statement.respell ρ) Statement.erase (k b) (k' b')) :
    Renames ρ P depth ⟨.block :: S, .statement⟩
      (Script.rule .statement >>= fun b => Pure.pure (k b))
      (Script.rule .statement >>= fun b => Pure.pure (k' b))
      (Renamed (Statement.respell ρ) Statement.erase) fun _ => ⟨.block :: S, .statement⟩ :=
  (calls (.statement S)).bind fun _ _ hb => .pure (hk hb) rfl

variable {word : Keyword}

theorem renamesAt_selectionStatement (calls : Parser.RenamesCalls ρ P depth) (p : Position)
    (hword : word.statementForm? = some .selection) :
    RenamesAt ρ P depth ⟨.block :: S, .statement⟩ ⟨.keyword word, p⟩ selectionStatement
      selectionStatement (Renamed (Statement.respell ρ) Statement.erase)
      fun _ => ⟨.block :: S, .statement⟩ := by
  cases word <;> cases hword
  case «if» =>
    refine .advance_same rfl (by simp) rfl fun p' => (renames_condition calls).bind
      fun test test' htest => (calls (.statement S)).bind fun yes yes' hyes =>
        .accept rfl (by simp) (fun _ => rfl) (renames_body calls fun hno => ?_) fun _ _ =>
          .any (.pure ?_ rfl)
    · simp only [Renamed, Alike] at htest hyes hno
      simp [Renamed, Alike, Statement.respell, Statement.erase, htest, hyes, hno]
    · simp only [Renamed, Alike] at htest hyes
      simp [Renamed, Alike, Statement.respell, Statement.erase, htest, hyes]
  case switch =>
    refine .advance_same rfl (by simp) rfl fun p' => (renames_condition calls).bind
      fun test test' htest => renames_body calls fun hbody => ?_
    simp only [Renamed, Alike] at htest hbody
    simp [Renamed, Alike, Statement.respell, Statement.erase, htest, hbody]

theorem renamesAt_iterationStatement (calls : Parser.RenamesCalls ρ P depth) (p : Position)
    (hword : word.statementForm? = some .iteration) :
    RenamesAt ρ P depth ⟨.block :: S, .statement⟩ ⟨.keyword word, p⟩ iterationStatement
      iterationStatement (Renamed (Statement.respell ρ) Statement.erase)
      fun _ => ⟨.block :: S, .statement⟩ := by
  cases word <;> cases hword
  case «while» =>
    refine .advance_same rfl (by simp) rfl fun p' => (renames_condition calls).bind
      fun test test' htest => renames_body calls fun hbody => ?_
    simp only [Renamed, Alike] at htest hbody
    simp [Renamed, Alike, Statement.respell, Statement.erase, htest, hbody]
  case «do» =>
    have last : Renames ρ P depth ⟨.block :: S, .statement⟩ (Script.expect (.keyword .while))
        (Script.expect (.keyword .while)) (fun _ _ => True) fun _ => ⟨.block :: S, .header⟩ :=
      .expect rfl (by simp) fun _ => rfl
    refine .advance_same rfl (by simp) rfl fun p' => (calls (.statement S)).bind fun b b' hbody =>
      last.bind fun _ _ _ => (renames_condition calls).bind fun test test' htest =>
        (Renames.expectMark rfl).bind fun _ _ _ => .pure ?_ rfl
    simp only [Renamed, Alike] at htest hbody
    simp [Renamed, Alike, Statement.respell, Statement.erase, htest, hbody]
  case «for» => exact .advance_same rfl (by simp) rfl fun p' => renames_forLoop calls p p'

theorem renamesAt_jumpStatement (calls : Parser.RenamesCalls ρ P depth) (p : Position)
    (hword : word.statementForm? = some .jump) :
    RenamesAt ρ P depth ⟨.block :: S, .statement⟩ ⟨.keyword word, p⟩ jumpStatement jumpStatement
      (Renamed (Statement.respell ρ) Statement.erase) fun _ => ⟨.block :: S, .statement⟩ := by
  -- What a jump has behind its word, and the semicolon.
  have ends : ∀ {υ : Scanner} {prog prog' : Script Statement},
      Renames ρ P depth υ prog prog' (Renamed (Statement.respell ρ) Statement.erase)
        (fun _ => ⟨.block :: S, .nothing⟩) →
      Renames ρ P depth υ (prog >>= fun jump => Script.expectMark .semicolon >>= fun _ =>
          Pure.pure jump) (prog' >>= fun jump => Script.expectMark .semicolon >>= fun _ =>
          Pure.pure jump) (Renamed (Statement.respell ρ) Statement.erase)
        (fun _ => ⟨.block :: S, .statement⟩) :=
    fun h => h.bind fun _ _ hjump => (Renames.expectMark rfl).bind fun _ _ _ => .pure hjump rfl
  cases word <;> cases hword
  case goto =>
    have target : Renames ρ P depth ⟨.block :: S, .target p.offset⟩ Script.expectWord
        Script.expectWord (fun name name' => name' = ρ.name (.label p.offset) name)
        fun _ => ⟨.block :: S, .nothing⟩ :=
      .expectWord (fun _ _ => rfl) (by simp) rfl
    exact .advance_same rfl (by simp) rfl fun p' => ends (target.bind fun _ _ hname =>
      .pure (congrArg (Statement.goto .erased) hname.symm) rfl)
  case «continue» => exact .advance_same rfl (by simp) rfl fun p' => ends (.pure rfl rfl)
  case «break» => exact .advance_same rfl (by simp) rfl fun p' => ends (.pure rfl rfl)
  case «return» =>
    exact .advance_same rfl (by simp) rfl fun p' =>
      ends ((renames_expressionUnless calls (calm_block S) _).bind fun _ _ hvalue =>
        .pure (congrArg (Statement.return .erased) hvalue) rfl)

/-- A label that is a keyword. -/
theorem renamesAt_labelledStatement (calls : Parser.RenamesCalls ρ P depth) (p : Position)
    (hword : word.statementForm? = some .labelled) :
    RenamesAt ρ P depth ⟨.block :: S, .statement⟩ ⟨.keyword word, p⟩ labelledStatement
      labelledStatement (Renamed (Statement.respell ρ) Statement.erase)
      fun _ => ⟨.block :: S, .statement⟩ := by
  cases word <;> cases hword
  case «case» =>
    refine .advance_same rfl (by simp) rfl fun p' =>
      (calls (.expression .conditional (calm_block S) .nothing)).bind fun value value' hvalue =>
        (Renames.expectMark rfl).bind fun _ _ _ => renames_body calls fun hbody => ?_
    simp only [Renamed, Alike] at hvalue hbody
    simp [Renamed, Alike, Statement.respell, Statement.erase, hvalue, hbody]
  case default =>
    exact .advance_same rfl (by simp) rfl fun p' => (Renames.expectMark rfl).bind fun _ _ _ =>
      renames_body calls fun hbody => congrArg (Statement.default .erased) hbody

/-- A statement that is no label. -/
theorem tracks_unlabelled (calls : Parser.RenamesCalls ρ P depth) {v v' : View}
    (hv : ρ.Related P ⟨.block :: S, .statement⟩ v v')
    (hnot : ∀ token second, v.token? 0 = some token → v.token? 1 = some second →
      token.kind.words ≠ [] → second.kind ≠ .punctuator .colon) :
    Tracks ρ P depth statement statement v v' (Renamed (Statement.respell ρ) Statement.erase)
      fun _ => ⟨.block :: S, .statement⟩ := by
  have hinside := hv.unlabelled hnot
  obtain ⟨⟨kind, p⟩, ⟨kind', p'⟩, third, htoken, htoken', htwins⟩ := hinside.token?
  obtain rfl : kind' = kind := htwins.kind (Or.inl (calm_block S).nameSpace)
  refine .peek htoken htoken' ?_
  dsimp only
  split
  · have hblock : Renames ρ P depth ⟨.block :: S, .statement⟩
        (block >>= fun items => Pure.pure (Statement.block p items))
        (block >>= fun items => Pure.pure (Statement.block p' items))
        (Renamed (Statement.respell ρ) Statement.erase) fun _ => ⟨.block :: S, .statement⟩ :=
      (renames_block calls).bind fun _ _ h => .pure (by
        simp only [Renamed, Alike] at h
        simp [Renamed, Alike, Statement.respell, Statement.erase, h]) rfl
    exact hblock v v' hv
  · have hempty : RenamesAt ρ P depth ⟨.block :: S, .nothing⟩ ⟨.punctuator .semicolon, p⟩
        (Script.advance >>= fun _ => Pure.pure (Statement.empty p))
        (Script.advance >>= fun _ => Pure.pure (Statement.empty p'))
        (Renamed (Statement.respell ρ) Statement.erase) fun _ => ⟨.block :: S, .statement⟩ :=
      .take rfl (by simp) rfl fun _ => .pure rfl rfl
    exact hempty v v' hinside htoken
  · split
    · rename_i hword
      exact renamesAt_selectionStatement calls p hword v v' hv htoken
    · rename_i hword
      exact renamesAt_iterationStatement calls p hword v v' hv htoken
    · rename_i hword
      exact renamesAt_jumpStatement calls p hword v v' hv htoken
    · rename_i hword
      exact renamesAt_labelledStatement calls p hword v v' hv htoken
    · exact renames_expressionStatement calls p p' v v' hinside
  · refine .peekNth_one hinside htoken (by simp) fun second second' third hsecond _ htwins => ?_
    have hcolon : second.kind ≠ .punctuator .colon :=
      hnot _ _ htoken hsecond (List.cons_ne_nil _ _)
    rw [if_neg hcolon, if_neg (mt (htwins.kind_iff rfl).1 hcolon)]
    exact renames_expressionStatement calls p p' v v' hinside
  · exact renames_expressionStatement calls p p' v v' hinside

/-- Behind the colon of a label the scripts go on together, if they have got there. -/
theorem tracks_label (calls : Parser.RenamesCalls ρ P depth) {v v' : View}
    (hv : ρ.Related P ⟨.block :: S, .statement⟩ v v') {name : String} {p : Position}
    {second : Token} (htoken : v.token? 0 = some ⟨.identifier name, p⟩)
    (hsecond : v.token? 1 = some second) (hcolon : second.kind = .punctuator .colon)
    {prog' : Script Statement}
    (hidentifier : ∀ token' name', v'.token? 0 = some token' → token'.kind = .identifier name' →
      prog' = statement)
    (htypeName : ∀ token' name' second', v'.token? 0 = some token' →
      token'.kind = .typeName name' → v'.token? 1 = some second' →
      second'.kind = .punctuator .colon → ∀ a' w', ¬prog'.Takes v' a' w') :
    Tracks ρ P depth statement prog' v v' (Renamed (Statement.respell ρ) Statement.erase)
      fun _ => ⟨.block :: S, .statement⟩ := by
  obtain ⟨⟨kind', p'⟩, second', htoken', hsecond', hcolon', hkind⟩ :=
    hv.label rfl htoken rfl hsecond hcolon
  rcases hkind with ⟨rfl, hclear⟩ | ⟨rfl, hstuck⟩
  · obtain rfl := hidentifier _ _ htoken' rfl
    have rest : Renames ρ P depth ⟨.block :: S, .nothing⟩
        (Script.expectMark .colon >>= fun _ => Script.rule .statement >>= fun body =>
          Pure.pure (Statement.label p name body))
        (Script.expectMark .colon >>= fun _ => Script.rule .statement >>= fun body =>
          Pure.pure (Statement.label p' (ρ.label p.offset name) body))
        (Renamed (Statement.respell ρ) Statement.erase) fun _ => ⟨.block :: S, .statement⟩ :=
      (Renames.expectMark rfl).bind fun _ _ _ => (calls (.statement S)).bind fun _ _ hbody =>
        .pure (congrArg (Statement.label .erased (ρ.label p.offset name)) hbody) rfl
    refine .peek htoken htoken'
      (.peekNth_one hv htoken (by simp) fun found found' _ hfound hfound' _ => ?_)
    obtain rfl : second = found := Option.some_inj.1 (hsecond.symm.trans hfound)
    obtain rfl : second' = found' := Option.some_inj.1 (hsecond'.symm.trans hfound')
    rw [if_pos hcolon, if_pos hcolon']
    refine .advance hv htoken (by simp) hclear fun taken' _ w w' htaken' _ hw _ => ?_
    obtain rfl : taken' = ⟨.identifier (ρ.label p.offset name), p'⟩ :=
      Option.some_inj.1 (htaken'.symm.trans htoken')
    exact rest w w' hw
  · refine .of_stuck (fun hobserves => hstuck ?_) (htypeName _ _ _ htoken' rfl hsecond' hcolon')
    -- The name is taken when it has been looked at, and the colon behind it.
    have hlooked := hobserves.2 ⟨.identifier name, p⟩ v (by rw [View.perform, htoken]; rfl)
    have hlabelled := hlooked.2 second v (by rw [View.perform, hsecond]; rfl)
    dsimp only [Script.bind] at hlabelled
    rw [if_pos hcolon] at hlabelled
    exact hlabelled.1 rfl

theorem renames_statement (calls : Parser.RenamesCalls ρ P depth) :
    Renames ρ P depth ⟨.block :: S, .statement⟩ statement statement
      (Renamed (Statement.respell ρ) Statement.erase) fun _ => ⟨.block :: S, .statement⟩ := by
  intro v v' hv
  rcases v.label_or with ⟨⟨kind, p⟩, second, name, htoken, rfl | rfl, hsecond, hcolon⟩ | hnot
  · exact tracks_label calls hv htoken hsecond hcolon (fun _ _ _ _ => rfl)
      fun _ _ _ htoken' hkind' _ _ _ _ => not_takes_statement htoken' hkind' _
  · exact .of_unread fun a w hread => not_takes_statement htoken rfl a ⟨depth, hread⟩
  · exact tracks_unlabelled calls hv hnot

theorem blockItem_of_identifier {token : Token} {name : String} (h : token.kind = .identifier name) :
    blockItem token = statement := by
  unfold blockItem
  rw [h]
  rfl

theorem tracks_blockItem (calls : Parser.RenamesCalls ρ P depth) {v v' : View}
    (hv : ρ.Related P ⟨.block :: S, .statement⟩ v v') {token token' : Token}
    (htoken : v.token? 0 = some token) (htoken' : v'.token? 0 = some token') :
    Tracks ρ P depth (blockItem token) (blockItem token') v v'
      (Renamed (Statement.respell ρ) Statement.erase) fun _ => ⟨.block :: S, .statement⟩ := by
  have same : ∀ {found}, v'.token? 0 = some found → found = token' :=
    fun hfound => Option.some_inj.1 (hfound.symm.trans htoken')
  rcases v.label_or with ⟨found, second, name, hfound, hname, hsecond, hcolon⟩ | hnot
  · obtain rfl : token = found := Option.some_inj.1 (htoken.symm.trans hfound)
    rcases hname with hname | hname
    · rw [blockItem_of_identifier hname]
      obtain ⟨kind, p⟩ := token
      obtain rfl : kind = .identifier name := hname
      refine tracks_label calls hv htoken hsecond hcolon (fun found _ hfound hkind => ?_)
        fun found _ _ hfound hkind hsecond' hcolon' _ _ => ?_
      · rw [same hfound] at hkind
        exact blockItem_of_identifier hkind
      · rw [← same hfound]
        exact not_takes_blockItem hv.regular'.unmarked hfound hkind hsecond' hcolon' _
    · exact .of_unread fun a w hread =>
        not_takes_blockItem hv.regular.unmarked htoken hname hsecond hcolon a ⟨depth, hread⟩
  · have hinside := hv.unlabelled hnot
    obtain ⟨found, found', third, hfound, hfound', htwins⟩ := hinside.token?
    obtain rfl : token = found := Option.some_inj.1 (htoken.symm.trans hfound)
    obtain rfl : token' = found' := Option.some_inj.1 (htoken'.symm.trans hfound')
    have hkind : token'.kind = token.kind := htwins.kind (Or.inl (calm_block S).nameSpace)
    unfold blockItem
    rw [hkind]
    split
    · have hdeclaration : Renames ρ P depth ⟨.block :: S, .nothing⟩
          (declarationGroup >>= fun group => Pure.pure (Statement.declaration token.position group))
          (declarationGroup >>= fun group => Pure.pure (Statement.declaration token'.position group))
          (Renamed (Statement.respell ρ) Statement.erase) fun _ => ⟨.block :: S, .statement⟩ :=
        (renames_declarationGroup calls (calm_block S)).bind fun _ _ h =>
          .pure (congrArg (Statement.declaration .erased) h) rfl
      exact hdeclaration v v' hinside
    · exact tracks_unlabelled calls hv hnot

theorem renames_blockItems (calls : Parser.RenamesCalls ρ P depth) :
    Renames ρ P depth ⟨.block :: S, .statement⟩ blockItems blockItems
      (Renamed (List.map (Statement.respell ρ)) (List.map Statement.erase))
      fun _ => ⟨.block :: S, .statement⟩ := by
  intro v v' hv
  obtain ⟨token, token', third, htoken, htoken', htwins⟩ := hv.token?
  have items : Tracks ρ P depth
      (blockItem token >>= fun first => Script.rule .blockItems >>= fun others =>
        Pure.pure (first :: others))
      (blockItem token' >>= fun first => Script.rule .blockItems >>= fun others =>
        Pure.pure (first :: others)) v v'
      (Renamed (List.map (Statement.respell ρ)) (List.map Statement.erase))
      fun _ => ⟨.block :: S, .statement⟩ := by
    refine (tracks_blockItem calls hv htoken htoken').bind fun first first' w w' hfirst hw => ?_
    have rest : Renames ρ P depth ⟨.block :: S, .statement⟩
        (Script.rule .blockItems >>= fun others => Pure.pure (first :: others))
        (Script.rule .blockItems >>= fun others => Pure.pure (first' :: others))
        (Renamed (List.map (Statement.respell ρ)) (List.map Statement.erase))
        fun _ => ⟨.block :: S, .statement⟩ :=
      (calls (.blockItems S)).bind fun others others' hothers => .pure (by
        simp only [Renamed, Alike, List.map_cons] at hfirst hothers ⊢
        rw [hfirst, hothers]) rfl
    exact rest w w' hw
  refine .peek htoken htoken' ?_
  rcases htwins.cases with ⟨-, hkind⟩ | ⟨name, hname, hname'⟩
  · rw [hkind]
    split
    · have hempty : Renames ρ P depth ⟨.block :: S, .statement⟩ (Pure.pure []) (Pure.pure [])
          (Renamed (List.map (Statement.respell ρ)) (List.map Statement.erase))
          fun _ => ⟨.block :: S, .statement⟩ := .pure rfl rfl
      exact hempty v v' hv
    · exact Renames.refuse v v' hv
    · exact items
  · cases hkind : token.kind <;> rw [hkind] at hname <;> cases hname <;>
      cases hkind' : token'.kind <;> rw [hkind'] at hname' <;> cases hname' <;> exact items

/-! ## Functions and units -/

/-- Only the names of parameters are declared. -/
theorem renames_declareParameters {list list' : List Parameter}
    (h : Renamed (List.map (Parameter.respell ρ)) (List.map Parameter.erase) list list')
    (hwords : AllUnreserved (list.filterMap (·.name))) :
    Renames ρ P depth σ (declareParameters list) (declareParameters list') (fun _ _ => True)
      fun _ => σ := by
  induction list generalizing list' with
  | nil =>
      obtain rfl : list' = [] := by simpa [Renamed, Alike, eq_comm] using h
      exact .pure trivial rfl
  | cons first others ih =>
      obtain ⟨first', others', rfl, hfirst, hothers⟩ : ∃ first' others', list' = first' :: others' ∧
          (first.respell ρ).erase = first'.erase ∧
          Renamed (List.map (Parameter.respell ρ)) (List.map Parameter.erase) others others' := by
        cases list' with
        | nil => simp [Renamed, Alike] at h
        | cons first' others' =>
            simp only [Renamed, Alike, List.map_cons, List.cons.injEq] at h
            exact ⟨first', others', rfl, h.1, h.2⟩
      have hname : first.name = first'.name := by
        simpa [Parameter.respell] using congrArg Parameter.name hfirst
      unfold declareParameters
      rw [← hname]
      cases hn : first.name with
      | none =>
          rw [List.filterMap_cons_none hn] at hwords
          exact ih hothers hwords
      | some name =>
          rw [List.filterMap_cons_some hn, allUnreserved_cons] at hwords
          exact (Renames.declare hwords.1 rfl).bind fun _ _ _ => ih hothers hwords.2

theorem renamed_parameters? {space : NameSpace} {d d' : Declarator}
    (h : ρ.OfDeclarators space d d') :
    Renamed (Option.map (List.map (Parameter.respell ρ))) (Option.map (List.map Parameter.erase))
      d.parameters? d'.parameters? := by
  have hmodifiers := h.modifiers
  have hwhole := Declarator.respell_parameters? ρ d
  simp only [Renamed, Alike] at hmodifiers ⊢
  rw [hwhole, Declarator.erase_parameters? d', ← hmodifiers]
  exact Declarator.erase_parameters? ⟨d.name, d.modifiers.map (TypeModifier.respell ρ)⟩

theorem renames_functionDefinition (calls : Parser.RenamesCalls ρ P depth)
    {specifiers specifiers' : Specifiers} {d d' : Declarator}
    (h : ρ.OfSpecifiers specifiers specifiers') (hd : ρ.OfDeclarators .ordinary d d')
    (hwords : AllUnreserved d.words) :
    Renames ρ P depth .start (functionDefinition specifiers d) (functionDefinition specifiers' d')
      (Renamed (FunctionDefinition.respell ρ) FunctionDefinition.erase) fun _ => .start := by
  have htype := renamed_type hd h.base
  have hlist := renamed_parameters? hd
  have hname := hd.name
  simp only [Renamed, Alike] at htype
  unfold functionDefinition
  rcases hn : d.name with _ | ⟨name, p⟩ <;> rcases hn' : d'.name with _ | ⟨name', p'⟩ <;>
    simp [hn, hn'] at hname
  · exact .contradict
  obtain rfl : name' = name := hname
  rw [h.isTypedef]
  dsimp only
  split
  · exact .fail
  rcases hparameters : d.parameters? with _ | list <;>
    rcases hparameters' : d'.parameters? with _ | list' <;>
      simp only [hparameters, hparameters', Renamed, Alike, Option.map_none, Option.map_some,
        Option.some.injEq, reduceCtorEq] at hlist
  · exact .contradict
  have hunreserved := unreserved_of_name hwords hn
  have hparameterWords := allUnreserved_parameters hwords hparameters
  have hopen : Scanner.start.mark .openBrace = ⟨[.block], .statement⟩ := rfl
  have hclose : (⟨[.block], .statement⟩ : Scanner).mark .closeBrace = .start := rfl
  refine (Renames.declare hunreserved rfl).bind fun _ _ _ =>
    (Renames.expectMark hopen).bind fun _ _ _ => (Renames.enter _).bind fun _ _ _ =>
      (renames_declareParameters hlist hparameterWords).bind fun _ _ _ =>
        (calls (.blockItems [])).bind fun body body' hbody => (Renames.expectMark hclose).bind
          fun close close' _ => (Renames.leave close.position close'.position).bind
            fun _ _ _ => .pure ?_ rfl
  simp only [Renamed, Alike] at hbody
  simp [Renamed, Alike, FunctionDefinition.respell, FunctionDefinition.erase, htype, hlist, hbody,
    h.storage]

theorem renames_externalDeclaration (calls : Parser.RenamesCalls ρ P depth) :
    Renames ρ P depth .start externalDeclaration externalDeclaration
      (Renamed (ExternalDeclaration.respell ρ) ExternalDeclaration.erase) fun _ => .start := by
  have hcalm : Scanner.start.Calm := ⟨rfl, nofun⟩
  have hspecifiers := renames_specifiers calls (.calm hcalm)
  rw [hcalm.typedAs] at hspecifiers
  refine hspecifiers.bind fun specifiers specifiers' h =>
    .acceptMark rfl (.pure (congrArg ExternalDeclaration.declaration (renamed_bareGroup h)) rfl)
      fun _ _ => .any ?_
  refine ((renames_ordinaryDeclarator calls hcalm _).orderly (orderly_declarator _)).bind ?_
  rintro d d' ⟨hd, hwords⟩
  have hgroup : Renames ρ P depth .start
      (groupFrom specifiers d >>= fun group => Pure.pure (ExternalDeclaration.declaration group))
      (groupFrom specifiers' d' >>= fun group => Pure.pure (ExternalDeclaration.declaration group))
      (Renamed (ExternalDeclaration.respell ρ) ExternalDeclaration.erase) fun _ => .start :=
    (renames_groupFrom calls hcalm h hd hwords).bind fun _ _ hg =>
      .pure (congrArg ExternalDeclaration.declaration hg) rfl
  have hsome : d.parameters?.isSome = d'.parameters?.isSome := by
    simpa using congrArg Option.isSome (renamed_parameters? hd)
  rw [← hsome]
  split
  · exact .nextIsMark (fun _ _ => .any ((renames_functionDefinition calls h hd hwords).bind
      fun _ _ hf => .pure (congrArg ExternalDeclaration.function hf) rfl)) fun _ _ => .any hgroup
  · exact hgroup

theorem renames_externalDeclarations (calls : Parser.RenamesCalls ρ P depth) :
    Renames ρ P depth .start externalDeclarations externalDeclarations
      (Renamed (List.map (ExternalDeclaration.respell ρ)) (List.map ExternalDeclaration.erase))
      fun _ => .start := by
  have hcalm : Scanner.start.Calm := ⟨rfl, nofun⟩
  refine .peek_ordinary (fun _ _ => hcalm.nameSpace) fun kind p p' => ?_
  simp only [Token.isEndOfFile, decide_eq_true_eq]
  split
  · exact .any (.pure rfl rfl)
  · refine .any ((renames_externalDeclaration calls).bind fun first first' hfirst =>
      (calls .externalDeclarations).bind fun others others' hothers => .pure ?_ rfl)
    simp only [Renamed, Alike, List.map_cons] at hfirst hothers ⊢
    rw [hfirst, hothers]

end Grammar

/-! ## The grammar -/

section

variable {ρ : Renaming} {P : Nat → Prop} {depth : Nat} {σ : Scanner} {f f' : Nonterminal}
  {E : f.Result → f'.Result → Prop} {τ : f.Result → Scanner}

/-- Each call is carried out by a script that does with new names what it does without. -/
theorem Nonterminal.Renamed.renames (h : Nonterminal.Renamed ρ σ f f' E τ)
    (calls : Parser.RenamesCalls ρ P depth) :
    Script.Renames ρ P depth σ (Grammar.script f) (Grammar.script f') E τ := by
  cases h with
  | expression limit hσ he => exact Grammar.renames_expression calls hσ he limit
  | infixTail limit hσ h => exact Grammar.renames_infixTail calls hσ limit h
  | postfixTail hσ h => exact Grammar.renames_postfixTail calls hσ h
  | «arguments» hσ => exact Grammar.renames_arguments calls hσ
  | adjacentStrings hσ => exact Grammar.renames_adjacentStrings calls hσ
  | typeName hσ => exact Grammar.renames_typeName calls hσ
  | specifierTail hσ h => exact Grammar.renames_specifierTail calls hσ h
  | members σ => exact Grammar.renames_members calls
  | memberDeclarators σ h => exact Grammar.renames_memberDeclarators calls h
  | enumerators hσ => exact Grammar.renames_enumerators calls hσ
  | pointerTail hσ => exact Grammar.renames_pointerTail calls hσ
  | declarator hσ hmode => exact Grammar.renames_declarator calls hσ hmode
  | suffixes hσ => exact Grammar.renames_suffixes calls hσ
  | parameters hσ => exact Grammar.renames_parameters calls hσ
  | initializerItems σ => exact Grammar.renames_initializerItems calls
  | initDeclarators hσ h => exact Grammar.renames_initDeclarators calls hσ h
  | statement S => exact Grammar.renames_statement calls
  | blockItems S => exact Grammar.renames_blockItems calls
  | externalDeclarations => exact Grammar.renames_externalDeclarations calls

/-- By induction on how deep calls are nested. -/
theorem Parser.renamesCalls (ρ : Renaming) (P : Nat → Prop) (depth : Nat) :
    Parser.RenamesCalls ρ P depth := by
  induction depth with
  | zero => exact fun _ _ _ _ => .of_unread fun _ _ hread => by cases hread
  | succ depth ih =>
      intro σ f f' E τ h v v' hv a w hread
      have hscript : (Grammar.script f).read (Parser.readAt depth) v = some (a, w) :=
        Script.rule_of_read hread
      obtain ⟨hiff, hends⟩ := h.renames ih v v' hv a w hscript
      have htakes : ∀ a' w', (Script.rule f').Takes v' a' w' ↔
          (Grammar.script f').Takes v' a' w' :=
        fun _ _ => ⟨Script.Takes.of_rule, Script.Takes.rule⟩
      have hobserves : (Script.rule f).Observes (ρ.Clear P) (Parser.readAt (depth + 1))
          (Parser.observesAt (ρ.Clear P) (depth + 1)) v ↔
          (Grammar.script f).Observes (ρ.Clear P) (Parser.readAt depth)
            (Parser.observesAt (ρ.Clear P) depth) v :=
        ⟨fun hcall => hcall.1, fun hscript => ⟨hscript, fun _ _ _ => trivial⟩⟩
      simp only [htakes, hobserves]
      exact ⟨hiff, hends⟩

end

end CSyntax
