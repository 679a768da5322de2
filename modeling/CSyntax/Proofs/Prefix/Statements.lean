import CSyntax.Proofs.Prefix.Declarations

/-!
# Statements — declarations, statements and functions can be completed

An initial value that is missing is completed by a zero and a statement by a semicolon.  A word
that has come alone where a statement begins is completed as a label.  With these, all rules can be
completed wherever lexemes run out (`Grammar.calls`).
-/

namespace CSyntax
namespace Grammar

open Script Script.Viable

variable {depth : Nat} {fault : ParseError} {place : Place} {T : SymbolTable} {S : Sequel}

/-! ## Initial values -/

theorem viable_initialValue (calls : Calls depth fault) :
    initialValue.Viable depth fault place (.only .zero) .closer fun _ => True := by
  have hitems : Viable (α := List Expr) depth fault place (rule .initializerItems) .brace .brace
      fun _ => True := (calls.anywhere .initializerItems rfl rfl).weaken fun _ _ => trivial
  exact here (.punctuator .closeParen) (fun position =>
    accept (hitems.andThen fun _ _ =>
      (expect (.punctuator .closeBrace) (by decide)).map) (viable_expression calls .assignment)
      (by decide)) (by decide) (by decide)

theorem opens_initializerItems (hT : T.KeywordFree) : initializerItems.Opens T .brace .brace := by
  refine Opens.look (a := []) hT ?_
  intro kind hkind position
  rw [List.mem_singleton.1 hkind]
  rfl

theorem viable_initializerItems (calls : Calls depth fault) :
    initializerItems.Viable depth fault place .brace .brace fun _ => True :=
  nextIs (fun _ hT => opens_initializerItems hT.keywordFree) done
    ((viable_initialValue calls).bind (by decide) fun _ _ =>
      accept (calls.anywhere .initializerItems rfl rfl).map done (by decide))

theorem opens_initial? (hT : T.KeywordFree) {specifiers : Specifiers} :
    (initial? specifiers).Opens T .closer .closer := by
  unfold initial?
  split
  · exact .pure
  · exact .accept_not .pure hT (by decide)

theorem viable_initial? (calls : Calls depth fault) (specifiers : Specifiers) :
    (initial? specifiers).Viable depth fault place .closer .closer fun _ => True := by
  unfold initial?
  split
  · exact done
  · exact accept (viable_initialValue calls).map done (by decide)

/-! ## Declarations -/

section

variable {specifiers : Specifiers} {d : Declarator}

theorem viable_initDeclarator (calls : Calls depth fault)
    (hd : AllUnreserved d.words ∧ d.name.isSome = true) :
    (initDeclarator specifiers d).Viable depth fault .block .closer .closer fun _ => True := by
  obtain ⟨⟨name, position⟩, hname⟩ := Option.isSome_iff_exists.1 hd.2
  unfold initDeclarator
  rw [hname]
  exact (declare (unreserved_of_name hd.1 hname) _).andThen fun _ _ =>
    (viable_initial? calls specifiers).map

theorem opens_initDeclarator (hT : Place.block.Ready T)
    (hd : AllUnreserved d.words ∧ d.name.isSome = true) :
    (initDeclarator specifiers d).Opens T .closer .closer := by
  obtain ⟨⟨name, position⟩, hname⟩ := Option.isSome_iff_exists.1 hd.2
  unfold initDeclarator
  rw [hname]
  exact Opens.declare.bind (.of_orderly (Orderly.declare (unreserved_of_name hd.1 hname) _)
    (Keeps.declare _ _)) hT (List.Subset.refl _) fun _ U _ hU _ => (opens_initial? hU.keywordFree).map

theorem viable_declarations (calls : Calls depth fault)
    (hd : AllUnreserved d.words ∧ d.name.isSome = true) :
    (declarations specifiers d).Viable depth fault .block .closer .closer fun _ => True := by
  have hmore : Viable (α := List Declaration) depth fault .block
      (rule (.initDeclarators specifiers)) (.only .name) .closer fun _ => True :=
    (calls.rule (.initDeclarators specifiers) rfl fun _ => id).weaken fun _ _ => trivial
  exact (viable_initDeclarator calls hd).andThen fun _ _ =>
    accept hmore.map done (by decide)

theorem viable_initDeclarators (calls : Calls depth fault) :
    (initDeclarators specifiers).Viable depth fault .block (.only .name) .closer fun _ => True :=
  (viable_declarator_named calls).andThen fun _ hd => viable_declarations calls hd

theorem viable_groupFrom (calls : Calls depth fault)
    (hd : AllUnreserved d.words ∧ d.name.isSome = true) :
    (groupFrom specifiers d).Viable depth fault .block .closer S fun _ => True :=
  (viable_declarations calls hd).bind (by decide) fun _ _ =>
    (expect (.punctuator .semicolon) (by decide)).map

/-- A single name is declared, without an initial value. -/
theorem opens_initDeclarators (hT : Place.block.Ready T) :
    (initDeclarators specifiers).Opens T (.only .name) .closer := by
  have hsteady : (declarator .named).Steady .block fun d => AllUnreserved d.words :=
    .of_orderly (orderly_declarator .named) (keeps_declarator .named)
  refine (opens_declarator hT.keywordFree .named).bind (hsteady.named named_declarator) hT
    (List.Subset.refl _) fun d U _ hU hd => ?_
  exact (opens_initDeclarator hU hd).bind (.of_orderly (orderly_initDeclarator specifiers hd.1)
    (keeps_initDeclarator specifiers d)) hU (List.Subset.refl _) fun _ V _ hV _ =>
      .accept_not .pure hV.keywordFree (by decide)

theorem viable_declarationGroup (calls : Calls depth fault) :
    declarationGroup.Viable depth fault .block (.only .int) S fun _ => True :=
  (viable_specifiers calls).bind (by decide) fun _ _ =>
    accept done ((viable_declarator_named calls).andThen fun _ hd =>
      viable_groupFrom calls hd) (by decide)

end

/-! ## Parts of statements -/

theorem viable_condition (calls : Calls depth fault) :
    condition.Viable depth fault place (.only (.punctuator .openParen)) S fun _ => True :=
  (expect (.punctuator .openParen) (by decide)).andThen fun _ _ =>
    (calls.expression .comma).bind (by decide) fun _ _ =>
      (expect (.punctuator .closeParen) (by decide)).map

theorem viable_expressionUnless (calls : Calls depth fault) {mark : Punctuator}
    (hmark : .punctuator mark ∈ Sequel.closer.fillers) :
    (expressionUnless mark).Viable depth fault place (.only (.punctuator mark))
      (.only (.punctuator mark)) fun _ => True := by
  have hvalue : (expression .comma >>= fun value => pure (some value)).Viable depth fault place
      (.only .zero) .closer fun _ => True := (viable_expression calls .comma).map
  refine nextIs (fun T hT => Opens.look (a := none) hT.keywordFree ?_) done
    (hvalue.mono (List.Subset.refl _) (fun _ h => List.mem_singleton.1 h ▸ hmark) fun _ => id)
  intro kind hkind position
  rw [List.mem_singleton.1 hkind]
  simp

theorem viable_block (calls : Calls depth fault) :
    block.Viable depth fault place (.only (.punctuator .openBrace)) S fun _ => True := by
  have hitems : Viable (α := List Statement) depth fault .block (rule .blockItems) .brace .brace
      fun _ => True := (calls.rule .blockItems rfl fun _ => id).weaken fun _ _ => trivial
  exact (expect (.punctuator .openBrace) (by decide)).andThen fun _ _ =>
    enclosed (.punctuator .closeBrace) hitems (fun _ _ => rfl) (List.Subset.refl _) (by decide)
      fun _ _ => done

theorem viable_forStart (calls : Calls depth fault) :
    forStart.Viable depth fault .block (.only (.punctuator .semicolon)) S fun _ => True := by
  have hgroup : (declarationGroup >>= fun group => pure (some (ForStart.declaration group))).Viable
      depth fault .block (.only .int) S fun _ => True := (viable_declarationGroup calls).map
  have hvalue : (expression .comma >>= fun value => expectMark .semicolon >>= fun _ =>
      pure (some (ForStart.expression value))).Viable depth fault .block (.only .zero) S
      fun _ => True :=
    (viable_expression calls .comma).bind (by decide) fun _ _ =>
      (expect (.punctuator .semicolon) (by decide)).map
  refine acceptFirst (.punctuator .semicolon) done ?_ ?_ (by decide)
  · refine Steady.peek.bind fun token _ => ?_
    split
    · exact hgroup.steady
    · exact hvalue.steady
  · intro T piece p hT
    refine .peek ?_
    split
    · exact hgroup.resumes hT _
    · exact hvalue.resumes hT _

/-- What a `for` loop reads in the scope that it opens. -/
def forParts : Script (Option ForStart × Option Expr × Option Expr × Statement) := do
  let start ← forStart
  let condition ← expressionUnless .semicolon
  let _ ← expectMark .semicolon
  let step ← expressionUnless .closeParen
  let _ ← expectMark .closeParen
  let body ← rule .statement
  return (start, condition, step, body)

theorem forLoop_eq (position : Position) :
    forLoop position = expectMark .openParen >>= fun _ => enter .block >>= fun _ =>
      forParts >>= fun parts => leave position >>= fun _ =>
        pure (.for position parts.1 parts.2.1 parts.2.2.1 parts.2.2.2) := by
  simp only [forLoop, forParts, bind_assoc, pure_bind]

theorem viable_forParts (calls : Calls depth fault) :
    forParts.Viable depth fault .block (.only (.punctuator .semicolon)) .closer fun _ => True :=
  (viable_forStart calls).andThen fun _ _ =>
    (viable_expressionUnless calls (by decide)).andThen fun _ _ =>
      (expect (.punctuator .semicolon) (by decide)).andThen fun _ _ =>
        (viable_expressionUnless calls (by decide)).andThen fun _ _ =>
          (expect (.punctuator .closeParen) (by decide)).andThen fun _ _ =>
            (calls.anywhere .statement rfl rfl).map

theorem viable_forLoop (calls : Calls depth fault) (position : Position) :
    (forLoop position).Viable depth fault place (.only (.punctuator .openParen)) .closer
      fun _ => True := by
  rw [forLoop_eq]
  exact (expect (.punctuator .openParen) (by decide)).andThen fun _ _ =>
    within (viable_forParts calls) (fun _ _ => rfl) (List.Subset.refl _) fun _ _ => done

/-! ## Statements -/

section

variable {word : Keyword} {piece : Piece} {p : List Piece}

theorem viable_body (calls : Calls depth fault) (f : Statement → Statement) :
    (rule .statement >>= fun body => pure (f body)).Viable depth fault place
      (.only (.punctuator .semicolon)) .closer fun _ => True :=
  (calls.anywhere .statement rfl rfl).map

theorem viable_closed (statement : Statement) :
    (expectMark .semicolon >>= fun _ => pure statement).Viable depth fault place
      (.only (.punctuator .semicolon)) S fun _ => True :=
  (expect (.punctuator .semicolon) (by decide)).map

theorem viable_labelled (calls : Calls depth fault) (f : Statement → Statement) :
    (expectMark .colon >>= fun _ => rule .statement >>= fun body => pure (f body)).Viable depth fault
      place (.only (.punctuator .colon)) .closer fun _ => True :=
  (expect (.punctuator .colon) (by decide)).andThen fun _ _ => viable_body calls f

/-- The keyword of a statement has come, and the rule for its form goes on from it. -/
theorem resumes_selectionStatement (calls : Calls depth fault) (hT : place.Ready T)
    (hkind : T.classify piece.lexeme = .keyword word)
    (hword : word.statementForm? = some .selection) :
    selectionStatement.Resumes depth fault T (piece :: p) .closer := by
  refine .advance ?_
  rw [hkind]
  cases word <;> cases hword
  case «if» =>
    refine Viable.resumes (O := .only (.punctuator .openParen)) (P := fun _ => True) ?_ hT p
    exact (viable_condition calls).andThen fun _ _ =>
      (calls.anywhere .statement rfl rfl).andThen fun _ _ =>
        accept (viable_body calls _) done (by decide)
  case switch =>
    exact Viable.resumes (P := fun _ => True)
      ((viable_condition calls).andThen fun _ _ => viable_body calls _) hT p

theorem resumes_iterationStatement (calls : Calls depth fault) (hT : place.Ready T)
    (hkind : T.classify piece.lexeme = .keyword word)
    (hword : word.statementForm? = some .iteration) :
    iterationStatement.Resumes depth fault T (piece :: p) .closer := by
  refine .advance ?_
  rw [hkind]
  cases word <;> cases hword
  case «while» =>
    exact Viable.resumes (P := fun _ => True)
      ((viable_condition calls).andThen fun _ _ => viable_body calls _) hT p
  case «do» =>
    exact Viable.resumes (P := fun _ => True)
      ((calls.anywhere .statement rfl rfl).bind (by decide) fun _ _ =>
        (expect .while (by decide)).andThen fun _ _ =>
          (viable_condition calls).andThen fun _ _ => viable_closed _) hT p
  case «for» => exact (viable_forLoop calls _).resumes hT p

theorem resumes_jumpStatement (calls : Calls depth fault) (hT : place.Ready T)
    (hkind : T.classify piece.lexeme = .keyword word) (hword : word.statementForm? = some .jump) :
    jumpStatement.Resumes depth fault T (piece :: p) .closer := by
  refine .advance ?_
  rw [hkind]
  cases word <;> cases hword
  case goto =>
    exact Viable.resumes (P := fun _ => True)
      (expectWord.map.andThen fun _ _ => viable_closed _) hT p
  case «continue» => exact Viable.resumes (P := fun _ => True) (viable_closed _) hT p
  case «break» => exact Viable.resumes (P := fun _ => True) (viable_closed _) hT p
  case «return» =>
    exact Viable.resumes (P := fun _ => True)
      ((viable_expressionUnless calls (by decide)).map.andThen fun _ _ => viable_closed _) hT p

theorem resumes_labelledStatement (calls : Calls depth fault) (hT : place.Ready T)
    (hkind : T.classify piece.lexeme = .keyword word)
    (hword : word.statementForm? = some .labelled) :
    labelledStatement.Resumes depth fault T (piece :: p) .closer := by
  refine .advance ?_
  rw [hkind]
  cases word <;> cases hword
  case «case» =>
    exact Viable.resumes (P := fun _ => True)
      ((calls.expression .conditional).bind (by decide) fun _ _ => viable_labelled calls _) hT p
  case default => exact (viable_labelled calls _).resumes hT p

end

theorem viable_expressionStatement (calls : Calls depth fault) (position : Position) :
    (expressionStatement position).Viable depth fault place (.only .zero) S fun _ => True :=
  (viable_expression calls .comma).bind (by decide) fun _ _ =>
    (expect (.punctuator .semicolon) (by decide)).map

theorem opens_statement : statement.Opens T (.only (.punctuator .semicolon)) .closer := by
  refine ⟨[.punctuator .semicolon], .empty (.start none), T,
    fun after _ => Sequel.leads_cons after List.mem_cons_self, Reads.peek ?_⟩
  exact Reads.cons Reads.advance fun _ _ => .pure rfl

/-- A word that has come alone is completed as a label; otherwise the token behind it tells whether
it is one. -/
theorem resumes_label (calls : Calls depth fault) (hT : place.Ready T) {position : Position}
    {name : String} {piece : Piece} {p : List Piece}
    (hname : T.classify piece.lexeme = .identifier name) :
    (peekNth 1 >>= fun second => if second.kind = .punctuator .colon then labelledStatement
      else expressionStatement position).Resumes depth fault T (piece :: p) .closer := by
  have hlabelled : (expectMark .colon >>= fun _ => rule .statement >>= fun body =>
      pure (Statement.label piece.position name body)).Viable depth fault place
        (.only (.punctuator .colon)) .closer fun _ => True := viable_labelled calls _
  match p with
  | [] =>
      refine .of_opens_behind (hlabelled.opens hT) hT.keywordFree
        fun v first others a w hv htable hfirst htakes => ?_
      have hkind : v.kind first = .punctuator .colon := List.mem_singleton.1 hfirst
      refine Takes.peekNth_one.bind ?_
      rw [View.kind_next, if_pos hkind]
      refine (Takes.advance hv).bind ?_
      rw [View.kind_next, View.kind, htable, hname]
      exact htakes
  | second :: p =>
      refine .past (Takes.peekNth_one (v := .alone T [] fault)) ?_
      split
      · refine .advance (T := T) ?_
        rw [hname]
        exact hlabelled.resumes hT _
      · exact (viable_expressionStatement calls position).resumes hT _

theorem viable_statement (calls : Calls depth fault) :
    statement.Viable depth fault place (.only (.punctuator .semicolon)) .closer
      fun _ => True := by
  refine peek (.of_orderly orderly_statement keeps_statement) (fun T _ => opens_statement) ?_
  intro T piece p hT
  dsimp only
  split
  · exact (viable_block calls).map.resumes hT _
  · exact .advance .pure
  · rename_i hkind
    split
    · rename_i hform
      exact resumes_selectionStatement calls hT hkind hform
    · rename_i hform
      exact resumes_iterationStatement calls hT hkind hform
    · rename_i hform
      exact resumes_jumpStatement calls hT hkind hform
    · rename_i hform
      exact resumes_labelledStatement calls hT hkind hform
    · exact (viable_expressionStatement calls _).resumes hT _
  · rename_i hname
    exact resumes_label calls hT hname
  · exact (viable_expressionStatement calls _).resumes hT _

theorem resumes_blockItem (calls : Calls depth fault) (hT : Place.block.Ready T) {token : Token}
    {p : List Piece} : (blockItem token).Resumes depth fault T p .closer := by
  unfold blockItem
  split
  · exact (viable_declarationGroup calls).map.resumes hT p
  · exact (viable_statement calls).resumes hT p

theorem opens_blockItems (hT : T.KeywordFree) : blockItems.Opens T .brace .brace := by
  refine Opens.look (a := []) hT ?_
  intro kind hkind position
  rw [List.mem_singleton.1 hkind]

theorem viable_blockItems (calls : Calls depth fault) :
    blockItems.Viable depth fault .block .brace .brace fun _ => True := by
  have hmore : Viable (α := List Statement) depth fault .block (rule .blockItems) .brace .brace
      fun _ => True := (calls.rule .blockItems rfl fun _ => id).weaken fun _ _ => trivial
  refine peek (.of_orderly orderly_blockItems keeps_blockItems)
    (fun T hT => opens_blockItems hT.keywordFree) ?_
  intro T piece p hT
  dsimp only
  split
  · exact .pure
  · exact .refuse
  · exact (resumes_blockItem calls hT).bind (.of_orderly (orderly_blockItem _) (keeps_blockItem _)) hT
      (by decide) fun _ U _ hU _ => hmore.map.continues U hU

/-! ## Functions -/

theorem viable_declareParameters {list : List Parameter}
    (h : AllUnreserved (list.filterMap (·.name))) :
    (declareParameters list).Viable depth fault .block S S fun _ => True := by
  induction list with
  | nil => exact done
  | cons first others ih =>
      unfold declareParameters
      split
      · rename_i name hname
        have hcons : Unreserved name ∧ AllUnreserved (others.filterMap (·.name)) := by
          simpa [hname] using h
        exact (declare hcons.1 _).andThen fun _ _ => ih hcons.2
      · rename_i hname
        exact ih (by simpa [hname] using h)

/-- The scope of a function's body. -/
def functionScope (parameters : List Parameter) : Script (List Statement) := do
  declareParameters parameters
  rule .blockItems

theorem viable_functionScope (calls : Calls depth fault) {list : List Parameter}
    (h : AllUnreserved (list.filterMap (·.name))) :
    (functionScope list).Viable depth fault .block .brace .brace fun _ => True :=
  (viable_declareParameters h).andThen fun _ _ =>
    (calls.rule .blockItems rfl fun _ => id).weaken fun _ _ => trivial

section

variable {specifiers : Specifiers} {d : Declarator}

theorem viable_functionBody (calls : Calls depth fault) {list : List Parameter}
    (h : AllUnreserved (list.filterMap (·.name)))
    (result : List Statement → FunctionDefinition) :
    (expectMark .openBrace >>= fun _ => enter .block >>= fun _ => declareParameters list >>= fun _ =>
      rule .blockItems >>= fun body => expectMark .closeBrace >>= fun close =>
        leave close.position >>= fun _ => pure (result body)).Viable depth fault place
      (.only (.punctuator .openBrace)) S fun _ => True := by
  have hscope : (enter .block >>= fun _ => functionScope list >>= fun body =>
      expectMark .closeBrace >>= fun close => leave close.position >>= fun _ =>
        pure (result body)).Viable depth fault place .brace S fun _ => True :=
    enclosed (.punctuator .closeBrace) (viable_functionScope calls h) (fun _ _ => rfl)
      (List.Subset.refl _) (by decide) fun _ _ => done
  simp only [functionScope, bind_assoc] at hscope
  exact (expect (.punctuator .openBrace) (by decide)).andThen fun _ _ => hscope

theorem resumes_functionDefinition (calls : Calls depth fault) (hT : Place.block.Ready T)
    (hd : AllUnreserved d.words) {p : List Piece} :
    (functionDefinition specifiers d).Resumes depth fault T p S := by
  unfold functionDefinition
  split
  · exact .fail
  · rename_i name position hname
    split
    · exact .fail
    · split
      · exact .fail
      · rename_i list hlist
        exact ((declare (unreserved_of_name hd hname) _).andThen fun _ _ =>
          viable_functionBody calls (allUnreserved_parameters hd hlist) _).resumes hT p

theorem viable_externalDeclaration (calls : Calls depth fault) :
    externalDeclaration.Viable depth fault .block (.only .int) S fun _ => True := by
  refine (viable_specifiers calls).bind (by decide) fun specifiers _ =>
    accept done ((viable_declarator_named calls).andThen fun d hd => ?_)
      (by decide)
  have hgroup : (groupFrom specifiers d >>= fun group =>
      pure (ExternalDeclaration.declaration group)).Viable depth fault .block .closer S
      fun _ => True := (viable_groupFrom calls hd).map
  split
  · refine looks (fun T hT => (hgroup.opens hT).nextIs_not hT.keywordFree (by decide)) ?_ ?_
    · refine Bool.rec hgroup.steady ?_
      refine Steady.bind (.of_orderly (orderly_functionDefinition specifiers hd.1)
        (keeps_functionDefinition specifiers d)) fun _ _ => .pure trivial
    · intro found T piece p hT
      cases found with
      | true => exact (resumes_functionDefinition calls hT hd.1).map
      | false => exact hgroup.resumes hT _
  · exact hgroup

end

/-! ## All rules -/

theorem opens_part (f : Nonterminal) (hpart : f.isPart = true) (hT : f.place.Ready T) :
    (script f).Opens T f.lead f.stop := by
  cases f with
  | expression limit => exact opens_expression hT.keywordFree limit
  | infixTail limit left => exact opens_infixTail hT.keywordFree limit left
  | postfixTail operand => exact opens_postfixTail hT.keywordFree operand
  | arguments => exact opens_arguments hT.keywordFree
  | adjacentStrings => exact opens_adjacentStrings hT.keywordFree
  | typeName => exact opens_typeName hT.keywordFree
  | members => exact opens_members hT.keywordFree
  | memberDeclarators specifiers => exact opens_memberDeclarators hT.keywordFree specifiers
  | enumerators => exact opens_enumerators hT.keywordFree
  | pointerTail => exact ⟨[], 0, T, fun _ => id, reads_pointerTail hT.keywordFree⟩
  | declarator mode => exact opens_declarator hT.keywordFree mode
  | suffixes => exact opens_suffixes hT.keywordFree
  | parameters => exact opens_parameters hT.keywordFree
  | initializerItems => exact opens_initializerItems hT.keywordFree
  | initDeclarators specifiers => exact opens_initDeclarators hT
  | statement => exact opens_statement
  | blockItems => exact opens_blockItems hT.keywordFree
  | specifierTail tally => cases hpart
  | externalDeclarations => cases hpart

theorem resumes_part (calls : Calls depth fault) (f : Nonterminal) (hpart : f.isPart = true)
    (hT : f.place.Ready T) (p : List Piece) : (script f).Resumes depth fault T p f.stop := by
  cases f with
  | expression limit => exact (viable_expression calls limit).resumes hT p
  | infixTail limit left => exact (viable_infixTail calls limit left).resumes hT p
  | postfixTail operand => exact (viable_postfixTail calls operand).resumes hT p
  | arguments => exact (viable_arguments calls).resumes hT p
  | adjacentStrings => exact (viable_adjacentStrings calls).resumes hT p
  | typeName => exact (viable_typeName calls).resumes hT p
  | members => exact (viable_members calls).resumes hT p
  | memberDeclarators specifiers => exact (viable_memberDeclarators calls specifiers).resumes hT p
  | enumerators => exact (viable_enumerators calls).resumes hT p
  | pointerTail => exact (viable_pointerTail calls).resumes hT p
  | declarator mode => exact (viable_declarator calls mode).resumes hT p
  | suffixes => exact (viable_suffixes calls).resumes hT p
  | parameters => exact (viable_parameters calls).resumes hT p
  | initializerItems => exact (viable_initializerItems calls).resumes hT p
  | initDeclarators specifiers => exact (viable_initDeclarators calls).resumes hT p
  | statement => exact (viable_statement calls).resumes hT p
  | blockItems => exact (viable_blockItems calls).resumes hT p
  | specifierTail tally => cases hpart
  | externalDeclarations => cases hpart

/-- Whatever depth calls are nested to, the rules that starve can be completed. -/
theorem calls (depth : Nat) (fault : ParseError) : Calls depth fault := by
  induction depth with
  | zero =>
      exact { opens := fun f T hpart hT => opens_part f hpart hT
              parts := fun _ _ _ _ _ hstarves => hstarves.elim
              tails := fun _ _ _ _ _ hstarves => hstarves.elim }
  | succ depth ih =>
      exact { opens := fun f T hpart hT => opens_part f hpart hT
              parts := fun f T p hpart hT hstarves => resumes_part ih f hpart hT p hstarves
              tails := fun tally T p hsane hT hstarves => furnishes_of_starves ih hsane hT hstarves }

end Grammar
end CSyntax
