import CSyntax.Proofs.Statement.Reading

/-!
# Roundtrip — statement by statement

Each form of statement is read back if its parts are, and by induction so is everything written that
has the right shape (`Passage.Written.readsBack`).  What a form asks of the lexemes behind it is what
the statement at its right edge asks: that they do not begin with an `else` that could go into it.
-/

namespace CSyntax

open Script Grammar

/-! ## What comes back -/

/-- No `else` comes next, if one would go into the statement. -/
def Statement.StopsAt (s : Statement) (T : SymbolTable) (after : List Piece) : Prop :=
  s.openEnded = true → T.Faces (· ≠ .keyword .else) after

/-- The lexemes are read back as the statement, or as one like it at other positions. -/
def Statement.Returns (s : Statement) (prog : Script Statement) (T : SymbolTable)
    (pieces : List Piece) (U : SymbolTable) : Prop :=
  prog.Reads T pieces (Alike Statement.erase s) U (s.StopsAt U)

/-- The same of items of a block, which end where it is closed. -/
def Statement.ListReturns (items : List Statement) (T : SymbolTable) (pieces : List Piece)
    (U : SymbolTable) : Prop :=
  blockItems.Reads T pieces (Alike (List.map Statement.erase) items) U
    (Piece.EndsWith [.closeBrace])

/-- A passage that has the right shape comes back. -/
def Passage.ReadsBack (T : SymbolTable) (passage : Passage) (pieces : List Piece) (U : SymbolTable) :
    Prop :=
  match passage with
  | .statement s => s.Shaped → s.Returns Grammar.statement T pieces U
  | .items list => Statement.ShapedList list → Statement.ListReturns list T pieces U

/-! ## Which rule reads a statement -/

/-- The rule for the statements of a form. -/
def Keyword.StatementForm.script : Keyword.StatementForm → Script Statement
  | .selection => selectionStatement
  | .iteration => iterationStatement
  | .jump => jumpStatement
  | .labelled => labelledStatement

section

variable {T U V W : SymbolTable} {s body whenTrue whenFalse : Statement} {position : Position}
  {word opening closing semicolon colon : Piece} {pieces others test : List Piece}
  {condition value : Expr} {keyword : Keyword}

/-- A keyword with a statement of its own tells the form, and the rule for the form takes it. -/
theorem returns_keyword {form : Keyword.StatementForm} {next : Token → Script Statement}
    (hfree : T.KeywordFree) (hword : word.lexeme = .keyword keyword)
    (hform : keyword.statementForm? = some form)
    (hscript : form.script = Script.advance >>= next)
    (h : s.Returns (next ⟨.keyword keyword, word.position⟩) T pieces U) :
    s.Returns statement T (word :: pieces) U := by
  have hkind := SymbolTable.classify_of_word hfree hword
  have hrule : s.Returns form.script T (word :: pieces) U := by
    rw [hscript]
    refine Reads.advance.cons ?_
    rintro _ rfl
    rw [hkind]
    exact h
  refine Reads.peek ?_
  rw [hkind]
  dsimp only
  rw [hform]
  cases form <;> exact hrule

/-- A jump is its keyword and what belongs to it, before the semicolon. -/
theorem returns_jump (hfree : T.KeywordFree) (hword : word.lexeme = .keyword keyword)
    (hform : keyword.statementForm? = some .jump)
    (hjump : (jumpFrom ⟨.keyword keyword, word.position⟩).Reads T pieces (Alike Statement.erase s) U
      (Piece.EndsWith [.semicolon]))
    (hsemicolon : semicolon.lexeme = .punctuator .semicolon) :
    s.Returns statement T (word :: (pieces ++ [semicolon])) U := by
  refine returns_keyword hfree hword hform rfl ?_
  refine hjump.bind (fun jump halike => ?_)
    fun _ _ => Piece.EndsWith.cons (List.mem_singleton_self _) hsemicolon
  exact (Reads.expect (SymbolTable.classify_of_mark hsemicolon)).cons fun _ _ => Reads.pure halike

/-- What an expression followed by a semicolon is read as begins like no other statement.  A name in
front of a colon would be a label, but an expression that is read up to a semicolon is not read up to
a colon. -/
theorem returns_expression (hfree : T.KeywordFree) (h : value.Spelled [.semicolon] T pieces U)
    (hsemicolon : semicolon.lexeme = .punctuator .semicolon) :
    (Statement.expression position value).Returns statement T (pieces ++ [semicolon]) U := by
  obtain ⟨first, rest, rfl, hopens⟩ := h.first (List.mem_singleton_self _) rfl
  rintro v after hv rfl -
  obtain ⟨value', halike, hvalue⟩ := h.reads v (semicolon :: after) hv rfl
    (Piece.EndsWith.cons (List.mem_singleton_self _) hsemicolon)
  refine ⟨.expression first.position value', congrArg (Statement.expression .erased) halike, ?_⟩
  rw [List.append_assoc, List.cons_append, List.singleton_append]
  rw [List.cons_append] at hvalue
  have hstatement : (expressionStatement first.position).Takes
      (v.facing (first :: (rest ++ semicolon :: after))) (.expression first.position value')
      ((v.under U).facing after) := by
    have hkind : (v.under U).kind semicolon = .punctuator .semicolon := View.kind_of_mark hsemicolon
    exact hvalue.bind ((Takes.expect (v := v.under U) hv hkind).bind Takes.pure)
  refine Takes.peek.bind ?_
  rw [View.kind_next]
  -- What an expression begins with leads to no other statement, but for a name that a colon
  -- follows.
  split
  · rename_i hkind
    rw [show v.table.classify first.lexeme = _ from hkind] at hopens
    cases hopens
  · rename_i hkind
    rw [show v.table.classify first.lexeme = _ from hkind] at hopens
    cases hopens
  · rename_i word hkind
    rw [show v.table.classify first.lexeme = _ from hkind] at hopens
    obtain rfl : word = .sizeof := by
      cases word <;> first | rfl | cases hopens
    exact hstatement
  · rename_i name hkind
    obtain ⟨second, more, hmore⟩ := (Piece.EndsWith.cons (List.mem_singleton_self _)
      hsemicolon : Piece.EndsWith [.semicolon] (semicolon :: after)).exists_first rest
    rw [hmore] at hvalue hstatement ⊢
    refine Takes.peekNth_one.bind ?_
    rw [View.kind_next]
    split
    · -- The name alone is an expression before the colon.
      rename_i hcolon
      have hname : Derives TokenKind.startsTypeName v (.level .unary) (first :: second :: more)
          (.identifier first.position name) (second :: more) :=
        .operand (.postfixed (.primary (.identifier hkind)))
      have hread := (hname.loosen (Nat.zero_le Precedence.comma.rank)).takes hv hfree
        (View.begins_cons.2 (by rw [hcolon]; rfl))
      have hahead := congrArg View.ahead (hread.unique hvalue).2
      obtain ⟨rfl, -⟩ := List.cons.inj (show second :: more = semicolon :: after from hahead)
      rw [View.kind_of_mark hsemicolon] at hcolon
      cases hcolon
    · exact hstatement
  · exact hstatement

/-! ## Forms with a condition -/

theorem returns_while (hfree : T.KeywordFree) (hword : word.lexeme = .keyword .while)
    (hopening : opening.lexeme = .punctuator .openParen)
    (hvalue : condition.Spelled [.closeParen] T test U)
    (hclosing : closing.lexeme = .punctuator .closeParen) (hbody : body.Returns statement U others V) :
    (Statement.while position condition body).Returns statement T
      (word :: opening :: (test ++ closing :: others)) V := by
  refine returns_keyword hfree hword rfl rfl ?_
  refine reads_condition hopening hvalue hclosing fun value halike => ?_
  refine (Reads.rule (f := .statement) hbody).map fun body' halikes => ?_
  exact congrArg₂ (Statement.while .erased) halike halikes

theorem returns_switch (hfree : T.KeywordFree) (hword : word.lexeme = .keyword .switch)
    (hopening : opening.lexeme = .punctuator .openParen)
    (hvalue : condition.Spelled [.closeParen] T test U)
    (hclosing : closing.lexeme = .punctuator .closeParen) (hbody : body.Returns statement U others V) :
    (Statement.switch position condition body).Returns statement T
      (word :: opening :: (test ++ closing :: others)) V := by
  refine returns_keyword hfree hword rfl rfl ?_
  refine reads_condition hopening hvalue hclosing fun value halike => ?_
  refine (Reads.rule (f := .statement) hbody).map fun body' halikes => ?_
  exact congrArg₂ (Statement.switch .erased) halike halikes

theorem returns_doWhile {again : Piece} (hfree : T.KeywordFree)
    (hword : word.lexeme = .keyword .do) (hbody : body.Returns statement T pieces U)
    (hfree' : U.KeywordFree) (hagain : again.lexeme = .keyword .while)
    (hopening : opening.lexeme = .punctuator .openParen)
    (hvalue : condition.Spelled [.closeParen] U test V)
    (hclosing : closing.lexeme = .punctuator .closeParen)
    (hsemicolon : semicolon.lexeme = .punctuator .semicolon) :
    (Statement.doWhile position body condition).Returns statement T
      (word :: (pieces ++ again :: opening :: (test ++ [closing, semicolon]))) V := by
  refine returns_keyword hfree hword rfl rfl ?_
  refine (Reads.rule (f := .statement) hbody).bind (fun body' halikes => ?_) fun after _ _ => ?_
  · refine (Reads.expect (SymbolTable.classify_of_word hfree' hagain)).cons fun _ _ => ?_
    refine reads_condition hopening hvalue hclosing fun value halike => ?_
    refine (Reads.expect (SymbolTable.classify_of_mark hsemicolon)).cons fun _ _ => Reads.pure ?_
    exact congrArg₂ (Statement.doWhile .erased) halikes halike
  · -- The loop goes on with its own keyword, which is no `else`.
    exact ⟨again, _, rfl, by rw [SymbolTable.classify_of_word hfree' hagain]; nofun⟩

/-- Without an `else` behind it, an `if` has none. -/
theorem returns_ifOnly (hfree : T.KeywordFree) (hword : word.lexeme = .keyword .if)
    (hopening : opening.lexeme = .punctuator .openParen)
    (hvalue : condition.Spelled [.closeParen] T test U)
    (hclosing : closing.lexeme = .punctuator .closeParen)
    (hbody : whenTrue.Returns statement U others V) :
    (Statement.if position condition whenTrue none).Returns statement T
      (word :: opening :: (test ++ closing :: others)) V := by
  refine returns_keyword hfree hword rfl rfl ?_
  refine reads_condition hopening hvalue hclosing fun value halike => ?_
  refine (Reads.rule (f := .statement) hbody).last (fun whenTrue' halikes => ?_)
    fun after hafter _ => hafter rfl
  refine Reads.accept_not.look (fun found hfound => ?_) fun after hafter => hafter rfl
  rw [if_neg (by simp [hfound])]
  exact Reads.pure (congrArg₂ (fun c s => Statement.if .erased c s none) halike halikes)

/-- The `else` goes to this `if`, since no `if` in front of it could take it. -/
theorem returns_ifElse {other : Piece} {rest : List Piece} (hfree : T.KeywordFree)
    (hword : word.lexeme = .keyword .if) (hopening : opening.lexeme = .punctuator .openParen)
    (hvalue : condition.Spelled [.closeParen] T test U)
    (hclosing : closing.lexeme = .punctuator .closeParen)
    (hbody : whenTrue.Returns statement U others V) (hopen : whenTrue.openEnded = false)
    (hfree' : V.KeywordFree) (hother : other.lexeme = .keyword .else)
    (hrest : whenFalse.Returns statement V rest W) :
    (Statement.if position condition whenTrue (some whenFalse)).Returns statement T
      (word :: opening :: (test ++ closing :: (others ++ other :: rest))) W := by
  refine returns_keyword hfree hword rfl rfl ?_
  refine reads_condition hopening hvalue hclosing fun value halike => ?_
  refine (Reads.rule (f := .statement) hbody).bind (fun whenTrue' htrue => ?_) fun after _ hends => ?_
  · refine (Reads.accept (SymbolTable.classify_of_word hfree' hother)).cons fun found hfound => ?_
    rw [if_pos hfound]
    refine (Reads.rule (f := .statement) hrest).map fun whenFalse' hfalse => ?_
    simp only [Alike, Statement.erase, Statement.eraseOption] at halike htrue hfalse ⊢
    rw [halike, htrue, hfalse]
  · rw [hopen] at hends
    cases hends

/-! ## Loops that declare -/

/-- The word `else` is reserved in all scopes. -/
theorem SymbolTable.Faces.not_else {after : List Piece} (h : T.Faces (· ≠ .keyword .else) after)
    (hfree : T.KeywordFree) : U.Faces (· ≠ .keyword .else) after := by
  obtain ⟨first, rest, rfl, hfirst⟩ := h
  refine ⟨first, rest, rfl, fun heq => hfirst ?_⟩
  have hlexeme : first.lexeme = .keyword .else := by
    rw [← U.lexeme_classify first.lexeme, heq]
    rfl
  exact SymbolTable.classify_of_word hfree hlexeme

theorem returns_for {start : Option ForStart} {test? step? : Option Expr} {X : SymbolTable}
    {first last : List Piece} (hfree : T.KeywordFree) (hword : word.lexeme = .keyword .for)
    (hopening : opening.lexeme = .punctuator .openParen)
    (hstart : ForStart.Written (T.enter .block) start first U)
    (htest : Expr.WrittenOption .semicolon U test? test V)
    (hsemicolon : semicolon.lexeme = .punctuator .semicolon)
    (hstep : Expr.WrittenOption .closeParen V step? last W)
    (hclosing : closing.lexeme = .punctuator .closeParen)
    (hbody : body.Returns statement W others X) (hleave : X.leave? = some T) :
    (Statement.for position start test? step? body).Returns statement T
      (word :: opening :: (first ++ (test ++ semicolon :: (last ++ closing :: others)))) T := by
  refine returns_keyword hfree hword rfl rfl ?_
  refine (Reads.expect (SymbolTable.classify_of_mark hopening)).cons fun _ _ => ?_
  refine (Reads.enter .block).step fun _ _ => ?_
  refine (reads_forStart (hfree.enter .block) hstart).append fun start' hstart => ?_
  refine (reads_expressionUnless htest rfl).bind (fun test' htest => ?_)
    fun _ _ => Piece.EndsWith.cons (List.mem_singleton_self _) hsemicolon
  refine (Reads.expect (SymbolTable.classify_of_mark hsemicolon)).cons fun _ _ => ?_
  refine (reads_expressionUnless hstep rfl).bind (fun step' hstep => ?_)
    fun _ _ => Piece.EndsWith.cons (List.mem_singleton_self _) hclosing
  refine (Reads.expect (SymbolTable.classify_of_mark hclosing)).cons fun _ _ => ?_
  refine (Reads.rule (f := .statement) hbody).last (fun body' halikes => ?_)
    fun after hafter hopen => (hafter hopen).not_else hfree
  refine (Reads.leave word.position hleave).step fun _ _ => Reads.pure ?_
  simp only [Alike, Statement.erase] at hstart htest hstep halikes ⊢
  rw [hstart, htest, hstep, halikes]

/-! ## Blocks -/

theorem returns_block {items : List Statement} (hopening : opening.lexeme = .punctuator .openBrace)
    (hitems : Statement.ListReturns items (T.enter .block) pieces U)
    (hclosing : closing.lexeme = .punctuator .closeBrace) (hleave : U.leave? = some V) :
    (Statement.block position items).Returns statement T (opening :: (pieces ++ [closing])) V := by
  refine Reads.peek ?_
  rw [SymbolTable.classify_of_mark hopening]
  have hblock : block.Reads T (opening :: (pieces ++ [closing]))
      (Alike (List.map Statement.erase) items) V
      ((Statement.block position items).StopsAt V) := by
    refine (Reads.expect (SymbolTable.classify_of_mark hopening)).cons fun _ _ => ?_
    refine (Reads.enter .block).step fun _ _ => ?_
    refine (Reads.rule (f := .blockItems) hitems).bind (fun items' halikes => ?_)
      fun _ _ => Piece.EndsWith.cons (List.mem_singleton_self _) hclosing
    refine (Reads.expect (SymbolTable.classify_of_mark hclosing)).cons fun token _ => ?_
    exact (Reads.leave token.position hleave).step fun _ _ => Reads.pure halikes
  refine hblock.map fun items' halikes => ?_
  simp only [Alike, Statement.erase, Statement.eraseList_eq] at halikes ⊢
  rw [halikes]

/-! ## Labels and jumps -/

theorem returns_case (hfree : T.KeywordFree) (hword : word.lexeme = .keyword .case)
    (hvalue : (Grammar.expression .conditional).Spells [.colon] T test (Alike Expr.erase value) U)
    (hcolon : colon.lexeme = .punctuator .colon) (hbody : body.Returns statement U others V) :
    (Statement.case position value body).Returns statement T
      (word :: (test ++ colon :: others)) V := by
  refine returns_keyword hfree hword rfl rfl ?_
  refine (Reads.rule (f := .expression .conditional) hvalue.reads).bind (fun value' halike => ?_)
    fun _ _ => Piece.EndsWith.cons (List.mem_singleton_self _) hcolon
  refine (Reads.expect (SymbolTable.classify_of_mark hcolon)).cons fun _ _ => ?_
  refine (Reads.rule (f := .statement) hbody).map fun body' halikes => ?_
  exact congrArg₂ (Statement.case .erased) halike halikes

theorem returns_default (hfree : T.KeywordFree) (hword : word.lexeme = .keyword .default)
    (hcolon : colon.lexeme = .punctuator .colon) (hbody : body.Returns statement T others U) :
    (Statement.default position body).Returns statement T (word :: colon :: others) U := by
  refine returns_keyword hfree hword rfl rfl ?_
  refine (Reads.expect (SymbolTable.classify_of_mark hcolon)).cons fun _ _ => ?_
  exact (Reads.rule (f := .statement) hbody).map fun body' halikes =>
    congrArg (Statement.default .erased) halikes

theorem returns_label {name : String} (hword : T.classify word.lexeme = .identifier name)
    (hcolon : colon.lexeme = .punctuator .colon) (hbody : body.Returns statement T others U) :
    (Statement.label position name body).Returns statement T (word :: colon :: others) U := by
  rintro v after hv rfl hafter
  obtain ⟨body', halikes, hread⟩ := hbody v after hv rfl hafter
  refine ⟨.label word.position name body', congrArg (Statement.label .erased name) halikes, ?_⟩
  refine Takes.peek.bind ?_
  rw [View.kind_next, show v.kind word = _ from hword]
  refine Takes.peekNth_one.bind ?_
  rw [View.kind_next, if_pos (View.kind_of_mark hcolon)]
  refine (Takes.advance hv).bind ?_
  rw [View.kind_next, show v.kind word = _ from hword]
  exact (Takes.expect hv (View.kind_of_mark hcolon)).bind
    ((Takes.rule (f := .statement) hread).bind Takes.pure)

theorem returns_goto {target : Piece} {name : String} (hfree : T.KeywordFree)
    (hword : word.lexeme = .keyword .goto) (htarget : target.lexeme = .word name)
    (hname : Unreserved name) (hsemicolon : semicolon.lexeme = .punctuator .semicolon) :
    (Statement.goto position name).Returns statement T [word, target, semicolon] T := by
  have hkind : T.classify target.lexeme = .identifier name ∨
      T.classify target.lexeme = .typeName name := by
    rw [htarget]
    exact T.classify_unreserved hname
  refine returns_jump hfree hword rfl ((Reads.expectWord hkind).map fun name' hsame => ?_)
    hsemicolon
  rw [hsame]
  rfl

theorem returns_return {value? : Option Expr} (hfree : T.KeywordFree)
    (hword : word.lexeme = .keyword .return)
    (hvalue : Expr.WrittenOption .semicolon T value? pieces U)
    (hsemicolon : semicolon.lexeme = .punctuator .semicolon) :
    (Statement.return position value?).Returns statement T (word :: (pieces ++ [semicolon])) U :=
  returns_jump hfree hword rfl
    ((reads_expressionUnless hvalue rfl).map fun _ halike =>
      congrArg (Statement.return .erased) halike)
    hsemicolon

theorem returns_empty (hsemicolon : semicolon.lexeme = .punctuator .semicolon) :
    (Statement.empty position).Returns statement T [semicolon] T := by
  refine Reads.peek ?_
  rw [SymbolTable.classify_of_mark hsemicolon]
  exact Reads.advance.cons fun _ _ => Reads.pure rfl

end

/-! ## Items -/

section

variable {T U V : SymbolTable} {item : Statement} {items : List Statement}
  {pieces others after : List Piece}

theorem Statement.Returns.first (h : item.Returns statement T pieces U) :
    ∃ first rest, pieces = first :: rest ∧ (T.classify first.lexeme).opensStatement = true := by
  -- A brace behind the statement would do, and it begins no statement itself.
  have hbrace : item.StopsAt U [Lexeme.piece (.punctuator .closeBrace)] :=
    fun _ => ⟨_, _, rfl, by rw [SymbolTable.classify_of_mark rfl]; nofun⟩
  obtain ⟨item', -, htakes⟩ := h (.empty T) _ rfl rfl hbrace
  obtain ⟨token, htoken, hopens⟩ := token?_of_statement htakes
  cases pieces with
  | nil =>
      obtain rfl := Option.some_inj.1 htoken
      cases hopens
  | cons first rest =>
      obtain rfl := Option.some_inj.1 htoken
      exact ⟨first, rest, rfl, hopens⟩

/-- No `else` comes next where items do. -/
theorem Statement.ListReturns.faces (h : Statement.ListReturns items T pieces U)
    (hafter : Piece.EndsWith [.closeBrace] after) :
    T.Faces (· ≠ .keyword .else) (pieces ++ after) := by
  obtain ⟨items', -, htakes⟩ := h (.empty T) after rfl rfl hafter
  obtain ⟨token, htoken, hnot⟩ := token?_of_blockItems htakes
  obtain ⟨first, rest, hfirst⟩ := hafter.exists_first pieces
  rw [hfirst] at htoken
  obtain rfl := Option.some_inj.1 htoken
  exact ⟨first, rest, hfirst, hnot⟩

/-- An item of a block comes back, be it a declaration or a statement. -/
def Statement.ItemReturns (item : Statement) (T : SymbolTable) (pieces : List Piece)
    (U : SymbolTable) : Prop :=
  ∃ first rest, pieces = first :: rest ∧ (T.classify first.lexeme).OpensItem ∧
    item.Returns (blockItem ⟨T.classify first.lexeme, first.position⟩) T pieces U

theorem Statement.Returns.itemReturns (h : item.Returns statement T pieces U) :
    item.ItemReturns T pieces U := by
  obtain ⟨first, rest, rfl, hopens⟩ := h.first
  refine ⟨first, rest, rfl, TokenKind.opensItem_of_opensStatement hopens, ?_⟩
  unfold blockItem
  rw [if_neg (by simp [TokenKind.startsDeclaration_of_opensStatement hopens])]
  exact h

theorem DeclarationGroup.Written.itemReturns {position : Position} {group : DeclarationGroup}
    (h : group.Written T pieces U) (hfree : T.KeywordFree) :
    (Statement.declaration position group).ItemReturns T pieces U := by
  obtain ⟨first, rest, word, rfl, hword, hstarts⟩ := h.first
  have hkind : (T.classify first.lexeme).startsDeclaration = true := by
    rw [SymbolTable.classify_of_word hfree hword]
    exact hstarts
  refine ⟨first, rest, rfl, TokenKind.opensItem_of_startsDeclaration hkind, ?_⟩
  unfold blockItem
  rw [if_pos hkind]
  exact (h.reads hfree).map fun group' halike => congrArg (Statement.declaration .erased) halike

theorem listReturns_nil : Statement.ListReturns [] T [] T := by
  rintro v after hv rfl ⟨first, rest, rfl, mark, hmark, hlexeme⟩
  obtain rfl := List.mem_singleton.1 hmark
  refine ⟨[], rfl, Takes.peek.bind ?_⟩
  rw [View.kind_next, View.kind_of_mark hlexeme]
  exact Takes.pure

theorem Statement.ListReturns.cons (hitem : item.ItemReturns T pieces U)
    (h : Statement.ListReturns items U others V) :
    Statement.ListReturns (item :: items) T (pieces ++ others) V := by
  obtain ⟨first, rest, rfl, hopens, hitem⟩ := hitem
  refine Reads.peek ?_
  split
  · exact absurd ‹_› hopens.notBrace
  · exact absurd ‹_› hopens.notEnd
  · refine hitem.bind (fun item' halike => ?_) fun after hafter _ => h.faces hafter
    refine (Reads.rule (f := .blockItems) h).map fun items' halikes => ?_
    exact congrArg₂ List.cons halike halikes

end

/-! ## Everything that is written -/

theorem Statement.ShapedList.of_cons {item : Statement} {items : List Statement}
    (h : ShapedList (item :: items)) :
    (item.isDeclaration = true ∨ item.Shaped) ∧ ShapedList items := by
  have hplaced : (item.isDeclaration = true ∨ item.placed = true) ∧ placedList items = true := by
    simpa [placedList] using h.placed
  have hnearest : item.nearest = true ∧ nearestList items = true := by
    simpa [nearestList] using h.nearest
  exact ⟨hplaced.1.imp_right fun hitem => ⟨hitem, hnearest.1⟩, hplaced.2, hnearest.2⟩

theorem Statement.Shaped.of_ifElse {position : Position} {condition : Expr}
    {whenTrue whenFalse : Statement} (h : Shaped (.if position condition whenTrue (some whenFalse))) :
    whenTrue.Shaped ∧ whenTrue.openEnded = false ∧ whenFalse.Shaped := by
  have hplaced : whenTrue.placed = true ∧ whenFalse.placed = true := by
    simpa [Statement.placed, placedOption] using h.placed
  have hnearest : whenTrue.nearest = true ∧ whenTrue.openEnded = false ∧ whenFalse.nearest = true := by
    simpa [Statement.nearest, nearestElse] using h.nearest
  exact ⟨⟨hplaced.1, hnearest.1⟩, hnearest.2.1, hplaced.2, hnearest.2.2⟩

theorem Passage.Written.readsBack {T U : SymbolTable} {passage : Passage} {pieces : List Piece}
    (h : Passage.Written T passage pieces U) (hT : T.Ready) : passage.ReadsBack T pieces U := by
  have hfree := hT.keywordFree
  induction h with
  | block hopening hitems hclosing ih =>
      intro hshaped
      have hinside := hT.enter
      rw [List.cons_append]
      exact returns_block hopening
        (ih hinside hinside.keywordFree ⟨hshaped.placed, hshaped.nearest⟩) hclosing
        (hitems.follows hinside).frame.leave_block
  | declaration _ =>
      intro hshaped
      exact absurd hshaped.placed nofun
  | expression hvalue hsemicolon => exact fun _ => returns_expression hfree hvalue hsemicolon
  | ifOnly hword hopening htest hclosing _ ih =>
      intro hshaped
      have hbody : Statement.Shaped _ :=
        ⟨by simpa [Statement.placed, Statement.placedOption] using hshaped.placed,
          by simpa [Statement.nearest, Statement.nearestElse] using hshaped.nearest⟩
      have hready := (htest.follows hT).ready hT
      exact returns_ifOnly hfree hword hopening htest hclosing (ih hready hready.keywordFree hbody)
  | ifElse hword hopening htest hclosing hbody hother _ ih ih' =>
      intro hshaped
      obtain ⟨htrue, hopen, hfalse⟩ := hshaped.of_ifElse
      have hready := (htest.follows hT).ready hT
      have hready' := (hbody.follows hready).ready hready
      simp only [List.cons_append, List.append_assoc]
      exact returns_ifElse hfree hword hopening htest hclosing (ih hready hready.keywordFree htrue)
        hopen hready'.keywordFree hother (ih' hready' hready'.keywordFree hfalse)
  | «while» hword hopening htest hclosing _ ih =>
      intro hshaped
      have hready := (htest.follows hT).ready hT
      exact returns_while hfree hword hopening htest hclosing
        (ih hready hready.keywordFree ⟨hshaped.placed, hshaped.nearest⟩)
  | doWhile hword hbody hagain hopening htest hclosing hsemicolon ih =>
      intro hshaped
      simp only [List.cons_append, List.append_assoc]
      exact returns_doWhile hfree hword (ih hT hfree ⟨hshaped.placed, hshaped.nearest⟩)
        (hbody.follows hT).keywordFree hagain hopening htest hclosing hsemicolon
  | «for» hword hopening hstart htest hsemicolon hstep hclosing hbody ih =>
      intro hshaped
      -- The loop's own scope is open all through it.
      have hstarted := hstart.follows hT.enter
      have htested := hstarted.trans (htest.follows (hstarted.ready hT.enter))
      have hinside := htested.trans (hstep.follows (htested.ready hT.enter))
      have hready := hinside.ready hT.enter
      simp only [List.cons_append, List.append_assoc]
      exact returns_for hfree hword hopening hstart htest hsemicolon hstep hclosing
        (ih hready hready.keywordFree ⟨hshaped.placed, hshaped.nearest⟩)
        (hinside.trans (hbody.follows hready)).frame.leave_block
  | switch hword hopening htest hclosing _ ih =>
      intro hshaped
      have hready := (htest.follows hT).ready hT
      exact returns_switch hfree hword hopening htest hclosing
        (ih hready hready.keywordFree ⟨hshaped.placed, hshaped.nearest⟩)
  | case hword hvalue hcolon _ ih =>
      intro hshaped
      have hready := (hvalue.follows (orderly_expression .conditional)
        (keeps_expression .conditional) hT).ready hT
      exact returns_case hfree hword hvalue hcolon
        (ih hready hready.keywordFree ⟨hshaped.placed, hshaped.nearest⟩)
  | default hword hcolon _ ih =>
      intro hshaped
      exact returns_default hfree hword hcolon (ih hT hfree ⟨hshaped.placed, hshaped.nearest⟩)
  | label hword hname hcolon _ ih =>
      intro hshaped
      exact returns_label (hword ▸ hname) hcolon (ih hT hfree ⟨hshaped.placed, hshaped.nearest⟩)
  | goto hword htarget hname hsemicolon =>
      exact fun _ => returns_goto hfree hword htarget hname hsemicolon
  | «break» hword hsemicolon =>
      exact fun _ => returns_jump hfree hword rfl (Reads.pure rfl) hsemicolon
  | «continue» hword hsemicolon =>
      exact fun _ => returns_jump hfree hword rfl (Reads.pure rfl) hsemicolon
  | «return» hword hvalue hsemicolon => exact fun _ => returns_return hfree hword hvalue hsemicolon
  | empty hsemicolon => exact fun _ => returns_empty hsemicolon
  | nil => exact fun _ => listReturns_nil
  | cons hitem _ ih ih' =>
      intro hshaped
      obtain ⟨hfirst, hitems⟩ := hshaped.of_cons
      have hready := (hitem.follows hT).ready hT
      refine Statement.ListReturns.cons ?_ (ih' hready hready.keywordFree hitems)
      rcases hfirst with hdeclaration | hstatement
      · cases hitem with
        | declaration hgroup => exact hgroup.itemReturns hfree
        | _ => cases hdeclaration
      · exact (ih hT hfree hstatement).itemReturns

end CSyntax
