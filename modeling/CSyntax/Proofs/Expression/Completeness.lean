import CSyntax.Proofs.Expression.Grammar

/-!
# Completeness — what the grammar derives is read

Operators are read in a loop, and which of them the loop takes depends on how tightly they bind.  So
a derivation says more than that its expression is read: an expression of a stratum is read by the
rule of any looser one, which then goes on behind it (`Grade.Read`).  What follows an expression must
not belong to it (`Stops`); a closing mark never does.
-/

namespace CSyntax

open Script

/-! ## What may follow -/

namespace TokenKind

def isString : TokenKind → Bool
  | .string _ => true
  | _ => false

/-- Whether the token goes on an expression that could end, with a suffix or more of a literal. -/
def startsSuffix : TokenKind → Bool
  | .string _ => true
  | .punctuator .openBracket | .punctuator .openParen | .punctuator .point | .punctuator .arrow
  | .punctuator .increment | .punctuator .decrement => true
  | _ => false

/-- The marks that close what surrounds an expression. -/
def closes : TokenKind → Bool
  | .punctuator .semicolon | .punctuator .closeParen | .punctuator .closeBracket
  | .punctuator .closeBrace | .punctuator .colon => true
  | _ => false

end TokenKind

namespace Grammar

theorem infixOperator?_eq_some {limit : Precedence} {kind : TokenKind} {operator : InfixOperator} :
    infixOperator? limit kind = some operator ↔
      ∃ mark, kind = .punctuator mark ∧ mark.infixOperator? = some operator ∧
        operator.precedence.rank ≤ limit.rank := by
  cases kind with
  | punctuator mark => simp [infixOperator?, Option.filter_eq_some_iff]
  | _ => simp [infixOperator?]

theorem infixOperator?_eq_none_of_le {p q : Precedence} {kind : TokenKind}
    (hle : p.rank ≤ q.rank) (h : infixOperator? q kind = none) : infixOperator? p kind = none := by
  refine Option.eq_none_iff_forall_ne_some.2 fun operator hp => ?_
  obtain ⟨mark, hkind, hmark, hrank⟩ := infixOperator?_eq_some.1 hp
  have hq : infixOperator? q kind = some operator :=
    infixOperator?_eq_some.2 ⟨mark, hkind, hmark, Nat.le_trans hrank hle⟩
  simp [h] at hq

/-- No operator binds as tightly as the operators before an operand. -/
theorem infixOperator?_unary (kind : TokenKind) : infixOperator? .unary kind = none := by
  refine Option.eq_none_iff_forall_ne_some.2 fun operator h => ?_
  obtain ⟨mark, -, -, hrank⟩ := infixOperator?_eq_some.1 h
  have hpos : 0 < operator.precedence.rank := by
    rcases operator with operator | _ | _
    · cases operator <;> decide
    · exact Nat.succ_pos 11
    · exact Nat.succ_pos 10
  exact absurd hrank (Nat.not_le.2 hpos)

theorem infixOperator?_of_closes {p : Precedence} {kind : TokenKind} (h : kind.closes = true) :
    infixOperator? p kind = none := by
  unfold TokenKind.closes at h
  split at h <;> first | rfl | cases h

end Grammar

open Grammar

/-- Whether a token does not belong to an expression of the stratum that stands before it. -/
structure Stops (p : Precedence) (kind : TokenKind) : Prop where
  suffix : kind.startsSuffix = false
  operator : infixOperator? p.right kind = none

namespace Stops

variable {p : Precedence} {kind : TokenKind}

theorem of_closes (h : kind.closes = true) : Stops p kind where
  suffix := by
    unfold TokenKind.closes at h
    split at h <;> first | rfl | cases h
  operator := infixOperator?_of_closes h

theorem of_unary (h : kind.startsSuffix = false) : Stops .unary kind where
  suffix := h
  operator := infixOperator?_unary kind

theorem of_tighter (h : Stops p kind) : Stops p.tighter kind where
  suffix := h.suffix
  operator := by
    refine infixOperator?_eq_none_of_le ?_ h.operator
    cases p <;> decide

theorem of_mark {mark : Punctuator} {operator : InfixOperator}
    (hmark : mark.infixOperator? = some operator)
    (hrank : p.right.rank < operator.precedence.rank) : Stops p (.punctuator mark) where
  suffix := by cases mark <;> first | rfl | cases hmark
  operator := by
    refine Option.eq_none_iff_forall_ne_some.2 fun other h => ?_
    obtain ⟨mark', hkind, hmark', hrank'⟩ := infixOperator?_eq_some.1 h
    cases hkind
    rw [hmark, Option.some_inj] at hmark'
    subst hmark'
    omega

end Stops

/-- Whether the lexemes begin with one of a kind with the property. -/
def View.Begins (v : View) (P : TokenKind → Prop) (pieces : List Piece) : Prop :=
  ∃ piece others, pieces = piece :: others ∧ P (v.kind piece)

theorem View.Begins.mono {v : View} {P Q : TokenKind → Prop} {pieces : List Piece}
    (h : v.Begins P pieces) (hPQ : ∀ kind, P kind → Q kind) : v.Begins Q pieces := by
  obtain ⟨piece, others, rfl, hpiece⟩ := h
  exact ⟨piece, others, rfl, hPQ _ hpiece⟩

@[simp] theorem View.begins_cons {v : View} {P : TokenKind → Prop} {piece : Piece}
    {others : List Piece} : v.Begins P (piece :: others) ↔ P (v.kind piece) := by
  constructor
  · rintro ⟨_, _, heq, h⟩
    cases heq
    exact h
  · exact fun h => ⟨piece, others, rfl, h⟩

/-! ## Type names -/

/-- A token of a view is classified by the view's table. -/
theorem View.current_of_token? {v : View} {n : Nat} {token : Token}
    (h : v.token? n = some token) : token.kind.Current v.table := by
  rcases View.token?_eq_some h with ⟨piece, -, rfl⟩ | hkind
  · cases hkind : v.table.classify piece.lexeme with
    | identifier name =>
        simpa [View.kind, hkind, TokenKind.Current] using
          (SymbolTable.classify_eq_identifier.1 hkind).2.1
    | typeName name =>
        simpa [View.kind, hkind, TokenKind.Current] using
          (SymbolTable.classify_eq_typeName.1 hkind).2
    | _ => simp [View.kind, hkind, TokenKind.Current]
  · simp [hkind, TokenKind.Current]

/-- What a rule takes off a view keeps its promise about the table. -/
theorem promise_of_takes (typedefs : String → Prop) {f : Nonterminal} {v w : View}
    {result : f.Result} (h : (Grammar.script f).Takes v result w) :
    ∃ read, f.Promise typedefs v.table result w.table read := by
  obtain ⟨-, R, hpost⟩ := Contract.sound_takes View.table (fun _ => True)
    (valid_scoping : (scoping typedefs).Valid) (by
      intro r v answer w _ _ hperform
      refine ⟨trivial, ?_⟩
      cases r with
      | peek n =>
          obtain ⟨token, htoken, heq⟩ := Option.map_eq_some_iff.1 hperform
          cases heq
          exact ⟨rfl, View.current_of_token? htoken⟩
      | advance =>
          obtain ⟨token, htoken, heq⟩ := Option.map_eq_some_iff.1 hperform
          cases heq
          exact ⟨rfl, View.current_of_token? htoken⟩
      | leave position =>
          obtain ⟨outer, houter, heq⟩ := Option.map_eq_some_iff.1 hperform
          cases heq
          exact houter
      | _ => cases hperform; rfl) trivial trivial h
  exact ⟨_, hpost⟩

/-- A rule that leaves the table leaves all of the view but what it reads. -/
theorem eq_facing_of_takes {f : Nonterminal} {v w : View} {result : f.Result}
    (hv : v.taken = none) (hfree : v.table.KeywordFree)
    (h : (Grammar.script f).Takes v result w) (htable : w.table = v.table) :
    w = v.facing w.ahead := by
  have htaken := (h.disciplined hv hfree).1
  have hending := h.ending_eq
  cases w
  cases v
  simp_all [View.facing]

theorem View.Names.takes {opens : TokenKind → Bool} {v : View} {before after : List Piece}
    {type : CType} (h : v.Names opens before type after) (hv : v.taken = none)
    (hfree : v.table.KeywordFree) :
    Grammar.typeName.Takes (v.facing before) type (v.facing after) := by
  obtain ⟨-, henum, w, htakes, rfl⟩ := h
  have htakes' : (Grammar.script .typeName).Takes (v.facing before) type w := htakes
  obtain ⟨read, hpromise⟩ := promise_of_takes (fun _ => True) htakes'
  have hw : w = (v.facing before).facing w.ahead :=
    eq_facing_of_takes hv hfree htakes' (hpromise.frame henum)
  have : w = v.facing w.ahead := hw
  exact this ▸ htakes

/-! ## Where expressions begin -/

namespace TokenKind

/-- Whether an expression without operators before it may begin with the token. -/
def opensPrimary : TokenKind → Bool
  | .identifier _ | .integer _ | .floating _ | .character _ | .string _ => true
  | .punctuator mark => mark = .openParen
  | _ => false

/-- Whether an expression may begin with the token. -/
def opensExpression : TokenKind → Bool
  | .keyword .sizeof => true
  | .punctuator mark => mark = .openParen || mark.unaryOperator?.isSome
  | kind => kind.opensPrimary

theorem opensExpression_of_opensPrimary {kind : TokenKind} (h : kind.opensPrimary = true) :
    kind.opensExpression = true := by
  unfold opensPrimary at h
  split at h
  case h_6 mark =>
    obtain rfl : mark = .openParen := of_decide_eq_true h
    rfl
  case h_7 => cases h
  all_goals rfl

theorem ne_closeParen_of_opensExpression {kind : TokenKind} (h : kind.opensExpression = true) :
    kind ≠ .punctuator .closeParen := by
  rintro rfl
  cases h

theorem startsTypeName_of_opensExpression {kind : TokenKind} (h : kind.opensExpression = true) :
    kind.startsTypeName = false := by
  unfold opensExpression at h
  split at h
  · rfl
  · rfl
  · unfold opensPrimary at h
    split at h <;> first | rfl | cases h

end TokenKind

/-- Whether an opening parenthesis, if the lexemes begin with one, stands before a kind with the
property. -/
def View.Encloses (v : View) (P : TokenKind → Prop) (pieces : List Piece) : Prop :=
  ∀ piece others, pieces = piece :: others → v.kind piece = .punctuator .openParen →
    v.Begins P others

namespace View.Encloses

variable {v : View} {P Q : TokenKind → Prop} {piece : Piece} {pieces others : List Piece}

theorem mono (h : v.Encloses P pieces) (hPQ : ∀ kind, P kind → Q kind) : v.Encloses Q pieces :=
  fun piece others heq hkind => (h piece others heq hkind).mono hPQ

theorem of_kind (h : v.kind piece ≠ .punctuator .openParen) : v.Encloses P (piece :: others) := by
  intro _ _ heq hkind
  cases heq
  exact absurd hkind h

theorem of_begins (h : v.Begins P others) : v.Encloses P (piece :: others) := by
  intro _ _ heq _
  cases heq
  exact h

end View.Encloses

/-- What a derivation of the grade begins with.  Behind a parenthesis there is an expression, or a
type name if the grade has casts. -/
def Grade.Opens (names : TokenKind → Bool) (v : View) : Grade → List Piece → Prop
  | .strings, _ => True
  | .primary, before | .postfixed, before =>
      v.Begins (fun kind => kind.opensPrimary = true) before ∧
        v.Encloses (fun kind => kind.opensExpression = true) before
  | .operand, before =>
      v.Begins (fun kind => kind.opensExpression = true) before ∧
        v.Encloses (fun kind => kind.opensExpression = true) before
  | .arguments, before | .level _, before =>
      v.Begins (fun kind => kind.opensExpression = true) before ∧
        v.Encloses (fun kind => kind.opensExpression = true ∨ names kind = true) before

theorem Derives.opens {names : TokenKind → Bool} {v : View} {g : Grade} {before after : List Piece}
    {result : g.Result} (h : Derives names v g before result after) : g.Opens names v before := by
  -- Along the left edge of the derivation.
  induction h with
  | identifier hkind | integer hkind | floating hkind | character hkind | string hkind =>
      exact ⟨View.begins_cons.2 (by simp [hkind, TokenKind.opensPrimary]),
        .of_kind (by simp [hkind])⟩
  | parentheses hkind _ _ ih =>
      exact ⟨View.begins_cons.2 (by simp [hkind, TokenKind.opensPrimary]), .of_begins ih.1⟩
  | noString | moreStrings => trivial
  | primary _ ih => exact ih
  | index _ _ _ _ ih => exact ih
  | callEmpty _ _ _ ih => exact ih
  | call _ _ _ _ ih => exact ih
  | member _ _ _ ih => exact ih
  | suffix _ _ _ ih => exact ih
  | oneArgument _ ih => exact ih
  | moreArguments _ _ _ ih => exact ih
  | postfixed _ ih =>
      exact ⟨ih.1.mono fun _ => TokenKind.opensExpression_of_opensPrimary, ih.2⟩
  | unary hkind hmark =>
      have hmark := mem_unaryMarks.1 hmark
      refine ⟨View.begins_cons.2 ?_, .of_kind fun hparen => ?_⟩
      · simp [hkind, TokenKind.opensExpression, hmark]
      · rw [hkind, TokenKind.punctuator.injEq] at hparen
        subst hparen
        cases hmark
  | sizeofExpr hkind | sizeofType hkind =>
      exact ⟨View.begins_cons.2 (by rw [hkind]; rfl), .of_kind (by simp [hkind])⟩
  | operand _ ih => exact ⟨ih.1, ih.2.mono fun _ => Or.inl⟩
  | cast hkind htype =>
      obtain ⟨⟨first, others, rfl, hfirst⟩, -⟩ := htype
      refine ⟨View.begins_cons.2 ?_, .of_begins (View.begins_cons.2 (Or.inr hfirst))⟩
      rw [hkind]
      rfl
  | tighter _ ih => exact ih
  | binary _ _ _ _ ih => exact ih
  | conditional _ _ _ _ _ ih => exact ih
  | assign _ _ _ _ ih => exact ih

/-! ## Reading a derivation -/

/-- What a derivation of the grade says of the rules.  Of suffixes and infix operators it says that
reading goes on behind the expression where it would have begun before it. -/
def Grade.Read (v : View) : (g : Grade) → List Piece → g.Result → List Piece → Prop
  | .primary, before, value, after =>
      v.Begins (fun kind => kind.isString = false) after →
        Grammar.primary.Takes (v.facing before) value (v.facing after)
  | .strings, before, text, after =>
      v.Begins (fun kind => kind.isString = false) after →
        adjacentStrings.Takes (v.facing before) text (v.facing after)
  | .postfixed, before, value, after =>
      v.Begins (fun kind => kind.isString = false) after → ∀ result w,
        (postfixTail value).Takes (v.facing after) result w →
          Grammar.postfixed.Takes (v.facing before) result w
  | .arguments, before, values, after =>
      v.Begins (fun kind => kind = .punctuator .closeParen) after →
        Grammar.arguments.Takes (v.facing before) values (v.facing after)
  | .operand, before, value, after =>
      v.Begins (fun kind => kind.startsSuffix = false) after →
        Grammar.unary.Takes (v.facing before) value (v.facing after)
  | .level p, before, value, after =>
      v.Begins (Stops p) after → ∀ limit result w, p.rank ≤ limit.rank →
        (infixTail limit value).Takes (v.facing after) result w →
          (expression limit).Takes (v.facing before) result w

theorem TokenKind.isString_of_startsSuffix {kind : TokenKind} (h : kind.startsSuffix = false) :
    kind.isString = false := by
  cases kind <;> first | rfl | cases h

section

variable {v : View} {piece : Piece} {before mid after others : List Piece} {value : Expr}
  {p : Precedence}

theorem takes_infixTail_done (h : infixOperator? p (v.kind piece) = none) :
    (infixTail p value).Takes (v.facing (piece :: others)) value (v.facing (piece :: others)) := by
  rw [infixTail_eq]
  refine Takes.peek.bind ?_
  rw [View.kind_next, h]
  exact Takes.pure

theorem takes_infixTail {operator : InfixOperator} {result more : Expr} {w u : View}
    (hv : v.taken = none) (hoperator : infixOperator? p (v.kind piece) = some operator)
    (hvalue : (operation operator value).Takes (v.facing others) more w)
    (hmore : (infixTail p more).Takes w result u) :
    (infixTail p value).Takes (v.facing (piece :: others)) result u := by
  rw [infixTail_eq]
  refine Takes.peek.bind ?_
  rw [View.kind_next, hoperator]
  exact (Takes.advance hv).bind (hvalue.bind (Takes.rule hmore))

theorem takes_postfixTail_done (h : (v.kind piece).startsSuffix = false) :
    (postfixTail value).Takes (v.facing (piece :: others)) value (v.facing (piece :: others)) := by
  refine Takes.peek.bind ?_
  rw [View.kind_next]
  unfold TokenKind.startsSuffix at h
  split at h <;> try cases h
  split <;> first | exact Takes.pure | simp_all

/-- An expression of a stratum is read as a whole where neither its operators nor those of the rule
go on. -/
theorem Grade.Read.whole (h : Grade.Read v (.level p) before value (piece :: others))
    (hstops : Stops p (v.kind piece)) (hoperator : infixOperator? p (v.kind piece) = none) :
    (expression p).Takes (v.facing before) value (v.facing (piece :: others)) :=
  h ⟨piece, others, rfl, hstops⟩ p value _ (Nat.le_refl _) (takes_infixTail_done hoperator)

theorem Grade.Read.closed (h : Grade.Read v (.level p) before value (piece :: others))
    (hcloses : (v.kind piece).closes = true) :
    (expression p).Takes (v.facing before) value (v.facing (piece :: others)) :=
  h.whole (Stops.of_closes hcloses) (infixOperator?_of_closes hcloses)

/-- A parenthesis with something else than a type name behind it is put back. -/
theorem takes_parenthesizedType?_of_not (hv : v.taken = none)
    (h : v.kind piece = .punctuator .openParen →
      v.Begins (fun kind => kind.startsTypeName = false) others) :
    parenthesizedType?.Takes (v.facing (piece :: others)) none (v.facing (piece :: others)) := by
  refine Takes.nextIs.bind ?_
  by_cases hkind : v.kind piece = .punctuator .openParen
  · obtain ⟨second, more, rfl, htype⟩ := h hkind
    rw [if_pos (by simpa using hkind)]
    -- The parenthesis is taken behind a mark, and put back.
    refine Takes.bind (w := { v.facing (piece :: second :: more) with taken := some [] })
      (Takes.request rfl Takes.pure) ?_
    refine Takes.bind (a := v.next piece)
      (w := { v.facing (second :: more) with taken := some [piece] }) (Takes.request rfl Takes.pure) ?_
    refine Takes.bind (a := v.next second) (Takes.request rfl Takes.pure) ?_
    rw [View.kind_next, htype, if_neg Bool.false_ne_true]
    refine Takes.bind (a := ()) (w := v.facing (piece :: second :: more))
      (Takes.request ?_ Takes.pure) Takes.pure
    simp [View.perform, View.facing, hv]
  · rw [if_neg (by simpa using hkind)]
    exact Takes.pure

theorem takes_parenthesizedType?_none (hv : v.taken = none)
    (h : v.Encloses (fun kind => kind.opensExpression = true) (piece :: others)) :
    parenthesizedType?.Takes (v.facing (piece :: others)) none (v.facing (piece :: others)) :=
  takes_parenthesizedType?_of_not hv fun hkind =>
    (h piece others rfl hkind).mono fun _ => TokenKind.startsTypeName_of_opensExpression

theorem takes_parenthesizedType?_some {type : CType} {opening closing : Piece}
    (hopening : v.kind opening = .punctuator .openParen)
    (h : v.Names TokenKind.startsTypeName mid type (closing :: after))
    (hclosing : v.kind closing = .punctuator .closeParen) (hv : v.taken = none)
    (hfree : v.table.KeywordFree) :
    parenthesizedType?.Takes (v.facing (opening :: mid)) (some type) (v.facing after) := by
  have htype := h.takes hv hfree
  obtain ⟨⟨first, others, rfl, hfirst⟩, -⟩ := h
  refine Takes.nextIs.bind ?_
  rw [if_pos (by simpa using hopening)]
  refine Takes.bind (w := { v.facing (opening :: first :: others) with taken := some [] })
    (Takes.request rfl Takes.pure) ?_
  refine Takes.bind (a := v.next opening)
    (w := { v.facing (first :: others) with taken := some [opening] })
    (Takes.request rfl Takes.pure) ?_
  refine Takes.bind (a := v.next first) (Takes.request rfl Takes.pure) ?_
  rw [View.kind_next, hfirst, if_pos rfl]
  refine Takes.bind (a := ()) (w := v.facing (first :: others)) (Takes.request ?_ Takes.pure) ?_
  · simp [View.perform, View.facing, hv]
  · exact (Takes.rule (f := .typeName) htype).bind ((Takes.expect hv hclosing).bind Takes.pure)

end

/-! ### Primary expressions and suffixes -/

section

variable {v : View} {piece opening closing : Piece} {before mid after others : List Piece}
  {value result : Expr} {w : View}

theorem takes_adjacentStrings_done (h : (v.kind piece).isString = false) :
    adjacentStrings.Takes (v.facing (piece :: others)) "" (v.facing (piece :: others)) := by
  refine Takes.peek.bind ?_
  rw [View.kind_next]
  split
  · rename_i heq
    rw [heq] at h
    cases h
  · exact Takes.pure

theorem takes_adjacentStrings {text more : String} (hv : v.taken = none)
    (hkind : v.kind piece = .string text) (hmore : adjacentStrings.Takes (v.facing mid) more w) :
    adjacentStrings.Takes (v.facing (piece :: mid)) (text ++ more) w := by
  refine Takes.peek.bind ?_
  rw [View.kind_next, hkind]
  exact (Takes.advance hv).bind ((Takes.rule (f := .adjacentStrings) hmore).bind Takes.pure)

theorem takes_primary_string {text more : String} (hv : v.taken = none)
    (hkind : v.kind piece = .string text) (hmore : adjacentStrings.Takes (v.facing mid) more w) :
    Grammar.primary.Takes (v.facing (piece :: mid)) (.string piece.position (text ++ more)) w := by
  refine Takes.peek.bind ?_
  rw [View.kind_next, hkind]
  exact (Takes.advance hv).bind ((Takes.rule (f := .adjacentStrings) hmore).bind Takes.pure)

theorem takes_primary_parentheses (hv : v.taken = none)
    (hopening : v.kind opening = .punctuator .openParen)
    (hvalue : (expression .comma).Takes (v.facing mid) value (v.facing (closing :: after)))
    (hclosing : v.kind closing = .punctuator .closeParen) :
    Grammar.primary.Takes (v.facing (opening :: mid)) value (v.facing after) := by
  refine Takes.peek.bind ?_
  rw [View.kind_next, hopening]
  exact (Takes.advance hv).bind ((Takes.rule (f := .expression .comma) hvalue).bind
    ((Takes.expect hv hclosing).bind Takes.pure))

theorem takes_callArguments {values : List Expr} (hv : v.taken = none)
    (hfirst : v.Begins (fun kind => kind ≠ .punctuator .closeParen) mid)
    (hvalues : Grammar.arguments.Takes (v.facing mid) values (v.facing (closing :: after)))
    (hclosing : v.kind closing = .punctuator .closeParen) :
    callArguments.Takes (v.facing mid) values (v.facing after) := by
  obtain ⟨first, others, rfl, hfirst⟩ := hfirst
  refine (Takes.accept_not hfirst).bind ((Takes.rule (f := .arguments) hvalues).bind
    (Takes.peek.bind ?_))
  rw [View.kind_next, if_pos hclosing]
  exact (Takes.advance hv).bind Takes.pure

theorem takes_postfixTail_index {subscript : Expr} (hv : v.taken = none)
    (hopening : v.kind opening = .punctuator .openBracket)
    (hsubscript : (expression .comma).Takes (v.facing mid) subscript (v.facing (closing :: after)))
    (hclosing : v.kind closing = .punctuator .closeBracket)
    (hmore : (postfixTail (.index value.position value subscript)).Takes (v.facing after) result w) :
    (postfixTail value).Takes (v.facing (opening :: mid)) result w := by
  refine Takes.peek.bind ?_
  rw [View.kind_next, hopening]
  exact (Takes.advance hv).bind ((Takes.rule (f := .expression .comma) hsubscript).bind
    ((Takes.expect hv hclosing).bind (Takes.rule (f := .postfixTail _) hmore)))

theorem takes_postfixTail_call {values : List Expr} (hv : v.taken = none)
    (hopening : v.kind opening = .punctuator .openParen)
    (hvalues : callArguments.Takes (v.facing mid) values (v.facing after))
    (hmore : (postfixTail (.call value.position value values)).Takes (v.facing after) result w) :
    (postfixTail value).Takes (v.facing (opening :: mid)) result w := by
  refine Takes.peek.bind ?_
  rw [View.kind_next, hopening]
  exact (Takes.advance hv).bind (hvalues.bind (Takes.rule (f := .postfixTail _) hmore))

theorem takes_postfixTail_member {word : Piece} {name : String} {arrow : Bool} (hv : v.taken = none)
    (hmark : v.kind piece = .punctuator (if arrow then .arrow else .point))
    (hword : v.kind word = .identifier name ∨ v.kind word = .typeName name)
    (hmore : (postfixTail (.member value.position value name arrow)).Takes (v.facing after) result
      w) :
    (postfixTail value).Takes (v.facing (piece :: word :: after)) result w := by
  refine Takes.peek.bind ?_
  rw [View.kind_next, hmark]
  cases arrow <;>
    exact (Takes.advance hv).bind ((Takes.expectWord hv hword).bind
      (Takes.rule (f := .postfixTail _) hmore))

theorem takes_postfixTail_suffix {mark : Punctuator} {operator : UnaryOperator} (hv : v.taken = none)
    (hkind : v.kind piece = .punctuator mark) (hmark : (mark, operator) ∈ suffixMarks)
    (hmore : (postfixTail (.unary value.position operator value)).Takes (v.facing after) result w) :
    (postfixTail value).Takes (v.facing (piece :: after)) result w := by
  refine Takes.peek.bind ?_
  rw [View.kind_next, hkind]
  simp only [suffixMarks, List.mem_cons, Prod.mk.injEq, List.not_mem_nil, or_false] at hmark
  rcases hmark with ⟨rfl, rfl⟩ | ⟨rfl, rfl⟩ <;>
    exact (Takes.advance hv).bind (Takes.rule (f := .postfixTail _) hmore)

end

/-! ### Operands -/

section

variable {v : View} {piece opening closing : Piece} {before mid after others : List Piece}
  {value : Expr} {w : View}

theorem takes_unary_postfixed {names : TokenKind → Bool} (hv : v.taken = none)
    (h : Grade.postfixed.Opens names v before)
    (hvalue : Grammar.postfixed.Takes (v.facing before) value w) :
    Grammar.unary.Takes (v.facing before) value w := by
  obtain ⟨⟨piece, others, rfl, hkind⟩, hparen⟩ := h
  refine Takes.peek.bind ?_
  rw [View.kind_next]
  generalize v.kind piece = kind at hkind ⊢
  unfold TokenKind.opensPrimary at hkind
  split at hkind
  case h_6 mark =>
    obtain rfl : mark = .openParen := of_decide_eq_true hkind
    exact (takes_parenthesizedType?_none hv hparen).bind hvalue
  case h_7 => cases hkind
  all_goals exact hvalue

theorem takes_unary_mark {mark : Punctuator} {operator : UnaryOperator} (hv : v.taken = none)
    (hkind : v.kind piece = .punctuator mark) (hmark : mark.unaryOperator? = some operator)
    (hvalue : (expression .unary).Takes (v.facing mid) value w) :
    Grammar.unary.Takes (v.facing (piece :: mid)) (.unary piece.position operator value) w := by
  refine Takes.peek.bind ?_
  rw [View.kind_next, hkind]
  split
  · rename_i heq
    cases heq
  · rename_i heq
    cases heq
    cases hmark
  · rename_i heq
    cases heq
    rw [hmark]
    exact (Takes.advance hv).bind ((Takes.rule (f := .expression .unary) hvalue).bind Takes.pure)
  · rename_i heq
    exact absurd rfl (heq mark)

theorem takes_unary_sizeofExpr (hv : v.taken = none) (hkind : v.kind piece = .keyword .sizeof)
    (hmid : Grade.operand.Opens TokenKind.startsTypeName v mid)
    (hvalue : (expression .unary).Takes (v.facing mid) value w) :
    Grammar.unary.Takes (v.facing (piece :: mid)) (.sizeofExpr piece.position value) w := by
  obtain ⟨⟨second, others, rfl, -⟩, hparen⟩ := hmid
  refine Takes.peek.bind ?_
  rw [View.kind_next, hkind]
  exact (Takes.advance hv).bind ((takes_parenthesizedType?_none hv hparen).bind
    ((Takes.rule (f := .expression .unary) hvalue).bind Takes.pure))

theorem takes_unary_sizeofType {type : CType} (hv : v.taken = none) (hfree : v.table.KeywordFree)
    (hkind : v.kind piece = .keyword .sizeof) (hopening : v.kind opening = .punctuator .openParen)
    (htype : v.Names TokenKind.startsTypeName mid type (closing :: after))
    (hclosing : v.kind closing = .punctuator .closeParen) :
    Grammar.unary.Takes (v.facing (piece :: opening :: mid)) (.sizeofType piece.position type)
      (v.facing after) := by
  refine Takes.peek.bind ?_
  rw [View.kind_next, hkind]
  exact (Takes.advance hv).bind
    ((takes_parenthesizedType?_some hopening htype hclosing hv hfree).bind Takes.pure)

theorem takes_unary_cast {type : CType} (hv : v.taken = none) (hfree : v.table.KeywordFree)
    (hopening : v.kind opening = .punctuator .openParen)
    (htype : v.Names TokenKind.startsTypeName mid type (closing :: after))
    (hclosing : v.kind closing = .punctuator .closeParen)
    (hvalue : (expression .unary).Takes (v.facing after) value w) :
    Grammar.unary.Takes (v.facing (opening :: mid)) (.cast opening.position type value) w := by
  refine Takes.peek.bind ?_
  rw [View.kind_next, hopening]
  exact (takes_parenthesizedType?_some hopening htype hclosing hv hfree).bind
    ((Takes.rule (f := .expression .unary) hvalue).bind Takes.pure)

end

/-! ### All grades -/

/-- An expression with a binary operator stops where its right operand does. -/
theorem Stops.right {p : Precedence} {mark : Punctuator} {operator : BinaryOperator}
    {kind : TokenKind} (hmark : (mark, operator) ∈ p.marks) (h : Stops p kind) :
    infixOperator? p.tighter kind = none :=
  Precedence.right_of_marks hmark ▸ h.operator

/-- An operator is no part of the expression to its left. -/
theorem Stops.of_marks {p : Precedence} {mark : Punctuator} {operator : BinaryOperator}
    (hmark : (mark, operator) ∈ p.marks) : Stops p (.punctuator mark) := by
  obtain ⟨hoperator, hprecedence⟩ := Precedence.mem_marks.1 hmark
  refine Stops.of_mark hoperator ?_
  rw [show (InfixOperator.binary operator).precedence = p from hprecedence]
  cases p <;> first | decide | simp [Precedence.marks] at hmark

section

variable {v : View} {g : Grade} {before after : List Piece}

theorem Derives.read {result : g.Result} (hv : v.taken = none) (hfree : v.table.KeywordFree)
    (h : Derives TokenKind.startsTypeName v g before result after) :
    g.Read v before result after := by
  -- What a level takes is said for any tail that goes on behind it, so that the induction passes
  -- through the loops of the parser.
  induction h with
  | identifier hkind | integer hkind | character hkind =>
      intro _
      refine Takes.peek.bind ?_
      rw [View.kind_next, hkind]
      exact (Takes.advance hv).bind Takes.pure
  | floating hkind hvalue =>
      intro _
      refine Takes.peek.bind ?_
      simp only [View.kind_next, hkind, hvalue]
      exact (Takes.advance hv).bind Takes.pure
  | string hkind _ ih => exact fun hafter => takes_primary_string hv hkind (ih hafter)
  | moreStrings hkind _ ih => exact fun hafter => takes_adjacentStrings hv hkind (ih hafter)
  | parentheses hopening _ hclosing ih =>
      exact fun _ => takes_primary_parentheses hv hopening (ih.closed (by rw [hclosing]; rfl)) hclosing
  | noString =>
      rintro ⟨piece, others, rfl, hpiece⟩
      exact takes_adjacentStrings_done hpiece
  | primary _ ih => exact fun hafter result w htail => (ih hafter).bind htail
  | index _ hopening _ hclosing ih ih' =>
      intro _ result w htail
      have hsubscript := ih'.closed (by rw [hclosing]; rfl)
      exact ih (View.begins_cons.2 (by rw [hopening]; rfl)) result w
        (takes_postfixTail_index hv hopening hsubscript hclosing htail)
  | callEmpty _ hopening hclosing ih =>
      intro _ result w htail
      exact ih (View.begins_cons.2 (by rw [hopening]; rfl)) result w
        (takes_postfixTail_call hv hopening ((Takes.accept hv hclosing).bind Takes.pure) htail)
  | call _ hopening harguments hclosing ih ih' =>
      intro _ result w htail
      have hfirst := harguments.opens.1.mono fun _ => TokenKind.ne_closeParen_of_opensExpression
      have hvalues := takes_callArguments hv hfirst (ih' (View.begins_cons.2 hclosing)) hclosing
      exact ih (View.begins_cons.2 (by rw [hopening]; rfl)) result w
        (takes_postfixTail_call hv hopening hvalues htail)
  | member _ hmark hword ih =>
      intro _ result w htail
      exact ih (View.begins_cons.2 (by rw [hmark]; rfl)) result w
        (takes_postfixTail_member hv hmark hword htail)
  | suffix _ hkind hmark ih =>
      intro _ result w htail
      exact ih (View.begins_cons.2 (by rw [hkind]; rfl)) result w
        (takes_postfixTail_suffix hv hkind hmark htail)
  | oneArgument _ ih =>
      rintro ⟨piece, others, rfl, hpiece⟩
      have hvalue := ih.closed (by rw [hpiece]; rfl)
      exact hvalue.bind ((Takes.accept_not (by simp [hpiece])).bind Takes.pure)
  | moreArguments _ hcomma _ ih ih' =>
      intro hafter
      have hstops : Stops .assignment (v.kind _) := hcomma ▸ Stops.of_mark rfl (by decide)
      exact (ih.whole hstops hstops.operator).bind ((Takes.accept hv hcomma).bind
        ((Takes.rule (f := .arguments) (ih' hafter)).bind Takes.pure))
  | postfixed hvalue ih =>
      rintro ⟨piece, others, rfl, hpiece⟩
      exact takes_unary_postfixed hv hvalue.opens (ih (View.begins_cons.2
        (TokenKind.isString_of_startsSuffix hpiece)) _ _ (takes_postfixTail_done hpiece))
  | unary hkind hmark _ ih =>
      rintro ⟨piece, others, rfl, hpiece⟩
      exact takes_unary_mark hv hkind (mem_unaryMarks.1 hmark)
        (ih.whole (Stops.of_unary hpiece) (infixOperator?_unary _))
  | sizeofExpr hkind hoperand ih =>
      rintro ⟨piece, others, rfl, hpiece⟩
      refine takes_unary_sizeofExpr hv hkind hoperand.opens ?_
      exact (ih (View.begins_cons.2 hpiece)).bind (takes_infixTail_done (infixOperator?_unary _))
  | sizeofType hkind hopening htype hclosing =>
      exact fun _ => takes_unary_sizeofType hv hfree hkind hopening htype hclosing
  | operand _ ih =>
      exact fun hafter limit result w _ htail =>
        (ih (hafter.mono fun _ hstops => hstops.suffix)).bind htail
  | cast hopening htype hclosing _ ih =>
      rintro ⟨piece, others, rfl, hpiece⟩ limit result w _ htail
      have hoperand := ih.whole hpiece (infixOperator?_unary _)
      exact (takes_unary_cast hv hfree hopening htype hclosing hoperand).bind htail
  | @tighter p _ _ _ _ ih =>
      intro hafter limit result w hle htail
      refine ih (hafter.mono fun _ => Stops.of_tighter) limit result w ?_ htail
      rw [Precedence.rank_tighter]
      omega
  | @binary p _ _ _ operator _ _ _ _ _ hkind hmark _ ih ih' =>
      rintro ⟨piece, others, rfl, hpiece⟩ limit result w hle htail
      obtain ⟨hoperator, rfl⟩ := Precedence.mem_marks.1 hmark
      refine ih (View.begins_cons.2 (hkind ▸ Stops.of_marks hmark)) limit result w hle ?_
      have hright := ih'.whole hpiece.of_tighter (hpiece.right hmark)
      exact takes_infixTail hv (infixOperator?_eq_some.2 ⟨_, hkind, hoperator, hle⟩)
        ((Takes.rule (f := .expression _) hright).bind Takes.pure) htail
  | conditional _ hquestion _ hcolon _ ih ih' ih'' =>
      rintro ⟨piece, others, rfl, hpiece⟩ limit result w hle htail
      have hquestion' : Stops .logicalOr (v.kind _) :=
        hquestion ▸ Stops.of_mark (Punctuator.infixOperator?_eq_conditional.2 rfl) (by decide)
      refine ih (View.begins_cons.2 hquestion') limit result w
        (Nat.le_trans (Nat.le_succ 10) hle) ?_
      have hwhenTrue := ih'.closed (by rw [hcolon]; rfl)
      have hwhenFalse := ih''.whole hpiece hpiece.operator
      exact takes_infixTail hv (infixOperator?_eq_some.2 ⟨_, hquestion, rfl, hle⟩)
        ((Takes.rule (f := .expression .comma) hwhenTrue).bind ((Takes.expect hv hcolon).bind
          ((Takes.rule (f := .expression _) hwhenFalse).bind Takes.pure))) htail
  | assign _ hkind hmark _ ih ih' =>
      rintro ⟨piece, others, rfl, hpiece⟩ limit result w hle htail
      have hoperator := mem_assignmentMarks.1 hmark
      refine ih (View.begins_cons.2 (hkind ▸ Stops.of_mark hoperator (Nat.lt_succ_self 11))) limit result w
        (Nat.le_trans (Nat.le_succ 11) hle) ?_
      have hvalue := ih'.whole hpiece hpiece.operator
      exact takes_infixTail hv (infixOperator?_eq_some.2 ⟨_, hkind, hoperator, hle⟩)
        ((Takes.rule (f := .expression _) hvalue).bind Takes.pure) htail

/-- What the grammar derives as an expression of a stratum the rule of the stratum reads, if a mark
follows that closes what surrounds the expression. -/
theorem Derives.takes {p : Precedence} {value : Expr} (hv : v.taken = none)
    (hfree : v.table.KeywordFree)
    (h : Derives TokenKind.startsTypeName v (.level p) before value after)
    (hafter : v.Begins (fun kind => kind.closes = true) after) :
    (expression p).Takes (v.facing before) value (v.facing after) := by
  obtain ⟨piece, others, rfl, hcloses⟩ := hafter
  exact (h.read hv hfree).closed hcloses

end

end CSyntax
