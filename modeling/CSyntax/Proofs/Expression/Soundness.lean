import CSyntax.Proofs.Expression.Completeness
import CSyntax.Proofs.Run.Inversion

/-!
# Soundness — what is read as an expression the grammar derives

A rule that begins with an expression goes on from any derivation of it (`Nonterminal.Derived`).
Behind an infix operator the next one binds less tightly than what stands to the right of the first,
so the expression built so far may stand to the left of it; this is what makes the loop over
operators follow the strata.

Nothing is said of expressions whose types list enumeration constants, since those change what the
words behind them mean.
-/

namespace CSyntax

open Script Grammar

/-! ## Strata -/

namespace Precedence

/-- What goes beyond the right side of an operator goes beyond the operator's own stratum, but for
the operator itself. -/
theorem rank_le_of_right {p q : Precedence} (h : p.right.rank < q.rank) : p.rank ≤ q.rank := by
  cases p <;> simp only [right, tighter, rank] at h ⊢ <;> omega

/-- Where the right side of an operator is over, only a stratum that holds the operator goes on;
a conditional expression and an assignment are no left sides of their own strata. -/
theorem tighter_rank_of_right {p q : Precedence} (hq : q = .conditional ∨ q = .assignment)
    (h : p.right.rank < q.rank) : p.rank ≤ q.tighter.rank := by
  rcases hq with rfl | rfl <;> cases p <;> simp only [right, tighter, rank] at h ⊢ <;> omega

end Precedence

/-- What may stand behind a unary operator may stand behind `sizeof`, if no cast begins there. -/
theorem Derives.operand_of_unary {names : TokenKind → Bool} {v : View} {value : Expr}
    {before after : List Piece} (h : Derives names v (.level .unary) before value after)
    (hcast : ∀ opening first others, before = opening :: first :: others →
      v.kind opening = .punctuator .openParen → names (v.kind first) = false) :
    Derives names v .operand before value after := by
  -- The stratum is a premise to the induction, since the grammar reaches it from itself.
  have all : ∀ {g : Grade} {before after : List Piece} {result : g.Result},
      Derives names v g before result after →
      (∀ opening first others, before = opening :: first :: others →
        v.kind opening = .punctuator .openParen → names (v.kind first) = false) →
      match g, result with
      | .level .unary, value => Derives names v .operand before value after
      | _, _ => True := by
    intro g before after result h hcast
    induction h with
    | operand hvalue => exact hvalue
    | cast hopening htype =>
        obtain ⟨⟨first, others, rfl, hfirst⟩, -⟩ := htype
        rw [hcast _ _ _ rfl hopening] at hfirst
        cases hfirst
    | @tighter p _ _ _ _ ih =>
        cases p <;> first | exact ih hcast | trivial
    | @binary p _ _ _ _ _ _ _ _ _ _ hmark =>
        cases p <;> trivial
    | _ => trivial
  exact all h hcast

/-! ## What is shown of each rule -/

/-- Whether no infix operator of the stratum comes next. -/
def View.Stop (v : View) (p : Precedence) (pieces : List Piece) : Prop :=
  ∀ piece others, pieces = piece :: others → infixOperator? p (v.kind piece) = none

/-- What the grammar derives if a rule for expressions, with `b` ahead, gives the result. -/
def Nonterminal.Derived (v : View) (b : List Piece) : (f : Nonterminal) → f.Result → View → Prop
  | .expression p, value, w => .enumerators ∉ value.mentions →
      ∃ a, w = v.facing a ∧ Derives TokenKind.startsTypeName v (.level p) b value a ∧ v.Stop p a
  | .infixTail limit left, value, w => .enumerators ∉ value.mentions → ∀ before p,
      Derives TokenKind.startsTypeName v (.level p) before left b → p.rank ≤ limit.rank →
        v.Stop p.right b →
          ∃ a, w = v.facing a ∧ Derives TokenKind.startsTypeName v (.level limit) before value a ∧
            v.Stop limit a
  | .postfixTail operand, value, w => .enumerators ∉ value.mentions → ∀ before,
      Derives TokenKind.startsTypeName v .postfixed before operand b →
        ∃ a, w = v.facing a ∧ Derives TokenKind.startsTypeName v .postfixed before value a
  | .arguments, values, w => .enumerators ∉ values.flatMap Expr.mentions →
      ∃ a, w = v.facing a ∧ Derives TokenKind.startsTypeName v .arguments b values a
  | .adjacentStrings, text, w =>
      ∃ a, w = v.facing a ∧ Derives TokenKind.startsTypeName v .strings b text a
  | _, _, _ => True

theorem takes_of_readAt {depth : Nat} {f : Nonterminal} {v w : View} {result : f.Result}
    (h : Parser.readAt depth f v = some (result, w)) :
    (Grammar.script f).Takes v result w := by
  cases depth with
  | zero => cases h
  | succ depth => exact ⟨depth, h⟩

theorem mentions_of_infixTail {limit : Precedence} {left value : Expr} {v w : View}
    (h : (infixTail limit left).Takes v value w) (henum : .enumerators ∉ value.mentions) :
    .enumerators ∉ left.mentions := by
  obtain ⟨read, new, hnew, -⟩ :=
    promise_of_takes (fun _ => True) (f := .infixTail limit left) h
  rw [hnew] at henum
  exact fun hmem => henum (List.mem_append_left _ hmem)

theorem mentions_of_postfixTail {operand value : Expr} {v w : View}
    (h : (postfixTail operand).Takes v value w) (henum : .enumerators ∉ value.mentions) :
    .enumerators ∉ operand.mentions := by
  obtain ⟨read, new, hnew, -⟩ := promise_of_takes (fun _ => True) (f := .postfixTail operand) h
  rw [hnew] at henum
  exact fun hmem => henum (List.mem_append_left _ hmem)

/-! ## Operands -/

section

variable {c w : View} {depth : Nat} {b : List Piece} {value : Expr} (hc : c.taken = none)

/-! ### Types in parentheses -/

include hc

/-- The parenthesis is taken behind a mark, and put back unless a type name stands behind it. -/
theorem parenthesizedType?_of_read {type? : Option CType}
    (h : parenthesizedType?.read (Parser.readAt depth) (c.facing b) = some (type?, w)) :
    (type? = none ∧ w = c.facing b ∧ ∀ opening first others, b = opening :: first :: others →
      c.kind opening = .punctuator .openParen → (c.kind first).startsTypeName = false) ∨
    ∃ opening first others type u token, type? = some type ∧ b = opening :: first :: others ∧
      c.kind opening = .punctuator .openParen ∧ (c.kind first).startsTypeName = true ∧
      Parser.readAt depth .typeName (c.facing (first :: others)) = some (type, u) ∧
      (expectMark .closeParen).read (Parser.readAt depth) u = some (token, w) := by
  obtain ⟨found, _, hnext, h⟩ := bind_of_read h
  obtain ⟨rfl, token, htoken, rfl⟩ := nextIs_of_read hnext
  split at h
  · rename_i htrue
    have hkind : token.kind = .punctuator .openParen := by simpa using htrue
    obtain ⟨opening, others, rfl, rfl⟩ := View.lexeme_of_token? htoken (by simp [hkind])
    obtain ⟨m, _, hmark, h⟩ := bind_of_read h
    obtain rfl := mark_of_read hmark
    obtain ⟨_, _, hadvance, h⟩ := bind_of_read h
    obtain ⟨-, rfl⟩ := advance_of_read hadvance
    obtain ⟨second, _, hpeek, h⟩ := bind_of_read h
    obtain ⟨rfl, hsecond⟩ := peek_of_read hpeek
    split at h
    · rename_i htype
      obtain ⟨_, _, hrelease, h⟩ := bind_of_read h
      obtain rfl := release_of_read hrelease
      obtain ⟨type, u, hname, h⟩ := bind_of_read h
      obtain ⟨closing, _, hclose, h⟩ := bind_of_read h
      obtain ⟨rfl, rfl⟩ := pure_of_read h
      -- The end of the text starts no type name.
      obtain ⟨first, more, rfl, rfl⟩ :
          ∃ first more, others = first :: more ∧ second = c.next first := by
        refine View.lexeme_of_token? hsecond fun hend => ?_
        rw [hend] at htype
        cases htype
      have hname' : Parser.readAt depth .typeName (c.facing (first :: more)) = some (type, u) := by
        simpa [View.facing, hc] using rule_of_read hname
      exact Or.inr ⟨opening, first, more, type, u, closing, rfl, rfl, hkind, htype, hname', hclose⟩
    · rename_i htype
      obtain ⟨_, _, hreset, h⟩ := bind_of_read h
      obtain rfl := reset_of_read hreset
      obtain ⟨rfl, rfl⟩ := pure_of_read h
      refine Or.inl ⟨rfl, by simp [View.facing, hc], fun _ first more heq _ => ?_⟩
      cases heq
      cases hsecond
      exact Bool.eq_false_iff.2 htype
  · rename_i hfalse
    obtain ⟨rfl, rfl⟩ := pure_of_read h
    refine Or.inl ⟨rfl, rfl, fun opening first others heq hkind => ?_⟩
    subst heq
    cases htoken
    exact absurd (decide_eq_true hkind) hfalse

theorem parenthesizedType?_of_read_none
    (h : parenthesizedType?.read (Parser.readAt depth) (c.facing b) = some (none, w)) :
    w = c.facing b ∧ ∀ opening first others, b = opening :: first :: others →
      c.kind opening = .punctuator .openParen → (c.kind first).startsTypeName = false := by
  rcases parenthesizedType?_of_read hc h with ⟨-, hnone⟩ | ⟨_, _, _, _, _, _, hsome, -⟩
  · exact hnone
  · cases hsome

theorem parenthesizedType?_of_read_some {type : CType} (hfree : c.table.KeywordFree)
    (h : parenthesizedType?.read (Parser.readAt depth) (c.facing b) = some (some type, w))
    (henum : .enumerators ∉ type.mentions) :
    ∃ opening mid closing after, b = opening :: mid ∧ c.kind opening = .punctuator .openParen ∧
      c.Names TokenKind.startsTypeName mid type (closing :: after) ∧
      c.kind closing = .punctuator .closeParen ∧ w = c.facing after := by
  rcases parenthesizedType?_of_read hc h with
    ⟨hnone, -⟩ | ⟨opening, first, others, type, u, _, hsome, rfl, hopening, hfirst, hname, hclose⟩
  · cases hnone
  · cases hsome
    have htakes : (Grammar.script .typeName).Takes (c.facing (first :: others)) type u :=
      takes_of_readAt hname
    -- A type name without enumeration constants declares nothing, so the view is the old one.
    obtain ⟨read, hpromise⟩ := promise_of_takes (fun _ => True) htakes
    have hu : u = c.facing u.ahead :=
      eq_facing_of_takes (v := c.facing (first :: others)) hc hfree htakes (hpromise.frame henum)
    rw [hu] at hclose
    obtain ⟨closing, after, hahead, hclosing, rfl⟩ := expectMark_of_read hc hclose
    exact ⟨opening, first :: others, closing, after, rfl, hopening,
      ⟨⟨first, others, rfl, hfirst⟩, henum, u, htakes, hahead⟩, hclosing, rfl⟩

omit hc

/-! ### Primary and postfix expressions -/

variable (ih : ∀ f b result w, Parser.readAt depth f (c.facing b) = some (result, w) →
  f.Derived c b result w)

include hc ih

theorem derived_adjacentStrings {text : String}
    (h : adjacentStrings.read (Parser.readAt depth) (c.facing b) = some (text, w)) :
    Nonterminal.adjacentStrings.Derived c b text w := by
  obtain ⟨token, _, hpeek, h⟩ := bind_of_read h
  obtain ⟨rfl, htoken⟩ := peek_of_read hpeek
  split at h
  · rename_i hkind
    obtain ⟨piece, others, rfl, rfl, h⟩ := advance_bind_of_read hc htoken (by simp [hkind]) h
    obtain ⟨more, _, hmore, h⟩ := bind_of_read h
    obtain ⟨rfl, rfl⟩ := pure_of_read h
    obtain ⟨a, rfl, hderives⟩ := ih .adjacentStrings _ _ _ (rule_of_read hmore)
    exact ⟨a, rfl, .moreStrings hkind hderives⟩
  · obtain ⟨rfl, rfl⟩ := pure_of_read h
    exact ⟨b, rfl, .noString⟩

theorem derived_primary
    (h : primary.read (Parser.readAt depth) (c.facing b) = some (value, w))
    (henum : .enumerators ∉ value.mentions) :
    ∃ a, w = c.facing a ∧ Derives TokenKind.startsTypeName c .primary b value a := by
  obtain ⟨token, _, hpeek, h⟩ := bind_of_read h
  obtain ⟨rfl, htoken⟩ := peek_of_read hpeek
  split at h
  case h_1 name hkind =>
    obtain ⟨piece, others, rfl, rfl, h⟩ := advance_bind_of_read hc htoken (by simp [hkind]) h
    obtain ⟨rfl, rfl⟩ := pure_of_read h
    exact ⟨others, rfl, .identifier hkind⟩
  case h_2 number hkind =>
    obtain ⟨piece, others, rfl, rfl, h⟩ := advance_bind_of_read hc htoken (by simp [hkind]) h
    obtain ⟨rfl, rfl⟩ := pure_of_read h
    exact ⟨others, rfl, .integer hkind⟩
  case h_3 text hkind =>
    split at h
    · rename_i hvalue
      obtain ⟨piece, others, rfl, rfl, h⟩ := advance_bind_of_read hc htoken (by simp [hkind]) h
      obtain ⟨rfl, rfl⟩ := pure_of_read h
      exact ⟨others, rfl, .floating hkind hvalue⟩
    · cases h
  case h_4 text hkind =>
    obtain ⟨piece, others, rfl, rfl, h⟩ := advance_bind_of_read hc htoken (by simp [hkind]) h
    obtain ⟨rfl, rfl⟩ := pure_of_read h
    exact ⟨others, rfl, .character hkind⟩
  case h_5 text hkind =>
    obtain ⟨piece, others, rfl, rfl, h⟩ := advance_bind_of_read hc htoken (by simp [hkind]) h
    obtain ⟨more, _, hmore, h⟩ := bind_of_read h
    obtain ⟨rfl, rfl⟩ := pure_of_read h
    obtain ⟨a, rfl, hderives⟩ := ih .adjacentStrings _ _ _ (rule_of_read hmore)
    exact ⟨a, rfl, .string hkind hderives⟩
  case h_6 =>
    split at h
    · rename_i hkind
      obtain ⟨piece, others, rfl, rfl, h⟩ := advance_bind_of_read hc htoken (by simp [hkind]) h
      obtain ⟨inner, _, hinner, h⟩ := bind_of_read h
      obtain ⟨_, _, hclose, h⟩ := bind_of_read h
      obtain ⟨rfl, rfl⟩ := pure_of_read h
      obtain ⟨mid, rfl, hderives, -⟩ := ih (.expression .comma) _ _ _ (rule_of_read hinner) henum
      obtain ⟨closing, after, rfl, hclosing, rfl⟩ := expectMark_of_read hc hclose
      exact ⟨after, rfl, .parentheses hkind hderives hclosing⟩
    · cases h

theorem derived_callArguments {values : List Expr}
    (h : callArguments.read (Parser.readAt depth) (c.facing b) = some (values, w))
    (henum : .enumerators ∉ values.flatMap Expr.mentions) :
    ∃ closing after, c.kind closing = .punctuator .closeParen ∧ w = c.facing after ∧
      (values = [] ∧ b = closing :: after ∨
        Derives TokenKind.startsTypeName c .arguments b values (closing :: after)) := by
  obtain ⟨found, _, haccept, h⟩ := bind_of_read h
  rcases acceptMark_of_read hc haccept with ⟨rfl, closing, after, rfl, hkind, rfl⟩ | ⟨rfl, rfl⟩
  · obtain ⟨rfl, rfl⟩ := pure_of_read h
    exact ⟨closing, after, hkind, rfl, Or.inl ⟨rfl, rfl⟩⟩
  · obtain ⟨list, _, hlist, h⟩ := bind_of_read h
    obtain ⟨token, _, hpeek, hlast⟩ := bind_of_read h
    obtain ⟨rfl, htoken⟩ := peek_of_read hpeek
    split at hlast
    · rename_i hkind
      obtain ⟨_, _, hadvance, hpure⟩ := bind_of_read hlast
      obtain ⟨rfl, rfl⟩ := pure_of_read hpure
      obtain ⟨mid, rfl, hderives⟩ := ih .arguments _ _ _ (rule_of_read hlist) henum
      obtain ⟨closing, after, rfl, rfl, hdone⟩ := advance_bind_of_read hc htoken (by simp [hkind]) hlast
      obtain ⟨-, rfl⟩ := pure_of_read hdone
      exact ⟨closing, after, hkind, rfl, Or.inr hderives⟩
    · cases hlast

theorem derived_postfixTail {operand : Expr}
    (h : (postfixTail operand).read (Parser.readAt depth) (c.facing b) = some (value, w)) :
    (Nonterminal.postfixTail operand).Derived c b value w := by
  intro henum before hoperand
  -- Whatever is read behind an operand, the types in the operand are in the result.
  have hbase : ∀ {base : Expr} {u : View},
      Parser.readAt depth (.postfixTail base) u = some (value, w) →
        .enumerators ∉ base.mentions :=
    fun hmore => mentions_of_postfixTail (takes_of_readAt hmore) henum
  obtain ⟨token, _, hpeek, h⟩ := bind_of_read h
  obtain ⟨rfl, htoken⟩ := peek_of_read hpeek
  split at h
  case h_1 hkind =>
    obtain ⟨opening, mid, rfl, rfl, h⟩ := advance_bind_of_read hc htoken (by simp [hkind]) h
    obtain ⟨subscript, _, hsubscript, h⟩ := bind_of_read h
    obtain ⟨_, _, hclose, h⟩ := bind_of_read h
    have hmore := rule_of_read h
    have hindex := hbase hmore
    rw [Expr.mentions, List.mem_append, not_or] at hindex
    obtain ⟨mid', rfl, hderives, -⟩ :=
      ih (.expression .comma) _ _ _ (rule_of_read hsubscript) hindex.2
    obtain ⟨closing, after, rfl, hclosing, rfl⟩ := expectMark_of_read hc hclose
    exact ih (.postfixTail _) _ _ _ hmore henum before (.index hoperand hkind hderives hclosing)
  case h_2 hkind =>
    obtain ⟨opening, mid, rfl, rfl, h⟩ := advance_bind_of_read hc htoken (by simp [hkind]) h
    obtain ⟨values, _, hvalues, h⟩ := bind_of_read h
    have hmore := rule_of_read h
    have hcall := hbase hmore
    rw [Expr.mentions, Expr.mentionsList_eq, List.mem_append, not_or] at hcall
    obtain ⟨closing, after, hclosing, rfl, ⟨rfl, rfl⟩ | hderives⟩ :=
      derived_callArguments hc ih hvalues hcall.2
    · exact ih (.postfixTail _) _ _ _ hmore henum before (.callEmpty hoperand hkind hclosing)
    · exact ih (.postfixTail _) _ _ _ hmore henum before (.call hoperand hkind hderives hclosing)
  case h_3 hkind =>
    obtain ⟨mark, mid, rfl, rfl, h⟩ := advance_bind_of_read hc htoken (by simp [hkind]) h
    obtain ⟨name, _, hname, h⟩ := bind_of_read h
    obtain ⟨word, after, rfl, hword, rfl⟩ := expectWord_of_read hc hname
    exact ih (.postfixTail _) _ _ _ (rule_of_read h) henum before
      (.member hoperand hkind hword)
  case h_4 hkind =>
    obtain ⟨mark, mid, rfl, rfl, h⟩ := advance_bind_of_read hc htoken (by simp [hkind]) h
    obtain ⟨name, _, hname, h⟩ := bind_of_read h
    obtain ⟨word, after, rfl, hword, rfl⟩ := expectWord_of_read hc hname
    exact ih (.postfixTail _) _ _ _ (rule_of_read h) henum before
      (.member hoperand hkind hword)
  case h_5 hkind =>
    obtain ⟨mark, after, rfl, rfl, h⟩ := advance_bind_of_read hc htoken (by simp [hkind]) h
    exact ih (.postfixTail _) _ _ _ (rule_of_read h) henum before
      (.suffix hoperand hkind (by decide))
  case h_6 hkind =>
    obtain ⟨mark, after, rfl, rfl, h⟩ := advance_bind_of_read hc htoken (by simp [hkind]) h
    exact ih (.postfixTail _) _ _ _ (rule_of_read h) henum before
      (.suffix hoperand hkind (by decide))
  case h_7 =>
    obtain ⟨rfl, rfl⟩ := pure_of_read h
    exact ⟨b, rfl, hoperand⟩

theorem derived_postfixed
    (h : postfixed.read (Parser.readAt depth) (c.facing b) = some (value, w))
    (henum : .enumerators ∉ value.mentions) :
    ∃ a, w = c.facing a ∧ Derives TokenKind.startsTypeName c .postfixed b value a := by
  obtain ⟨operand, _, hoperand, htail⟩ := bind_of_read h
  have henum' := mentions_of_postfixTail ⟨depth, htail⟩ henum
  obtain ⟨mid, rfl, hderives⟩ := derived_primary hc ih hoperand henum'
  exact derived_postfixTail hc ih htail henum b (.primary hderives)

/-! ### Operators before an operand -/

theorem derived_unary (hfree : c.table.KeywordFree)
    (h : unary.read (Parser.readAt depth) (c.facing b) = some (value, w))
    (henum : .enumerators ∉ value.mentions) :
    ∃ a, w = c.facing a ∧ Derives TokenKind.startsTypeName c (.level .unary) b value a := by
  obtain ⟨token, _, hpeek, h⟩ := bind_of_read h
  obtain ⟨rfl, htoken⟩ := peek_of_read hpeek
  split at h
  case h_1 hkind =>
    obtain ⟨word, mid, rfl, rfl, h⟩ := advance_bind_of_read hc htoken (by simp [hkind]) h
    obtain ⟨type?, _, htype, h⟩ := bind_of_read h
    cases type? with
    | some type =>
        obtain ⟨rfl, rfl⟩ := pure_of_read h
        obtain ⟨opening, mid, closing, after, rfl, hopening, hnames, hclosing, rfl⟩ :=
          parenthesizedType?_of_read_some hc hfree htype (by rwa [Expr.mentions] at henum)
        exact ⟨after, rfl, .operand (.sizeofType hkind hopening hnames hclosing)⟩
    | none =>
        obtain ⟨operand, _, hoperand, h⟩ := bind_of_read h
        obtain ⟨rfl, rfl⟩ := pure_of_read h
        obtain ⟨rfl, hcast⟩ := parenthesizedType?_of_read_none hc htype
        obtain ⟨a, rfl, hderives, -⟩ := ih (.expression .unary) _ _ _ (rule_of_read hoperand)
          (by rwa [Expr.mentions] at henum)
        exact ⟨a, rfl, .operand (.sizeofExpr hkind (hderives.operand_of_unary hcast))⟩
  case h_2 hkind =>
    obtain ⟨type?, _, htype, h⟩ := bind_of_read h
    cases type? with
    | some type =>
        obtain ⟨operand, _, hoperand, h⟩ := bind_of_read h
        obtain ⟨rfl, rfl⟩ := pure_of_read h
        rw [Expr.mentions, List.mem_append, not_or] at henum
        obtain ⟨opening, mid, closing, after, rfl, hopening, hnames, hclosing, rfl⟩ :=
          parenthesizedType?_of_read_some hc hfree htype henum.1
        obtain ⟨a, rfl, hderives, -⟩ :=
          ih (.expression .unary) _ _ _ (rule_of_read hoperand) henum.2
        cases htoken
        exact ⟨a, rfl, .cast hopening hnames hclosing hderives⟩
    | none =>
        obtain ⟨rfl, -⟩ := parenthesizedType?_of_read_none hc htype
        obtain ⟨a, rfl, hderives⟩ := derived_postfixed hc ih h henum
        exact ⟨a, rfl, .operand (.postfixed hderives)⟩
  case h_3 mark hparen hkind =>
    split at h
    · rename_i operator hmark
      obtain ⟨piece, mid, rfl, rfl, h⟩ := advance_bind_of_read hc htoken (by simp [hkind]) h
      obtain ⟨operand, _, hoperand, h⟩ := bind_of_read h
      obtain ⟨rfl, rfl⟩ := pure_of_read h
      obtain ⟨a, rfl, hderives, -⟩ := ih (.expression .unary) _ _ _ (rule_of_read hoperand)
        (by rwa [Expr.mentions] at henum)
      exact ⟨a, rfl, .operand (.unary hkind (mem_unaryMarks.2 hmark) hderives)⟩
    · cases h
  case h_4 =>
    obtain ⟨a, rfl, hderives⟩ := derived_postfixed hc ih h henum
    exact ⟨a, rfl, .operand (.postfixed hderives)⟩

/-! ## Infix operators -/

theorem derived_operation {operator : InfixOperator} {mark : Punctuator} {left : Expr}
    {piece : Piece} {before mid : List Piece} {p : Precedence}
    (hleft : Derives TokenKind.startsTypeName c (.level p) before left (piece :: mid))
    (hkind : c.kind piece = .punctuator mark) (hmark : mark.infixOperator? = some operator)
    (hlt : p.right.rank < operator.precedence.rank)
    (h : (operation operator left).read (Parser.readAt depth) (c.facing mid) = some (value, w))
    (henum : .enumerators ∉ value.mentions) :
    ∃ a, w = c.facing a ∧
      Derives TokenKind.startsTypeName c (.level operator.precedence) before value a ∧
        c.Stop operator.precedence.right a := by
  unfold operation at h
  split at h
  case h_1 op =>
    obtain ⟨right, _, hright, h⟩ := bind_of_read h
    obtain ⟨rfl, rfl⟩ := pure_of_read h
    rw [Expr.mentions, List.mem_append, not_or] at henum
    obtain ⟨a, rfl, hderives, hstop⟩ := ih (.expression _) _ _ _ (rule_of_read hright) henum.2
    have hmem := Precedence.mem_marks.2 ⟨hmark, rfl⟩
    rw [InfixOperator.operand_eq] at hderives hstop
    refine ⟨a, rfl, ?_, hstop⟩
    refine .binary (hleft.loosen (Precedence.rank_le_of_right hlt)) hkind hmem ?_
    exact Precedence.right_of_marks hmem ▸ hderives
  case h_2 op =>
    obtain ⟨assigned, _, hassigned, h⟩ := bind_of_read h
    obtain ⟨rfl, rfl⟩ := pure_of_read h
    rw [Expr.mentions, List.mem_append, not_or] at henum
    obtain ⟨a, rfl, hderives, hstop⟩ := ih (.expression _) _ _ _ (rule_of_read hassigned) henum.2
    refine ⟨a, rfl, ?_, hstop⟩
    exact .assign (hleft.loosen (Precedence.tighter_rank_of_right (.inr rfl) hlt)) hkind
      (mem_assignmentMarks.2 hmark) hderives
  case h_3 =>
    obtain ⟨whenTrue, _, htrue, h⟩ := bind_of_read h
    obtain ⟨_, _, hcolon, h⟩ := bind_of_read h
    obtain ⟨whenFalse, _, hfalse, h⟩ := bind_of_read h
    obtain ⟨rfl, rfl⟩ := pure_of_read h
    rw [Expr.mentions, List.mem_append, List.mem_append, not_or, not_or] at henum
    obtain ⟨mid', rfl, hderives, -⟩ :=
      ih (.expression .comma) _ _ _ (rule_of_read htrue) henum.1.2
    obtain ⟨colon, mid'', rfl, hcolon', rfl⟩ := expectMark_of_read hc hcolon
    obtain ⟨a, rfl, hderives', hstop⟩ := ih (.expression _) _ _ _ (rule_of_read hfalse) henum.2
    obtain rfl := Punctuator.infixOperator?_eq_conditional.1 hmark
    refine ⟨a, rfl, ?_, hstop⟩
    exact .conditional (hleft.loosen (Precedence.tighter_rank_of_right (.inl rfl) hlt)) hkind
      hderives hcolon' hderives'

theorem derived_infixTail {limit : Precedence} {left : Expr}
    (h : (infixTail limit left).read (Parser.readAt depth) (c.facing b) = some (value, w)) :
    (Nonterminal.infixTail limit left).Derived c b value w := by
  intro henum before p hleft hle hstop
  rw [infixTail_eq] at h
  obtain ⟨token, _, hpeek, h⟩ := bind_of_read h
  obtain ⟨rfl, htoken⟩ := peek_of_read hpeek
  split at h
  · rename_i operator hoperator
    obtain ⟨mark, hkind, hmark, hrank⟩ := infixOperator?_eq_some.1 hoperator
    obtain ⟨piece, mid, rfl, rfl, h⟩ := advance_bind_of_read hc htoken (by simp [hkind]) h
    obtain ⟨more, _, hmore, h⟩ := bind_of_read h
    have htail := rule_of_read h
    -- The operator binds less tightly than the right side of the one before it.
    have hlt : p.right.rank < operator.precedence.rank := by
      refine Nat.lt_of_not_le fun hge => ?_
      have : infixOperator? p.right (c.kind piece) = some operator :=
        infixOperator?_eq_some.2 ⟨mark, hkind, hmark, hge⟩
      rw [hstop piece mid rfl] at this
      cases this
    obtain ⟨a, rfl, hderives, hstop'⟩ := derived_operation hc ih hleft hkind hmark hlt hmore
      (mentions_of_infixTail (takes_of_readAt htail) henum)
    exact ih (.infixTail limit more) _ _ _ htail henum before _ hderives hrank hstop'
  · rename_i hnone
    obtain ⟨rfl, rfl⟩ := pure_of_read h
    refine ⟨b, rfl, hleft.loosen hle, fun piece others heq => ?_⟩
    subst heq
    cases htoken
    exact hnone

theorem derived_expression {p : Precedence} (hfree : c.table.KeywordFree)
    (h : (expression p).read (Parser.readAt depth) (c.facing b) = some (value, w)) :
    (Nonterminal.expression p).Derived c b value w := by
  intro henum
  obtain ⟨operand, _, hoperand, htail⟩ := bind_of_read h
  have henum' := mentions_of_infixTail ⟨depth, htail⟩ henum
  obtain ⟨mid, rfl, hderives⟩ := derived_unary hc ih hfree hoperand henum'
  exact derived_infixTail hc ih htail henum b .unary hderives (Nat.zero_le _)
    fun _ _ _ => infixOperator?_unary _

theorem derived_arguments {values : List Expr} (hfree : c.table.KeywordFree)
    (h : Grammar.arguments.read (Parser.readAt depth) (c.facing b) = some (values, w)) :
    Nonterminal.arguments.Derived c b values w := by
  intro henum
  obtain ⟨first, _, hfirst, h⟩ := bind_of_read h
  obtain ⟨found, _, haccept, h⟩ := bind_of_read h
  have hexpression := derived_expression hc ih hfree hfirst
  cases found with
  | true =>
      obtain ⟨more, _, hmore, h⟩ := bind_of_read h
      obtain ⟨rfl, rfl⟩ := pure_of_read h
      rw [List.flatMap_cons, List.mem_append, not_or] at henum
      obtain ⟨mid, rfl, hderives, -⟩ := hexpression henum.1
      rcases acceptMark_of_read hc haccept with ⟨-, comma, after, rfl, hcomma, rfl⟩ | ⟨heq, -⟩
      · obtain ⟨a, rfl, hderives'⟩ := ih .arguments _ _ _ (rule_of_read hmore) henum.2
        exact ⟨a, rfl, .moreArguments hderives hcomma hderives'⟩
      · cases heq
  | false =>
      obtain ⟨rfl, rfl⟩ := pure_of_read h
      obtain ⟨mid, rfl, hderives, -⟩ := hexpression (by simpa using henum)
      rcases acceptMark_of_read hc haccept with ⟨heq, -⟩ | ⟨-, rfl⟩
      · cases heq
      · exact ⟨mid, rfl, .oneArgument hderives⟩

end

/-! ## All rules -/

/-- Whatever a rule for expressions reads off a view the grammar derives. -/
theorem derived_of_readAt {c : View} (hc : c.taken = none) (hfree : c.table.KeywordFree)
    (depth : Nat) (f : Nonterminal) (b : List Piece) (result : f.Result) (w : View)
    (h : Parser.readAt depth f (c.facing b) = some (result, w)) : f.Derived c b result w := by
  induction depth generalizing f b w with
  | zero => cases h
  | succ depth ih =>
      cases f with
      | expression p => exact derived_expression hc ih hfree h
      | infixTail limit left => exact derived_infixTail hc ih h
      | postfixTail operand => exact derived_postfixTail hc ih h
      | «arguments» => exact derived_arguments hc ih hfree h
      | adjacentStrings => exact derived_adjacentStrings hc ih h
      | _ => trivial

end CSyntax
