import CSyntax.Proofs.Declarator.Specifiers
import CSyntax.Proofs.Declarator.TypeNames
import CSyntax.Proofs.Grouping.Declarators
import CSyntax.Proofs.Statement.Declarations

/-!
# Groups — a declaration of one declarator

A declaration of one declarator is read in three steps: its specifiers, the declarator with its
initial value, and the semicolon.  None of them tells what stands behind.  So the same specifiers and
the same declarator are read in front of a comma or of another text, wherever the same words are
declared.

* `Grammar.declared` — a declarator with its initial value;
* `Grammar.denotes_of_takes` — keywords that are read as specifiers are all that is read;
* `Grammar.declared_of_group` — the steps in which a declaration of one declarator is read;
* `Portable` — specifiers and a declarator that can be read in front of either separator.
-/

namespace CSyntax

open Script

theorem View.lexeme_of_kind_mark {v : View} {piece : Piece} {mark : Punctuator}
    (h : v.kind piece = .punctuator mark) : piece.lexeme = .punctuator mark := by
  rw [← SymbolTable.lexeme_classify v.table piece.lexeme, ← View.kind, h]
  rfl

/-- Lexemes of keywords are keywords where no reserved word is declared. -/
theorem View.Regular.kinds_of_keywords {v : View} {pieces : List Piece} {words : List Keyword}
    (hv : v.Regular) (h : pieces.map (·.lexeme) = words.map Lexeme.keyword) :
    pieces.map v.kind = words.map .keyword := by
  have hclassified := congrArg (List.map v.table.classify) h
  rw [List.map_map, List.map_map] at hclassified
  exact hclassified.trans
    (List.map_congr_left fun word _ => hv.keywordFree.classify_keyword word)

namespace Grammar

variable {v w : View} {pieces after : List Piece} {words : List Keyword} {depth : Nat}
  {tally : SpecifierTally}

/-! ## Keywords in front of a declarator -/

/-- Behind a specifier there are fewer lexemes. -/
theorem length_lt_of_specifier {c : SpecifierClass} (h : View.Specifier c v w)
    (hv : v.taken = none) : w.ahead.length < v.ahead.length := by
  cases h with
  | storage _ _ => exact Nat.lt_succ_self _
  | qualifier _ _ => exact Nat.lt_succ_self _
  | word _ _ => exact Nat.lt_succ_self _
  | name _ => exact Nat.lt_succ_self _
  | tag _ _ _ => exact Nat.lt_add_of_pos_right (Nat.zero_lt_two)
  | record _ _ _ _ _ hmembers hahead _ _ =>
      have hlength := hmembers.length_ahead_le hv
      rw [hahead] at hlength
      simp only [View.facing, List.length_cons, List.length_append] at hlength ⊢
      omega
  | enumeration _ _ _ _ henumerators hahead _ =>
      have hlength := henumerators.length_ahead_le hv
      rw [hahead] at hlength
      simp only [View.facing, List.length_cons, List.length_append] at hlength ⊢
      omega

/-- If keywords and no more are read as specifiers, they are in the tally. -/
theorem foldlM_of_specifierTail {found : SpecifierTally} (hv : v.Regular)
    (hpieces : pieces.map v.kind = words.map .keyword)
    (hwords : ∀ word ∈ words, word.isSpecifier = true) (hother : tally.other = none)
    (h : (specifierTail tally).read (Parser.readAt depth) (v.facing (pieces ++ after)) =
      some (found, w))
    (hahead : w.ahead = after) :
    words.foldlM SpecifierTally.take? tally = some found ∧ w = v.facing after := by
  induction words generalizing pieces tally depth with
  | nil =>
      obtain rfl : pieces = [] := by simpa using hpieces
      obtain ⟨next?, u, hspecifier, hrest⟩ := bind_of_read h
      rcases specifier_of_read hv hspecifier with ⟨rfl, rfl⟩ | ⟨c, next, -, hmore, -⟩
      · obtain ⟨rfl, rfl⟩ := pure_of_read hrest
        exact ⟨rfl, rfl⟩
      · -- Behind one more specifier less would be left.
        have hlt : u.ahead.length < after.length := length_lt_of_specifier hmore hv.unmarked
        have hafter : (v.facing after).Regular := ⟨hv.unmarked, hv.keywordFree⟩
        have hu : u.Regular := hafter.orderly (orderly_specifier tally) ⟨depth, hspecifier⟩
        have hle : w.ahead.length ≤ u.ahead.length :=
          Takes.length_ahead_le ⟨depth, hrest⟩ hu.unmarked
        rw [hahead] at hle
        omega
  | cons word words ih =>
      obtain ⟨hword, hothers⟩ := List.forall_mem_cons.1 hwords
      cases pieces with
      | nil => cases hpieces
      | cons piece pieces =>
          obtain ⟨hfirst, hpieces⟩ := List.cons.inj hpieces
          obtain ⟨next?, u, hspecifier, hrest⟩ := bind_of_read h
          rw [List.cons_append, read_specifier hv.unmarked hfirst hword hother] at hspecifier
          obtain ⟨next, hnext, heq⟩ := Option.map_eq_some_iff.1 hspecifier
          obtain ⟨rfl, rfl⟩ := Prod.mk.inj heq
          cases depth with
          | zero => cases hrest
          | succ depth =>
              rw [List.foldlM_cons, hnext]
              exact ih hpieces hothers (SpecifierTally.other_of_take? hnext ▸ hother)
                (rule_of_read hrest)

/-- Keywords that are all that is read as specifiers are denoted by them. -/
theorem denotes_of_takes {found : Specifiers} (hv : v.Regular)
    (hpieces : pieces.map v.kind = words.map .keyword)
    (hwords : ∀ word ∈ words, word.isSpecifier = true)
    (h : specifiers.Takes (v.facing (pieces ++ after)) found w) (hahead : w.ahead = after) :
    found.Denotes words ∧ w = v.facing after := by
  obtain ⟨depth, hread⟩ := h
  obtain ⟨position, u, hhere, hread⟩ := bind_of_read hread
  obtain ⟨token, u', hpeek, hpure⟩ := bind_of_read hhere
  obtain ⟨rfl, -⟩ := peek_of_read hpeek
  obtain ⟨-, rfl⟩ := pure_of_read hpure
  obtain ⟨tally, u, htally, hrest⟩ := bind_of_read hread
  split at hrest
  · rename_i base hbase
    obtain ⟨rfl, rfl⟩ := pure_of_read hrest
    obtain ⟨hfold, hview⟩ := foldlM_of_specifierTail hv hpieces hwords rfl htally hahead
    exact ⟨((SpecifierTally.foldlM_take? hwords).1 tally hfold).denotes hbase position, hview⟩
  · obtain ⟨token, u', -, hrefuse⟩ := bind_of_read hrest
    cases hrefuse

/-! ## A declarator with its initial value -/

/-- One declarator with its initial value. -/
def declared (specifiers : Specifiers) : Script Declaration := do
  let declarator ← declarator .named
  initDeclarator specifiers declarator

theorem local_declared {σ : Seam} (calls : σ.Calls depth) (specifiers : Specifiers) :
    (declared specifiers).Local σ depth true :=
  (local_declarator calls .named).bind fun d => local_initDeclarator calls specifiers d

theorem orderly_declared (specifiers : Specifiers) : (declared specifiers).Orderly fun _ => True :=
  (orderly_declarator .named).bind fun _ hd => orderly_initDeclarator specifiers hd

theorem token?_of_declared {found : Specifiers} {d : Declaration}
    (h : (declared found).Takes v d w) :
    ∃ token, v.token? 0 = some token ∧ token.kind.opensDeclarator = true := by
  obtain ⟨declarator, u, hdeclarator, -⟩ := h.exists_bind
  exact token?_of_declarator hdeclarator

/-- Where specifiers stand makes no difference to what they declare. -/
theorem takes_declared_of_denotes {found found' : Specifiers} {d : Declaration}
    (hfound : found.Denotes words) (hfound' : found'.Denotes words)
    (h : (declared found).Takes v d w) : (declared found').Takes v d w := by
  obtain ⟨hbase, hstorage, hisTypedef, hqualifiers⟩ := hfound.eq_of_perm hfound' (.refl _)
  obtain ⟨declarator, u, hdeclarator, hinit⟩ := h.exists_bind
  refine hdeclarator.bind ?_
  unfold initDeclarator at hinit ⊢
  split at hinit
  · obtain ⟨depth, hread⟩ := hinit
    cases hread
  · dsimp only at hinit ⊢
    rw [hbase, hstorage, hisTypedef, hqualifiers]
    unfold initial? at hinit ⊢
    rw [hisTypedef]
    exact hinit

/-! ## Groups -/

theorem ne_nil_of_initDeclarators {found : Specifiers} {list : List Declaration}
    (h : (initDeclarators found).Takes v list w) : list ≠ [] := by
  obtain ⟨declarator, u, -, hrest⟩ := h.exists_bind
  obtain ⟨first, u, -, hrest⟩ := hrest.exists_bind
  obtain ⟨more, u, -, hrest⟩ := hrest.exists_bind
  split at hrest
  · obtain ⟨others, u, -, hpure⟩ := hrest.exists_bind
    obtain ⟨rfl, -⟩ := hpure.of_pure
    exact List.cons_ne_nil _ _
  · obtain ⟨rfl, -⟩ := Takes.of_pure hrest
    exact List.cons_ne_nil _ _

/-- A declaration of one declarator is that declarator between specifiers and a semicolon. -/
theorem declared_of_group {group : DeclarationGroup} {d : Declaration} (hv : v.Regular)
    (h : declarationGroup.Takes v group w) (hgroup : group.declarations = [d]) :
    ∃ found u x mark, specifiers.Takes v found u ∧ (declared found).Takes u d x ∧ u.Regular ∧
      x.Regular ∧ x.ahead = mark :: w.ahead ∧ mark.lexeme = .punctuator .semicolon ∧
      w = x.facing w.ahead := by
  obtain ⟨found, u, hspecifiers, hrest⟩ := h.exists_bind
  have hu : u.Regular := hv.orderly orderly_specifiers hspecifiers
  obtain ⟨ended, u', ⟨depth, hended⟩, hrest⟩ := hrest.exists_bind
  rcases acceptMark_ahead_of_read hu.unmarked hended with ⟨rfl, -⟩ | ⟨rfl, rfl⟩
  · -- Without a declarator nothing would be declared.
    obtain ⟨rfl, -⟩ := Takes.of_pure hrest
    cases hgroup
  · obtain ⟨declarator, u', hdeclarator, hrest⟩ := Takes.exists_bind hrest
    obtain ⟨list, y, hlist, hclose⟩ := hrest.exists_bind
    obtain ⟨first, x, hfirst, hmore⟩ := hlist.exists_bind
    have hdeclared : (declared found).Takes u first x := hdeclarator.bind hfirst
    have hx : x.Regular := hu.orderly (orderly_declared found) hdeclared
    obtain ⟨close, z, ⟨depth, hexpect⟩, hdone⟩ := hclose.exists_bind
    obtain ⟨rfl, rfl⟩ := hdone.of_pure
    obtain rfl : list = [d] := hgroup
    obtain ⟨more, y', ⟨depth, haccept⟩, hmore⟩ := hmore.exists_bind
    rcases acceptMark_ahead_of_read hx.unmarked haccept with ⟨rfl, -⟩ | ⟨rfl, rfl⟩
    · obtain ⟨others, y', hothers, hpure⟩ := Takes.exists_bind hmore
      obtain ⟨heq, -⟩ := hpure.of_pure
      obtain ⟨-, hnil⟩ := List.cons.inj heq
      exact absurd hnil (ne_nil_of_initDeclarators hothers.of_rule)
    · obtain ⟨heq, rfl⟩ := Takes.of_pure hmore
      obtain ⟨rfl, -⟩ := List.cons.inj heq
      obtain ⟨mark, rest, hahead, hkind, rfl⟩ := expectMark_ahead_of_read hx.unmarked hexpect
      exact ⟨found, u, x, mark, hspecifiers, hdeclared, hu, hx, hahead,
        View.lexeme_of_kind_mark hkind, rfl⟩

/-! ## Groups and external declarations -/

variable {group : DeclarationGroup} {found : Specifiers} {d : Declarator}

theorem acceptMark_of_takes {mark : Punctuator} {accepted : Bool}
    (h : (acceptMark mark).Takes v accepted w) (hv : v.taken = none) :
    (∃ piece rest, v.ahead = piece :: rest ∧ piece.lexeme = .punctuator mark) ∨
      accepted = false ∧ v = w := by
  obtain ⟨depth, hread⟩ := h
  rcases acceptMark_ahead_of_read hv hread with ⟨-, piece, rest, hahead, hkind, -⟩ | hnone
  · exact .inl ⟨piece, rest, hahead, View.lexeme_of_kind_mark hkind⟩
  · exact .inr hnone

/-- Behind the first declarator of a group comes an equals sign, a comma or a semicolon. -/
theorem follows_of_groupFrom (hv : v.taken = none) (h : (groupFrom found d).Takes v group w) :
    ∃ piece rest mark, v.ahead = piece :: rest ∧ piece.lexeme = .punctuator mark ∧
      mark ∈ [Punctuator.assign, .comma, .semicolon] := by
  obtain ⟨list, y, hlist, hclose⟩ := h.exists_bind
  obtain ⟨first, x, hfirst, hmore⟩ := hlist.exists_bind
  -- The name is declared, which leaves the lexemes as they are.
  have hinit : (∃ piece rest, v.ahead = piece :: rest ∧ piece.lexeme = .punctuator .assign) ∨
      x.ahead = v.ahead ∧ x.taken = none := by
    unfold initDeclarator at hfirst
    split at hfirst
    · obtain ⟨depth, hread⟩ := hfirst
      cases hread
    · obtain ⟨⟨⟩, u, ⟨depth, hdeclare⟩, hrest⟩ := hfirst.exists_bind
      cases hdeclare
      obtain ⟨value, x', hinitial, hdone⟩ := hrest.exists_bind
      obtain ⟨-, rfl⟩ := hdone.of_pure
      unfold initial? at hinitial
      split at hinitial
      · obtain ⟨-, rfl⟩ := Takes.of_pure hinitial
        exact .inr ⟨rfl, hv⟩
      · obtain ⟨accepted, u, haccept, hrest⟩ := hinitial.exists_bind
        rcases acceptMark_of_takes haccept hv with hassign | ⟨rfl, rfl⟩
        · exact .inl hassign
        · obtain ⟨-, rfl⟩ := Takes.of_pure hrest
          exact .inr ⟨rfl, hv⟩
  rcases hinit with ⟨piece, rest, hahead, hlexeme⟩ | ⟨hahead, hx⟩
  · exact ⟨piece, rest, .assign, hahead, hlexeme, by decide⟩
  · rw [← hahead]
    obtain ⟨more, y', haccept, hmore⟩ := hmore.exists_bind
    rcases acceptMark_of_takes haccept hx with ⟨piece, rest, hcomma⟩ | ⟨rfl, rfl⟩
    · exact ⟨piece, rest, .comma, hcomma.1, hcomma.2, by decide⟩
    · obtain ⟨-, rfl⟩ := Takes.of_pure hmore
      obtain ⟨token, z, ⟨depth, hexpect⟩, -⟩ := hclose.exists_bind
      obtain ⟨piece, rest, hsemicolon, hkind, -⟩ := expectMark_ahead_of_read hx hexpect
      exact ⟨piece, rest, .semicolon, hsemicolon, View.lexeme_of_kind_mark hkind, by decide⟩

/-- An external declaration that is no function is a group. -/
theorem declarationGroup_of_external
    (h : externalDeclaration.Takes v (.declaration group) w) :
    declarationGroup.Takes v group w := by
  obtain ⟨found, u, hspecifiers, hrest⟩ := h.exists_bind
  obtain ⟨ended, u', hended, hrest⟩ := hrest.exists_bind
  refine hspecifiers.bind (hended.bind ?_)
  cases ended with
  | true =>
      obtain ⟨heq, rfl⟩ := Takes.of_pure hrest
      obtain rfl := ExternalDeclaration.declaration.inj heq
      exact Takes.pure
  | false =>
      obtain ⟨d, x, hdeclarator, hrest⟩ := Takes.exists_bind hrest
      refine Takes.bind hdeclarator ?_
      -- Where no function is defined, the rest is read by the rule for groups.
      have hgroup : ∀ {y : View}, (groupFrom found d >>= fun group =>
          pure (ExternalDeclaration.declaration group)).Takes y (.declaration group) w →
          (groupFrom found d).Takes y group w := by
        intro y hrest
        obtain ⟨group', z, hgroup, hpure⟩ := hrest.exists_bind
        obtain ⟨heq, rfl⟩ := hpure.of_pure
        obtain rfl := ExternalDeclaration.declaration.inj heq
        exact hgroup
      split at hrest
      · obtain ⟨brace, x', ⟨depth, hnext⟩, hrest⟩ := hrest.exists_bind
        have hfacing : (nextIsMark .openBrace).read (Parser.readAt depth) (x.facing x.ahead) =
            some (brace, x') := hnext
        obtain ⟨rfl, -⟩ := nextIs_of_read hfacing
        split at hrest
        · obtain ⟨f, z, -, hpure⟩ := hrest.exists_bind
          obtain ⟨heq, -⟩ := hpure.of_pure
          cases heq
        · exact hgroup hrest
      · exact hgroup hrest

/-- A group is an external declaration, since no body follows its first declarator. -/
theorem external_of_declarationGroup (hv : v.Regular) (h : declarationGroup.Takes v group w) :
    externalDeclaration.Takes v (.declaration group) w := by
  obtain ⟨found, u, hspecifiers, hrest⟩ := h.exists_bind
  have hu : u.Regular := hv.orderly orderly_specifiers hspecifiers
  obtain ⟨ended, u', hended, hrest⟩ := hrest.exists_bind
  have hu' : u'.Regular := hu.orderly (.accept _) hended
  refine hspecifiers.bind (hended.bind ?_)
  cases ended with
  | true =>
      obtain ⟨rfl, rfl⟩ := Takes.of_pure hrest
      exact Takes.pure
  | false =>
      obtain ⟨d, x, hdeclarator, hgroup⟩ := Takes.exists_bind hrest
      have hx : x.Regular := hu'.orderly (orderly_declarator .named) hdeclarator
      refine Takes.bind hdeclarator ?_
      split
      · obtain ⟨piece, rest, mark, hahead, hlexeme, hmark⟩ :=
          follows_of_groupFrom hx.unmarked hgroup
        -- Behind the declarator stands a mark of the group, which is no brace.
        have hbrace : decide (x.kind piece = .punctuator .openBrace) = false := by
          rw [View.kind_of_mark hlexeme, decide_eq_false_iff_not]
          rintro ⟨⟩
          simp at hmark
        have hnext : (nextIsMark .openBrace).Takes x false x := by
          rw [← hbrace]
          have htakes : (nextIsMark .openBrace).Takes (x.facing (piece :: rest))
              (decide (x.kind piece = .punctuator .openBrace)) (x.facing (piece :: rest)) :=
            Takes.nextIs
          rwa [← hahead] at htakes
        exact hnext.bind (hgroup.bind Takes.pure)
      · exact hgroup.bind Takes.pure

end Grammar

/-! ## Declarations in front of other separators -/

/-- The lexemes come next where the table is in force, and no mark is outstanding. -/
def View.showing (T : SymbolTable) (ending : Except ParseError Position)
    (ahead : List Piece) : View :=
  { ahead := ahead, ending := ending, table := T, taken := none }

theorem Seam.across_eq (σ : Seam) {v : View} {front : List Piece} (hv : v.taken = none) :
    σ.across v front = .showing v.table σ.ending (front ++ σ.other :: σ.otherRest) := by
  rw [across, View.showing, hv]

/-- What is taken off a view up to the seam is taken off in front of the other separator too. -/
theorem Script.Takes.across {α : Type} {prog : Script α} {σ : Seam} {touches : Bool} {v w : View}
    {front after : List Piece} {a : α} (h : prog.Takes v a w)
    (hlocal : ∀ depth, prog.Local σ depth touches) (hv : v.taken = none)
    (hahead : v.ahead = front ++ σ.mark :: σ.rest) (hbehind : w.ahead = after ++ σ.mark :: σ.rest)
    (hafter : touches = false → after ≠ []) :
    prog.Takes (.showing v.table σ.ending (front ++ σ.other :: σ.otherRest)) a
      (.showing w.table σ.ending (after ++ σ.other :: σ.otherRest)) := by
  obtain ⟨depth, hread⟩ := h
  have hw : w.taken = none := (hlocal depth).unmarked hv hread
  rw [σ.eq_before hahead] at hread
  have htakes := (hlocal depth).across hv hread hbehind hafter
  rwa [σ.across_eq hv, σ.across_eq hw] at htakes

/-- What stands behind the declarators of a list. -/
def Lexeme.Separates (w : Lexeme) : Prop :=
  w = .punctuator .semicolon ∨ w = .punctuator .comma

/-- The first lexemes are read as specifiers that denote the words, and the others as the declarator
of the declaration, which leaves the second table.  Behind them there may be either separator and
any text. -/
structure Portable (words : List Keyword) (T U : SymbolTable) (keywords front : List Piece)
    (d : Declaration) : Prop where
  specifiers : ∀ (other : Piece) (tail : List Piece) (ending : Except ParseError Position),
    other.lexeme.Separates → ∃ found : Specifiers, found.Denotes words ∧
      Grammar.specifiers.Takes (.showing T ending (keywords ++ (front ++ other :: tail))) found
        (.showing T ending (front ++ other :: tail))
  declared : ∀ (found : Specifiers) (other : Piece) (tail : List Piece)
    (ending : Except ParseError Position), found.Denotes words → other.lexeme.Separates →
      (Grammar.declared found).Takes (.showing T ending (front ++ other :: tail)) d
        (.showing U ending (other :: tail))

/-- If the lexemes of keywords are all that is read as specifiers, the specifiers denote them. -/
theorem Grammar.denotes_of_lexemes {v u : View} {words : List Keyword} {found : Specifiers}
    (hv : v.Regular) (hwords : ∀ word ∈ words, word.isSpecifier = true)
    (h : specifiers.Takes v found u)
    (hahead : v.ahead.map (·.lexeme) = words.map Lexeme.keyword ++ u.ahead.map (·.lexeme)) :
    ∃ keywords, keywords ++ u.ahead = v.ahead ∧
      keywords.map (·.lexeme) = words.map Lexeme.keyword ∧ found.Denotes words ∧
      u.table = v.table := by
  have hu : u.Regular := hv.orderly orderly_specifiers h
  obtain ⟨keywords, hkeywords⟩ := h.exists_front hv.unmarked hu.unmarked
  have hspelled : keywords.map (·.lexeme) = words.map Lexeme.keyword := by
    rw [← hkeywords, List.map_append] at hahead
    exact List.append_cancel_right hahead
  have htakes : specifiers.Takes (v.facing (keywords ++ u.ahead)) found u := by
    rw [hkeywords]
    exact h
  obtain ⟨hdenotes, hview⟩ :=
    denotes_of_takes hv (hv.kinds_of_keywords hspelled) hwords htakes rfl
  refine ⟨keywords, hkeywords, hspelled, hdenotes, ?_⟩
  rw [hview]
  rfl

/-- A declaration of one declarator behind keywords can be read in front of either separator. -/
theorem Portable.of_group {v u w : View} {words : List Keyword} {lexemes : List Lexeme}
    {group : DeclarationGroup} {d : Declaration} {found : Specifiers} (hv : v.Regular)
    (hwords : ∀ word ∈ words, word.isSpecifier = true)
    (hspecifiers : Grammar.specifiers.Takes v found u)
    (hahead : v.ahead.map (·.lexeme) = words.map Lexeme.keyword ++ u.ahead.map (·.lexeme))
    (hbehind : u.ahead.map (·.lexeme) =
      lexemes ++ .punctuator .semicolon :: w.ahead.map (·.lexeme))
    (hgroup : Grammar.declarationGroup.Takes v group w) (hsingle : group.declarations = [d]) :
    ∃ keywords front rest, v.ahead = keywords ++ front ++ rest ∧
      keywords.map (·.lexeme) = words.map Lexeme.keyword ∧ front.map (·.lexeme) = lexemes ∧
      Portable words v.table w.table keywords front d := by
  obtain ⟨found', u', x, mark, hspecifiers', hdeclared, hu, hx, hmark, hsemicolon, hw⟩ :=
    Grammar.declared_of_group hv hgroup hsingle
  obtain ⟨rfl, rfl⟩ := hspecifiers.unique hspecifiers'
  -- The lexemes ahead are cut where the two readings end.
  obtain ⟨keywords, hkeywords, hspelled, hdenotes, hutable⟩ :=
    Grammar.denotes_of_lexemes hv hwords hspecifiers hahead
  obtain ⟨front, hfront⟩ := hdeclared.exists_front hu.unmarked hx.unmarked
  rw [hmark] at hfront
  have hlexemes : front.map (·.lexeme) = lexemes := by
    rw [← hfront, List.map_append, List.map_cons, hsemicolon] at hbehind
    exact List.append_cancel_right hbehind
  have hne : front ≠ [] := by
    rintro rfl
    obtain ⟨token, htoken, hopens⟩ := Grammar.token?_of_declared hdeclared
    have hkind : u.kind mark = .punctuator .semicolon := View.kind_of_mark hsemicolon
    rw [View.token?, ← hfront] at htoken
    rw [← Option.some_inj.1 htoken, View.kind_next, hkind] at hopens
    cases hopens
  have hvahead : v.ahead = keywords ++ front ++ mark :: w.ahead := by
    rw [List.append_assoc, hfront, hkeywords]
  have hwtable : x.table = w.table := by
    rw [hw]
    rfl
  refine ⟨keywords, front, mark :: w.ahead, hvahead, hspelled, hlexemes, ?_, ?_⟩
  · intro other tail ending hseparates
    let σ : Seam := ⟨mark, w.ahead, other, tail, ending, hsemicolon, hseparates⟩
    have htakes := hspecifiers.across (fun depth => Grammar.local_specifiers (σ.calls depth))
      hv.unmarked hvahead hfront.symm fun _ => hne
    rw [hutable, List.append_assoc] at htakes
    exact ⟨found, hdenotes, htakes⟩
  · intro found' other tail ending hfound' hseparates
    let σ : Seam := ⟨mark, w.ahead, other, tail, ending, hsemicolon, hseparates⟩
    have hseam : x.ahead = [] ++ σ.mark :: σ.rest := hmark
    have htakes := hdeclared.across (fun depth => Grammar.local_declared (σ.calls depth) found)
      hu.unmarked hfront.symm hseam fun hopen => Bool.noConfusion hopen
    rw [hutable, hwtable] at htakes
    exact Grammar.takes_declared_of_denotes hdenotes hfound' htakes

end CSyntax
