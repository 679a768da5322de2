import CSyntax.Proofs.Expression.Strings
import CSyntax.Proofs.Grouping.Groups
import CSyntax.Proofs.Prefix.Texts

/-!
# Lists — declarations one by one and declarators in a list

Declarations of one declarator each that begin with the same specifiers mean the same as one
declaration with the declarators in a list (`Parser.listed_of_separate`).  Every name is declared
before the next declarator is read, on either way, and no type of one declarator gets into another.

* `Listing.Accepts` — a declaration is read as an item of a unit or of a block;
* `DeclaredAlone` — specifiers, one declarator and a semicolon come next, and are read as such;
* `Separately` — declarations of this kind are read one behind the other;
* `Grouped` — specifiers and declarators with commas in between that are read as a list.
-/

namespace CSyntax

open Script

/-! ## Declarations with commas in between -/

/-- The first lexemes are read as specifiers that denote the words, and the others as the declarators
of the declarations, up to a semicolon.  The second table is left. -/
structure Grouped (words : List Keyword) (T U : SymbolTable) (keywords pieces : List Piece)
    (ds : List Declaration) : Prop where
  specifiers : ∀ (mark : Piece) (tail : List Piece) (ending : Except ParseError Position),
    mark.lexeme = .punctuator .semicolon → ∃ found : Specifiers, found.Denotes words ∧
      Grammar.specifiers.Takes (.showing T ending (keywords ++ (pieces ++ mark :: tail))) found
        (.showing T ending (pieces ++ mark :: tail))
  declarators : ∀ (found : Specifiers) (mark : Piece) (tail : List Piece)
    (ending : Except ParseError Position), found.Denotes words →
      mark.lexeme = .punctuator .semicolon →
      (Grammar.initDeclarators found).Takes (.showing T ending (pieces ++ mark :: tail)) ds
        (.showing U ending (mark :: tail))

/-- What is not the next token is not taken. -/
theorem Script.Takes.accept_other {v : View} {token : Token} {kind : TokenKind}
    (htoken : v.token? 0 = some token) (hkind : token.kind ≠ kind) :
    (Script.accept kind).Takes v false v := by
  have hpeek : Script.peek.Takes v token v :=
    request (r := .peek 0) (by rw [View.perform, htoken]; rfl) pure
  have hnext : (Script.nextIs kind).Takes v (decide (token.kind = kind)) v := hpeek.bind pure
  refine hnext.bind ?_
  rw [if_neg (by simpa using hkind)]
  exact pure

namespace Grouped

variable {words : List Keyword} {T U V : SymbolTable} {keywords front pieces others : List Piece}
  {d : Declaration} {ds : List Declaration} {comma mark : Piece}

theorem single (h : Portable words T U keywords front d) :
    Grouped words T U keywords front [d] where
  specifiers mark tail ending hmark := h.specifiers mark tail ending (.inl hmark)
  declarators found mark tail ending hfound hmark := by
    have hkind : (View.showing U ending (mark :: tail)).kind mark ≠ .punctuator .comma := by
      rw [View.kind_of_mark hmark]
      decide
    have htoken : (View.showing U ending (mark :: tail)).token? 0 =
        some ((View.showing U ending (mark :: tail)).next mark) := rfl
    have hcomma : (acceptMark .comma).Takes (.showing U ending (mark :: tail)) false
        (.showing U ending (mark :: tail)) := .accept_other htoken hkind
    obtain ⟨declarator, v, hdeclarator, hinit⟩ :=
      (h.declared found mark tail ending hfound (.inl hmark)).exists_bind
    exact hdeclarator.bind (hinit.bind (hcomma.bind Takes.pure))

/-- One more declarator is read in front of the comma. -/
theorem cons (hcomma : comma.lexeme = .punctuator .comma)
    (h : Portable words T U keywords front d) (hothers : Grouped words U V others pieces ds) :
    Grouped words T V keywords (front ++ comma :: pieces) (d :: ds) where
  specifiers mark tail ending _ := by
    rw [List.append_assoc, List.cons_append]
    exact h.specifiers comma (pieces ++ mark :: tail) ending (.inr hcomma)
  declarators found mark tail ending hfound hmark := by
    have haccept : (acceptMark .comma).Takes (.showing U ending (comma :: (pieces ++ mark :: tail)))
        true (.showing U ending (pieces ++ mark :: tail)) :=
      Takes.accept (v := .showing U ending []) rfl (View.kind_of_mark hcomma)
    have hrule : (rule (.initDeclarators found)).Takes
        (.showing U ending (pieces ++ mark :: tail)) ds
        (.showing V ending (mark :: tail)) :=
      .rule (hothers.declarators found mark tail ending hfound hmark)
    obtain ⟨declarator, v, hdeclarator, hinit⟩ := (h.declared found comma
      (pieces ++ mark :: tail) ending hfound (.inr hcomma)).exists_bind
    rw [List.append_assoc, List.cons_append]
    exact hdeclarator.bind (hinit.bind (haccept.bind (hrule.bind Takes.pure)))

/-- Specifiers and declarators in a list are one group. -/
theorem takes (h : Grouped words T U keywords pieces ds) (tail : List Piece)
    (ending : Except ParseError Position) (hmark : mark.lexeme = .punctuator .semicolon) :
    ∃ group, Grammar.declarationGroup.Takes
        (.showing T ending (keywords ++ (pieces ++ mark :: tail))) group (.showing U ending tail) ∧
      group.declarations = ds := by
  obtain ⟨found, hfound, hspecifiers⟩ := h.specifiers mark tail ending hmark
  obtain ⟨declarator, v, hdeclarator, hlist⟩ :=
    (h.declarators found mark tail ending hfound hmark).exists_bind
  -- A declarator comes next, so there is no semicolon.
  obtain ⟨token, htoken, hopens⟩ := token?_of_declarator hdeclarator
  have hended : (acceptMark .semicolon).Takes (.showing T ending (pieces ++ mark :: tail)) false
      (.showing T ending (pieces ++ mark :: tail)) := by
    refine .accept_other htoken fun hkind => ?_
    rw [hkind] at hopens
    cases hopens
  have hclose : (expectMark .semicolon).Takes (.showing U ending (mark :: tail)) _
      (.showing U ending tail) :=
    Takes.expect (v := .showing U ending []) rfl (View.kind_of_mark hmark)
  exact ⟨_, hspecifiers.bind (hended.bind (hdeclarator.bind
    (hlist.bind (hclose.bind Takes.pure)))), rfl⟩

end Grouped

/-! ## Declarations at the level of the file and in blocks -/

/-- The lexemes that come next in a state. -/
def ParserState.lexemes (s : ParserState) : List Lexeme :=
  s.view.ahead.map (·.lexeme)

/-- The lists in which declarations stand one behind the other: a unit, or the items of a block. -/
inductive Listing
  | unit
  | block

/-- A declaration is read as the next item of the list. -/
inductive Listing.Accepts : Listing → ParserState → DeclarationGroup → ParserState → Prop
  | unit {s t : ParserState} {group : DeclarationGroup} :
      (Script.peek >>= fun _ => Grammar.externalDeclaration).Yields s (.declaration group) t →
      Accepts .unit s group t
  | block {s t : ParserState} {group : DeclarationGroup} {position : Position} :
      (Script.peek >>= Grammar.blockItem).Yields s (.declaration position group) t →
      Accepts .block s group t

namespace Script

variable {α : Type} {origin : Source} {prog : Script α} {P : α → Prop} {s t : ParserState} {a : α}

/-- What a script yields in a run it takes off the view. -/
theorem Yields.takes (h : prog.Yields s a t) (horderly : prog.Orderly P) (hs : s.Sound origin)
    (hm : s.isMarked = false) : prog.Takes s.view a t.view := by
  obtain ⟨enough, hrun⟩ := h
  exact takes_of_run horderly hs hm (hrun enough (Nat.le_refl _))

theorem yields_of_run {depth : Nat} (h : prog.run (Parser.runAt depth) s = (.ok a, t)) :
    prog.Yields s a t :=
  ⟨depth, fun _ hle => run_mono (fun _ _ _ _ hx => Parser.runAt_mono hle hx) h⟩

/-- A script that keeps the discipline leaves a sound state without a mark. -/
theorem Yields.sound (h : prog.Yields s a t) (horderly : prog.Orderly P) (hs : s.Sound origin)
    (hm : s.isMarked = false) : t.Sound origin ∧ t.isMarked = false := by
  obtain ⟨enough, hrun⟩ := h
  have hmeets : prog.Meets discipline s.isMarked fun value after _ => after = false ∧ P value := by
    rw [hm]
    exact horderly
  obtain ⟨hsound, R, hunmarked, -⟩ :=
    (Contract.sound_script valid_discipline Parser.models_discipline hs hmeets).2 a t
      (hrun enough (Nat.le_refl _))
  exact ⟨hsound, hunmarked⟩

end Script

namespace Listing

variable {origin : Source} {s t : ParserState} {group : DeclarationGroup} {listing : Listing}

theorem orderly_unit :
    (Script.peek >>= fun _ => Grammar.externalDeclaration).Orderly fun _ => True :=
  Orderly.peek.bind fun _ _ => Grammar.orderly_externalDeclaration

theorem orderly_block : (Script.peek >>= Grammar.blockItem).Orderly fun _ => True :=
  Orderly.peek.bind fun token _ => Grammar.orderly_blockItem token

theorem Accepts.sound (h : listing.Accepts s group t) (hs : s.Sound origin)
    (hm : s.isMarked = false) : t.Sound origin ∧ t.isMarked = false := by
  cases h with
  | unit hyields => exact hyields.sound orderly_unit hs hm
  | block hyields => exact hyields.sound orderly_block hs hm

/-- A declaration in either list is read by the rule for groups, if a specifier comes next. -/
theorem Accepts.takes {token : Token} (h : listing.Accepts s group t) (hs : s.Sound origin)
    (hm : s.isMarked = false) (htoken : s.view.token? 0 = some token)
    (hstarts : token.kind.startsDeclaration = true) :
    Grammar.declarationGroup.Takes s.view group t.view := by
  cases h with
  | unit hyields =>
      obtain ⟨first, u, ⟨depth, hpeek⟩, hdeclaration⟩ :=
        (hyields.takes orderly_unit hs hm).exists_bind
      obtain ⟨rfl, -⟩ := peek_of_read hpeek
      exact Grammar.declarationGroup_of_external hdeclaration
  | block hyields =>
      obtain ⟨first, u, ⟨depth, hpeek⟩, hitem⟩ := (hyields.takes orderly_block hs hm).exists_bind
      obtain ⟨rfl, hfirst⟩ := peek_of_read hpeek
      obtain rfl : token = first := Option.some_inj.1 (htoken.symm.trans hfirst)
      unfold Grammar.blockItem at hitem
      rw [if_pos hstarts] at hitem
      obtain ⟨group', w, hgroup, hpure⟩ := hitem.exists_bind
      obtain ⟨heq, rfl⟩ := hpure.of_pure
      obtain ⟨-, rfl⟩ := Statement.declaration.inj heq
      exact hgroup

/-- What the rule for groups reads is read as a declaration in either list. -/
theorem exists_accepts {w : View} {token : Token} (listing : Listing) (hs : s.Sound origin)
    (hm : s.isMarked = false) (htoken : s.view.token? 0 = some token)
    (hstarts : token.kind.startsDeclaration = true)
    (h : Grammar.declarationGroup.Takes s.view group w) :
    ∃ t, listing.Accepts s group t ∧ t.view = w := by
  have hpeek : Script.peek.Takes s.view token s.view :=
    Takes.request (r := .peek 0) (by rw [View.perform, htoken]; rfl) Takes.pure
  have hv : s.view.Regular := ⟨ParserState.taken_view hm, hs.table⟩
  cases listing with
  | unit =>
      obtain ⟨t, hyields, hview⟩ := yields_of_takes orderly_unit hs hm
        (hpeek.bind (Grammar.external_of_declarationGroup hv h))
      exact ⟨t, .unit hyields, hview⟩
  | block =>
      have hitem : (Grammar.blockItem token).Takes s.view
          (.declaration token.position group) w := by
        unfold Grammar.blockItem
        rw [if_pos hstarts]
        exact h.bind Takes.pure
      obtain ⟨t, hyields, hview⟩ := yields_of_takes orderly_block hs hm (hpeek.bind hitem)
      exact ⟨t, .block hyields, hview⟩

end Listing

/-! ## Declarations one behind the other -/

/-- The words, the lexemes and a semicolon come next.  The words are read as specifiers, and all of
it as a declaration of one declarator, which is thus written by the lexemes. -/
structure DeclaredAlone (listing : Listing) (words : List Keyword) (s : ParserState)
    (lexemes : List Lexeme) (d : Declaration) (t : ParserState) : Prop where
  ahead : s.lexemes =
    words.map Lexeme.keyword ++ (lexemes ++ .punctuator .semicolon :: t.lexemes)
  specifiers : ∃ found u, Grammar.specifiers.Yields s found u ∧
    u.lexemes = lexemes ++ .punctuator .semicolon :: t.lexemes
  group : ∃ group, listing.Accepts s group t ∧ group.declarations = [d]

/-- From the first state on, declarations of one declarator each are read one behind the other, all
of them behind the same words. -/
inductive Separately (listing : Listing) (words : List Keyword) :
    ParserState → List (List Lexeme) → List Declaration → ParserState → Prop
  | nil {s : ParserState} : Separately listing words s [] [] s
  | cons {s t u : ParserState} {lexemes : List Lexeme} {others : List (List Lexeme)}
      {d : Declaration} {ds : List Declaration} : DeclaredAlone listing words s lexemes d t →
      Separately listing words t others ds u →
      Separately listing words s (lexemes :: others) (d :: ds) u

/-! ### Reading with a given depth -/

namespace Listing

variable {listing : Listing} {words : List Keyword} {depth : Nat} {s t : ParserState}

/-- Reads the next declaration of the list, with calls nested to the depth. -/
def accept? (depth : Nat) (s : ParserState) : Listing → Option (DeclarationGroup × ParserState)
  | .unit =>
      match (Script.peek >>= fun _ => Grammar.externalDeclaration).run (Parser.runAt depth) s with
      | (.ok (.declaration group), t) => some (group, t)
      | _ => none
  | .block =>
      match (Script.peek >>= Grammar.blockItem).run (Parser.runAt depth) s with
      | (.ok (.declaration _ group), t) => some (group, t)
      | _ => none

/-- Reads a declaration that the lexemes write on their own. -/
def declaredAlone? (listing : Listing) (words : List Keyword) (depth : Nat)
    (s : ParserState) (lexemes : List Lexeme) : Option (Declaration × ParserState) :=
  match Grammar.specifiers.run (Parser.runAt depth) s, listing.accept? depth s with
  | (.ok _, u), some ({ declarations := [d], .. }, t) =>
      let behind := lexemes ++ .punctuator .semicolon :: t.lexemes
      if s.lexemes = words.map Lexeme.keyword ++ behind ∧ u.lexemes = behind then some (d, t)
      else none
  | _, _ => none

/-- Reads declarations one behind the other, each as the lexemes write it. -/
def separately? (listing : Listing) (words : List Keyword) (depth : Nat) :
    ParserState → List (List Lexeme) → Option (List Declaration × ParserState)
  | s, [] => some ([], s)
  | s, lexemes :: others => do
      let (d, t) ← listing.declaredAlone? words depth s lexemes
      let (ds, u) ← listing.separately? words depth t others
      return (d :: ds, u)

theorem accepts_of_accept? {group : DeclarationGroup}
    (h : listing.accept? depth s = some (group, t)) : listing.Accepts s group t := by
  cases listing with
  | unit =>
      simp only [accept?] at h
      split at h
      · rename_i group' t' hrun
        cases h
        exact .unit (Script.yields_of_run hrun)
      · cases h
  | block =>
      simp only [accept?] at h
      split at h
      · rename_i position group' t' hrun
        cases h
        exact .block (Script.yields_of_run hrun)
      · cases h

theorem declaredAlone_of_declaredAlone? {lexemes : List Lexeme} {d : Declaration}
    (h : listing.declaredAlone? words depth s lexemes = some (d, t)) :
    DeclaredAlone listing words s lexemes d t := by
  unfold declaredAlone? at h
  split at h
  · rename_i found u base d' position t' hrun haccept
    obtain ⟨⟨hahead, hbehind⟩, heq⟩ := Option.ite_none_right_eq_some.1 h
    cases heq
    exact ⟨hahead, ⟨found, u, Script.yields_of_run hrun, hbehind⟩, _,
      accepts_of_accept? haccept, rfl⟩
  · cases h

theorem separately_of_separately? {lexemes : List (List Lexeme)} {ds : List Declaration}
    (h : listing.separately? words depth s lexemes = some (ds, t)) :
    Separately listing words s lexemes ds t := by
  induction lexemes generalizing s ds with
  | nil =>
      cases h
      exact .nil
  | cons lexemes others ih =>
      obtain ⟨⟨d, u⟩, halone, hrest⟩ := Option.bind_eq_some_iff.1 h
      obtain ⟨⟨ds', u'⟩, hothers, heq⟩ := Option.bind_eq_some_iff.1 hrest
      cases heq
      exact .cons (declaredAlone_of_declaredAlone? halone) (ih hothers)

end Listing

namespace ParserState

variable {origin : Source} {s : ParserState} {words : List Keyword} {lexemes : List Lexeme}

theorem Sound.readable {piece : Piece} (hs : s.Sound origin) (hpiece : piece ∈ s.view.ahead) :
    piece.lexeme.Readable := by
  obtain ⟨cs, n, hscan⟩ := hs.exists_scan hpiece
  exact Lexeme.readable_of_scan hscan

/-- Where a specifier comes next, so does the beginning of a declaration. -/
theorem exists_startsDeclaration (hs : s.Sound origin)
    (hwords : ∀ word ∈ words, word.isSpecifier = true) (hne : words ≠ [])
    (hahead : s.lexemes = words.map Lexeme.keyword ++ lexemes) :
    ∃ token, s.view.token? 0 = some token ∧ token.kind.startsDeclaration = true := by
  obtain ⟨word, others, rfl⟩ := List.exists_cons_of_ne_nil hne
  obtain ⟨piece, rest, hpieces, hpiece, -⟩ := List.map_eq_cons_iff.1 hahead
  refine ⟨s.view.next piece, by rw [View.token?, hpieces]; rfl, ?_⟩
  have hword := hwords word List.mem_cons_self
  rw [View.kind_next, View.kind_of_word hs.table hpiece]
  simp only [Keyword.isSpecifier, Bool.or_eq_true] at hword
  simp only [TokenKind.startsDeclaration, Keyword.startsDeclaration, Keyword.startsTypeName,
    Bool.or_eq_true]
  tauto

end ParserState

/-! ## Lists of declarators -/

section

variable {origin : Source} {listing : Listing} {words : List Keyword} {s t : ParserState}
  {lexemes : List Lexeme} {d : Declaration}

/-- Specifiers are never missing. -/
theorem Specifiers.Denotes.ne_nil {found : Specifiers} (h : found.Denotes words) : words ≠ [] := by
  rintro rfl
  obtain ⟨name, -, hname⟩ := h.base
  cases hname.canonical?_eq

theorem DeclaredAlone.sound (h : DeclaredAlone listing words s lexemes d t) (hs : s.Sound origin)
    (hm : s.isMarked = false) : t.Sound origin ∧ t.isMarked = false := by
  obtain ⟨group, haccepts, -⟩ := h.group
  exact haccepts.sound hs hm

/-- A declaration of one declarator can be read in front of either separator. -/
theorem DeclaredAlone.portable (h : DeclaredAlone listing words s lexemes d t)
    (hs : s.Sound origin) (hm : s.isMarked = false)
    (hwords : ∀ word ∈ words, word.isSpecifier = true) :
    words ≠ [] ∧ ∃ keywords front rest, s.view.ahead = keywords ++ front ++ rest ∧
      keywords.map (·.lexeme) = words.map Lexeme.keyword ∧ front.map (·.lexeme) = lexemes ∧
      Portable words s.table t.table keywords front d := by
  have hv : s.view.Regular := ⟨ParserState.taken_view hm, hs.table⟩
  obtain ⟨found, u, hyields, hbehind⟩ := h.specifiers
  obtain ⟨group, haccepts, hsingle⟩ := h.group
  have hspecifiers := hyields.takes Grammar.orderly_specifiers hs hm
  have hahead : s.lexemes = words.map Lexeme.keyword ++ u.lexemes := by
    rw [h.ahead, hbehind]
  obtain ⟨-, -, -, hdenotes, -⟩ := Grammar.denotes_of_lexemes hv hwords hspecifiers hahead
  obtain ⟨token, htoken, hstarts⟩ :=
    ParserState.exists_startsDeclaration hs hwords hdenotes.ne_nil hahead
  exact ⟨hdenotes.ne_nil, Portable.of_group hv hwords hspecifiers hahead hbehind
    (haccepts.takes hs hm htoken hstarts) hsingle⟩

theorem Separately.sound {lexemes : List (List Lexeme)} {ds : List Declaration}
    (h : Separately listing words s lexemes ds t) (hs : s.Sound origin) (hm : s.isMarked = false) :
    t.Sound origin ∧ t.isMarked = false := by
  induction h with
  | nil => exact ⟨hs, hm⟩
  | cons halone _ ih => exact ih (halone.sound hs hm).1 (halone.sound hs hm).2

/-- Declarations one behind the other can be read as a list: all that is read of them but the words
in front of each, with commas instead of the semicolons in between. -/
theorem Separately.exists_grouped {lexemes : List (List Lexeme)} {ds : List Declaration}
    (h : Separately listing words s lexemes ds t) (hs : s.Sound origin) (hm : s.isMarked = false)
    (hwords : ∀ word ∈ words, word.isSpecifier = true) (hne : lexemes ≠ []) :
    words ≠ [] ∧ ∃ keywords pieces, (∀ piece ∈ keywords ++ pieces, piece.lexeme.Readable) ∧
      keywords.map (·.lexeme) = words.map Lexeme.keyword ∧
      pieces.map (·.lexeme) = [Lexeme.punctuator .comma].intercalate lexemes ∧
      Grouped words s.table t.table keywords pieces ds := by
  induction h with
  | nil => exact absurd rfl hne
  | @cons s t u lexemes others d ds halone hothers ih =>
      obtain ⟨hsome, keywords, front, rest, hahead, hspelled, hfront, hportable⟩ :=
        halone.portable hs hm hwords
      have hread : ∀ piece ∈ keywords ++ front, piece.lexeme.Readable := by
        intro piece hpiece
        exact hs.readable (hahead ▸ List.mem_append_left rest hpiece)
      refine ⟨hsome, ?_⟩
      -- The last declaration keeps its semicolon, and all others get a comma instead.
      cases hothers with
      | nil => exact ⟨keywords, front, hread, hspelled, by simpa using hfront, .single hportable⟩
      | @cons _ _ _ next others _ _ hnext htail =>
          obtain ⟨ht, htm⟩ := halone.sound hs hm
          obtain ⟨-, keywords', pieces, hread', -, hpieces, hgrouped⟩ :=
            ih ht htm (List.cons_ne_nil _ _)
          refine ⟨keywords, front ++ (Lexeme.punctuator .comma).piece :: pieces, ?_, hspelled, ?_,
            .cons rfl hportable hgrouped⟩
          · rw [← List.append_assoc, List.forall_mem_append, List.forall_mem_cons]
            refine ⟨hread, nofun, fun piece hpiece => ?_⟩
            exact hread' piece (List.mem_append_right keywords' hpiece)
          · rw [List.map_append, List.map_cons, hfront, hpieces]
            rfl

end

namespace Parser

/-- Declarations of one declarator each, all of them behind the same words and read one behind the
other, mean the same as one declaration with the declarators in a list.  It is read as one group of
those declarations, equal but for positions, and the same names are declared with the same types. -/
theorem listed_of_separate {origin origin' : Source} {listing : Listing} {words : List Keyword}
    {lexemes : List (List Lexeme)} {ds : List Declaration} {s t s' : ParserState}
    (hs : s.Sound origin) (hm : s.isMarked = false) (hs' : s'.Sound origin')
    (hm' : s'.isMarked = false) (htable : s.table = s'.table)
    (hwords : ∀ word ∈ words, word.isSpecifier = true) (hne : lexemes ≠ [])
    (h : Separately listing words s lexemes ds t)
    (hahead : s'.lexemes = words.map Lexeme.keyword ++
      ([Lexeme.punctuator .comma].intercalate lexemes ++ .punctuator .semicolon :: t.lexemes)) :
    ∃ group t', listing.Accepts s' group t' ∧
      Alike (List.map Declaration.erase) ds group.declarations ∧ t'.lexemes = t.lexemes ∧
      Alike SymbolTable.erase t.table t'.table := by
  obtain ⟨hsome, keywords, pieces, hread, hspelled, hpieces, hgrouped⟩ :=
    h.exists_grouped hs hm hwords hne
  -- The list is read off the lexemes of the single declarations first, with `t` behind them.
  let mark : Piece := (Lexeme.punctuator .semicolon).piece
  have hmark : mark.lexeme = .punctuator .semicolon := rfl
  obtain ⟨group, htakes, rfl⟩ := hgrouped.takes t.view.ahead s'.view.ending hmark
  have hsame : (keywords ++ (pieces ++ mark :: t.view.ahead)).map (·.lexeme) = s'.lexemes := by
    rw [List.map_append, List.map_append, List.map_cons, hspelled, hpieces, hahead]
    rfl
  have hread' : ∀ piece ∈ keywords ++ (pieces ++ mark :: t.view.ahead), piece.lexeme.Readable := by
    rw [← List.append_assoc, List.forall_mem_append, List.forall_mem_cons]
    exact ⟨hread, nofun, fun piece => (h.sound hs hm).1.readable⟩
  have hends : Correspondence.everywhere.Endings s'.view.ending s'.view.ending := by
    cases s'.view.ending with
    | ok p => exact .ok trivial
    | error e => exact .error trivial
  have hviews : Correspondence.everywhere.Views
      (.showing s.table s'.view.ending (keywords ++ (pieces ++ mark :: t.view.ahead))) s'.view :=
    Correspondence.everywhere_views (List.forall_mem_map.2 hread') hsame hends htable rfl
      (ParserState.taken_view hm')
  obtain ⟨group', w', htakes', hgroup, hviews'⟩ :=
    exists_takes_of_sync Grammar.sync_declarationGroup hviews rfl htakes
  obtain ⟨token, htoken, hstarts⟩ :=
    ParserState.exists_startsDeclaration hs' hwords hsome hahead
  obtain ⟨t', haccepts, rfl⟩ := listing.exists_accepts hs' hm' htoken hstarts htakes'
  refine ⟨group', t', haccepts, ?_, ?_, hviews'.table⟩
  · exact congrArg DeclarationGroup.declarations hgroup
  · exact hviews'.lexemes_eq

/-- The second declarator of a list asks for the size of the type that the first one names. -/
theorem listed_of_separate_sizeof :
    ∃ ds t, Separately .unit [.typedef, .int]
        (.ofSource (.ofString "typedef int T; typedef int U[sizeof(T)];" none))
        [[.word "T"], [.word "U", .punctuator .openBracket, .word "sizeof", .punctuator .openParen,
          .word "T", .punctuator .closeParen, .punctuator .closeBracket]] ds t ∧
      ∃ group t', Listing.unit.Accepts
          (.ofSource (.ofString "typedef int T, U[sizeof(T)];" none)) group t' ∧
        Alike (List.map Declaration.erase) ds group.declarations ∧ t'.lexemes = t.lexemes ∧
        Alike SymbolTable.erase t.table t'.table := by
  have hs := ParserState.sound_ofSource (.ofString "typedef int T; typedef int U[sizeof(T)];" none)
  have hs' := ParserState.sound_ofSource (.ofString "typedef int T, U[sizeof(T)];" none)
  have hread : (Listing.separately? .unit [.typedef, .int] 9
      (.ofSource (.ofString "typedef int T; typedef int U[sizeof(T)];" none))
      [[.word "T"], [.word "U", .punctuator .openBracket, .word "sizeof", .punctuator .openParen,
        .word "T", .punctuator .closeParen, .punctuator .closeBracket]]).any (fun result =>
      (ParserState.ofSource (.ofString "typedef int T, U[sizeof(T)];" none)).lexemes =
        [Keyword.typedef, .int].map Lexeme.keyword ++ ([Lexeme.punctuator .comma].intercalate
          [[.word "T"], [.word "U", .punctuator .openBracket, .word "sizeof",
            .punctuator .openParen, .word "T", .punctuator .closeParen,
            .punctuator .closeBracket]] ++ .punctuator .semicolon :: result.2.lexemes)) = true := by
    decide +kernel
  obtain ⟨⟨ds, t⟩, hresult, hahead⟩ := (Option.any_eq_true _ _).1 hread
  have hseparate := Listing.separately_of_separately? hresult
  exact ⟨ds, t, hseparate, listed_of_separate hs rfl hs' rfl (Eq.refl SymbolTable.empty) (by decide)
    (List.cons_ne_nil _ _) hseparate (of_decide_eq_true hahead)⟩

end Parser

end CSyntax
