import CSyntax.Proofs.Declarator.Roundtrip
import CSyntax.Proofs.Statement.Notation

/-!
# Declarations — written declarations come back

A group of declarations over an arithmetic type is read back as it was written: the specifiers word
by word, then each declarator, whose name is declared before its initial value is read.

What a script can read begins as the rule asks for, so an expression and a declarator are told by
their first lexemes (`token?_of_expression`, `token?_of_declarator`).
-/

namespace CSyntax

open Script Grammar

/-! ## Lexemes as tokens -/

namespace View

variable {v : View} {piece : Piece} {T U : SymbolTable}

@[simp] theorem under_table (v : View) : v.under v.table = v := rfl

theorem kind_of_mark {mark : Punctuator} (h : piece.lexeme = .punctuator mark) :
    v.kind piece = .punctuator mark := by
  rw [kind, h]
  rfl

theorem kind_of_word {word : Keyword} (hfree : v.table.KeywordFree)
    (h : piece.lexeme = .keyword word) : v.kind piece = .keyword word := by
  rw [kind, h]
  exact kind_of_keyword hfree word piece.position

end View

/-! ## What readings begin with -/

theorem token?_of_postfixed {reader : Reader} {v w : View} {value : Expr}
    (h : postfixed.read reader v = some (value, w)) :
    ∃ token, v.token? 0 = some token ∧ token.kind.opensExpression = true := by
  obtain ⟨operand, u, hprimary, -⟩ := bind_of_read h
  obtain ⟨token, u, hpeek, hnext⟩ := bind_of_read hprimary
  obtain ⟨-, htoken⟩ := peek_of_read hpeek
  refine ⟨token, htoken, ?_⟩
  split at hnext
  case h_6 =>
    split at hnext
    · rename_i hopen
      rw [hopen]
      rfl
    · cases hnext
  all_goals
    rename_i hkind
    rw [hkind]
    rfl

/-- What is read as an expression begins like one. -/
theorem token?_of_expression {p : Precedence} {v w : View} {value : Expr}
    (h : (expression p).Takes v value w) :
    ∃ token, v.token? 0 = some token ∧ token.kind.opensExpression = true := by
  obtain ⟨depth, hread⟩ := h
  obtain ⟨operand, u, hunary, -⟩ := bind_of_read hread
  obtain ⟨token, u, hpeek, hnext⟩ := bind_of_read hunary
  obtain ⟨rfl, htoken⟩ := peek_of_read hpeek
  split at hnext
  · rename_i hkind
    exact ⟨token, htoken, by rw [hkind]; rfl⟩
  · rename_i hkind
    exact ⟨token, htoken, by rw [hkind]; rfl⟩
  · rename_i mark _ hkind
    refine ⟨token, htoken, ?_⟩
    cases hoperator : mark.unaryOperator? with
    | some operator => simp [hkind, TokenKind.opensExpression, hoperator]
    | none =>
        rw [hoperator] at hnext
        cases hnext
  · exact token?_of_postfixed hnext

namespace TokenKind

/-- Whether a declarator that has a name begins with the token. -/
def opensDeclarator : TokenKind → Bool
  | .identifier _ | .typeName _ => true
  | .punctuator .asterisk | .punctuator .openParen => true
  | _ => false

end TokenKind

theorem token?_of_declarator {v w : View} {d : Declarator}
    (h : (Grammar.declarator .named).Takes v d w) :
    ∃ token, v.token? 0 = some token ∧ token.kind.opensDeclarator = true := by
  obtain ⟨depth, hread⟩ := h
  obtain ⟨count, u, hpointers, hrest⟩ := bind_of_read hread
  obtain ⟨found, u', haccept, hpointers⟩ := bind_of_read hpointers
  obtain ⟨found', u'', hnext, haccept⟩ := bind_of_read haccept
  obtain ⟨rfl, token, htoken, rfl⟩ := nextIs_of_read hnext
  refine ⟨token, htoken, ?_⟩
  by_cases hstar : token.kind = .punctuator .asterisk
  · rw [hstar]
    rfl
  · -- There are no pointers, so the token is looked at as the core.
    rw [if_neg (by simpa using hstar)] at haccept
    obtain ⟨rfl, rfl⟩ := pure_of_read haccept
    obtain ⟨-, rfl⟩ := pure_of_read hpointers
    obtain ⟨core, u, hcore, -⟩ := bind_of_read hrest
    obtain ⟨token', u, hpeek, hcore⟩ := bind_of_read hcore
    obtain ⟨-, htoken'⟩ := peek_of_read hpeek
    obtain rfl : token = token' := Option.some_inj.1 (htoken.symm.trans htoken')
    split at hcore
    · rename_i hkind
      rw [hkind]
      rfl
    · rename_i hkind
      rw [hkind]
      rfl
    · rename_i hkind
      rw [hkind]
      rfl
    · cases hcore

/-! ## Specifiers -/

section

variable {v : View} {after pieces : List Piece}

theorem takes_specifier_modifier {tally : SpecifierTally} {word : Keyword} {piece : Piece}
    {others : List Piece} (hv : v.taken = none) (hkind : v.kind piece = .keyword word)
    (hword : word.isQualifier = true ∨ word.isStorageClass = true ∧ tally.hasStorageClass = false) :
    (specifier tally).Takes (v.facing (piece :: others)) (some (tally.addModifier word))
      (v.facing others) := by
  refine Takes.peek.bind ?_
  simp only [View.kind_next, hkind]
  by_cases hstorage : word.isStorageClass = true
  · have hclasses : word.isQualifier = false := by
      cases word <;> first | rfl | cases hstorage
    obtain ⟨-, hfirst⟩ := hword.resolve_left (by simp [hclasses])
    rw [if_pos hstorage, if_neg (by simp [hfirst])]
    exact (Takes.advance hv).bind Takes.pure
  · have hqualifier : word.isQualifier = true := hword.resolve_right fun h => hstorage h.1
    rw [if_neg hstorage, if_pos hqualifier]
    exact (Takes.advance hv).bind Takes.pure

/-- What modifiers leave as it is. -/
theorem SpecifierTally.addModifier_of_ne (tally : SpecifierTally) {word : Keyword}
    (hword : word ≠ .typedef) : (tally.addModifier word).words = tally.words ∧
      (tally.addModifier word).other = tally.other ∧
      (tally.addModifier word).isTypedef = tally.isTypedef := by
  cases word <;> first | exact ⟨rfl, rfl, rfl⟩ | exact absurd rfl hword

theorem SpecifierTally.hasStorageClass_addModifier {tally : SpecifierTally} {word : Keyword}
    (hword : word.isStorageClass = false) :
    (tally.addModifier word).hasStorageClass = tally.hasStorageClass := by
  cases word <;> first | rfl | cases hword

/-- Storage classes and qualifiers in front of the words of an arithmetic type. -/
theorem takes_specifierTail_modifiers {front words : List Keyword} (tally : SpecifierTally)
    (hv : v.taken = none) (hfree : v.table.KeywordFree) (hafter : v.EndsSpecifiers after)
    (hpieces : pieces.map (·.lexeme) = (front ++ words).map Lexeme.keyword)
    (hfront : ModifierWords front) (hwords : words ∈ ArithmeticType.canonicalWords)
    (hsingle : tally.hasStorageClass = true → front.filter Keyword.isStorageClass = [])
    (hnone : tally.words = []) (hother : tally.other = none) :
    (specifierTail tally).Takes (v.facing (pieces ++ after))
      { front.foldl SpecifierTally.addModifier tally with words := words } (v.facing after) := by
  have hkinds : pieces.map v.kind = (front ++ words).map .keyword := by
    have hkind := congrArg (List.map v.table.classify) hpieces
    rw [List.map_map, List.map_map] at hkind
    refine hkind.trans (List.map_congr_left fun word _ => ?_)
    exact View.kind_of_keyword hfree word (.start none)
  have hne : words ≠ [] := by
    rintro rfl
    revert hwords
    decide
  clear hpieces
  induction front generalizing pieces tally with
  | nil =>
      exact takes_specifierTail_words tally [] hv hafter hkinds
        (fun _ => ArithmeticType.isTypeWord_of_mem hwords) hother hnone hne
        (fun _ => ArithmeticType.canonical?_of_prefix hwords)
  | cons word front ih =>
      cases pieces with
      | nil => cases hkinds
      | cons piece pieces =>
          obtain ⟨hkind, hkinds⟩ := List.cons.inj hkinds
          have hword := hfront.modifiers word List.mem_cons_self
          have hnotTypedef : word ≠ .typedef := by
            rintro rfl
            exact hword.elim nofun fun h => h.2 rfl
          obtain ⟨hwords', hother', -⟩ := SpecifierTally.addModifier_of_ne tally hnotTypedef
          have hcount := hfront.single
          -- One storage class at most is among the words, here or further on.
          refine takes_specifierTail (takes_specifier_modifier hv hkind ?_)
            (ih (tally.addModifier word)
              ⟨fun w hw => hfront.modifiers w (List.mem_cons_of_mem _ hw), ?_⟩ ?_
              (hwords'.trans hnone) (hother'.trans hother) hkinds)
          · refine hword.imp_right fun h => ⟨h.1, Bool.eq_false_iff.2 fun hclass => ?_⟩
            simpa [h.1] using hsingle hclass
          · exact Nat.le_trans (List.Sublist.filter _ (List.sublist_cons_self _ _)).length_le hcount
          · intro hclass
            by_cases hstorage : word.isStorageClass = true
            · rw [List.filter_cons_of_pos hstorage, List.length_cons] at hcount
              exact List.eq_nil_of_length_eq_zero (by omega)
            · rw [SpecifierTally.hasStorageClass_addModifier (by simpa using hstorage)] at hclass
              simpa [hstorage] using hsingle hclass

theorem SpecifierTally.foldl_addModifier {front : List Keyword} (hfront : ModifierWords front)
    (tally : SpecifierTally) :
    (front.foldl addModifier tally).other = tally.other ∧
      (front.foldl addModifier tally).isTypedef = tally.isTypedef := by
  have hne : ∀ word ∈ front, word ≠ .typedef := by
    rintro word hword rfl
    exact (hfront.modifiers _ hword).elim nofun fun h => h.2 rfl
  clear hfront
  induction front generalizing tally with
  | nil => exact ⟨rfl, rfl⟩
  | cons word front ih =>
      obtain ⟨-, hother, htypedef⟩ := addModifier_of_ne tally (hne word List.mem_cons_self)
      obtain ⟨hother', htypedef'⟩ :=
        ih (tally.addModifier word) fun w hw => hne w (List.mem_cons_of_mem _ hw)
      exact ⟨hother'.trans hother, htypedef'.trans htypedef⟩

/-- Specifiers come back, with the position of their first word. -/
theorem Specified.takes {specifiers : Specifiers} {front words : List Keyword}
    (h : Specified specifiers pieces front words) (hv : v.taken = none)
    (hfree : v.table.KeywordFree) (hafter : v.EndsSpecifiers after) :
    ∃ position, Grammar.specifiers.Takes (v.facing (pieces ++ after))
      { specifiers with position := position } (v.facing after) := by
  have htail := takes_specifierTail_modifiers .empty hv hfree hafter h.spelled h.modifiers
    h.arithmetic nofun rfl rfl
  obtain ⟨hother, htypedef⟩ := SpecifierTally.foldl_addModifier h.modifiers .empty
  cases pieces with
  | nil =>
      obtain ⟨-, rfl⟩ : front = [] ∧ words = [] := by simpa using h.spelled.symm
      exact absurd h.arithmetic (by decide)
  | cons first others =>
      have htype : SpecifierTally.type?
          { front.foldl SpecifierTally.addModifier .empty with words := words } =
            some specifiers.base := by
        simp only [SpecifierTally.type?, hother]
        simp [SpecifierTally.empty, ArithmeticType.canonical?_of_mem h.arithmetic, h.base]
      have hread := takes_specifiers htail htype
      refine ⟨first.position, ?_⟩
      simp only [← h.storage, ← h.qualifiers] at hread
      rw [htypedef, show SpecifierTally.empty.isTypedef = specifiers.isTypedef from
        h.isTypedef.symm] at hread
      exact hread

end

/-! ## Groups -/

section

variable {v : View} {T U : SymbolTable} {specifiers : Specifiers} {position : Position}
  {pieces after : List Piece}

theorem View.endsSpecifiers_of_declarator {d : Declarator} {w : View} {piece : Piece}
    {others : List Piece}
    (h : (Grammar.declarator .named).Takes (v.facing (piece :: others)) d w) :
    v.EndsSpecifiers (piece :: others) := by
  obtain ⟨token, htoken, hopens⟩ := token?_of_declarator h
  obtain rfl : v.next piece = token := Option.some_inj.1 htoken
  rw [View.kind_next] at hopens
  refine View.begins_cons.2 ⟨fun word hkind => ?_, fun hkind => ?_⟩
  · rw [hkind] at hopens
    cases hopens
  · rw [hkind] at hopens
    cases hopens

/-- What the rule for a declaration makes of one that is written. -/
theorem Declaration.Under.alike {d : Declaration} {declarator : Declarator} (place : Position)
    (initial : Option Expr) (h : d.Under specifiers)
    (htype : (declarator.type specifiers.base).erase = d.type.erase)
    (hinitial : Alike (Option.map Expr.erase) d.initial initial) :
    Alike Declaration.erase d {
      name := d.name
      type := declarator.type specifiers.base
      initial := initial
      isTypedef := specifiers.isTypedef
      storage := specifiers.storage
      qualifiers := specifiers.qualifiers
      position := place } := by
  obtain ⟨name, type, value, isTypedef, storage, qualifiers, p⟩ := d
  obtain ⟨rfl, rfl, rfl⟩ := h
  simp only [Alike, erase] at hinitial ⊢
  rw [htype, hinitial]

/-- The name is declared before the initial value is looked for. -/
theorem takes_initDeclarator {declarator : Declarator} {name : String} {place : Position}
    {initial : Option Expr} {w : View} (htypedef : specifiers.isTypedef = false)
    (hname : declarator.name = some (name, place))
    (h : (initial? specifiers).Takes { v with table := v.table.declare name .ordinary } initial w) :
    (initDeclarator specifiers declarator).Takes v {
      name := name
      type := declarator.type specifiers.base
      initial := initial
      isTypedef := specifiers.isTypedef
      storage := specifiers.storage
      qualifiers := specifiers.qualifiers
      position := place } w := by
  obtain ⟨found, modifiers⟩ := declarator
  obtain ⟨base, storage, isTypedef, qualifiers, position⟩ := specifiers
  obtain rfl : isTypedef = false := htypedef
  obtain rfl : found = some (name, place) := hname
  exact Takes.declare.bind (h.bind Takes.pure)

/-- A declarator with its initial value, where another one or the semicolon follows. -/
theorem Declaration.Written.takes {d : Declaration} (position : Position)
    (h : d.Written specifiers T pieces U)
    (htypedef : specifiers.isTypedef = false) (hv : v.taken = none) (htable : v.table = T)
    (hafter : Piece.EndsWith [.comma, .semicolon] after) :
    ∃ declarator d' w, (Grammar.declarator .named).Takes (v.facing (pieces ++ after)) declarator w ∧
      (initDeclarator { specifiers with position := position } declarator).Takes w d'
        ((v.under U).facing after) ∧ Alike Declaration.erase d d' := by
  cases h with
  | @bare V _ _ hunder hspelled hinitial =>
      obtain ⟨declarator, ⟨hname, htype⟩, hread⟩ :=
        hspelled.reads v after hv htable hafter
      obtain ⟨⟨name, place⟩, hname, rfl⟩ := Option.map_eq_some_iff.1 hname
      refine ⟨declarator, _, _, hread,
        takes_initDeclarator htypedef hname ?_,
        hunder.alike place none htype (by rw [hinitial]; rfl)⟩
      obtain ⟨piece, others, rfl, mark, hmark, hlexeme⟩ := hafter
      -- Neither a comma nor a semicolon is an equals sign.
      unfold initial?
      simp only [htypedef]
      refine (Takes.accept_not (v := v.under (V.declare d.name .ordinary)) ?_).bind Takes.pure
      rw [View.kind_of_mark hlexeme]
      rintro heq
      obtain rfl : mark = .assign := TokenKind.punctuator.inj heq
      simp at hmark
  | @initialized V _ _ value equals front others hunder hspelled hinitial hequals hvalue =>
      obtain ⟨declarator, ⟨hname, htype⟩, hdeclarator⟩ :=
        hspelled.reads v (equals :: others ++ after) hv htable
          (Piece.EndsWith.cons (by simp) hequals)
      obtain ⟨⟨name, place⟩, hname, rfl⟩ := Option.map_eq_some_iff.1 hname
      obtain ⟨value', halike, hvalue⟩ :=
        hvalue.reads (v.under (V.declare d.name .ordinary)) after hv rfl hafter
      refine ⟨declarator, _, _, by simpa using hdeclarator, takes_initDeclarator htypedef hname ?_,
        hunder.alike place (some value') htype
          (by rw [hinitial]; exact Alike.some_iff.2 halike)⟩
      unfold initial?
      simp only [htypedef]
      exact (Takes.accept (v := v.under (V.declare d.name .ordinary)) hv
        (View.kind_of_mark hequals)).bind
          (hvalue.bind Takes.pure)

theorem Declaration.WrittenList.takes {list : List Declaration} (position : Position)
    (h : Declaration.WrittenList specifiers T list pieces U)
    (htypedef : specifiers.isTypedef = false) (hv : v.taken = none) (htable : v.table = T)
    (hafter : Piece.EndsWith [.semicolon] after) :
    ∃ declarator list' w,
      (Grammar.declarator .named).Takes (v.facing (pieces ++ after)) declarator w ∧
        (declarations { specifiers with position := position } declarator).Takes w list'
          ((v.under U).facing after) ∧
        Alike (List.map Declaration.erase) list list' := by
  induction h generalizing v after with
  | last hwritten =>
      obtain ⟨declarator, d', w, hdeclarator, hread, halike⟩ :=
        hwritten.takes position htypedef hv htable (hafter.mono (by simp))
      refine ⟨declarator, [d'], w, hdeclarator, hread.bind ?_, congrArg (fun d => [d]) halike⟩
      obtain ⟨piece, others, rfl, mark, hmark, hlexeme⟩ := hafter
      refine (Takes.accept_not ?_).bind Takes.pure
      rw [View.kind_of_mark hlexeme, List.mem_singleton.1 hmark]
      nofun
  | @more _ V _ d list comma front others hwritten hcomma _ ih =>
      have hcommas : Piece.EndsWith [.comma, .semicolon] (comma :: others ++ after) :=
        Piece.EndsWith.cons (by simp) hcomma
      obtain ⟨declarator, d', w, hdeclarator, hread, halike⟩ :=
        hwritten.takes position htypedef hv htable hcommas
      obtain ⟨next, list', u, hnext, hlist, halikes⟩ := ih (v := v.under V) hv rfl hafter
      refine ⟨declarator, d' :: list', w, by simpa using hdeclarator, hread.bind ?_,
        congrArg₂ List.cons halike halikes⟩
      exact (Takes.accept (v := v.under V) hv (View.kind_of_mark hcomma)).bind
        ((Takes.rule (f := .initDeclarators _) (hnext.bind hlist)).bind Takes.pure)

/-- A group of declarations comes back. -/
theorem DeclarationGroup.Written.reads {group : DeclarationGroup} {A : List Piece → Prop}
    (h : group.Written T pieces U) (hfree : T.KeywordFree) :
    declarationGroup.Reads T pieces (Alike DeclarationGroup.erase group) U A := by
  rintro v after hv rfl -
  cases h with
  | @bare specifiers _ _ _ semicolon front hspecified hsemicolon =>
      have hkind : v.kind semicolon = .punctuator .semicolon := View.kind_of_mark hsemicolon
      have hends : v.EndsSpecifiers (semicolon :: after) :=
        View.endsSpecifiers_of_endsDeclarator (View.begins_cons.2 (by rw [hkind]; rfl))
      obtain ⟨position, hspecifiers⟩ := hspecified.takes hv hfree hends
      refine ⟨bareGroup { specifiers with position := position }, rfl, ?_⟩
      rw [List.append_assoc]
      exact hspecifiers.bind ((Takes.accept hv hkind).bind Takes.pure)
  | @declares _ specifiers _ _ _ list semicolon front others hspecified hlist hsemicolon =>
      have hend : Piece.EndsWith [.semicolon] (semicolon :: after) :=
        Piece.EndsWith.cons (by simp) hsemicolon
      obtain ⟨piece, rest, hfirst⟩ := hend.exists_first others
      -- The specifiers end where the first declarator begins, whatever their position.
      have hends : v.EndsSpecifiers (others ++ semicolon :: after) := by
        obtain ⟨declarator, -, w, hdeclarator, -⟩ :=
          hlist.takes .erased hspecified.isTypedef hv rfl hend
        rw [hfirst] at hdeclarator ⊢
        exact View.endsSpecifiers_of_declarator hdeclarator
      obtain ⟨position, hspecifiers⟩ := hspecified.takes hv hfree hends
      obtain ⟨declarator, list', w, hdeclarator, hread, halikes⟩ :=
        hlist.takes position hspecified.isTypedef hv rfl hend
      refine ⟨{ base := specifiers.base, declarations := list', position := position }, ?_, ?_⟩
      · simp only [Alike, DeclarationGroup.erase] at halikes ⊢
        rw [halikes]
      · have hbare : (acceptMark .semicolon).Takes (v.facing (others ++ semicolon :: after)) false
            (v.facing (others ++ semicolon :: after)) := by
          obtain ⟨token, htoken, hopens⟩ := token?_of_declarator hdeclarator
          rw [hfirst] at htoken ⊢
          obtain rfl : v.next piece = token := Option.some_inj.1 htoken
          refine Takes.accept_not fun heq => ?_
          rw [View.kind_next, heq] at hopens
          cases hopens
        have hsemicolon' : (v.under U).kind semicolon = .punctuator .semicolon :=
          View.kind_of_mark hsemicolon
        rw [List.append_assoc, List.append_assoc]
        exact hspecifiers.bind (hbare.bind (hdeclarator.bind
          (hread.bind ((Takes.expect (v := v.under U) hv hsemicolon').bind Takes.pure))))

/-- A group begins with a keyword of its specifiers. -/
theorem Specified.first {front words : List Keyword} (h : Specified specifiers pieces front words) :
    ∃ first others word, pieces = first :: others ∧ first.lexeme = .keyword word ∧
      word.startsDeclaration = true := by
  obtain ⟨hspelled, hfront, harithmetic⟩ := h
  cases hwords : front ++ words with
  | nil =>
      obtain ⟨-, rfl⟩ := List.append_eq_nil_iff.1 hwords
      exact absurd harithmetic (by decide)
  | cons word others =>
      cases pieces with
      | nil =>
          rw [hwords] at hspelled
          cases hspelled
      | cons first rest =>
          rw [hwords] at hspelled
          refine ⟨first, rest, word, rfl, (List.cons.inj hspelled).1, ?_⟩
          have hmem : word ∈ front ++ words := hwords ▸ List.mem_cons_self
          rcases List.mem_append.1 hmem with hmem | hmem
          · rcases hfront.modifiers word hmem with hqualifier | ⟨hstorage, -⟩
            · simp [Keyword.startsDeclaration, Keyword.startsTypeName, hqualifier]
            · simp [Keyword.startsDeclaration, hstorage]
          · have htype := ArithmeticType.isTypeWord_of_mem harithmetic hmem
            simp [Keyword.startsDeclaration, Keyword.startsTypeName, htype]

theorem DeclarationGroup.Written.first {group : DeclarationGroup} (h : group.Written T pieces U) :
    ∃ first others word, pieces = first :: others ∧ first.lexeme = .keyword word ∧
      word.startsDeclaration = true := by
  cases h with
  | bare hspecified _ =>
      obtain ⟨first, others, word, rfl, hword⟩ := hspecified.first
      exact ⟨first, _, word, rfl, hword⟩
  | declares hspecified _ _ =>
      obtain ⟨first, others, word, rfl, hword⟩ := hspecified.first
      exact ⟨first, _, word, rfl, hword⟩

end

end CSyntax
