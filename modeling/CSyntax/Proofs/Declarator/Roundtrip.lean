import CSyntax.Proofs.Declarator.Inverse
import CSyntax.Proofs.Expression.Exactness

/-!
# Roundtrip — written types come back

A type written around a name between its base and a semicolon is declared for the name; written
without a name it is what `sizeof`, a cast and a parameter have (`Parser.declarator_inverse`).
-/

namespace CSyntax

open Script Grammar

/-! ## Declarations -/

theorem SymbolTable.classify_eq_punctuator {T U : SymbolTable} {w : Lexeme} {mark : Punctuator}
    (h : T.classify w = .punctuator mark) : U.classify w = .punctuator mark := by
  cases w with
  | word name =>
      simp only [classify, classifyWord] at h
      split at h
      · cases h
      · split at h <;> cases h
  | _ => exact h

section

variable {v : View} {base whole : CType} {name : String} {place position : Position}
  {modifiers : List TypeModifier} {front pieces others : List Piece} {semicolon : Piece}

/-- A declaration without an initial value, storage class or qualifiers. -/
def Declaration.plain (name : String) (type : CType) (position : Position) : Declaration :=
  { name := name
    type := type
    initial := none
    isTypedef := false
    storage := none
    qualifiers := { const := false, volatile := false }
    position := position }

theorem takes_groupFrom (hv : v.taken = none)
    (hsemicolon : v.kind semicolon = .punctuator .semicolon) :
    (groupFrom (.plain base position) { name := some (name, place), modifiers := modifiers }).Takes
      (v.facing (semicolon :: others))
      { base := base
        declarations := [.plain name (modifiers.foldl TypeModifier.apply base) place]
        position := position }
      { v with ahead := others, table := v.table.declare name .ordinary } := by
  -- The name is declared before the semicolon is looked at, which stays what it is.
  let declared : View := { v with table := v.table.declare name .ordinary }
  have hend : declared.kind semicolon = .punctuator .semicolon :=
    SymbolTable.classify_eq_punctuator hsemicolon
  have hinitial : (initial? (.plain base position)).Takes (declared.facing (semicolon :: others))
      none (declared.facing (semicolon :: others)) :=
    (Takes.accept_not (by simp [hend])).bind Takes.pure
  have hfirst : (initDeclarator (.plain base position)
      { name := some (name, place), modifiers := modifiers }).Takes (v.facing (semicolon :: others))
      (.plain name (modifiers.foldl TypeModifier.apply base) place)
      (declared.facing (semicolon :: others)) :=
    Takes.declare.bind (hinitial.bind Takes.pure)
  have hlist : (declarations (.plain base position)
      { name := some (name, place), modifiers := modifiers }).Takes (v.facing (semicolon :: others))
      [.plain name (modifiers.foldl TypeModifier.apply base) place]
      (declared.facing (semicolon :: others)) :=
    hfirst.bind ((Takes.accept_not (by simp [hend])).bind Takes.pure)
  exact hlist.bind ((Takes.expect (v := declared) hv hend).bind Takes.pure)

/-- What the specifiers and the declarator of a declaration leave to be read. -/
theorem Written.takes_declaration
    (h : Written v.kind (.declarator (some (name, place)) whole base) pieces)
    (hbase : Based v.kind base front) (hv : v.taken = none) (hfree : v.table.KeywordFree)
    (hsemicolon : v.kind semicolon = .punctuator .semicolon) (others : List Piece) :
    ∃ first rest modifiers, front = first :: rest ∧
      modifiers.foldl TypeModifier.apply base = whole ∧
      specifiers.Takes (v.facing (front ++ pieces ++ semicolon :: others))
        (.plain base first.position) (v.facing (pieces ++ semicolon :: others)) ∧
      (acceptMark .semicolon).Takes (v.facing (pieces ++ semicolon :: others)) false
        (v.facing (pieces ++ semicolon :: others)) ∧
      (Grammar.declarator .named).Takes (v.facing (pieces ++ semicolon :: others))
        { name := some (name, place), modifiers := modifiers } (v.facing (semicolon :: others)) := by
  have hread := h.read
  obtain ⟨modifiers, htype, hdeclarator⟩ := hread.takes_declarator
  -- The name is among the lexemes, so there is a first one, and it begins a declarator.
  obtain ⟨second, more, rfl, hsecond⟩ : ∃ second more, pieces = second :: more ∧
      ((v.kind second).opensCore = true ∨ v.kind second = .punctuator .asterisk) := by
    rcases hread.1 with ⟨-, hname, -⟩ | hbegins
    · cases hname
    · exact hbegins
  have hends : v.EndsSpecifiers (second :: more ++ semicolon :: others) :=
    View.endsSpecifiers_of_opensCore hsecond
  obtain ⟨first, rest, rfl, hspecifiers⟩ := hbase.takes hv hends
  refine ⟨first, rest, modifiers, rfl, htype, ?_, Takes.accept_not fun heq => ?_, ?_⟩
  · rw [List.append_assoc]
    exact hspecifiers
  · simp [heq, TokenKind.opensCore] at hsecond
  · exact hdeclarator v .named _ hv hfree rfl (by simp)
      (View.begins_cons.2 (by rw [hsemicolon]; rfl))

theorem Written.takes_declarationGroup
    (h : Written v.kind (.declarator (some (name, place)) whole base) pieces)
    (hbase : Based v.kind base front) (hv : v.taken = none) (hfree : v.table.KeywordFree)
    (hsemicolon : v.kind semicolon = .punctuator .semicolon) (others : List Piece) :
    ∃ first rest, front = first :: rest ∧
      declarationGroup.Takes (v.facing (front ++ pieces ++ semicolon :: others))
        { base := base
          declarations := [.plain name whole place]
          position := first.position }
        { v with ahead := others, table := v.table.declare name .ordinary } := by
  obtain ⟨first, rest, modifiers, rfl, rfl, hspecifiers, haccept, hdeclarator⟩ :=
    h.takes_declaration hbase hv hfree hsemicolon others
  exact ⟨first, rest, rfl,
    hspecifiers.bind (haccept.bind (hdeclarator.bind (takes_groupFrom hv hsemicolon)))⟩

theorem Written.takes_externalDeclaration
    (h : Written v.kind (.declarator (some (name, place)) whole base) pieces)
    (hbase : Based v.kind base front) (hv : v.taken = none) (hfree : v.table.KeywordFree)
    (hsemicolon : v.kind semicolon = .punctuator .semicolon) (others : List Piece) :
    ∃ first rest, front = first :: rest ∧
      externalDeclaration.Takes (v.facing (front ++ pieces ++ semicolon :: others))
        (.declaration
          { base := base
            declarations := [.plain name whole place]
            position := first.position })
        { v with ahead := others, table := v.table.declare name .ordinary } := by
  obtain ⟨first, rest, modifiers, rfl, rfl, hspecifiers, haccept, hdeclarator⟩ :=
    h.takes_declaration hbase hv hfree hsemicolon others
  refine ⟨first, rest, rfl, hspecifiers.bind (haccept.bind (hdeclarator.bind ?_))⟩
  -- A function that is declared has no body, since the semicolon is no brace.
  split
  · refine Takes.nextIs.bind ?_
    rw [if_neg (by simp [hsemicolon])]
    exact (takes_groupFrom hv hsemicolon).bind Takes.pure
  · exact (takes_groupFrom hv hsemicolon).bind Takes.pure

end

/-! ## Types without a name -/

/-- No enumeration constants are listed in what is written. -/
def Writing.Plain : Writing → Prop
  | .core _ whole rest | .declarator _ whole rest =>
      .enumerators ∈ whole.mentions → .enumerators ∈ rest.mentions
  | .typeName type => .enumerators ∉ type.mentions
  | .list types _ | .parameters types _ => .enumerators ∉ types.flatMap CType.mentions

theorem Based.mentions {kind : Piece → TokenKind} {base : CType} {front : List Piece}
    (h : Based kind base front) : .enumerators ∉ base.mentions := by
  cases h with
  | arithmetic | declared =>
      rw [CType.mentions]
      split <;> simp
  | record | enumeration => simp [CType.mentions, Member.mentionsOption, Enumerator.mentionsOption]

theorem Written.plain {kind : Piece → TokenKind} {writing : Writing} {pieces : List Piece}
    (h : Written kind writing pieces) : writing.Plain := by
  -- Around the name nothing is mentioned but the sizes, which are constants, and the parameters.
  induction h with
  | name | nameless => exact id
  | openArray _ _ _ ih | array _ _ _ _ ih =>
      intro hmem
      have := ih hmem
      simpa [CType.mentions, Expr.mentionsOption, Expr.mentions] using this
  | function _ _ _ _ ih ih' =>
      intro hmem
      have := ih hmem
      rw [CType.mentions, CType.mentionsList_eq, List.mem_append] at this
      exact this.resolve_right ih'
  | bound _ _ _ _ ih | redundant _ _ _ ih | core _ ih | pointer _ _ ih =>
      intro hmem
      exact ih hmem
  | typeName hbase _ ih => exact fun hmem => hbase.mentions (ih hmem)
  | ellipsis | noParameters | void => simp [Writing.Plain]
  | one _ ih => simpa [Writing.Plain] using ih
  | more _ _ _ ih ih' =>
      rw [Writing.Plain, List.flatMap_cons, List.mem_append, not_or]
      exact ⟨ih, ih'⟩
  | list _ _ ih => exact ih

theorem Written.names {v : View} {type : CType} {closing : Piece} {pieces after : List Piece}
    (h : Written v.kind (.typeName type) pieces) (hv : v.taken = none) (hfree : v.table.KeywordFree)
    (hclosing : v.kind closing = .punctuator .closeParen) :
    v.Names TokenKind.startsTypeName (pieces ++ closing :: after) type (closing :: after) := by
  obtain ⟨first, others, rfl, hfirst, -, hread⟩ := h.read
  have htype := (hread v (closing :: after) hv hfree rfl
    (View.begins_cons.2 (by rw [hclosing]; rfl))).1
  exact ⟨⟨first, _, rfl, hfirst⟩, h.plain, _, htype, rfl⟩

/-! ## Runs -/

namespace Parser

variable {origin : Source} {s : ParserState}

/-- Every type of the notation can be written.  Written around a word it makes one declaration of
the word with exactly the type; without a word it makes the operand of `sizeof`, the type of a cast
and a parameter with exactly the type. -/
theorem declarator_inverse (h : s.Sound origin) (hm : s.isMarked = false) :
    (∀ type : CType, type.Writable s.table →
      (∀ word, Unreserved word → ∃ base front place pieces, Based s.view.kind base front ∧
        Written s.view.kind (.declarator (some (word, place)) type base) pieces) ∧
      ∃ pieces, Written s.view.kind (.typeName type) pieces) ∧
    (∀ type base word place front pieces semicolon others, Based s.view.kind base front →
      Written s.view.kind (.declarator (some (word, place)) type base) pieces →
      s.view.kind semicolon = .punctuator .semicolon →
      s.view.ahead = front ++ pieces ++ semicolon :: others →
        ∃ first rest, front = first :: rest ∧
          (∃ t, declarationGroup.Yields s
            { base := base
              declarations := [.plain word type place]
              position := first.position } t ∧
            t.view = { s.view with ahead := others, table := s.table.declare word .ordinary }) ∧
          (∃ t, externalDeclaration.Yields s
            (.declaration
              { base := base
                declarations := [.plain word type place]
                position := first.position }) t ∧
            t.view = { s.view with ahead := others, table := s.table.declare word .ordinary })) ∧
    (∀ type pieces, Written s.view.kind (.typeName type) pieces →
      (∀ p word opening closing after, s.view.kind word = .keyword .sizeof →
        s.view.kind opening = .punctuator .openParen →
        s.view.kind closing = .punctuator .closeParen →
        s.view.ahead = word :: opening :: pieces ++ closing :: after →
        s.view.Begins (fun kind => kind.closes = true) after →
          ∃ t, Yields (.expression p) s (.sizeofType word.position type) t ∧
            t.view = s.view.facing after) ∧
      (∀ p operand opening closing mid after, s.view.kind opening = .punctuator .openParen →
        s.view.kind closing = .punctuator .closeParen →
        Derives TokenKind.startsTypeName s.view (.level .unary) mid operand after →
        s.view.ahead = opening :: pieces ++ closing :: mid →
        s.view.Begins (fun kind => kind.closes = true) after →
          ∃ t, Yields (.expression p) s (.cast opening.position type operand) t ∧
            t.view = s.view.facing after) ∧
      (∀ after, s.view.Begins (fun kind => kind.endsDeclarator = true) after →
        s.view.ahead = pieces ++ after →
          ∃ first rest, pieces = first :: rest ∧
            ∃ t, parameter.Yields s
              { name := none, type := type, position := first.position } t ∧
              t.view = s.view.facing after)) := by
  have hv := ParserState.taken_view hm
  have hfree : s.view.table.KeywordFree := h.table
  refine ⟨fun type htype => htype.exists_written hfree, ?_, ?_⟩
  -- With a name: a declaration, in a block and at file scope.
  · intro type base word place front pieces semicolon others hbase hwritten hsemicolon hahead
    obtain ⟨first, rest, rfl, hgroup⟩ :=
      hwritten.takes_declarationGroup hbase hv hfree hsemicolon others
    obtain ⟨_, _, heq, hexternal⟩ :=
      hwritten.takes_externalDeclaration hbase hv hfree hsemicolon others
    obtain ⟨rfl, rfl⟩ := List.cons.inj heq
    rw [← hahead] at hgroup hexternal
    exact ⟨first, rest, rfl, Script.yields_of_takes orderly_declarationGroup h hm hgroup,
      Script.yields_of_takes orderly_externalDeclaration h hm hexternal⟩
  -- Without a name: `sizeof` and casts by way of the grammar of expressions, and parameters.
  · intro type pieces hwritten
    refine ⟨?_, ?_, ?_⟩
    · intro p word opening closing after hword hopening hclosing hahead hafter
      have hderives : Derives TokenKind.startsTypeName s.view .operand s.view.ahead
          (.sizeofType word.position type) after := by
        rw [hahead]
        exact .sizeofType hword hopening (hwritten.names hv hfree hclosing) hclosing
      exact Parser.yields_of_takes h hm
        (((Derives.operand hderives).loosen (Nat.zero_le p.rank)).takes hv hfree hafter)
    · intro p operand opening closing mid after hopening hclosing hoperand hahead hafter
      have hderives : Derives TokenKind.startsTypeName s.view (.level .unary) s.view.ahead
          (.cast opening.position type operand) after := by
        rw [hahead]
        exact .cast hopening (hwritten.names hv hfree hclosing) hclosing hoperand
      exact Parser.yields_of_takes h hm
        ((hderives.loosen (Nat.zero_le p.rank)).takes hv hfree hafter)
    · intro after hafter hahead
      obtain ⟨first, rest, rfl, -, -, hread⟩ := hwritten.read
      have hparameter := (hread s.view after hv hfree rfl hafter).2
      rw [← hahead] at hparameter
      exact ⟨first, rest, rfl, Script.yields_of_takes orderly_parameter h hm hparameter⟩

/-- An array of pointers to functions: the brackets stand next to the name, and the pointer has to be
bound before the parameter list. -/
theorem declarator_inverse_handlers :
    ∃ t, externalDeclaration.Yields (withAlias "T(*x[3])(int,...);")
      (.declaration
        { base := .named "T"
          declarations := [.plain "x"
            (.array (.pointer (.function (.named "T") [.named "int"] true))
              (some (.integer (column 5) 3))) (column 3)]
          position := column 0 }) t ∧
      t.view.ahead = [] := by
  have hint : Based (withAlias "T(*x[3])(int,...);").view.kind (.named "int")
      [⟨.word "int", column 9⟩] :=
    .arithmetic (show [Keyword.int] ∈ _ by decide) (by decide +kernel)
  have hparameters : Written (withAlias "T(*x[3])(int,...);").view.kind
      (.parameters [.named "int"] true)
      (([⟨.word "int", column 9⟩] ++ []) ++ ⟨.punctuator .comma, column 12⟩ ::
        [⟨.punctuator .ellipsis, column 13⟩]) :=
    .list (.more (.typeName hint (.core .nameless)) rfl (.ellipsis rfl)) (by simp)
  have hbase : Based (withAlias "T(*x[3])(int,...);").view.kind (.named "T")
      [⟨.word "T", column 0⟩] :=
    .declared (show _ = TokenKind.typeName "T" by decide +kernel)
  have hname : (withAlias "T(*x[3])(int,...);").view.kind ⟨.word "x", column 3⟩ = .identifier "x" ∨
      (withAlias "T(*x[3])(int,...);").view.kind ⟨.word "x", column 3⟩ = .typeName "x" :=
    Or.inl (by decide +kernel)
  have hdeclarator : Written (withAlias "T(*x[3])(int,...);").view.kind
      (.declarator (some ("x", column 3))
        (.array (.pointer (.function (.named "T") [.named "int"] true))
          (some (.integer (column 5) 3))) (.named "T"))
      ((⟨.punctuator .openParen, column 1⟩ :: ⟨.punctuator .asterisk, column 2⟩ ::
          ([⟨.word "x", column 3⟩] ++ [⟨.punctuator .openBracket, column 4⟩, ⟨.integer 3, column 5⟩,
            ⟨.punctuator .closeBracket, column 6⟩]) ++ [⟨.punctuator .closeParen, column 7⟩]) ++
        ⟨.punctuator .openParen, column 8⟩ ::
          (([⟨.word "int", column 9⟩] ++ []) ++ ⟨.punctuator .comma, column 12⟩ ::
            [⟨.punctuator .ellipsis, column 13⟩]) ++ [⟨.punctuator .closeParen, column 16⟩]) :=
    .core (.function (.bound rfl rfl (.core (.array (.name hname) rfl rfl rfl)) rfl) rfl
      hparameters rfl)
  obtain ⟨first, rest, hfirst, -, t, hyields, ht⟩ :=
    (declarator_inverse (sound_withAlias "T(*x[3])(int,...);") rfl).2.1 _ _ "x" (column 3) _ _
      ⟨.punctuator .semicolon, column 17⟩ [] hbase hdeclarator rfl (by decide +kernel)
  obtain ⟨rfl, rfl⟩ := List.cons.inj hfirst
  exact ⟨t, hyields, by rw [ht]⟩

end Parser

end CSyntax
