import CSyntax.Proofs.Declarator.Reading

/-!
# Inverse — reading a written type gives the type

For each kind of writing this file says what its rule makes of it (`Writing.Read`), and shows by
induction that it does (`Written.read`).  The rule for declarators collects what it meets from the
left, pointers first, and applies it in another order.  A writing grows around its name, so what is
shown of a core speaks of the suffixes behind it as well: they are read as if they stood alone, and
their modifiers come before those of the core (`ReadsCore`).
-/

namespace CSyntax

open Script Grammar

/-! ## Parameter lists -/

section

variable {v : View} {piece closing : Piece} {after between : List Piece}

/-- A scope that has just been opened hides nothing. -/
theorem View.kind_enter (v : View) (scope : ScopeKind) :
    ({ v with table := v.table.enter scope } : View).kind = v.kind := by
  funext piece
  simp [View.kind]

theorem takes_parameterList_empty (hv : v.taken = none)
    (hclosing : v.kind closing = .punctuator .closeParen) :
    parameterList.Takes (v.facing (closing :: after)) ([], false) (v.facing after) := by
  have hvoid : parameterList.isVoid.Takes (v.facing (closing :: after)) false
      (v.facing (closing :: after)) := by
    refine Takes.nextIs.bind ?_
    rw [if_neg (by simp [hclosing])]
    exact Takes.pure
  -- The list is read in a scope of its own, which is left at the parenthesis.
  let inside : View := { v with table := v.table.enter .block }
  have hclosing' : inside.kind closing = .punctuator .closeParen :=
    (congrFun (v.kind_enter .block) closing).trans hclosing
  have hlist : parameterList.parametersUnlessClosed.Takes (inside.facing (closing :: after))
      ([], false) (inside.facing (closing :: after)) := by
    refine Takes.nextIs.bind ?_
    rw [if_pos (by simpa using hclosing')]
    exact Takes.pure
  refine hvoid.bind (Takes.enter.bind (hlist.bind ((Takes.expect (v := inside) hv hclosing').bind ?_)))
  exact (Takes.leave rfl).bind Takes.pure

theorem takes_parameterList_void (hv : v.taken = none) (hvoid : v.kind piece = .keyword .void)
    (hclosing : v.kind closing = .punctuator .closeParen) :
    parameterList.Takes (v.facing (piece :: closing :: after)) ([], false) (v.facing after) := by
  have hvoid : parameterList.isVoid.Takes (v.facing (piece :: closing :: after)) true
      (v.facing (piece :: closing :: after)) := by
    refine Takes.nextIs.bind ?_
    rw [if_pos (by simpa using hvoid)]
    refine Takes.peekNth_one.bind ?_
    rw [View.kind_next, hclosing]
    exact Takes.pure
  exact hvoid.bind ((Takes.advance hv).bind ((Takes.advance hv).bind Takes.pure))

/-- Whether a list of parameters comes next that is more than the word `void` alone. -/
def View.OpensList (v : View) (pieces : List Piece) : Prop :=
  ∃ first second others, pieces = first :: second :: others ∧
    v.kind first ≠ .punctuator .closeParen ∧
      (v.kind first = .keyword .void → v.kind second ≠ .punctuator .closeParen)

theorem takes_parameterList {list : List Parameter × Bool} (hv : v.taken = none)
    (hopens : v.OpensList between) (hclosing : v.kind closing = .punctuator .closeParen)
    (h : Grammar.parameters.Takes
      ({ v with table := v.table.enter .block }.facing between) list
      ({ v with table := v.table.enter .block }.facing (closing :: after))) :
    parameterList.Takes (v.facing between) list (v.facing after) := by
  obtain ⟨first, second, others, rfl, hfirst, hsecond⟩ := hopens
  -- The rule looks two tokens ahead for `void` and a parenthesis, and does not find both.
  have hvoid : parameterList.isVoid.Takes (v.facing (first :: second :: others)) false
      (v.facing (first :: second :: others)) := by
    refine Takes.nextIs.bind ?_
    by_cases heq : v.kind first = .keyword .void
    · rw [if_pos (by simpa using heq)]
      refine Takes.peekNth_one.bind ?_
      rw [View.kind_next, decide_eq_false (hsecond heq)]
      exact Takes.pure
    · rw [if_neg (by simpa using heq)]
      exact Takes.pure
  let inside : View := { v with table := v.table.enter .block }
  have hkind : inside.kind = v.kind := v.kind_enter .block
  have hlist : parameterList.parametersUnlessClosed.Takes
      (inside.facing (first :: second :: others)) list (inside.facing (closing :: after)) := by
    refine Takes.nextIs.bind ?_
    rw [if_neg (by simpa [hkind] using hfirst)]
    exact Takes.rule (f := .parameters) h
  have hclosing' : inside.kind closing = .punctuator .closeParen := hkind ▸ hclosing
  refine hvoid.bind (Takes.enter.bind (hlist.bind ((Takes.expect (v := inside) hv hclosing').bind ?_)))
  exact (Takes.leave rfl).bind Takes.pure

end

/-! ## What is shown of each writing -/

/-- The lexemes of a core with the name are read with these modifiers, whatever suffixes follow. -/
def ReadsCore (kind : Piece → TokenKind) (name : Option (String × Position)) (pieces : List Piece)
    (modifiers : List TypeModifier) : Prop :=
  ∀ (v : View) mode after suffix w, v.taken = none → v.table.KeywordFree → v.kind = kind →
    (mode = .named ↔ name.isSome) → v.Continues after → suffixes.Takes (v.facing after) suffix w →
      ∃ core u behind, (declaratorCore mode).Takes (v.facing (pieces ++ after)) core u ∧
        suffixes.Takes u behind w ∧ core.name = name ∧
          behind.reverse ++ core.modifiers = suffix.reverse ++ modifiers

/-- What a writing begins with and how it is read. -/
def Writing.Read (kind : Piece → TokenKind) : Writing → List Piece → Prop
  | .core name whole rest, pieces =>
      (pieces = [] ∧ name = none ∧ whole = rest ∨
        ∃ first others, pieces = first :: others ∧ (kind first).opensCore = true) ∧
      ∃ modifiers, modifiers.foldl TypeModifier.apply rest = whole ∧
        ReadsCore kind name pieces modifiers
  | .declarator name whole rest, pieces =>
      (pieces = [] ∧ name = none ∧ whole = rest ∨ ∃ first others, pieces = first :: others ∧
        ((kind first).opensCore = true ∨ kind first = .punctuator .asterisk)) ∧
      ∃ stars core modifiers, pieces = stars ++ core ∧
        (∀ star ∈ stars, kind star = .punctuator .asterisk) ∧
        (core = [] ∨ ∃ first others, core = first :: others ∧ (kind first).opensCore = true) ∧
        (List.replicate stars.length .pointer ++ modifiers).foldl TypeModifier.apply rest = whole ∧
        ReadsCore kind name core modifiers
  | .typeName type, pieces =>
      ∃ first others, pieces = first :: others ∧ (kind first).startsTypeName = true ∧
        (kind first = .keyword .void → others = [] ∧ type = .named "void" ∨
          ∃ second more, others = second :: more ∧ kind second ≠ .punctuator .closeParen) ∧
        ∀ (v : View) after, v.taken = none → v.table.KeywordFree → v.kind = kind →
          v.Begins (fun kind => kind.endsDeclarator = true) after →
            Grammar.typeName.Takes (v.facing (pieces ++ after)) type (v.facing after) ∧
            parameter.Takes (v.facing (pieces ++ after))
              { name := none, type := type, position := first.position } (v.facing after)
  | .list types variadic, pieces =>
      (∃ first others, pieces = first :: others ∧ (kind first).opensParameters = true ∧
        kind first ≠ .punctuator .closeParen ∧
        (kind first = .keyword .void →
          others = [] ∧ types = [.named "void"] ∧ variadic = false ∨
            ∃ second more, others = second :: more ∧ kind second ≠ .punctuator .closeParen)) ∧
      ∃ list : List Parameter, list.map (·.type) = types ∧
        ∀ (v : View) closing after, v.taken = none → v.table.KeywordFree → v.kind = kind →
          kind closing = .punctuator .closeParen →
            Grammar.parameters.Takes (v.facing (pieces ++ closing :: after)) (list, variadic)
              (v.facing (closing :: after))
  | .parameters types variadic, pieces =>
      ∃ list : List Parameter, list.map (·.type) = types ∧
        ∀ (v : View) closing after, v.taken = none → v.table.KeywordFree → v.kind = kind →
          kind closing = .punctuator .closeParen →
            v.Begins (fun kind => kind.opensParameters = true) (pieces ++ closing :: after) ∧
            parameterList.Takes (v.facing (pieces ++ closing :: after)) (list, variadic)
              (v.facing after)

section

variable {kind : Piece → TokenKind} {name : Option (String × Position)} {whole rest : CType}
  {pieces inner tail : List Piece} {opening closing star : Piece}
  {modifiers : List TypeModifier} {m : TypeModifier}

namespace ReadsCore

theorem nameless : ReadsCore kind none [] [] := by
  intro v mode after suffix w hv _ _ hmode hafter hsuffix
  have hmode : mode ≠ .named := fun heq => by simpa using hmode.1 heq
  exact ⟨_, _, suffix, takes_declaratorCore_nameless hmode hafter, hsuffix, rfl, rfl⟩

theorem of_name {word : String} {piece : Piece}
    (h : kind piece = .identifier word ∨ kind piece = .typeName word) :
    ReadsCore kind (some (word, piece.position)) [piece] [] := by
  intro v mode after suffix w hv _ hkind hmode _ hsuffix
  obtain rfl : mode = .named := hmode.2 rfl
  subst hkind
  exact ⟨_, _, suffix, takes_declaratorCore_name hv h, hsuffix, rfl, rfl⟩

/-- A suffix behind a core is read before the modifiers of the core. -/
theorem append (h : ReadsCore kind name inner modifiers)
    (hstep : ∀ (v : View) after suffix w, v.taken = none → v.table.KeywordFree → v.kind = kind →
      suffixes.Takes (v.facing after) suffix w →
        v.Continues (tail ++ after) ∧
          suffixes.Takes (v.facing (tail ++ after)) (m :: suffix) w) :
    ReadsCore kind name (inner ++ tail) (m :: modifiers) := by
  intro v mode after suffix w hv hfree hkind hmode _ hsuffix
  -- To the core, the new suffix and those behind it are one list of suffixes.
  obtain ⟨hcontinues, htail⟩ := hstep v after suffix w hv hfree hkind hsuffix
  obtain ⟨core, u, behind, hcore, hbehind, hname, hmodifiers⟩ :=
    h v mode (tail ++ after) _ w hv hfree hkind hmode hcontinues htail
  refine ⟨core, u, behind, ?_, hbehind, hname, ?_⟩
  · rw [List.append_assoc]
    exact hcore
  · rw [hmodifiers]
    simp

end ReadsCore

/-- A declarator is read as its pointers and its core are. -/
theorem Writing.Read.takes_declarator (h : Writing.Read kind (.declarator name whole rest) pieces) :
    ∃ modifiers, modifiers.foldl TypeModifier.apply rest = whole ∧
      ∀ (v : View) mode after, v.taken = none → v.table.KeywordFree → v.kind = kind →
        (mode = .named ↔ name.isSome) → v.Begins (fun kind => kind.endsDeclarator = true) after →
          (Grammar.declarator mode).Takes (v.facing (pieces ++ after))
            { name := name, modifiers := modifiers } (v.facing after) := by
  obtain ⟨-, stars, core, modifiers, rfl, hstars, hopens, htype, hcore⟩ := h
  refine ⟨_, htype, ?_⟩
  rintro v mode after hv hfree rfl hmode hafter
  have hcontinues : v.Continues after := by
    obtain ⟨piece, others, rfl, hpiece⟩ := hafter
    exact ⟨piece, others, rfl, Or.inl hpiece⟩
  have hbegins : v.Begins (fun kind => kind.opensCore = true ∨ kind.endsDeclarator = true)
      (core ++ after) := by
    rcases hopens with rfl | ⟨first, others, rfl, hfirst⟩
    · exact hafter.mono fun _ => Or.inr
    · exact ⟨first, others ++ after, rfl, Or.inl hfirst⟩
  obtain ⟨d, u, behind, hd, hbehind, rfl, hmodifiers⟩ :=
    hcore v mode after [] _ hv hfree rfl hmode hcontinues (takes_suffixes_done hafter)
  -- The rule puts the pointers first, so they apply first, then the suffixes from the last to the
  -- first, then what the core has gathered inside its parentheses.
  have hpointers := takes_pointers hv hbegins hstars
  have hresult : List.replicate stars.length .pointer ++ modifiers =
      List.replicate stars.length .pointer ++ behind.reverse ++ d.modifiers := by
    rw [List.append_assoc, hmodifiers]
    rfl
  rw [List.append_assoc, hresult]
  exact Takes.bind hpointers (Takes.bind hd (Takes.bind hbehind Takes.pure))

/-! ### One construction at a time -/

theorem read_core (h : Writing.Read kind (.core name whole rest) pieces) :
    Writing.Read kind (.declarator name whole rest) pieces := by
  obtain ⟨hbegins, modifiers, htype, hcore⟩ := h
  refine ⟨?_, [], pieces, modifiers, rfl, by simp, ?_, htype, hcore⟩
  · exact hbegins.imp id fun ⟨first, others, heq, hfirst⟩ => ⟨first, others, heq, Or.inl hfirst⟩
  · exact hbegins.imp And.left id

theorem read_pointer (hstar : kind star = .punctuator .asterisk)
    (h : Writing.Read kind (.declarator name whole (.pointer rest)) pieces) :
    Writing.Read kind (.declarator name whole rest) (star :: pieces) := by
  obtain ⟨-, stars, core, modifiers, rfl, hstars, hopens, htype, hcore⟩ := h
  refine ⟨Or.inr ⟨star, _, rfl, Or.inr hstar⟩, star :: stars, core, modifiers, rfl, ?_, hopens, htype,
    hcore⟩
  intro other hother
  rcases List.mem_cons.1 hother with rfl | hother
  · exact hstar
  · exact hstars other hother

theorem read_parentheses (hopening : kind opening = .punctuator .openParen)
    (h : Writing.Read kind (.declarator name whole rest) inner)
    (hclosing : kind closing = .punctuator .closeParen)
    (hmode : name.isSome = true ∨ ∃ star others, inner = star :: others ∧
      kind star = .punctuator .asterisk) :
    Writing.Read kind (.core name whole rest) (opening :: inner ++ [closing]) := by
  refine ⟨Or.inr ⟨opening, _, rfl, by rw [hopening]; rfl⟩, ?_⟩
  obtain ⟨modifiers, htype, hread⟩ := h.takes_declarator
  refine ⟨modifiers, htype, ?_⟩
  rintro v mode after suffix w hv hfree rfl hmode' - hsuffix
  -- Inside the parentheses no suffix follows, and the closing one ends the declarator.
  have hinner := hread v mode (closing :: after) hv hfree rfl hmode'
    (View.begins_cons.2 (by rw [hclosing]; rfl))
  have hcore := takes_declaratorCore_parentheses hv hopening (hmode.imp hmode'.2
    fun ⟨star, others, heq, hstar⟩ => ⟨star, others ++ closing :: after, by rw [heq]; rfl, hstar⟩)
    hinner hclosing
  refine ⟨{ name := name, modifiers := modifiers }, _, suffix, ?_, hsuffix, rfl, rfl⟩
  rw [List.cons_append, List.cons_append, List.append_assoc]
  exact hcore

/-- A core with another suffix. -/
theorem read_suffix {next : CType} (h : Writing.Read kind (.core name whole next) inner)
    (hnext : m.apply rest = next)
    (htail : ∃ first others, tail = first :: others ∧ (kind first).opensCore = true)
    (hstep : ∀ (v : View) after suffix w, v.taken = none → v.table.KeywordFree → v.kind = kind →
      suffixes.Takes (v.facing after) suffix w →
        v.Continues (tail ++ after) ∧
          suffixes.Takes (v.facing (tail ++ after)) (m :: suffix) w) :
    Writing.Read kind (.core name whole rest) (inner ++ tail) := by
  obtain ⟨hbegins, modifiers, htype, hcore⟩ := h
  refine ⟨Or.inr ?_, m :: modifiers, ?_, hcore.append hstep⟩
  · rcases hbegins with ⟨rfl, -⟩ | ⟨first, others, rfl, hfirst⟩
    · exact htail
    · exact ⟨first, others ++ tail, rfl, hfirst⟩
  · rw [List.foldl_cons, hnext]
    exact htype

theorem read_typeName {type base : CType} {front : List Piece} (hbase : Based kind base front)
    (h : Writing.Read kind (.declarator none type base) pieces) :
    Writing.Read kind (.typeName type) (front ++ pieces) := by
  obtain ⟨first, others, rfl, hfirst, hvoid⟩ := hbase.first
  refine ⟨first, others ++ pieces, rfl, hfirst, fun hkind => ?_, ?_⟩
  · -- A type that begins with `void` is `void` itself, or its declarator comes next.
    obtain ⟨rfl, rfl⟩ := hvoid hkind
    rcases h.1 with ⟨rfl, -, rfl⟩ | ⟨second, more, rfl, hsecond⟩
    · exact Or.inl ⟨rfl, rfl⟩
    · refine Or.inr ⟨second, more, rfl, fun heq => ?_⟩
      simp [heq, TokenKind.opensCore] at hsecond
  · rintro v after hv hfree rfl hafter
    obtain ⟨modifiers, htype, hread⟩ := h.takes_declarator
    have hends : v.EndsSpecifiers (pieces ++ after) := by
      rcases h.1 with ⟨rfl, -⟩ | ⟨second, more, rfl, hsecond⟩
      · exact View.endsSpecifiers_of_endsDeclarator hafter
      · exact View.endsSpecifiers_of_opensCore hsecond
    obtain ⟨_, _, heq, hspecifiers⟩ := hbase.takes hv hends
    obtain ⟨rfl, rfl⟩ := List.cons.inj heq
    rw [← List.append_assoc] at hspecifiers
    -- A parameter may have a name, a type name may not; the declarator is read alike in both modes.
    have hnameless := hread v .nameless after hv hfree rfl (by simp) hafter
    have heither := hread v .either after hv hfree rfl (by simp) hafter
    subst htype
    refine ⟨Takes.bind hspecifiers (hnameless.bind Takes.pure), ?_⟩
    exact Takes.here.bind (Takes.bind hspecifiers (heither.bind Takes.pure))

theorem TokenKind.opensParameters_of_startsTypeName {k : TokenKind} (h : k.startsTypeName = true) :
    k.opensParameters = true := by
  cases k <;> first | rfl | cases h

theorem read_one {type : CType} (h : Writing.Read kind (.typeName type) pieces) :
    Writing.Read kind (.list [type] false) pieces := by
  obtain ⟨first, others, rfl, hfirst, hvoid, hread⟩ := h
  refine ⟨⟨first, others, rfl, TokenKind.opensParameters_of_startsTypeName hfirst, ?_, ?_⟩, ?_⟩
  · intro heq
    simp [heq, TokenKind.startsTypeName] at hfirst
  · intro hkind
    rcases hvoid hkind with ⟨hothers, htype⟩ | hlong
    · exact Or.inl ⟨hothers, by rw [htype], rfl⟩
    · exact Or.inr hlong
  · refine ⟨[{ name := none, type := type, position := first.position }], rfl, ?_⟩
    rintro v closing after hv hfree rfl hclosing
    have hparameter := (hread v (closing :: after) hv hfree rfl
      (View.begins_cons.2 (by rw [hclosing]; rfl))).2
    refine (Takes.accept_not fun heq => ?_).bind
      (hparameter.bind ((Takes.accept_not (by simp [hclosing])).bind Takes.pure))
    simp [heq, TokenKind.startsTypeName] at hfirst

theorem read_more {type : CType} {types : List CType} {variadic : Bool} {comma : Piece}
    {others : List Piece} (h : Writing.Read kind (.typeName type) pieces)
    (hcomma : kind comma = .punctuator .comma)
    (hothers : Writing.Read kind (.list types variadic) others) :
    Writing.Read kind (.list (type :: types) variadic) (pieces ++ comma :: others) := by
  obtain ⟨first, tail, rfl, hfirst, hvoid, hread⟩ := h
  obtain ⟨-, list, rfl, hlist⟩ := hothers
  refine ⟨⟨first, tail ++ comma :: others, rfl,
    TokenKind.opensParameters_of_startsTypeName hfirst, ?_, fun hkind => Or.inr ?_⟩, ?_⟩
  · intro heq
    simp [heq, TokenKind.startsTypeName] at hfirst
  · -- What stands behind `void` is the comma, or a declarator.
    rcases hvoid hkind with ⟨rfl, -⟩ | ⟨second, more, rfl, hsecond⟩
    · exact ⟨comma, others, rfl, by simp [hcomma]⟩
    · exact ⟨second, more ++ comma :: others, rfl, hsecond⟩
  · refine ⟨{ name := none, type := type, position := first.position } :: list, rfl, ?_⟩
    rintro v closing after hv hfree rfl hclosing
    have hparameter := (hread v (comma :: (others ++ closing :: after)) hv hfree rfl
      (View.begins_cons.2 (by rw [hcomma]; rfl))).2
    have hmore := hlist v closing after hv hfree rfl hclosing
    rw [List.append_assoc, List.cons_append]
    refine (Takes.accept_not fun heq => ?_).bind (Takes.bind hparameter
      ((Takes.accept hv hcomma).bind ((Takes.rule (f := .parameters) hmore).bind Takes.pure)))
    simp [heq, TokenKind.startsTypeName] at hfirst

theorem read_parameters {types : List CType} {variadic : Bool}
    (h : Writing.Read kind (.list types variadic) pieces)
    (hvoid : ¬(types = [.named "void"] ∧ variadic = false)) :
    Writing.Read kind (.parameters types variadic) pieces := by
  obtain ⟨⟨first, others, rfl, hopens, hfirst, hsecond⟩, list, htypes, hread⟩ := h
  refine ⟨list, htypes, ?_⟩
  rintro v closing after hv hfree rfl hclosing
  refine ⟨View.begins_cons.2 hopens, ?_⟩
  have hlist := hread { v with table := v.table.enter .block } closing after hv (hfree.enter _)
    (v.kind_enter .block) hclosing
  refine takes_parameterList hv ?_ hclosing hlist
  -- The word `void` alone is the list that is excluded.
  cases others with
  | nil =>
      refine ⟨first, closing, after, rfl, hfirst, fun heq => ?_⟩
      rcases hsecond heq with ⟨-, hsole⟩ | ⟨_, _, heq', -⟩
      · exact absurd hsole hvoid
      · cases heq'
  | cons second more =>
      refine ⟨first, second, more ++ closing :: after, rfl, hfirst, fun heq => ?_⟩
      rcases hsecond heq with ⟨heq', -⟩ | ⟨_, _, heq', hne⟩
      · cases heq'
      · cases heq'
        exact hne

end

/-- Whatever is written is read. -/
theorem Written.read {kind : Piece → TokenKind} {writing : Writing} {pieces : List Piece}
    (h : Written kind writing pieces) : writing.Read kind pieces := by
  -- The induction is on how it is written; parameters bring the types inside a type with them.
  induction h with
  | name hkind =>
      refine ⟨Or.inr ⟨_, [], rfl, ?_⟩, [], rfl, .of_name hkind⟩
      rcases hkind with hkind | hkind <;> rw [hkind] <;> rfl
  | nameless => exact ⟨Or.inl ⟨rfl, rfl, rfl⟩, [], rfl, .nameless⟩
  | openArray _ hopening hclosing ih =>
      refine read_suffix (m := .array none) ih rfl ⟨_, _, rfl, by rw [hopening]; rfl⟩ ?_
      rintro v after suffix w hv _ rfl hsuffix
      exact ⟨⟨_, _, rfl, Or.inr (Or.inl hopening)⟩,
        takes_suffixes_openArray hv hopening hclosing hsuffix⟩
  | array _ hopening hsize hclosing ih =>
      refine read_suffix (m := .array (some _)) ih rfl ⟨_, _, rfl, by rw [hopening]; rfl⟩ ?_
      rintro v after suffix w hv hfree rfl hsuffix
      exact ⟨⟨_, _, rfl, Or.inr (Or.inl hopening)⟩,
        takes_suffixes_array hv hfree hopening hsize hclosing hsuffix⟩
  | @function _ _ _ _ variadic opening closing _ between _ hopening _ hclosing ih ih' =>
      obtain ⟨list, rfl, hlist⟩ := ih'
      rw [List.append_assoc]
      refine read_suffix (m := .function list variadic) ih rfl
        ⟨_, _, rfl, by rw [hopening]; rfl⟩ ?_
      rintro v after suffix w hv hfree rfl hsuffix
      obtain ⟨hbegins, hparameters⟩ := hlist v closing after hv hfree rfl hclosing
      rw [List.cons_append, List.cons_append, List.append_assoc]
      exact ⟨⟨_, _, rfl, Or.inr (Or.inr ⟨hopening, hbegins⟩)⟩,
        takes_suffixes_function hv hopening hparameters hsuffix⟩
  | bound hopening hstar _ hclosing ih =>
      exact read_parentheses hopening (read_pointer hstar ih) hclosing
        (Or.inr ⟨_, _, rfl, hstar⟩)
  | redundant hopening _ hclosing ih => exact read_parentheses hopening ih hclosing (Or.inl rfl)
  | core _ ih => exact read_core ih
  | pointer hstar _ ih => exact read_pointer hstar ih
  | typeName hbase _ ih => exact read_typeName hbase ih
  | ellipsis hkind =>
      refine ⟨⟨_, [], rfl, by rw [hkind]; rfl, by simp [hkind], by simp [hkind]⟩, [], rfl, ?_⟩
      rintro v closing after hv _ rfl _
      exact (Takes.accept hv hkind).bind Takes.pure
  | one _ ih => exact read_one ih
  | more _ hcomma _ ih ih' => exact read_more ih hcomma ih'
  | noParameters =>
      refine ⟨[], rfl, ?_⟩
      rintro v closing after hv _ rfl hclosing
      exact ⟨View.begins_cons.2 (by rw [hclosing]; rfl), takes_parameterList_empty hv hclosing⟩
  | void hkind =>
      refine ⟨[], rfl, ?_⟩
      rintro v closing after hv _ rfl hclosing
      exact ⟨View.begins_cons.2 (by rw [hkind]; rfl), takes_parameterList_void hv hkind hclosing⟩
  | list _ hvoid ih => exact read_parameters ih hvoid

end CSyntax
