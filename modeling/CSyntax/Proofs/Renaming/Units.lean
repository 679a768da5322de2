import CSyntax.Proofs.Lockstep.Kinds
import CSyntax.Proofs.Renaming.Statements

/-!
# Units — programs with new names for labels, tags and members

A program whose labels, tags and members get new names is read as before, with the new names in the
tree and in the types that the table holds, as long as no label gets a name that is a type name where
the label stands; if one does, the program is refused.  Tags and members may get any names.

* `Parser.labels_renamed` — new names for labels, and where they fail;
* `Parser.tags_and_members_renamed` — new names for tags and members.
-/

namespace CSyntax

/-! ## Tokens with new names -/

namespace Scanner

variable {σ : Scanner} {token : Token} {tokens others : List Token} {offset : Nat}

theorem mem_labels_cons : offset ∈ σ.labels (token :: others) ↔
    (offset = token.position.offset ∧ σ.Labels token.kind (others.head?.map (·.kind))) ∨
      offset ∈ (σ.after token.kind token.position.offset).labels others := by
  simp only [labels]
  split <;> simp_all

/-- Labels stand at offsets of tokens. -/
theorem exists_of_mem_labels (h : offset ∈ σ.labels tokens) :
    ∃ token ∈ tokens, token.position.offset = offset := by
  induction tokens generalizing σ with
  | nil => cases h
  | cons token others ih =>
      rcases mem_labels_cons.1 h with ⟨rfl, -⟩ | hlater
      · exact ⟨token, List.mem_cons_self, rfl⟩
      · obtain ⟨found, hfound, hoffset⟩ := ih hlater
        exact ⟨found, List.mem_cons_of_mem _ hfound, hoffset⟩

end Scanner

/-- The tokens of a text have the kinds that their lexemes have where nothing is declared, and stand
one behind the other. -/
theorem tokens_of_tokenize {text : String} {file : Option String} {tokens : List Token}
    (h : tokenize text file = .ok tokens) :
    (∀ token ∈ tokens, token.piece.bare.kind = token.kind) ∧
      tokens.Pairwise fun token other => token.position.offset < other.position.offset := by
  have hordered := (Source.pairwise_outlook (.ofString text file)).1
  rw [Outlook.positions, List.pairwise_append, List.pairwise_map] at hordered
  rw [tokenize_eq] at h
  cases hend : (Source.ofString text file).outlook.ending with
  | error e =>
      rw [hend] at h
      cases h
  | ok p =>
      rw [hend] at h
      obtain rfl := Except.ok.inj h
      refine ⟨List.forall_mem_map.2 fun piece _ => ?_, List.pairwise_map.2 hordered.1⟩
      simp [Token.piece, Piece.bare]

namespace Renaming

variable {ρ : Renaming} {P : Nat → Prop} {file file' : Option String}

theorem follows_of_kinds {σ : Scanner} {tokens tokens' : List Token}
    (hbare : ∀ token ∈ tokens, token.piece.bare.kind = token.kind)
    (hbare' : ∀ token ∈ tokens', token.piece.bare.kind = token.kind)
    (hkinds : tokens'.map (·.kind) = ρ.kinds σ tokens)
    (hordered : tokens.Pairwise fun token other => token.position.offset < other.position.offset)
    (hP : ∀ token ∈ tokens, P token.position.offset ↔ token.position.offset ∈ σ.labels tokens) :
    ρ.Follows P σ (tokens.map fun token => token.piece.relabel file)
      (tokens'.map fun token => token.piece.relabel file') := by
  induction tokens generalizing σ tokens' with
  | nil =>
      obtain rfl : tokens' = [] := by simpa [kinds] using hkinds
      exact .nil
  | cons token others ih =>
      obtain ⟨token', others', rfl, hkind, hothers⟩ := List.map_eq_cons_iff.1 hkinds
      obtain ⟨hbefore, hordered⟩ := List.pairwise_cons.1 hordered
      rw [List.forall_mem_cons] at hbare hbare' hP
      -- Offsets grow, so no later label stands where this token does.
      have hlater : token.position.offset ∉
          (σ.after token.kind token.position.offset).labels others := by
        intro hmem
        obtain ⟨other, hother, hsame⟩ := Scanner.exists_of_mem_labels hmem
        exact absurd hsame (Nat.ne_of_gt (hbefore other hother))
      have hself : (token.piece.relabel file).bare.kind = token.kind := hbare.1
      have hself' : (token'.piece.relabel file').bare.kind = token'.kind := hbare'.1
      have hnext : ((others.map fun token => token.piece.relabel file).head?.map (·.bare.kind)) =
          others.head?.map (·.kind) := by
        cases others with
        | nil => rfl
        | cons other others => exact congrArg some (hbare.2 other List.mem_cons_self)
      refine .cons ?_ ?_ ?_
      · rw [hself, hself', hnext]
        exact hkind
      · rw [hself, hnext]
        exact hP.1.trans (Scanner.mem_labels_cons.trans (by simp [hlater]))
      · rw [hself]
        change ρ.Follows P (σ.after token.kind token.position.offset) _ _
        refine ih hbare.2 hbare'.2 hothers hordered fun other hother => ?_
        refine (hP.2 other hother).trans (Scanner.mem_labels_cons.trans ?_)
        have hne : other.position.offset ≠ token.position.offset :=
          Nat.ne_of_gt (hbefore other hother)
        simp [hne]

variable {text text' : String} {tokens tokens' : List Token}

/-- Texts whose tokens are renamed are the same to begin with. -/
theorem related_ofSource (h : tokenize text none = .ok tokens)
    (h' : tokenize text' none = .ok tokens')
    (hkinds : tokens'.map (·.kind) = ρ.kinds .start tokens) (file file' : Option String) :
    ρ.Related (· ∈ Scanner.start.labels tokens) .start
      (ParserState.ofSource (.ofString text file)).view
      (ParserState.ofSource (.ofString text' file')).view := by
  obtain ⟨hbare, hordered⟩ := tokens_of_tokenize h
  rw [ParserState.view_ofSource, ParserState.view_ofSource, outlook_of_tokenize h,
    outlook_of_tokenize h']
  exact {
    ahead := follows_of_kinds hbare (tokens_of_tokenize h').1 hkinds hordered fun _ _ => Iff.rfl
    ending := ⟨_, rfl⟩
    ending' := ⟨_, rfl⟩
    table := rfl
    regular := ⟨rfl, SymbolTable.keywordFree_empty⟩
    regular' := ⟨rfl, SymbolTable.keywordFree_empty⟩ }

end Renaming

/-! ## Programs with new names -/

namespace Parser

variable {ρ : Renaming} {text text' : String} {tokens tokens' : List Token} {file : Option String}

/-- A program with new names is read to its end if no label gets the name of a type that is visible
where the label is taken, and only then. -/
theorem runUnit_renamed (h : tokenize text none = .ok tokens)
    (h' : tokenize text' none = .ok tokens')
    (hkinds : tokens'.map (·.kind) = ρ.kinds .start tokens) {list : List ExternalDeclaration}
    {t : ParserState} (hrun : runUnit text file = (.ok list, t)) (file' : Option String) :
    ((∀ s, .requested .advance s ∈ events text file →
        ρ.Clear (· ∈ Scanner.start.labels tokens) s.view) ↔
      ∃ list' t', runUnit text' file' = (.ok list', t')) ∧
    ∀ list' t', runUnit text' file' = (.ok list', t') →
      Renamed (List.map (ExternalDeclaration.respell ρ)) (List.map ExternalDeclaration.erase)
        list list' ∧
      ρ.Related (· ∈ Scanner.start.labels tokens) .start t.view t'.view := by
  have hrelated := Renaming.related_ofSource h h' hkinds file file'
  have hsound := ParserState.sound_ofSource (.ofString text file)
  have hsound' := ParserState.sound_ofSource (.ofString text' file')
  let depth := (Source.ofString text file).rest.length + 1
  -- The runs are told by their views, of which `renamesCalls` speaks.
  have hread : (Script.rule .externalDeclarations).read (readAt depth)
      (ParserState.ofSource (.ofString text file)).view = some (list, t.view) := by
    have houtcome := outcome_eq hsound rfl depth .externalDeclarations
    rw [show runAt depth .externalDeclarations _ = (.ok list, t) from hrun] at houtcome
    simp [Script.rule, Script.read, ← houtcome, ParserState.outcome]
  obtain ⟨hiff, hends⟩ := renamesCalls ρ (· ∈ Scanner.start.labels tokens) depth
    .externalDeclarations _ _ hrelated _ _ hread
  have hobserves : (Script.rule .externalDeclarations).Observes
      (ρ.Clear (· ∈ Scanner.start.labels tokens)) (readAt depth)
      (observesAt (ρ.Clear (· ∈ Scanner.start.labels tokens)) depth)
      (ParserState.ofSource (.ofString text file)).view ↔
      ∀ s, .requested .advance s ∈ events text file →
        ρ.Clear (· ∈ Scanner.start.labels tokens) s.view :=
    ⟨fun hrule => (observesAt_iff (admits_eventsAt hsound rfl)).1 hrule.1,
      fun hclear => ⟨(observesAt_iff (admits_eventsAt hsound rfl)).2 hclear, fun _ _ _ => trivial⟩⟩
  refine ⟨hobserves.symm.trans (hiff.trans ⟨?_, ?_⟩), ?_⟩
  · rintro ⟨list', w', htakes⟩
    obtain ⟨t', hyields, -⟩ := yields_of_takes hsound' rfl htakes.of_rule
    exact ⟨list', t', runUnit_of_yields hyields⟩
  · rintro ⟨list', t', hrun'⟩
    exact ⟨list', t'.view, .rule (takes_of_runAt hsound' rfl hrun')⟩
  · exact fun list' t' hrun' => hends list' t'.view (.rule (takes_of_runAt hsound' rfl hrun'))

end Parser

/-! ## Labels -/

/-- New names for labels alone. -/
def Renaming.ofLabels (label : Nat → String → String) : Renaming :=
  { tag := id, member := id, label := label }

/-- Whether a text has renamed tokens is read off what `tokenize` gives. -/
theorem Renaming.exists_tokens {ρ : Renaming} {x y : Except ParseError (List Token)}
    (h : x.toOption.isSome = true)
    (hkinds : y.toOption.map (List.map (·.kind)) = x.toOption.map (ρ.kinds .start)) :
    ∃ tokens tokens', x = .ok tokens ∧ y = .ok tokens' ∧
      tokens'.map (·.kind) = ρ.kinds .start tokens := by
  cases x with
  | error e => cases h
  | ok tokens =>
      cases y with
      | error e => cases hkinds
      | ok tokens' => exact ⟨tokens, tokens', rfl, rfl, Option.some.inj hkinds⟩

namespace Parser

variable {text text' : String} {tokens tokens' : List Token} {file : Option String}
  {unit : TranslationUnit}

theorem exists_unit_iff : (∃ unit, parse text file = .ok unit) ↔
    ∃ list t, runUnit text file = (.ok list, t) := by
  constructor
  · rintro ⟨unit, hparse⟩
    obtain ⟨t, hrun⟩ := runUnit_of_parse hparse
    exact ⟨_, t, hrun⟩
  · rintro ⟨list, t, hrun⟩
    exact ⟨⟨list⟩, by rw [parse, hrun]; rfl⟩

/-- Labels may get any names, so long as none is that of a type that is visible at a statement with
the label; then the program is read as before, with the new names.  Otherwise it is refused.  A `goto`
may have any name. -/
theorem labels_renamed (label : Nat → String → String) (h : tokenize text none = .ok tokens)
    (h' : tokenize text' none = .ok tokens')
    (hkinds : tokens'.map (·.kind) = (Renaming.ofLabels label).kinds .start tokens)
    (hparse : parse text file = .ok unit) (file' : Option String) :
    ((∃ unit', parse text' file' = .ok unit') ↔ ∀ s, .requested .advance s ∈ events text file →
      (Renaming.ofLabels label).Clear (· ∈ Scanner.start.labels tokens) s.view) ∧
    ∀ unit', parse text' file' = .ok unit' →
      unit'.erase = (unit.respell (.ofLabels label)).erase := by
  obtain ⟨t, hrun⟩ := runUnit_of_parse hparse
  obtain ⟨hiff, hends⟩ := runUnit_renamed h h' hkinds hrun file'
  refine ⟨exists_unit_iff.trans hiff.symm, fun unit' hparse' => ?_⟩
  obtain ⟨t', hrun'⟩ := runUnit_of_parse hparse'
  exact congrArg TranslationUnit.mk (hends _ _ hrun').1.symm

/-- A label before whose statement a type of another block has had a name. -/
def labelText : String :=
  "void f(int c){{typedef int T;T x;}L:if(c)goto L;}"

/-- The same with the name of that type. -/
def relabelledText : String :=
  "void f(int c){{typedef int T;T x;}T:if(c)goto T;}"

theorem labels_renamed_outer : ∃ unit unit', parse labelText none = .ok unit ∧
    parse relabelledText none = .ok unit' ∧
    unit'.erase = (unit.respell (.ofLabels fun _ _ => "T")).erase := by
  have hsome : (tokenize labelText none).toOption.isSome = true := by decide +kernel
  have hsame : (tokenize relabelledText none).toOption.map (List.map (·.kind)) =
      (tokenize labelText none).toOption.map
        ((Renaming.ofLabels fun _ _ => "T").kinds .start) := by decide +kernel
  have hparses : (parse labelText none).toOption.isSome = true := by decide +kernel
  have hparses' : (parse relabelledText none).toOption.isSome = true := by decide +kernel
  obtain ⟨tokens, tokens', h, h', hkinds⟩ := Renaming.exists_tokens hsome hsame
  rcases hunit : parse labelText none with e | unit
  · rw [hunit] at hparses
    cases hparses
  · rcases hunit' : parse relabelledText none with e | unit'
    · rw [hunit'] at hparses'
      cases hparses'
    · exact ⟨unit, unit', rfl, rfl, (labels_renamed _ h h' hkinds hunit none).2 unit' hunit'⟩

/-- A label where the name of a type is visible. -/
def plainLabelText : String :=
  "typedef int T; void f(void) { L: goto L; }"

/-- The same with the name of that type. -/
def hiddenLabelText : String :=
  "typedef int T; void f(void) { T: goto T; }"

theorem label_named_as_type : ∃ tokens tokens' unit,
    tokenize plainLabelText none = .ok tokens ∧ tokenize hiddenLabelText none = .ok tokens' ∧
    tokens'.map (·.kind) = (Renaming.ofLabels fun _ _ => "T").kinds .start tokens ∧
    parse plainLabelText none = .ok unit ∧ ¬∃ unit', parse hiddenLabelText none = .ok unit' := by
  have hsome : (tokenize plainLabelText none).toOption.isSome = true := by decide +kernel
  have hsame : (tokenize hiddenLabelText none).toOption.map (List.map (·.kind)) =
      (tokenize plainLabelText none).toOption.map
        ((Renaming.ofLabels fun _ _ => "T").kinds .start) := by decide +kernel
  have hparses : (parse plainLabelText none).toOption.isSome = true := by decide +kernel
  have hrefused : (parse hiddenLabelText none).toOption.isSome = false := by decide +kernel
  obtain ⟨tokens, tokens', h, h', hkinds⟩ := Renaming.exists_tokens hsome hsame
  rcases hunit : parse plainLabelText none with e | unit
  · rw [hunit] at hparses
    cases hparses
  · refine ⟨tokens, tokens', unit, h, h', hkinds, rfl, ?_⟩
    rintro ⟨unit', hunit'⟩
    rw [hunit'] at hrefused
    cases hrefused

end Parser

/-! ## Tags and members -/

namespace Renaming

/-- New names for tags and members alone. -/
def ofTagsAndMembers (tag member : String → String) : Renaming :=
  { tag := tag, member := member, label := fun _ name => name }

theorem kinds_same (σ : Scanner) (tokens : List Token) :
    (ofTagsAndMembers id id).kinds σ tokens = tokens.map (·.kind) := by
  have hkind : ∀ space kind, (ofTagsAndMembers id id).kind space kind = kind := by
    intro space kind
    cases kind <;> cases space <;> rfl
  induction tokens generalizing σ with
  | nil => rfl
  | cons token others ih => rw [kinds, ih, hkind, List.map_cons]

end Renaming

namespace Parser

variable {text text' : String} {tokens tokens' : List Token} {file : Option String}
  {unit : TranslationUnit}

/-- Tags and members may get any names, those of visible types included. -/
theorem tags_and_members_renamed (tag member : String → String)
    (h : tokenize text none = .ok tokens) (h' : tokenize text' none = .ok tokens')
    (hkinds : tokens'.map (·.kind) = (Renaming.ofTagsAndMembers tag member).kinds .start tokens)
    (hparse : parse text file = .ok unit) (file' : Option String) :
    ∃ unit', parse text' file' = .ok unit' ∧
      unit'.erase = (unit.respell (.ofTagsAndMembers tag member)).erase ∧
      (runUnit text' file').2.table.mapTypes CType.erase =
        (runUnit text file).2.table.mapTypes fun type =>
          (type.respell (.ofTagsAndMembers tag member)).erase := by
  obtain ⟨t, hrun⟩ := runUnit_of_parse hparse
  -- No label is in the way of the text itself, and the new names change none.
  have hclear := (runUnit_renamed h h (Renaming.kinds_same _ _).symm hrun file).1.2
    ⟨_, _, hrun⟩
  obtain ⟨hiff, hends⟩ := runUnit_renamed h h' hkinds hrun file'
  obtain ⟨list', t', hrun'⟩ := hiff.1 hclear
  obtain ⟨hlist, hrelated⟩ := hends _ _ hrun'
  refine ⟨⟨list'⟩, by rw [parse, hrun']; rfl, congrArg TranslationUnit.mk hlist.symm, ?_⟩
  rw [hrun, hrun']
  exact hrelated.table.symm

/-- A program with tags and members. -/
def recordText : String :=
  "typedef int T;struct S{T x;int y;}s;enum E{A};typedef struct S U;int f(struct S*p){return p->x+s.y;}"

/-- The same with the names of a type, a variable and a function. -/
def rerecordedText : String :=
  "typedef int T;struct T{T T;int f;}s;enum s{A};typedef struct T U;int f(struct T*p){return p->T+s.f;}"

theorem tags_and_members_renamed_type : ∃ unit unit', parse recordText none = .ok unit ∧
    parse rerecordedText none = .ok unit' ∧
    unit'.erase = (unit.respell (.ofTagsAndMembers (fun name => if name = "S" then "T" else "s")
      fun name => if name = "x" then "T" else "f")).erase := by
  have hsome : (tokenize recordText none).toOption.isSome = true := by decide +kernel
  have hsame : (tokenize rerecordedText none).toOption.map (List.map (·.kind)) =
      (tokenize recordText none).toOption.map
        ((Renaming.ofTagsAndMembers (fun name => if name = "S" then "T" else "s")
          fun name => if name = "x" then "T" else "f").kinds .start) := by decide +kernel
  have hparses : (parse recordText none).toOption.isSome = true := by decide +kernel
  obtain ⟨tokens, tokens', h, h', hkinds⟩ := Renaming.exists_tokens hsome hsame
  rcases hunit : parse recordText none with e | unit
  · rw [hunit] at hparses
    cases hparses
  · obtain ⟨unit', hparse', hsame, -⟩ := tags_and_members_renamed _ _ h h' hkinds hunit none
    exact ⟨unit, unit', rfl, hparse', hsame⟩

end Parser
end CSyntax
