import CSyntax.Proofs.Alias.Visible
import CSyntax.Proofs.Lexical.Lossless
import CSyntax.Proofs.Run.Freshness
import CSyntax.Proofs.Scope.Restoration
import CSyntax.Proofs.Statement.Shape

/-!
# Grounding — every alias that is read names a type that is visible

A word is taken for a type only where the symbol table has it as one, and a name that is declared is
never a name of the language.  The contract `grounding` adds these two facts to `nesting` and
compares the table with the aliases that a reading of the tree has come to: all type names of the
table are visible aliases (`SymbolTable.Within`).  Declarators, initial values and statements make
no word a type name, so that this holds from one declaration to the next.

* `valid_grounding` — the scripts of all rules keep the contract;
* `Parser.grounds_of_parse` — the aliases of every unit that is read are grounded.
-/

namespace CSyntax

variable {α β : Type} {T U V : SymbolTable}

/-! ## The contract -/

/-- A type name is one of the table, and no word is a name of the language. -/
structure TokenKind.Proper (table : SymbolTable) (kind : TokenKind) : Prop where
  typeName : ∀ name, kind = .typeName name → table.isTypeName name = true
  words : ∀ name ∈ kind.words, name ∉ ArithmeticType.spellings

/-- A type name that a tally has was there before, or is one of the table. -/
def SpecifierTally.NamesFrom (T : SymbolTable) (tally result : SpecifierTally) : Prop :=
  ∀ name, result.other = some (.named name) →
    tally.other = some (.named name) ∨ T.isTypeName name = true

/-- The declarator declares no name of the language. -/
def Declarator.Proper (d : Declarator) : Prop :=
  ∀ name position, d.name = some (name, position) → name ∉ ArithmeticType.spellings

/-- What declarators add to a base, and how the type names of the table follow the aliases. -/
structure Specifiers.Declares (specifiers : Specifiers) (T : SymbolTable) (list : List Declaration)
    (U : SymbolTable) : Prop where
  names : ∀ d ∈ list, d.name ∉ ArithmeticType.spellings
  types : ∀ d ∈ list, ∀ name, d.type = .named name → specifiers.base = .named name
  within : ∀ start aliases : Aliases, T.Within aliases.Shows →
    U.Within (list.foldl start.declare aliases).Shows

/-- What a rule promises of the aliases in its result, and of the table that it leaves. -/
def Nonterminal.Grounds (T : SymbolTable) : (f : Nonterminal) → f.Result → SymbolTable → Prop
  | .specifierTail tally, result, _ => tally.NamesFrom T result
  | .declarator _, d, _ => d.Proper
  | .initDeclarators specifiers, list, U => specifiers.Declares T list U
  | .blockItems, items, _ =>
      ∀ aliases : Aliases, T.Within aliases.Shows → aliases.GroundsBody items
  | .externalDeclarations, list, _ =>
      ∀ aliases : Aliases, T.Within aliases.Shows → aliases.GroundsUnit list
  | _, _, _ => True

/-- The contract `nesting`, with what is known of tokens and of aliases. -/
def grounding : Contract SymbolTable where
  may _ _ := True
  step r T answer U := (nesting false).step r T answer U ∧
    ∀ token, r.handed? answer = some token → token.kind.Proper T
  pre _ _ := True
  post f T result U R := (nesting false).post f T result U R ∧ f.Grounds T result U

theorem grounding_refines : grounding.Refines (nesting false) where
  may _ := trivial
  step h := h.1
  pre _ := trivial
  post h := h.1

namespace Script

/-- What a script gives at a table, and the table that it leaves. -/
def Grounds (prog : Script α) (T : SymbolTable) (Q : α → SymbolTable → Prop) : Prop :=
  prog.Meets grounding T fun value U _ => Q value U

theorem Keeps.grounds {prog : Script α} (h : prog.Keeps false .anywhere) :
    prog.Grounds T fun _ U => T.Fades U :=
  (Meets.refine grounding_refines (h T nofun)).mono fun _ _ _ hU => hU.fades rfl

namespace Grounds

variable {P : α → SymbolTable → Prop} {Q : β → SymbolTable → Prop} {prog : Script α}
  {next : α → Script β}

theorem bind (h : prog.Grounds T P) (hnext : ∀ value U, P value U → (next value).Grounds U Q) :
    (prog >>= next).Grounds T Q :=
  Meets.bind h fun value U _ hP => hnext value U hP

theorem mono {P' : α → SymbolTable → Prop} (h : prog.Grounds T P)
    (hP : ∀ value U, P value U → P' value U) : prog.Grounds T P' :=
  Meets.mono h fun value U _ => hP value U

/-- A script that makes no word a type name. -/
theorem fading (h : prog.Keeps false .anywhere) (h' : prog.Grounds T P)
    (hnext : ∀ value U, T.Fades U → P value U → (next value).Grounds U Q) :
    (prog >>= next).Grounds T Q :=
  Meets.bind (h.grounds.and h') fun value U _ hP => hnext value U hP.1 hP.2

/-- A script of which only the table counts. -/
theorem skip (h : prog.Keeps false .anywhere)
    (hnext : ∀ value U, T.Fades U → (next value).Grounds U Q) : (prog >>= next).Grounds T Q :=
  bind h.grounds hnext

/-- A script of which nothing counts. -/
theorem pass (hnext : ∀ value U, (next value).Grounds U Q) : (prog >>= next).Grounds T Q :=
  bind (Meets.of_forall ⟨fun _ _ => trivial, fun _ _ => trivial⟩ fun _ _ _ => trivial)
    fun value U (_ : True) => hnext value U

theorem pure {value : α} (h : P value T) : (Pure.pure value : Script α).Grounds T P :=
  h

theorem fail {error : ParseError} : (Script.fail error : Script α).Grounds T P :=
  trivial

theorem refuse {token : Token} {fault : GrammarFault} :
    (Script.refuse token fault : Script α).Grounds T P :=
  trivial

theorem contradict {position : Position} {fault : InternalFault} :
    (Script.contradict position fault : Script α).Grounds T P :=
  trivial

theorem contradictAt {token : Token} {fault : InternalFault} :
    (Script.contradictAt token fault : Script α).Grounds T P :=
  trivial

theorem rule (f : Nonterminal) : (Script.rule f).Grounds T fun result U =>
    f.place.Left T U ∧ f.Grounds T result U :=
  ⟨trivial, fun _ _ _ h => h⟩

theorem peek : Script.peek.Grounds T fun token U => U = T ∧ token.kind.Proper T :=
  ⟨trivial, fun _ _ h => ⟨h.1, h.2 _ rfl⟩⟩

theorem enter (kind : ScopeKind) : (Script.enter kind).Grounds T fun _ U => U = T.enter kind :=
  ⟨trivial, fun _ _ h => h.1⟩

theorem declare (name : String) (meaning : Meaning) :
    (Script.declare name meaning).Grounds T fun _ U => U = T.declare name meaning :=
  ⟨trivial, fun _ _ h => h.1.2⟩

end Grounds

end Script

/-! ## Specifiers -/

theorem ArithmeticType.canonical?_mem {words : List Keyword} {name : String}
    (h : canonical? words = some name) : name ∈ spellings := by
  dsimp only [canonical?] at h
  split at h
  · cases h
  · split at h <;> (repeat' split at h) <;> cases h <;> decide

/-- The type is anything but a name, as records and enumerations are. -/
def CType.Nameless (type : CType) : Prop :=
  ∀ name, type ≠ .named name

theorem CType.nameless_record {kind : RecordKind} {tag : Option String}
    {members : Option (List Member)} : (CType.record kind tag members).Nameless :=
  fun _ hname => by cases hname

theorem CType.nameless_enumeration {tag : Option String} {enumerators : Option (List Enumerator)} :
    (CType.enumeration tag enumerators).Nameless :=
  fun _ hname => by cases hname

namespace SpecifierTally.NamesFrom

variable {tally next result : SpecifierTally}

theorem of_eq (h : result.other = tally.other) : tally.NamesFrom T result :=
  fun _ hname => .inl (h ▸ hname)

theorem trans (h : tally.NamesFrom T next) (hfades : T.Fades U) (h' : next.NamesFrom U result) :
    tally.NamesFrom T result := by
  intro name hname
  rcases h' name hname with hnext | htype
  · exact h name hnext
  · exact .inr (hfades name htype)

/-- A record or an enumeration takes the place of a name. -/
theorem of_nameless {type : CType} (h : type.Nameless) :
    tally.NamesFrom T { tally with other := some type } :=
  fun name hname => absurd (Option.some.inj hname) (h name)

end SpecifierTally.NamesFrom

namespace Grammar

open Script.Grounds

theorem grounds_record (kind : RecordKind) :
    (record kind).Grounds T fun type _ => type.Nameless := by
  refine pass fun tag _ => ?_
  refine pass fun found _ => ?_
  split
  · refine pass fun _ _ => ?_
    refine pass fun members _ => ?_
    refine pass fun close _ => ?_
    refine pass fun _ _ => ?_
    exact pure CType.nameless_record
  · refine pass fun _ _ => ?_
    exact pure CType.nameless_record

theorem grounds_recordType : recordType.Grounds T fun type _ => type.Nameless := by
  refine pass fun token _ => ?_
  split
  · exact grounds_record .struct
  · exact grounds_record .union
  · exact contradictAt

theorem grounds_enumeration : enumeration.Grounds T fun type _ => type.Nameless := by
  refine pass fun tag _ => ?_
  refine pass fun found _ => ?_
  split
  · refine pass fun enumerators _ => ?_
    refine pass fun close _ => ?_
    exact pure CType.nameless_enumeration
  · refine pass fun _ _ => ?_
    exact pure CType.nameless_enumeration

theorem grounds_enumerationType : enumerationType.Grounds T fun type _ => type.Nameless :=
  pass fun _ _ => grounds_enumeration

theorem grounds_typeWord (tally : SpecifierTally) (token : Token) (word : Keyword) :
    (typeWord tally token word).Grounds T fun result _ => tally.NamesFrom T result := by
  unfold typeWord
  split
  · exact refuse
  · refine pass fun _ _ => ?_
    split
    · split
      · exact pure (.of_eq rfl)
      · exact refuse
    · exact contradictAt

theorem grounds_taggedType (tally : SpecifierTally) (token : Token) (word : Keyword) :
    (taggedType tally token word).Grounds T fun result _ => tally.NamesFrom T result := by
  unfold taggedType
  split
  · exact refuse
  · split
    · exact bind grounds_enumerationType fun type _ htype => pure (.of_nameless htype)
    · exact bind grounds_recordType fun type _ htype => pure (.of_nameless htype)

theorem grounds_specifier (tally : SpecifierTally) :
    (specifier tally).Grounds T fun next _ => ∀ result ∈ next, tally.NamesFrom T result := by
  -- Modifiers leave the base alone; words and tags take its place, but are never type names.
  have same : ∀ {word : Keyword}, ∀ result ∈ some (tally.addModifier word),
      tally.NamesFrom T result := by
    rintro word _ ⟨⟩
    exact .of_eq (tally.other_addModifier word)
  have found : ∀ {V : SymbolTable} {prog : Script SpecifierTally},
      (prog.Grounds V fun result _ => tally.NamesFrom T result) →
      (prog >>= fun result => Pure.pure (some result)).Grounds V
        fun next _ => ∀ result ∈ next, tally.NamesFrom T result := by
    intro V prog h
    refine bind h fun result _ hresult => pure ?_
    rintro _ ⟨⟩
    exact hresult
  refine bind peek ?_
  rintro token _ ⟨rfl, htoken⟩
  split
  · split
    · split
      · exact refuse
      · exact pass fun _ _ => pure same
    · split
      · exact pass fun _ _ => pure same
      · split
        · exact found (grounds_typeWord tally token _)
        · split
          · exact found (grounds_taggedType tally token _)
          · exact pure nofun
  · rename_i name hkind
    split
    · exact pure nofun
    · refine pass fun _ _ => pure ?_
      rintro _ ⟨⟩ _ ⟨⟩
      exact .inr (htoken.typeName name hkind)
  · exact pure nofun

theorem grounds_specifierTail (tally : SpecifierTally) :
    (specifierTail tally).Grounds T fun result _ => tally.NamesFrom T result := by
  refine fading (keeps_specifier tally) (grounds_specifier tally) fun found U hU hfound => ?_
  cases found with
  | some next =>
      exact (rule (.specifierTail next)).mono fun result _ h => (hfound next rfl).trans hU h.2
  | none => exact pure (.of_eq rfl)

/-- A base that is a name is one of the language or a type name of the table. -/
theorem grounds_specifiers : specifiers.Grounds T fun result _ =>
    ∀ name, result.base = .named name →
      name ∈ ArithmeticType.spellings ∨ T.isTypeName name = true := by
  refine skip Script.Restores.here.keeps fun position U hU => ?_
  refine bind (grounds_specifierTail .empty) fun tally _ htally => ?_
  split
  · rename_i base hbase
    refine pure fun name hname => ?_
    obtain rfl : base = .named name := hname
    unfold SpecifierTally.type? at hbase
    split at hbase
    · rename_i type hother
      obtain rfl := Option.some.inj hbase
      exact .inr (hU name ((htally name hother).resolve_left fun hnone => by cases hnone))
    · obtain ⟨spelling, hspelling, hsame⟩ := Option.map_eq_some_iff.1 hbase
      cases hsame
      exact .inl (ArithmeticType.canonical?_mem hspelling)
  · exact pass fun token _ => refuse

/-! ## Declarators -/

theorem grounds_declaratorCore (mode : DeclaratorMode) :
    (declaratorCore mode).Grounds T fun d _ => d.Proper := by
  have word : ∀ {token : Token} {name : String}, token.kind.Proper T → name ∈ token.kind.words →
      Declarator.Proper { name := some (name, token.position), modifiers := [] } := by
    rintro token name htoken hname _ _ ⟨⟩
    exact htoken.words name hname
  refine bind peek ?_
  rintro token _ ⟨rfl, htoken⟩
  split
  · rename_i name hkind
    split
    · exact pure nofun
    · exact pass fun _ _ => pure (word htoken (by simp [hkind, TokenKind.words]))
  · rename_i name hkind
    split
    · exact pure nofun
    · exact pass fun _ _ => pure (word htoken (by simp [hkind, TokenKind.words]))
  · refine pass fun nested _ => ?_
    split
    · exact pass fun _ _ => bind (rule _) fun inner _ h => pass fun _ _ => pure h.2
    · exact pure nofun
  · split
    · exact refuse
    · exact pure nofun

theorem grounds_declarator (mode : DeclaratorMode) :
    (declarator mode).Grounds T fun d _ => d.Proper :=
  pass fun _ _ => bind (grounds_declaratorCore mode) fun _ _ hcore => pass fun _ _ => pure hcore

/-! ## Declarations -/

end Grammar

/-- A declarator around a base is a name only if it adds nothing to a name. -/
theorem Declarator.base_of_type {d : Declarator} {base : CType} {name : String}
    (h : d.type base = .named name) : base = .named name := by
  unfold Declarator.type at h
  generalize d.modifiers = modifiers at h
  induction modifiers generalizing base with
  | nil => exact h
  | cons first others ih =>
      have hfirst : first.apply base = .named name := ih h
      cases first <;> cases hfirst

namespace Specifiers.Declares

variable {specifiers : Specifiers} {list others : List Declaration} {first : Declaration}

theorem append (h : specifiers.Declares T [first] U) (h' : specifiers.Declares U others V) :
    specifiers.Declares T (first :: others) V where
  names := List.forall_mem_cons.2 ⟨h.names first List.mem_cons_self, h'.names⟩
  types := List.forall_mem_cons.2 ⟨h.types first List.mem_cons_self, h'.types⟩
  within start aliases hT := h'.within start _ (h.within start aliases hT)

theorem fades_left (hT : T.Fades U) (h : specifiers.Declares U list V) :
    specifiers.Declares T list V :=
  { h with within := fun start aliases hwithin => h.within start aliases (hwithin.fades hT) }

theorem fades_right (h : specifiers.Declares T list U) (hU : U.Fades V) :
    specifiers.Declares T list V :=
  { h with within := fun start aliases hwithin => (h.within start aliases hwithin).fades hU }

end Specifiers.Declares

/-- Binding a word follows its declaration in the table. -/
theorem SymbolTable.Within.declare {aliases : Aliases} {name : String} {meaning : Meaning}
    {chain? : Option Chain} (h : T.Within aliases.Shows)
    (hmeaning : ∀ type, meaning = .typeName type → chain? ≠ none) :
    (T.declare name meaning).Within (aliases.bind name chain?).Shows := by
  intro other hother
  obtain ⟨type, htype⟩ := isTypeName_iff.1 hother
  rw [lookup?_declare] at htype
  unfold Aliases.Shows
  rw [Aliases.visible?_bind]
  split
  · rename_i hname
    rw [if_pos hname] at htype
    exact hmeaning type (Option.some.inj htype)
  · rename_i hname
    rw [if_neg hname] at htype
    exact h other (isTypeName_iff.2 ⟨type, htype⟩)

theorem SymbolTable.Within.bind_none {aliases : Aliases} (h : T.Within aliases.Shows)
    (name : String) : (T.declare name .ordinary).Within (aliases.bind name none).Shows :=
  h.declare fun _ hmeaning => nomatch hmeaning

namespace Grammar

open Script.Grounds

theorem grounds_initDeclarator (specifiers : Specifiers) {d : Declarator} (hd : d.Proper) :
    (initDeclarator specifiers d).Grounds T fun first U => specifiers.Declares T [first] U := by
  unfold initDeclarator
  split
  · exact contradict
  · rename_i name position hname
    -- The name is bound before its initial value is read, which can only hide type names.
    refine bind (declare name _) ?_
    rintro _ _ rfl
    refine skip (keeps_initial? specifiers) fun initial U hU => pure ?_
    refine Specifiers.Declares.fades_right ?_ hU
    refine { names := ?_, types := ?_, within := fun start aliases hwithin => ?_ }
    · simpa using hd name position hname
    · simpa using fun name => Declarator.base_of_type
    · refine hwithin.declare ?_
      split <;> simp_all

theorem grounds_declarations (specifiers : Specifiers) {d : Declarator} (hd : d.Proper) :
    (declarations specifiers d).Grounds T fun list U => specifiers.Declares T list U := by
  refine bind (grounds_initDeclarator specifiers hd) fun first U hfirst => ?_
  refine skip (Script.Restores.accept _).keeps fun found V hV => ?_
  split
  · exact bind (rule (.initDeclarators specifiers)) fun others W h =>
      pure (hfirst.append (h.2.fades_left hV))
  · exact pure (hfirst.fades_right hV)

theorem grounds_initDeclarators (specifiers : Specifiers) :
    (initDeclarators specifiers).Grounds T fun list U => specifiers.Declares T list U := by
  refine fading (keeps_declarator .named) (grounds_declarator .named) fun d U hU hd => ?_
  exact (grounds_declarations specifiers hd).mono fun list V h => h.fades_left hU

/-- A group is grounded where it stands, and the table follows the aliases. -/
def GroundedGroup (T : SymbolTable) (g : DeclarationGroup) (U : SymbolTable) : Prop :=
  ∀ aliases : Aliases, T.Within aliases.Shows →
    aliases.GroundsGroup g ∧ U.Within (aliases.group g).Shows

theorem grounds_groupFrom {specifiers : Specifiers} {d : Declarator} (hd : d.Proper)
    (hbase : ∀ name, specifiers.base = .named name →
      name ∈ ArithmeticType.spellings ∨ T.isTypeName name = true) (hT : T.Fades U) :
    (groupFrom specifiers d).Grounds U fun g V => GroundedGroup T g V := by
  refine bind (grounds_declarations specifiers hd) fun list V hlist => ?_
  refine skip (Script.Restores.expect _).keeps fun _ W hW => pure fun aliases hwithin => ?_
  refine ⟨fun d hmem _ => ⟨hlist.names d hmem, fun name hname => ?_⟩, ?_⟩
  -- The base was read at the start of the group, so that is where its name is visible.
  · exact (hbase name (hlist.types d hmem name hname)).imp_right (hwithin name)
  · exact (hlist.within aliases aliases (hwithin.fades hT)).fades hW

theorem groundedGroup_bareGroup {specifiers : Specifiers} (h : T.Fades U) :
    GroundedGroup T (bareGroup specifiers) U :=
  fun _ hwithin => ⟨nofun, hwithin.fades h⟩

theorem grounds_declarationGroup : declarationGroup.Grounds T fun g U => GroundedGroup T g U := by
  refine fading keeps_specifiers grounds_specifiers fun specifiers U hU hbase => ?_
  refine skip (Script.Restores.accept _).keeps fun found V hV => ?_
  split
  · exact pure (groundedGroup_bareGroup (hU.trans hV))
  · refine fading (keeps_declarator .named) (grounds_declarator .named) fun d W hW hd => ?_
    exact grounds_groupFrom hd hbase ((hU.trans hV).trans hW)

/-! ## Blocks -/

/-- An item is grounded where it stands, and the table follows the aliases. -/
def GroundedItem (T : SymbolTable) (item : Statement) (U : SymbolTable) : Prop :=
  ∀ aliases : Aliases, T.Within aliases.Shows →
    aliases.GroundsItem item ∧ U.Within (aliases.item item).Shows

theorem groundedItem_of_isDeclaration {item : Statement} (h : item.isDeclaration = false)
    (hU : T.Fades U) : GroundedItem T item U := by
  intro aliases hwithin
  cases item with
  | declaration position g => cases h
  | _ => exact ⟨trivial, hwithin.fades hU⟩

theorem grounds_forLoop (position : Position) :
    (forLoop position).Grounds T fun s _ => s.isDeclaration = false := by
  refine pass fun opening _ => ?_
  refine pass fun _ _ => ?_
  refine pass fun start _ => ?_
  refine pass fun condition _ => ?_
  refine pass fun semicolon _ => ?_
  refine pass fun step _ => ?_
  refine pass fun closing _ => ?_
  refine pass fun body _ => ?_
  refine pass fun _ _ => ?_
  exact pure rfl

theorem grounds_labelledStatement :
    labelledStatement.Grounds T fun s _ => s.isDeclaration = false := by
  refine pass fun token _ => ?_
  split
  · refine pass fun value _ => ?_
    exact pass fun colon _ => pass fun body _ => pure rfl
  · exact pass fun colon _ => pass fun body _ => pure rfl
  · exact pass fun colon _ => pass fun body _ => pure rfl
  · exact contradictAt

theorem grounds_selectionStatement :
    selectionStatement.Grounds T fun s _ => s.isDeclaration = false := by
  refine pass fun token _ => ?_
  refine pass fun condition _ => ?_
  refine pass fun body _ => ?_
  split
  · refine pass fun found _ => ?_
    split
    · exact pass fun otherwise _ => pure rfl
    · exact pure rfl
  · exact pure rfl
  · exact contradictAt

theorem grounds_iterationStatement :
    iterationStatement.Grounds T fun s _ => s.isDeclaration = false := by
  refine pass fun token _ => ?_
  split
  · exact pass fun condition _ => pass fun body _ => pure rfl
  · refine pass fun body _ => ?_
    refine pass fun _ _ => ?_
    exact pass fun condition _ => pass fun semicolon _ => pure rfl
  · exact grounds_forLoop _
  · exact contradictAt

theorem grounds_jumpFrom (token : Token) :
    (jumpFrom token).Grounds T fun s _ => s.isDeclaration = false := by
  unfold jumpFrom
  split
  · exact pass fun name _ => pure rfl
  · exact pure rfl
  · exact pure rfl
  · exact pass fun value _ => pure rfl
  · exact contradictAt

theorem grounds_jumpStatement : jumpStatement.Grounds T fun s _ => s.isDeclaration = false := by
  refine pass fun token _ => ?_
  refine bind (grounds_jumpFrom token) fun jump _ hjump => ?_
  exact pass fun _ _ => pure hjump

theorem grounds_expressionStatement (position : Position) :
    (expressionStatement position).Grounds T fun s _ => s.isDeclaration = false :=
  pass fun _ _ => pass fun _ _ => pure rfl

theorem grounds_statement : statement.Grounds T fun s _ => s.isDeclaration = false := by
  refine pass fun token _ => ?_
  split
  · exact pass fun _ _ => pure rfl
  · exact pass fun _ _ => pure rfl
  · split
    · exact grounds_selectionStatement
    · exact grounds_iterationStatement
    · exact grounds_jumpStatement
    · exact grounds_labelledStatement
    · exact grounds_expressionStatement _
  · refine pass fun second _ => ?_
    split
    · exact grounds_labelledStatement
    · exact grounds_expressionStatement _
  · exact grounds_expressionStatement _

theorem grounds_blockItem (token : Token) :
    (blockItem token).Grounds T fun item U => GroundedItem T item U := by
  unfold blockItem
  split
  · exact bind grounds_declarationGroup fun g U hg => pure hg
  · exact Script.Meets.mono (keeps_statement.grounds.and grounds_statement) fun item U _ h =>
      groundedItem_of_isDeclaration h.2 h.1

theorem grounds_blockItems : blockItems.Grounds T fun items _ =>
    ∀ aliases : Aliases, T.Within aliases.Shows → aliases.GroundsBody items := by
  refine bind peek ?_
  rintro token _ ⟨rfl, -⟩
  split
  · exact pure fun _ _ => trivial
  · exact refuse
  · refine bind (grounds_blockItem token) fun first U hfirst => ?_
    refine bind (rule .blockItems) fun others V hothers => pure fun aliases hwithin => ?_
    obtain ⟨hitem, hU⟩ := hfirst aliases hwithin
    exact ⟨hitem, hothers.2 _ hU⟩

/-! ## Functions and units -/

theorem grounds_declareParameters (list : List Parameter) :
    (declareParameters list).Grounds T fun _ U => ∀ aliases : Aliases, T.Within aliases.Shows →
      U.Within (list.foldl Aliases.parameter aliases).Shows := by
  induction list generalizing T with
  | nil => exact pure fun _ hwithin => hwithin
  | cons first others ih =>
      unfold declareParameters
      split
      · rename_i name hname
        refine bind (declare name .ordinary) ?_
        rintro _ _ rfl
        refine ih.mono fun _ U hU aliases hwithin => ?_
        have hfirst : aliases.parameter first = aliases.bind name none := by
          simp [Aliases.parameter, hname]
        rw [List.foldl_cons, hfirst]
        exact hU _ (hwithin.bind_none name)
      · rename_i hname
        refine ih.mono fun _ U hU aliases hwithin => ?_
        have hfirst : aliases.parameter first = aliases := by simp [Aliases.parameter, hname]
        rw [List.foldl_cons, hfirst]
        exact hU aliases hwithin

/-- An external declaration is grounded where it stands, and the table follows the aliases. -/
def GroundedExternal (T : SymbolTable) (e : ExternalDeclaration) (U : SymbolTable) : Prop :=
  ∀ aliases : Aliases, T.Within aliases.Shows →
    aliases.GroundsExternal e ∧ U.Within (aliases.external e).Shows

theorem grounds_body (specifiers : Specifiers) (d : Declarator) :
    (functionDefinition specifiers d).Grounds T fun f _ => ∀ aliases : Aliases,
      T.Within aliases.Shows → (aliases.inside f).GroundsBody f.body := by
  unfold functionDefinition
  split
  · exact contradict
  · rename_i name position hname
    split
    · exact fail
    · split
      · exact contradict
      · rename_i list hlist
        refine bind (declare name .ordinary) ?_
        rintro _ _ rfl
        refine skip (Script.Restores.expect _).keeps fun _ U hU => ?_
        refine bind (enter .block) ?_
        rintro _ _ rfl
        refine bind (grounds_declareParameters list) fun _ V hV => ?_
        refine bind (rule .blockItems) fun body W hbody => ?_
        refine pass fun _ _ => pass fun _ _ => pure fun aliases hwithin => ?_
        -- The parameters are bound in the scope of the body, behind the name of the function.
        refine hbody.2 _ (hV (aliases.bind name none).enter fun other hother => ?_)
        have hdeclared : U.Within (aliases.bind name none).Shows :=
          (hwithin.bind_none name).fades hU
        simpa [Aliases.Shows] using hdeclared other (by simpa using hother)

theorem grounds_functionDefinition (specifiers : Specifiers) (d : Declarator) :
    (functionDefinition specifiers d).Grounds T fun f U => GroundedExternal T (.function f) U := by
  -- Whatever the body declares is gone when it is left; `nesting` knows what remains.
  have htable : (functionDefinition specifiers d).Meets (nesting false) T fun f U _ =>
      T.InBlock ∧ U = T.declare f.name .ordinary := meets_functionDefinition specifiers d nofun
  refine ((htable.refine grounding_refines).and (grounds_body specifiers d)).mono ?_
  rintro f U _ ⟨⟨-, rfl⟩, hbody⟩ aliases hwithin
  exact ⟨hbody aliases hwithin, hwithin.bind_none f.name⟩

theorem grounds_externalDeclaration :
    externalDeclaration.Grounds T fun e U => GroundedExternal T e U := by
  refine fading keeps_specifiers grounds_specifiers fun specifiers U hU hbase => ?_
  refine skip (Script.Restores.accept _).keeps fun found V hV => ?_
  split
  · exact pure (groundedGroup_bareGroup (hU.trans hV))
  · refine fading (keeps_declarator .named) (grounds_declarator .named) fun d W hW hd => ?_
    have hfades : T.Fades W := (hU.trans hV).trans hW
    split
    · refine skip (Script.Restores.nextIs _).keeps fun found X hX => ?_
      split
      · refine bind (grounds_functionDefinition specifiers d) fun f Y hf => pure ?_
        exact fun aliases hwithin => hf aliases (hwithin.fades (hfades.trans hX))
      · exact bind (grounds_groupFrom hd hbase (hfades.trans hX)) fun g Y hg => pure hg
    · exact bind (grounds_groupFrom hd hbase hfades) fun g X hg => pure hg

theorem grounds_externalDeclarations : externalDeclarations.Grounds T fun list _ =>
    ∀ aliases : Aliases, T.Within aliases.Shows → aliases.GroundsUnit list := by
  refine bind peek ?_
  rintro token _ ⟨rfl, -⟩
  split
  · exact pure fun _ _ => trivial
  · refine bind grounds_externalDeclaration fun first U hfirst => ?_
    refine bind (rule .externalDeclarations) fun others V hothers => pure fun aliases hwithin => ?_
    obtain ⟨hexternal, hU⟩ := hfirst aliases hwithin
    exact ⟨hexternal, hothers.2 _ hU⟩

end Grammar

/-! ## The contract holds -/

/-- The scripts of all rules keep the contract. -/
theorem valid_grounding : grounding.Valid := by
  intro f T _
  have hleft : (Grammar.script f).Meets grounding T fun result U R =>
      (nesting false).post f T result U (R ++ [⟨f, result⟩]) :=
    (valid_nesting false f T nofun).refine grounding_refines
  refine hleft.and ?_
  cases f with
  | specifierTail tally => exact Grammar.grounds_specifierTail tally
  | declarator mode => exact Grammar.grounds_declarator mode
  | initDeclarators specifiers => exact Grammar.grounds_initDeclarators specifiers
  | blockItems => exact Grammar.grounds_blockItems
  | externalDeclarations => exact Grammar.grounds_externalDeclarations
  | _ => exact Script.Meets.of_forall ⟨fun _ _ => trivial, fun _ _ => trivial⟩ fun _ _ _ => trivial

/-! ## Names of the language -/

/-- A name of the language is a keyword, or there is a space in it. -/
theorem ArithmeticType.space_or_keyword :
    ∀ name ∈ spellings, ' ' ∈ name.toList ∨ Keyword.ofSpelling? name ≠ none := by
  decide

/-- A word that is left to the program is no name of the language. -/
theorem Lexeme.Spelled.not_mem_spellings {name : String} {text : List Char}
    (h : (Lexeme.word name).Spelled text) (hname : Unreserved name) :
    name ∉ ArithmeticType.spellings := by
  intro hspelling
  rcases ArithmeticType.space_or_keyword name hspelling with hspace | hkeyword
  · cases h with
    | word hstart hparts =>
        rw [String.toList_ofList] at hspace
        rcases List.mem_cons.1 hspace with rfl | hspace
        · exact absurd hstart (by decide)
        · exact absurd (hparts ' ' hspace) (by decide)
    | number hnumber => cases hnumber
  · exact hkeyword hname

/-- The tokens that lexing gives are proper where the table stands. -/
theorem Token.Fresh.proper {origin : Source} {table : SymbolTable} {token : Token}
    (h : token.Fresh origin table) (hfree : table.KeywordFree) : token.kind.Proper table where
  typeName name hkind := by
    have hname : name ∈ token.kind.words := by simp [hkind, TokenKind.words]
    exact (h.isTypeName hname).1 hkind
  words name hname := by
    have hunreserved : Unreserved name := h.allUnreserved hfree name hname
    obtain ⟨w, ⟨n, t, -, hlexeme⟩, hkind⟩ := Token.fresh_iff.1 h
    obtain ⟨trivia, text, -, -, -, -, hspelled, -⟩ := Source.exists_text_of_nextLexeme hlexeme
    -- Only words are classified as identifiers and type names.
    have hw : w = .word name := by
      cases hk : token.kind with
      | identifier other =>
          obtain rfl : name = other := by simpa [hk, TokenKind.words] using hname
          exact (SymbolTable.classify_eq_identifier.1 (hkind.symm.trans hk)).1
      | typeName other =>
          obtain rfl : name = other := by simpa [hk, TokenKind.words] using hname
          exact (SymbolTable.classify_eq_typeName.1 (hkind.symm.trans hk)).1
      | _ => simp [hk, TokenKind.words] at hname
    subst hw
    exact hspelled.not_mem_spellings hunreserved

/-! ## Units that are read -/

namespace Parser

variable {text : String} {file : Option String}

theorem models_grounding (text : String) (file : Option String) :
    grounding.Models ParserState.table (fun _ => True) (events text file) := by
  intro r s hmem _ _ answer t hperform
  have hnesting := ((sound_nesting text file).1 r s hmem).2
  -- A token that is handed out has been lexed under the table of the moment.
  obtain ⟨hsound, may⟩ := admits_eventsAt (ParserState.sound_ofSource _) rfl r s hmem
  have hfresh := (Request.sound_perform hsound may hperform).2.2
  exact ⟨trivial, Request.nesting_perform hperform hnesting, fun token htoken =>
    (hfresh token htoken).proper hsound.table⟩

/-- The aliases of every unit that is read are grounded. -/
theorem grounds_of_parse {unit : TranslationUnit} (h : parse text file = .ok unit) :
    Aliases.fresh.GroundsUnit unit.declarations := by
  obtain ⟨t, hrun⟩ := runUnit_of_parse h
  have hpost := (Contract.sound valid_grounding trivial trivial (models_grounding text file)).2
    unit.declarations t hrun
  refine hpost.2.2 .fresh fun name hname => ?_
  cases hname

end Parser

end CSyntax
