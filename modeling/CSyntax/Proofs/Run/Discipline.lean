import CSyntax.Proofs.Run.Contract
import CSyntax.Proofs.Stream.Classification

/-!
# Discipline — when marks are set and what is declared

Two habits of the grammar keep the waiting tokens of a cursor true:

* a mark is set only where none is outstanding, it is used up before any rule is called, and the
  table stays as it is in between;
* every word that is declared was read as a word of the program, so no reserved word ever is.

The contract `discipline` states both over one bit, whether a mark is outstanding;
`valid_discipline` shows that all rules keep it.
-/

namespace CSyntax

/-! ## Words of results -/

def TypeModifier.words : TypeModifier → List String
  | .function parameters _ => parameters.filterMap (·.name)
  | _ => []

/-- The name of a declarator and those of the parameters in it. -/
def Declarator.words (d : Declarator) : List String :=
  (d.name.map (·.1)).toList ++ d.modifiers.flatMap TypeModifier.words

/-- The words in a rule's result that the rules that called it may declare. -/
def Nonterminal.words : (f : Nonterminal) → f.Result → List String
  | .declarator _, d => d.words
  | .suffixes, modifiers => modifiers.flatMap TypeModifier.words
  | .parameters, (list, _) => list.filterMap (·.name)
  | _, _ => []

def AllUnreserved (names : List String) : Prop :=
  ∀ name ∈ names, Unreserved name

@[simp] theorem allUnreserved_nil : AllUnreserved [] := by
  simp [AllUnreserved]

@[simp] theorem allUnreserved_cons {name : String} {names : List String} :
    AllUnreserved (name :: names) ↔ Unreserved name ∧ AllUnreserved names := by
  simp [AllUnreserved]

@[simp] theorem allUnreserved_append {names others : List String} :
    AllUnreserved (names ++ others) ↔ AllUnreserved names ∧ AllUnreserved others := by
  simp [AllUnreserved, or_imp, forall_and]

/-- The words that a kind of token spells and a program may declare. -/
def TokenKind.words : TokenKind → List String
  | .identifier name | .typeName name => [name]
  | _ => []

/-! ## The contract -/

/-- What is asked and promised of marks and of declared words, where the state tells whether a mark
is outstanding. -/
def discipline : Contract Bool where
  may
    | .peek _, _ => True
    | .advance, _ => True
    | .mark, marked => marked = false
    | .reset m, marked => marked = true ∧ m = { place := 0 }
    | .release _, marked => marked = true
    | .enter _, marked => marked = false
    | .leave _, marked => marked = false
    | .declare name _, marked => marked = false ∧ Unreserved name
    | .declareEnumerator name, marked => marked = false ∧ Unreserved name
  step
    | .peek _, marked, token, after => after = marked ∧ AllUnreserved token.kind.words
    | .advance, marked, token, after => after = marked ∧ AllUnreserved token.kind.words
    | .mark, _, m, after => after = true ∧ m = { place := 0 }
    | .reset _, _, _, after => after = false
    | .release _, _, _, after => after = false
    | .enter _, marked, _, after => after = marked
    | .leave _, marked, _, after => after = marked
    | .declare _ _, marked, _, after => after = marked
    | .declareEnumerator _, marked, _, after => after = marked
  pre _ marked := marked = false
  post f _ result after _ := after = false ∧ AllUnreserved (f.words result)

/-- A script keeps the discipline where no mark is outstanding, leaves none, and gives a value with
the property. -/
def Script.Orderly {α : Type} (prog : Script α) (P : α → Prop) : Prop :=
  prog.Meets discipline false fun value after _ => after = false ∧ P value

namespace Script.Orderly

variable {α β : Type} {P : α → Prop} {Q : β → Prop}

theorem bind {prog : Script α} {next : α → Script β} (h : prog.Orderly P)
    (hnext : ∀ value, P value → (next value).Orderly Q) : (prog >>= next).Orderly Q := by
  refine Meets.bind h ?_
  rintro value after R ⟨rfl, hvalue⟩
  exact hnext value hvalue

theorem pure {value : α} (h : P value) : Script.Orderly (Pure.pure value) P :=
  ⟨rfl, h⟩

theorem fail {error : ParseError} : (Script.fail error : Script α).Orderly P :=
  trivial

theorem refuse {token : Token} {fault : GrammarFault} :
    (Script.refuse token fault : Script α).Orderly P :=
  trivial

theorem contradict {position : Position} {fault : InternalFault} :
    (Script.contradict position fault : Script α).Orderly P :=
  trivial

theorem contradictAt {token : Token} {fault : InternalFault} :
    (Script.contradictAt token fault : Script α).Orderly P :=
  trivial

theorem peek : Script.peek.Orderly fun token => AllUnreserved token.kind.words := by
  refine ⟨trivial, ?_⟩
  rintro token after ⟨rfl, htoken⟩
  exact ⟨rfl, htoken⟩

theorem peekNth (n : Nat) : (Script.peekNth n).Orderly fun _ => True := by
  refine ⟨trivial, ?_⟩
  rintro token after ⟨rfl, _⟩
  exact ⟨rfl, trivial⟩

theorem advance : Script.advance.Orderly fun token => AllUnreserved token.kind.words := by
  refine ⟨trivial, ?_⟩
  rintro token after ⟨rfl, htoken⟩
  exact ⟨rfl, htoken⟩

theorem enter (kind : ScopeKind) : (Script.enter kind).Orderly fun _ => True := by
  refine ⟨rfl, ?_⟩
  rintro _ after rfl
  exact ⟨rfl, trivial⟩

theorem leave (position : Position) : (Script.leave position).Orderly fun _ => True := by
  refine ⟨rfl, ?_⟩
  rintro _ after rfl
  exact ⟨rfl, trivial⟩

theorem declare {name : String} (hname : Unreserved name) (meaning : Meaning) :
    (Script.declare name meaning).Orderly fun _ => True := by
  refine ⟨⟨rfl, hname⟩, ?_⟩
  rintro _ after rfl
  exact ⟨rfl, trivial⟩

theorem declareEnumerator {name : String} (hname : Unreserved name) :
    (Script.declareEnumerator name).Orderly fun _ => True := by
  refine ⟨⟨rfl, hname⟩, ?_⟩
  rintro _ after rfl
  exact ⟨rfl, trivial⟩

theorem rule (f : Nonterminal) : (Script.rule f).Orderly fun result =>
    AllUnreserved (f.words result) := by
  refine ⟨rfl, ?_⟩
  rintro result after R ⟨rfl, hresult⟩
  exact ⟨rfl, hresult⟩

/-! ### Single tokens -/

theorem nextIs (kind : TokenKind) : (Script.nextIs kind).Orderly fun _ => True :=
  peek.bind fun _ _ => pure trivial

theorem accept (kind : TokenKind) : (Script.accept kind).Orderly fun _ => True := by
  refine (nextIs kind).bind fun found _ => ?_
  split
  · exact advance.bind fun _ _ => pure trivial
  · exact pure trivial

theorem expect (kind : TokenKind) : (Script.expect kind).Orderly fun _ => True := by
  refine peek.bind fun token _ => ?_
  split
  · exact advance.mono fun _ _ _ h => ⟨h.1, trivial⟩
  · exact refuse

theorem expectWord : Script.expectWord.Orderly Unreserved := by
  refine advance.bind fun token htoken => ?_
  split
  · rename_i name hkind
    exact pure (by simpa [hkind, TokenKind.words] using htoken)
  · rename_i name hkind
    exact pure (by simpa [hkind, TokenKind.words] using htoken)
  · exact refuse

theorem acceptWord : Script.acceptWord.Orderly fun _ => True := by
  refine peek.bind fun token _ => ?_
  split
  · exact expectWord.bind fun _ _ => pure trivial
  · exact expectWord.bind fun _ _ => pure trivial
  · exact pure trivial

theorem here : Script.here.Orderly fun _ => True :=
  peek.bind fun _ _ => pure trivial

theorem weaken {prog : Script α} {P P' : α → Prop} (h : prog.Orderly P)
    (hP : ∀ value, P value → P' value) : prog.Orderly P' :=
  h.mono fun value _ _ hv => ⟨hv.1, hP value hv.2⟩

end Script.Orderly

/-! ## Expressions -/

namespace Grammar

open Script.Orderly

theorem orderly_primary : primary.Orderly fun _ => True := by
  refine peek.bind fun token _ => ?_
  split
  · exact advance.bind fun _ _ => .pure trivial
  · exact advance.bind fun _ _ => .pure trivial
  · split
    · exact advance.bind fun _ _ => .pure trivial
    · exact .contradictAt
  · exact advance.bind fun _ _ => .pure trivial
  · exact advance.bind fun _ _ => (rule _).bind fun _ _ => .pure trivial
  · split
    · exact advance.bind fun _ _ => (rule _).bind fun _ _ => (expect _).bind fun _ _ =>
        .pure trivial
    · exact .refuse

theorem orderly_adjacentStrings : adjacentStrings.Orderly fun _ => True := by
  refine peek.bind fun token _ => ?_
  split
  · exact advance.bind fun _ _ => (rule _).bind fun _ _ => .pure trivial
  · exact .pure trivial

theorem orderly_callArguments : callArguments.Orderly fun _ => True := by
  refine (accept _).bind fun found _ => ?_
  split
  · exact .pure trivial
  · refine (rule _).bind fun values _ => peek.bind fun token _ => ?_
    split
    · exact advance.bind fun _ _ => .pure trivial
    · exact .refuse

theorem orderly_postfixTail (operand : Expr) : (postfixTail operand).Orderly fun _ => True := by
  have tail : ∀ e, (Script.rule (.postfixTail e)).Orderly fun _ => True :=
    fun e => (rule _).weaken fun _ _ => trivial
  refine peek.bind fun token _ => ?_
  split
  · exact advance.bind fun _ _ => (rule _).bind fun _ _ => (expect _).bind fun _ _ => tail _
  · exact advance.bind fun _ _ => orderly_callArguments.bind fun _ _ => tail _
  · exact advance.bind fun _ _ => expectWord.bind fun _ _ => tail _
  · exact advance.bind fun _ _ => expectWord.bind fun _ _ => tail _
  · exact advance.bind fun _ _ => tail _
  · exact advance.bind fun _ _ => tail _
  · exact .pure trivial

theorem orderly_postfixed : postfixed.Orderly fun _ => True :=
  orderly_primary.bind fun _ _ => orderly_postfixTail _

/-- The one place where a mark is set: it is used up before the type name is read. -/
theorem orderly_parenthesizedType? : parenthesizedType?.Orderly fun _ => True := by
  refine (nextIs _).bind fun found _ => ?_
  split
  · refine ⟨rfl, ?_⟩
    rintro m _ ⟨rfl, rfl⟩
    refine ⟨trivial, ?_⟩
    rintro _ _ ⟨rfl, -⟩
    refine ⟨trivial, ?_⟩
    rintro token _ ⟨rfl, -⟩
    change Script.Meets _ (if _ then _ else _) _ _
    split
    · refine ⟨rfl, ?_⟩
      rintro _ _ rfl
      exact (rule _).bind fun _ _ => (expect _).bind fun _ _ => Script.Orderly.pure trivial
    · refine ⟨⟨rfl, rfl⟩, ?_⟩
      rintro _ _ rfl
      exact Script.Orderly.pure trivial
  · exact .pure trivial

theorem orderly_unary : unary.Orderly fun _ => True := by
  refine peek.bind fun token _ => ?_
  split
  · refine advance.bind fun _ _ => orderly_parenthesizedType?.bind fun type _ => ?_
    split
    · exact .pure trivial
    · exact (rule _).bind fun _ _ => .pure trivial
  · refine orderly_parenthesizedType?.bind fun type _ => ?_
    split
    · exact (rule _).bind fun _ _ => .pure trivial
    · exact orderly_postfixed
  · split
    · exact advance.bind fun _ _ => (rule _).bind fun _ _ => .pure trivial
    · exact .refuse
  · exact orderly_postfixed

theorem orderly_infixOperation (token : Token) (right : Nat) (left : Expr) :
    (infixOperation token right left).Orderly fun _ => True := by
  unfold infixOperation
  split
  · split
    · exact (rule _).bind fun _ _ => (expect _).bind fun _ _ => (rule _).bind fun _ _ =>
        .pure trivial
    · split
      · exact (rule _).bind fun _ _ => .pure trivial
      · exact (rule _).bind fun _ _ => .pure trivial
      · exact .contradictAt
  · exact .contradictAt

theorem orderly_infixTail (limit : Precedence) (left : Expr) :
    (infixTail limit left).Orderly fun _ => True := by
  refine peek.bind fun token _ => ?_
  split
  · split
    · exact .pure trivial
    · exact advance.bind fun _ _ => (orderly_infixOperation _ _ _).bind fun _ _ =>
        (rule _).weaken fun _ _ => trivial
  · exact .pure trivial

theorem orderly_expression (limit : Precedence) : (expression limit).Orderly fun _ => True :=
  orderly_unary.bind fun _ _ => orderly_infixTail _ _

theorem orderly_arguments : arguments.Orderly fun _ => True := by
  refine (orderly_expression _).bind fun first _ => (accept _).bind fun found _ => ?_
  split
  · exact (rule _).bind fun _ _ => .pure trivial
  · exact .pure trivial

/-! ## Declarators -/

theorem orderly_pointerTail : pointerTail.Orderly fun _ => True := by
  refine peek.bind fun token _ => ?_
  split
  · exact advance.bind fun _ _ => (rule _).bind fun _ _ => .pure trivial
  · exact advance.bind fun _ _ => (rule _).weaken fun _ _ => trivial
  · exact advance.bind fun _ _ => (rule _).weaken fun _ _ => trivial
  · exact .pure trivial

theorem orderly_pointers : pointers.Orderly fun _ => True := by
  refine (accept _).bind fun found _ => ?_
  split
  · exact (rule _).bind fun _ _ => .pure trivial
  · exact .pure trivial

theorem orderly_parameterList :
    parameterList.Orderly fun list => AllUnreserved (list.1.filterMap (·.name)) := by
  have isVoid : parameterList.isVoid.Orderly fun _ => True := by
    refine (nextIs _).bind fun found _ => ?_
    split
    · exact (peekNth 1).bind fun _ _ => .pure trivial
    · exact .pure trivial
  have unlessClosed : parameterList.parametersUnlessClosed.Orderly fun list =>
      AllUnreserved (list.1.filterMap (·.name)) := by
    refine (nextIs _).bind fun found _ => ?_
    split
    · exact .pure (by simp)
    · exact rule _
  refine isVoid.bind fun found _ => ?_
  split
  · exact advance.bind fun _ _ => advance.bind fun _ _ => .pure (by simp)
  · exact (enter _).bind fun _ _ => unlessClosed.bind fun list hlist =>
      (expect _).bind fun close _ => (leave _).bind fun _ _ => .pure hlist

theorem orderly_suffixes :
    suffixes.Orderly fun modifiers => AllUnreserved (modifiers.flatMap TypeModifier.words) := by
  have more : (Script.rule .suffixes).Orderly fun modifiers =>
      AllUnreserved (modifiers.flatMap TypeModifier.words) := rule _
  refine (accept _).bind fun found _ => ?_
  split
  · refine (accept _).bind fun closed _ => ?_
    split
    · exact more.bind fun modifiers h => .pure (by simpa [TypeModifier.words] using h)
    · exact (rule _).bind fun _ _ => (expect _).bind fun _ _ => more.bind fun modifiers h =>
        .pure (by simpa [TypeModifier.words] using h)
  · refine (accept _).bind fun found _ => ?_
    split
    · refine orderly_parameterList.bind fun list hlist => more.bind fun modifiers h => ?_
      exact .pure (by simpa [TypeModifier.words] using ⟨hlist, h⟩)
    · exact .pure (by simp)

theorem orderly_opensDeclarator (mode : DeclaratorMode) :
    (opensDeclarator mode).Orderly fun _ => True := by
  have looked : ∀ k : Token → Script Bool, (∀ token, (k token).Orderly fun _ => True) →
      (Script.peekNth 1 >>= k).Orderly fun _ => True :=
    fun k hk => (peekNth 1).bind fun token _ => hk token
  cases mode with
  | named => exact .pure trivial
  | nameless => exact looked _ fun token => by split <;> exact .pure trivial
  | either => exact looked _ fun token => by split <;> exact .pure trivial

theorem orderly_declaratorCore (mode : DeclaratorMode) :
    (declaratorCore mode).Orderly fun d => AllUnreserved d.words := by
  refine peek.bind fun token htoken => ?_
  have hname : ∀ name : String, AllUnreserved [name] →
      (if mode = .nameless then return { name := none, modifiers := [] }
        else do
          let _ ← Script.advance
          return { name := some (name, token.position), modifiers := [] } :
        Script Declarator).Orderly fun d => AllUnreserved d.words := by
    intro name h
    split
    · exact .pure (by simp [Declarator.words])
    · exact advance.bind fun _ _ => .pure (by simpa [Declarator.words] using h)
  split
  · rename_i name hkind
    exact hname name (by simpa [hkind, TokenKind.words] using htoken)
  · rename_i name hkind
    exact hname name (by simpa [hkind, TokenKind.words] using htoken)
  · refine (orderly_opensDeclarator mode).bind fun nested _ => ?_
    split
    · exact advance.bind fun _ _ => (rule _).bind fun d hd => (expect _).bind fun _ _ => .pure hd
    · exact .pure (by simp [Declarator.words])
  · split
    · exact .refuse
    · exact .pure (by simp [Declarator.words])

theorem orderly_declarator (mode : DeclaratorMode) :
    (declarator mode).Orderly fun d => AllUnreserved d.words := by
  refine orderly_pointers.bind fun count _ => (orderly_declaratorCore mode).bind fun core hcore =>
    orderly_suffixes.bind fun after hafter => .pure ?_
  simp only [Declarator.words, allUnreserved_append, List.flatMap_append] at hcore ⊢
  refine ⟨hcore.1, ⟨?_, ?_⟩, hcore.2⟩
  · simp [AllUnreserved, TypeModifier.words]
  · intro name hmem
    refine hafter name ?_
    simpa [List.mem_flatMap] using hmem

/-! ## Specifiers, parameters and members -/

theorem orderly_requireTag (tag : Option String) : (requireTag tag).Orderly fun _ => True := by
  cases tag with
  | some _ => exact .pure trivial
  | none => exact peek.bind fun _ _ => .refuse

theorem orderly_record (kind : RecordKind) : (record kind).Orderly fun _ => True := by
  refine acceptWord.bind fun tag _ => (accept _).bind fun found _ => ?_
  split
  · exact (enter _).bind fun _ _ => (rule _).bind fun _ _ => (expect _).bind fun _ _ =>
      (leave _).bind fun _ _ => .pure trivial
  · exact (orderly_requireTag tag).bind fun _ _ => .pure trivial

theorem orderly_recordType : recordType.Orderly fun _ => True := by
  refine advance.bind fun token _ => ?_
  split
  · exact orderly_record _
  · exact orderly_record _
  · exact .contradictAt

theorem orderly_enumeration : enumeration.Orderly fun _ => True := by
  refine acceptWord.bind fun tag _ => (accept _).bind fun found _ => ?_
  split
  · exact (rule _).bind fun _ _ => (expect _).bind fun _ _ => .pure trivial
  · exact (orderly_requireTag tag).bind fun _ _ => .pure trivial

theorem orderly_enumerationType : enumerationType.Orderly fun _ => True :=
  (expect _).bind fun _ _ => orderly_enumeration

theorem orderly_enumerator : enumerator.Orderly fun _ => True := by
  refine expectWord.bind fun name hname => (declareEnumerator hname).bind fun _ _ =>
    (accept _).bind fun found _ => ?_
  split
  · exact (rule _).bind fun _ _ => .pure trivial
  · exact .pure trivial

theorem orderly_enumerators : enumerators.Orderly fun _ => True := by
  refine (nextIs _).bind fun closed _ => ?_
  split
  · exact .pure trivial
  · refine orderly_enumerator.bind fun first _ => (accept _).bind fun found _ => ?_
    split
    · exact (rule _).bind fun _ _ => .pure trivial
    · exact .pure trivial

theorem orderly_typeWord (tally : SpecifierTally) (token : Token) (word : Keyword) :
    (typeWord tally token word).Orderly fun _ => True := by
  unfold typeWord
  split
  · exact .refuse
  · refine advance.bind fun _ _ => ?_
    split
    · split
      · exact .pure trivial
      · exact .refuse
    · exact .contradictAt

theorem orderly_taggedType (tally : SpecifierTally) (token : Token) (word : Keyword) :
    (taggedType tally token word).Orderly fun _ => True := by
  unfold taggedType
  split
  · exact .refuse
  · split
    · exact orderly_enumerationType.bind fun _ _ => .pure trivial
    · exact orderly_recordType.bind fun _ _ => .pure trivial

theorem orderly_specifier (tally : SpecifierTally) : (specifier tally).Orderly fun _ => True := by
  refine peek.bind fun token _ => ?_
  split
  · split
    · split
      · exact .refuse
      · exact advance.bind fun _ _ => .pure trivial
    · split
      · exact advance.bind fun _ _ => .pure trivial
      · split
        · exact (orderly_typeWord _ _ _).bind fun _ _ => .pure trivial
        · split
          · exact (orderly_taggedType _ _ _).bind fun _ _ => .pure trivial
          · exact .pure trivial
  · split
    · exact .pure trivial
    · exact advance.bind fun _ _ => .pure trivial
  · exact .pure trivial

theorem orderly_specifierTail (tally : SpecifierTally) :
    (specifierTail tally).Orderly fun _ => True := by
  refine (orderly_specifier tally).bind fun next _ => ?_
  split
  · exact (rule _).weaken fun _ _ => trivial
  · exact .pure trivial

theorem orderly_specifiers : specifiers.Orderly fun _ => True := by
  refine here.bind fun position _ => (orderly_specifierTail _).bind fun tally _ => ?_
  split
  · exact .pure trivial
  · exact peek.bind fun _ _ => .refuse

theorem orderly_typeName : typeName.Orderly fun _ => True :=
  orderly_specifiers.bind fun _ _ => (orderly_declarator _).bind fun _ _ => .pure trivial

theorem unreserved_of_name {d : Declarator} {name : String} {position : Position}
    (h : AllUnreserved d.words) (hname : d.name = some (name, position)) : Unreserved name :=
  h name (by simp [Declarator.words, hname])

theorem orderly_parameter :
    parameter.Orderly fun p => AllUnreserved p.name.toList := by
  refine here.bind fun position _ => orderly_specifiers.bind fun specifiers _ =>
    (orderly_declarator _).bind fun d hd => ?_
  have hnames : AllUnreserved (d.name.map (·.1)).toList := by
    simp only [Declarator.words, allUnreserved_append] at hd
    exact hd.1
  dsimp only
  split
  · rename_i name hname
    have hword : Unreserved name := by simpa [hname] using hnames
    exact (declare hword _).bind fun _ _ => .pure hnames
  · exact .pure hnames

theorem orderly_parameters :
    parameters.Orderly fun list => AllUnreserved (list.1.filterMap (·.name)) := by
  refine (accept _).bind fun found _ => ?_
  split
  · exact .pure (by simp)
  · refine orderly_parameter.bind fun first hfirst => (accept _).bind fun found _ => ?_
    have hcons : ∀ others : List Parameter, AllUnreserved (others.filterMap (·.name)) →
        AllUnreserved ((first :: others).filterMap (·.name)) := by
      intro others h
      cases hname : first.name <;> simp_all
    split
    · exact (rule .parameters).bind fun list hlist => .pure (hcons list.1 hlist)
    · exact .pure (hcons [] (by simp))

theorem orderly_memberDeclarators (specifiers : Specifiers) :
    (memberDeclarators specifiers).Orderly fun _ => True := by
  refine (orderly_declarator _).bind fun d _ => ?_
  split
  · exact .contradict
  · refine (accept _).bind fun found _ => ?_
    split
    · exact (rule _).bind fun _ _ => .pure trivial
    · exact .pure trivial

theorem orderly_memberDeclaration : memberDeclaration.Orderly fun _ => True := by
  refine orderly_specifiers.bind fun specifiers _ => ?_
  split
  · exact .fail
  · refine (rule _).bind fun members _ => peek.bind fun token _ => ?_
    split
    · exact advance.bind fun _ _ => .pure trivial
    · exact .refuse

theorem orderly_members : members.Orderly fun _ => True := by
  refine (nextIs _).bind fun closed _ => ?_
  split
  · exact .pure trivial
  · exact orderly_memberDeclaration.bind fun _ _ => (rule _).bind fun _ _ => .pure trivial

/-! ## Declarations -/

theorem orderly_initialValue : initialValue.Orderly fun _ => True := by
  refine here.bind fun position _ => (accept _).bind fun found _ => ?_
  split
  · exact (rule _).bind fun _ _ => (expect _).bind fun _ _ => .pure trivial
  · exact orderly_expression _

theorem orderly_initializerItems : initializerItems.Orderly fun _ => True := by
  refine (nextIs _).bind fun closed _ => ?_
  split
  · exact .pure trivial
  · refine orderly_initialValue.bind fun first _ => (accept _).bind fun found _ => ?_
    split
    · exact (rule _).bind fun _ _ => .pure trivial
    · exact .pure trivial

theorem orderly_initial? (specifiers : Specifiers) :
    (initial? specifiers).Orderly fun _ => True := by
  unfold initial?
  split
  · exact .pure trivial
  · refine (accept _).bind fun found _ => ?_
    split
    · exact orderly_initialValue.bind fun _ _ => .pure trivial
    · exact .pure trivial

theorem orderly_initDeclarator (specifiers : Specifiers) {d : Declarator}
    (hd : AllUnreserved d.words) : (initDeclarator specifiers d).Orderly fun _ => True := by
  unfold initDeclarator
  split
  · exact .contradict
  · rename_i name position hname
    exact (declare (unreserved_of_name hd hname) _).bind fun _ _ =>
      (orderly_initial? _).bind fun _ _ => .pure trivial

theorem orderly_declarations (specifiers : Specifiers) {d : Declarator}
    (hd : AllUnreserved d.words) : (declarations specifiers d).Orderly fun _ => True := by
  refine (orderly_initDeclarator specifiers hd).bind fun first _ => (accept _).bind fun found _ => ?_
  split
  · exact (rule _).bind fun _ _ => .pure trivial
  · exact .pure trivial

theorem orderly_initDeclarators (specifiers : Specifiers) :
    (initDeclarators specifiers).Orderly fun _ => True :=
  (orderly_declarator _).bind fun _ hd => orderly_declarations specifiers hd

theorem orderly_groupFrom (specifiers : Specifiers) {d : Declarator}
    (hd : AllUnreserved d.words) : (groupFrom specifiers d).Orderly fun _ => True :=
  (orderly_declarations specifiers hd).bind fun _ _ => (expect _).bind fun _ _ => .pure trivial

theorem orderly_declarationGroup : declarationGroup.Orderly fun _ => True := by
  refine orderly_specifiers.bind fun specifiers _ => (accept _).bind fun found _ => ?_
  split
  · exact .pure trivial
  · exact (orderly_declarator _).bind fun _ hd => orderly_groupFrom specifiers hd

/-! ## Statements -/

theorem orderly_condition : condition.Orderly fun _ => True :=
  (expect _).bind fun _ _ => (rule _).bind fun _ _ => (expect _).bind fun _ _ => .pure trivial

theorem orderly_expressionUnless (mark : Punctuator) :
    (expressionUnless mark).Orderly fun _ => True := by
  refine (nextIs _).bind fun found _ => ?_
  split
  · exact .pure trivial
  · exact (orderly_expression _).bind fun _ _ => .pure trivial

theorem orderly_block : block.Orderly fun _ => True :=
  (expect _).bind fun _ _ => (enter _).bind fun _ _ => (rule _).bind fun _ _ =>
    (expect _).bind fun _ _ => (leave _).bind fun _ _ => .pure trivial

theorem orderly_forStart : forStart.Orderly fun _ => True := by
  refine (accept _).bind fun found _ => ?_
  split
  · exact .pure trivial
  · refine peek.bind fun token _ => ?_
    split
    · exact orderly_declarationGroup.bind fun _ _ => .pure trivial
    · exact (orderly_expression _).bind fun _ _ => (expect _).bind fun _ _ => .pure trivial

theorem orderly_forLoop (position : Position) : (forLoop position).Orderly fun _ => True :=
  (expect _).bind fun _ _ => (enter _).bind fun _ _ => orderly_forStart.bind fun _ _ =>
    (orderly_expressionUnless _).bind fun _ _ => (expect _).bind fun _ _ =>
      (orderly_expressionUnless _).bind fun _ _ => (expect _).bind fun _ _ =>
        (rule _).bind fun _ _ => (leave _).bind fun _ _ => .pure trivial

theorem orderly_expressionStatement (position : Position) :
    (expressionStatement position).Orderly fun _ => True :=
  (orderly_expression _).bind fun _ _ => (expect _).bind fun _ _ => .pure trivial

theorem orderly_labelledStatement : labelledStatement.Orderly fun _ => True := by
  refine advance.bind fun token _ => ?_
  split
  · exact (rule _).bind fun _ _ => (expect _).bind fun _ _ => (rule _).bind fun _ _ =>
      .pure trivial
  · exact (expect _).bind fun _ _ => (rule _).bind fun _ _ => .pure trivial
  · exact (expect _).bind fun _ _ => (rule _).bind fun _ _ => .pure trivial
  · exact .contradictAt

theorem orderly_selectionStatement : selectionStatement.Orderly fun _ => True := by
  refine advance.bind fun token _ => orderly_condition.bind fun _ _ => (rule _).bind fun _ _ => ?_
  split
  · refine (accept _).bind fun found _ => ?_
    split
    · exact (rule _).bind fun _ _ => .pure trivial
    · exact .pure trivial
  · exact .pure trivial
  · exact .contradictAt

theorem orderly_iterationStatement : iterationStatement.Orderly fun _ => True := by
  refine advance.bind fun token _ => ?_
  split
  · exact orderly_condition.bind fun _ _ => (rule _).bind fun _ _ => .pure trivial
  · exact (rule _).bind fun _ _ => (expect _).bind fun _ _ => orderly_condition.bind fun _ _ =>
      (expect _).bind fun _ _ => .pure trivial
  · exact orderly_forLoop _
  · exact .contradictAt

theorem orderly_jumpFrom (token : Token) : (jumpFrom token).Orderly fun _ => True := by
  unfold jumpFrom
  split
  · exact expectWord.bind fun _ _ => .pure trivial
  · exact .pure trivial
  · exact .pure trivial
  · exact (orderly_expressionUnless _).bind fun _ _ => .pure trivial
  · exact .contradictAt

theorem orderly_jumpStatement : jumpStatement.Orderly fun _ => True :=
  advance.bind fun token _ => (orderly_jumpFrom token).bind fun _ _ => (expect _).bind fun _ _ =>
    .pure trivial

theorem orderly_statement : statement.Orderly fun _ => True := by
  refine peek.bind fun token _ => ?_
  split
  · exact orderly_block.bind fun _ _ => .pure trivial
  · exact advance.bind fun _ _ => .pure trivial
  · split
    · exact orderly_selectionStatement
    · exact orderly_iterationStatement
    · exact orderly_jumpStatement
    · exact orderly_labelledStatement
    · exact orderly_expressionStatement _
  · refine (peekNth 1).bind fun second _ => ?_
    split
    · exact orderly_labelledStatement
    · exact orderly_expressionStatement _
  · exact orderly_expressionStatement _

theorem orderly_blockItem (token : Token) : (blockItem token).Orderly fun _ => True := by
  unfold blockItem
  split
  · exact orderly_declarationGroup.bind fun _ _ => .pure trivial
  · exact orderly_statement

theorem orderly_blockItems : blockItems.Orderly fun _ => True := by
  refine peek.bind fun token _ => ?_
  split
  · exact .pure trivial
  · exact .refuse
  · exact (orderly_blockItem token).bind fun _ _ => (rule _).bind fun _ _ => .pure trivial

/-! ## Functions and units -/

theorem orderly_declareParameters {list : List Parameter}
    (h : AllUnreserved (list.filterMap (·.name))) :
    (declareParameters list).Orderly fun _ => True := by
  induction list with
  | nil => exact .pure trivial
  | cons first others ih =>
      unfold declareParameters
      split
      · rename_i name hname
        have hcons : Unreserved name ∧ AllUnreserved (others.filterMap (·.name)) := by
          simpa [hname] using h
        exact (declare hcons.1 _).bind fun _ _ => ih hcons.2
      · rename_i hname
        exact ih (by simpa [hname] using h)

theorem allUnreserved_parameters {d : Declarator} {list : List Parameter}
    (hd : AllUnreserved d.words) (hlist : d.parameters? = some list) :
    AllUnreserved (list.filterMap (·.name)) := by
  unfold Declarator.parameters? at hlist
  split at hlist
  · rename_i variadic hlast
    cases hlist
    intro name hname
    refine hd name ?_
    simp only [Declarator.words, List.mem_append, List.mem_flatMap]
    exact Or.inr ⟨_, List.mem_of_getLast? hlast, hname⟩
  · cases hlist

theorem orderly_functionDefinition (specifiers : Specifiers) {d : Declarator}
    (hd : AllUnreserved d.words) : (functionDefinition specifiers d).Orderly fun _ => True := by
  unfold functionDefinition
  split
  · exact .contradict
  · rename_i name position hname
    split
    · exact .fail
    · split
      · exact .contradict
      · rename_i list hlist
        exact (declare (unreserved_of_name hd hname) _).bind fun _ _ => (expect _).bind fun _ _ =>
          (enter _).bind fun _ _ =>
            (orderly_declareParameters (allUnreserved_parameters hd hlist)).bind fun _ _ =>
              (rule _).bind fun _ _ => (expect _).bind fun _ _ => (leave _).bind fun _ _ =>
                .pure trivial

theorem orderly_externalDeclaration : externalDeclaration.Orderly fun _ => True := by
  refine orderly_specifiers.bind fun specifiers _ => (accept _).bind fun found _ => ?_
  split
  · exact .pure trivial
  · refine (orderly_declarator _).bind fun d hd => ?_
    split
    · refine (nextIs _).bind fun found _ => ?_
      split
      · exact (orderly_functionDefinition specifiers hd).bind fun _ _ => .pure trivial
      · exact (orderly_groupFrom specifiers hd).bind fun _ _ => .pure trivial
    · exact (orderly_groupFrom specifiers hd).bind fun _ _ => .pure trivial

theorem orderly_externalDeclarations : externalDeclarations.Orderly fun _ => True := by
  refine peek.bind fun token _ => ?_
  split
  · exact .pure trivial
  · exact orderly_externalDeclaration.bind fun _ _ => (rule _).bind fun _ _ => .pure trivial

end Grammar

/-- Every rule keeps the discipline. -/
theorem valid_discipline : discipline.Valid := by
  have plain : ∀ {α : Type} {prog : Script α}, prog.Orderly (fun _ => True) →
      prog.Orderly fun _ => AllUnreserved [] := fun h => h.weaken fun _ _ => by simp
  rintro f _ rfl
  cases f with
  | expression limit => exact plain (Grammar.orderly_expression limit)
  | infixTail limit left => exact plain (Grammar.orderly_infixTail limit left)
  | postfixTail operand => exact plain (Grammar.orderly_postfixTail operand)
  | «arguments» => exact plain Grammar.orderly_arguments
  | adjacentStrings => exact plain Grammar.orderly_adjacentStrings
  | typeName => exact plain Grammar.orderly_typeName
  | specifierTail tally => exact plain (Grammar.orderly_specifierTail tally)
  | members => exact plain Grammar.orderly_members
  | memberDeclarators specifiers => exact plain (Grammar.orderly_memberDeclarators specifiers)
  | enumerators => exact plain Grammar.orderly_enumerators
  | pointerTail => exact plain Grammar.orderly_pointerTail
  | declarator mode => exact Grammar.orderly_declarator mode
  | suffixes => exact Grammar.orderly_suffixes
  | parameters => exact Grammar.orderly_parameters
  | initializerItems => exact plain Grammar.orderly_initializerItems
  | initDeclarators specifiers => exact plain (Grammar.orderly_initDeclarators specifiers)
  | statement => exact plain Grammar.orderly_statement
  | blockItems => exact plain Grammar.orderly_blockItems
  | externalDeclarations => exact plain Grammar.orderly_externalDeclarations

end CSyntax
