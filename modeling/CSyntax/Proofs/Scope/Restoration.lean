import CSyntax.Proofs.Scope.Nesting

/-!
# Restoration — what is left of the scopes after every rule

The contract `nesting` speaks of scripts.  This file brings it over to the readings of texts:

* `Grammar.Procedure` — the scripts that the grammar is made of, whether called or not;
* `Parser.DefinesFunction` — the one place where the definition of a function is begun;
* `Parser.scopes_restored` — what every procedure that is carried out leaves of the open scopes.
-/

namespace CSyntax

variable {α : Type} {strict : Bool} {text : String} {file : Option String} {depth : Nat}
  {s t : ParserState}

/-! ## Procedures -/

namespace Grammar

open Script

/-- The scripts that make up the grammar, with all that they may be begun with. -/
inductive Procedure : {α : Type} → Script α → Prop
  | rule (f : Nonterminal) : Procedure (.rule f)
  | primary : Procedure primary
  | adjacentStrings : Procedure adjacentStrings
  | callArguments : Procedure callArguments
  | postfixTail (operand : Expr) : Procedure (postfixTail operand)
  | postfixed : Procedure postfixed
  | parenthesizedType? : Procedure parenthesizedType?
  | unary : Procedure unary
  | infixOperation (token : Token) (right : Nat) (left : Expr) :
      Procedure (infixOperation token right left)
  | infixTail (limit : Precedence) (left : Expr) : Procedure (infixTail limit left)
  | expression (limit : Precedence) : Procedure (expression limit)
  | «arguments» : Procedure arguments
  | pointerTail : Procedure pointerTail
  | pointers : Procedure pointers
  | isVoid : Procedure parameterList.isVoid
  | parametersUnlessClosed : Procedure parameterList.parametersUnlessClosed
  | parameterList : Procedure parameterList
  | suffixes : Procedure suffixes
  | opensDeclarator (mode : DeclaratorMode) : Procedure (opensDeclarator mode)
  | declaratorCore (mode : DeclaratorMode) : Procedure (declaratorCore mode)
  | declarator (mode : DeclaratorMode) : Procedure (declarator mode)
  | requireTag (tag : Option String) : Procedure (requireTag tag)
  | record (kind : RecordKind) : Procedure (record kind)
  | recordType : Procedure recordType
  | enumeration : Procedure enumeration
  | enumerationType : Procedure enumerationType
  | enumerator : Procedure enumerator
  | enumerators : Procedure enumerators
  | typeWord (tally : SpecifierTally) (token : Token) (word : Keyword) :
      Procedure (typeWord tally token word)
  | taggedType (tally : SpecifierTally) (token : Token) (word : Keyword) :
      Procedure (taggedType tally token word)
  | specifier (tally : SpecifierTally) : Procedure (specifier tally)
  | specifierTail (tally : SpecifierTally) : Procedure (specifierTail tally)
  | specifiers : Procedure specifiers
  | typeName : Procedure typeName
  | parameter : Procedure parameter
  | parameters : Procedure parameters
  | memberDeclarators (specifiers : Specifiers) : Procedure (memberDeclarators specifiers)
  | memberDeclaration : Procedure memberDeclaration
  | members : Procedure members
  | initialValue : Procedure initialValue
  | initializerItems : Procedure initializerItems
  | initial? (specifiers : Specifiers) : Procedure (initial? specifiers)
  | initDeclarator (specifiers : Specifiers) (d : Declarator) :
      Procedure (initDeclarator specifiers d)
  | declarations (specifiers : Specifiers) (d : Declarator) :
      Procedure (declarations specifiers d)
  | initDeclarators (specifiers : Specifiers) : Procedure (initDeclarators specifiers)
  | groupFrom (specifiers : Specifiers) (d : Declarator) : Procedure (groupFrom specifiers d)
  | declarationGroup : Procedure declarationGroup
  | condition : Procedure condition
  | expressionUnless (mark : Punctuator) : Procedure (expressionUnless mark)
  | block : Procedure block
  | forStart : Procedure forStart
  | forLoop (position : Position) : Procedure (forLoop position)
  | labelledStatement : Procedure labelledStatement
  | selectionStatement : Procedure selectionStatement
  | iterationStatement : Procedure iterationStatement
  | jumpFrom (token : Token) : Procedure (jumpFrom token)
  | jumpStatement : Procedure jumpStatement
  | expressionStatement (position : Position) : Procedure (expressionStatement position)
  | statement : Procedure statement
  | blockItem (token : Token) : Procedure (blockItem token)
  | blockItems : Procedure blockItems
  | declareParameters (list : List Parameter) : Procedure (declareParameters list)
  | functionDefinition (specifiers : Specifiers) (d : Declarator) :
      Procedure (functionDefinition specifiers d)
  | externalDeclaration : Procedure externalDeclaration
  | externalDeclarations : Procedure externalDeclarations

/-- A procedure leaves the table in its frame, begun at the place that is meant for it. -/
theorem Procedure.keeps {prog : Script α} (h : Procedure prog) :
    ∃ place, prog.Keeps strict place := by
  cases h with
  | rule f => exact ⟨f.place, .ruleAt f⟩
  | primary => exact ⟨.anywhere, keeps_primary⟩
  | adjacentStrings => exact ⟨.anywhere, keeps_adjacentStrings⟩
  | callArguments => exact ⟨.anywhere, keeps_callArguments⟩
  | postfixTail operand => exact ⟨.anywhere, keeps_postfixTail operand⟩
  | postfixed => exact ⟨.anywhere, keeps_postfixed⟩
  | parenthesizedType? => exact ⟨.anywhere, keeps_parenthesizedType?⟩
  | unary => exact ⟨.anywhere, keeps_unary⟩
  | infixOperation token right left => exact ⟨.anywhere, keeps_infixOperation token right left⟩
  | infixTail limit left => exact ⟨.anywhere, keeps_infixTail limit left⟩
  | expression limit => exact ⟨.anywhere, keeps_expression limit⟩
  | «arguments» => exact ⟨.anywhere, keeps_arguments⟩
  | pointerTail => exact ⟨.anywhere, keeps_pointerTail⟩
  | pointers => exact ⟨.anywhere, keeps_pointers⟩
  | isVoid => exact ⟨.anywhere, restores_isVoid.keeps⟩
  | parametersUnlessClosed => exact ⟨.block, keeps_parametersUnlessClosed⟩
  | parameterList => exact ⟨.anywhere, restores_parameterList.keeps⟩
  | suffixes => exact ⟨.anywhere, keeps_suffixes⟩
  | opensDeclarator mode => exact ⟨.anywhere, keeps_opensDeclarator mode⟩
  | declaratorCore mode => exact ⟨.anywhere, keeps_declaratorCore mode⟩
  | declarator mode => exact ⟨.anywhere, keeps_declarator mode⟩
  | requireTag tag => exact ⟨.anywhere, keeps_requireTag tag⟩
  | record kind => exact ⟨.anywhere, keeps_record kind⟩
  | recordType => exact ⟨.anywhere, keeps_recordType⟩
  | enumeration => exact ⟨.anywhere, keeps_enumeration⟩
  | enumerationType => exact ⟨.anywhere, keeps_enumerationType⟩
  | enumerator => exact ⟨.anywhere, keeps_enumerator⟩
  | enumerators => exact ⟨.anywhere, keeps_enumerators⟩
  | typeWord tally token word => exact ⟨.anywhere, keeps_typeWord tally token word⟩
  | taggedType tally token word => exact ⟨.anywhere, keeps_taggedType tally token word⟩
  | specifier tally => exact ⟨.anywhere, keeps_specifier tally⟩
  | specifierTail tally => exact ⟨.anywhere, keeps_specifierTail tally⟩
  | specifiers => exact ⟨.anywhere, keeps_specifiers⟩
  | typeName => exact ⟨.anywhere, keeps_typeName⟩
  | parameter => exact ⟨.block, keeps_parameter⟩
  | parameters => exact ⟨.block, keeps_parameters⟩
  | memberDeclarators specifiers => exact ⟨.anywhere, keeps_memberDeclarators specifiers⟩
  | memberDeclaration => exact ⟨.anywhere, keeps_memberDeclaration⟩
  | members => exact ⟨.anywhere, keeps_members⟩
  | initialValue => exact ⟨.anywhere, keeps_initialValue⟩
  | initializerItems => exact ⟨.anywhere, keeps_initializerItems⟩
  | initial? specifiers => exact ⟨.anywhere, keeps_initial? specifiers⟩
  | initDeclarator specifiers d => exact ⟨.block, keeps_initDeclarator specifiers d⟩
  | declarations specifiers d => exact ⟨.block, keeps_declarations specifiers d⟩
  | initDeclarators specifiers => exact ⟨.block, keeps_initDeclarators specifiers⟩
  | groupFrom specifiers d => exact ⟨.block, keeps_groupFrom specifiers d⟩
  | declarationGroup => exact ⟨.block, keeps_declarationGroup⟩
  | condition => exact ⟨.anywhere, keeps_condition⟩
  | expressionUnless mark => exact ⟨.anywhere, keeps_expressionUnless mark⟩
  | block => exact ⟨.anywhere, restores_block.keeps⟩
  | forStart => exact ⟨.block, keeps_forStart⟩
  | forLoop position => exact ⟨.anywhere, (restores_forLoop position).keeps⟩
  | labelledStatement => exact ⟨.anywhere, keeps_labelledStatement⟩
  | selectionStatement => exact ⟨.anywhere, keeps_selectionStatement⟩
  | iterationStatement => exact ⟨.anywhere, keeps_iterationStatement⟩
  | jumpFrom token => exact ⟨.anywhere, keeps_jumpFrom token⟩
  | jumpStatement => exact ⟨.anywhere, keeps_jumpStatement⟩
  | expressionStatement position => exact ⟨.anywhere, keeps_expressionStatement position⟩
  | statement => exact ⟨.anywhere, keeps_statement⟩
  | blockItem token => exact ⟨.block, keeps_blockItem token⟩
  | blockItems => exact ⟨.block, keeps_blockItems⟩
  | declareParameters list => exact ⟨.block, keeps_declareParameters list⟩
  | functionDefinition specifiers d => exact ⟨.block, keeps_functionDefinition specifiers d⟩
  | externalDeclaration => exact ⟨.block, keeps_externalDeclaration⟩
  | externalDeclarations => exact ⟨.file, keeps_externalDeclarations⟩

/-- Wherever it is begun, a procedure leaves the table in its frame, if words are declared in
blocks. -/
theorem Procedure.meets {prog : Script α} (h : Procedure prog) (T : SymbolTable) :
    prog.Meets (nesting false) T fun _ U _ => T.Frame U := by
  obtain ⟨place, hkeeps⟩ : ∃ place, prog.Keeps false place := h.keeps
  exact (hkeeps T nofun).mono fun _ _ _ hU => hU.toFrame

/-! ## Definitions of functions -/

/-- An external declaration up to where a body could begin: its specifiers and, unless a semicolon
ends it there, its declarator, with whether a body follows. -/
def externalHead : Script (Specifiers × Option (Declarator × Bool)) := do
  let specifiers ← specifiers
  if ← acceptMark .semicolon then
    return (specifiers, none)
  else
    let d ← declarator .named
    if d.parameters?.isSome then
      return (specifiers, some (d, ← nextIsMark .openBrace))
    else
      return (specifiers, some (d, false))

/-- What is done behind the head of an external declaration. -/
def externalRest : Specifiers × Option (Declarator × Bool) → Script ExternalDeclaration
  | (specifiers, none) => return .declaration (bareGroup specifiers)
  | (specifiers, some (d, true)) => return .function (← functionDefinition specifiers d)
  | (specifiers, some (d, false)) => return .declaration (← groupFrom specifiers d)

theorem externalDeclaration_eq : externalDeclaration = externalHead >>= externalRest := by
  unfold externalDeclaration externalHead
  simp only [bind_assoc]
  congr 1
  funext specifiers
  congr 1
  funext ended
  cases ended with
  | true => rfl
  | false =>
      simp only [Bool.false_eq_true, if_false, bind_assoc]
      congr 1
      funext d
      by_cases hlist : d.parameters?.isSome = true
      · simp only [hlist, if_true, bind_assoc, pure_bind]
        congr 1
        funext found
        cases found <;> rfl
      · simp only [hlist]
        rfl

theorem keeps_externalHead {place : Place} : externalHead.Keeps strict place := by
  refine keeps_specifiers.bind fun specifiers => (Script.Restores.accept _).keeps.bind fun found => ?_
  split
  · exact Script.Restores.pure.keeps
  · refine (keeps_declarator _).bind fun d => ?_
    split
    · exact (Script.Restores.nextIs _).keeps.bind fun _ => Script.Restores.pure.keeps
    · exact Script.Restores.pure.keeps

end Grammar

/-! ## Readings of texts -/

namespace Request

/-- A request that fails leaves the table as it is. -/
theorem table_perform_of_error {r : Request} {error : ParseError}
    (h : r.perform s = (.error error, t)) : t.table = s.table := by
  cases r with
  | leave position =>
      cases hleave : s.table.leave? <;> simp only [perform, hleave, Prod.mk.injEq] at h
      · rw [← h.2]
      · cases h.1
  | peek n => exact (congrArg (·.2.table) h).symm
  | advance => exact (congrArg (·.2.table) h).symm
  | _ => cases h

/-- A request that succeeds does to the table what `nesting` says, where a declaration finds a
block. -/
theorem nesting_perform {r : Request} {answer : r.Answer} (h : r.perform s = (.ok answer, t))
    (may : (nesting true).may r s.table) : (nesting strict).step r s.table answer t.table := by
  cases r with
  | peek n => exact (congrArg (·.2.table) h).symm
  | advance => exact (congrArg (·.2.table) h).symm
  | mark => exact (congrArg (·.2.table) h).symm
  | reset m => exact (congrArg (·.2.table) h).symm
  | release m => exact (congrArg (·.2.table) h).symm
  | enter kind => exact (congrArg (·.2.table) h).symm
  | leave position =>
      cases hleave : s.table.leave? <;> simp only [perform, hleave, Prod.mk.injEq] at h
      · cases h.1
      · rw [← h.2]
        exact hleave
  | declare name meaning => exact ⟨may rfl, (congrArg (·.2.table) h).symm⟩
  | declareEnumerator name => exact (congrArg (·.2.table) h).symm

end Request

namespace SymbolTable

/-- Requests bind nothing in the body of a record. -/
theorem RecordsEmpty.step {T U : SymbolTable} {r : Request} {answer : r.Answer}
    (hT : T.RecordsEmpty) (h : (nesting true).step r T answer U) : U.RecordsEmpty := by
  cases r with
  | enter kind => exact (show U = T.enter kind from h) ▸ hT.enter kind
  | leave position => exact hT.leave h
  | declare name meaning =>
      obtain ⟨hblock, rfl⟩ := h
      exact hT.frame (frame_declare hblock name meaning)
  | declareEnumerator name =>
      exact (show U = T.declareEnumerator name from h) ▸ hT.frame (frame_declareEnumerator T name)
  | _ => exact (show U = T from h) ▸ hT

end SymbolTable

namespace Parser

/-- The bodies of records bind nothing where a parser stands. -/
def Tidy (s : ParserState) : Prop :=
  s.table.RecordsEmpty

theorem models_nesting (trace : List Event) :
    (nesting true).Models ParserState.table Tidy trace := by
  intro r s _ htidy may answer t hperform
  have hstep : (nesting true).step r s.table answer t.table := Request.nesting_perform hperform may
  exact ⟨htidy.step hstep, hstep⟩

/-- Where all declarations find a block, the loose form of the contract holds as well. -/
theorem models_loose {trace : List Event}
    (h : (nesting true).Admits ParserState.table Tidy trace) :
    (nesting false).Models ParserState.table (fun _ => True) trace := by
  intro r s hmem _ _ answer t hperform
  exact ⟨trivial, Request.nesting_perform hperform (h r s hmem).2⟩

/-- The reading of a text keeps the strict contract. -/
theorem sound_nesting (text : String) (file : Option String) :
    (nesting true).Admits ParserState.table Tidy (events text file) ∧
      ∀ unit t, runUnit text file = (.ok unit, t) → Tidy t ∧ SymbolTable.empty.Frame t.table :=
  have hstart : Tidy (.ofSource (.ofString text file)) := SymbolTable.recordsEmpty_empty
  have hplace : (nesting true).pre .externalDeclarations SymbolTable.empty := fun _ => rfl
  have hsound := Contract.sound (valid_nesting true) hstart hplace (models_nesting _)
  ⟨hsound.1, fun unit t hrun => (hsound.2 unit t hrun).imp_right fun hleft => hleft.toFrame⟩

/-- What the reading of a text comes to is begun in a tidy state and keeps the strict contract. -/
theorem Reaches.meets {part : Script α} (h : Reaches text file depth part s) :
    Tidy s ∧ ∃ Q, part.Meets (nesting true) s.table Q := by
  have hwhole : (Script.rule .externalDeclarations).Meets (nesting true) SymbolTable.empty
      fun _ _ _ => True := ⟨fun _ => rfl, fun _ _ _ _ => trivial⟩
  exact Contract.meets_of_reaches (valid_nesting true) models_nesting h
    SymbolTable.recordsEmpty_empty hwhole

/-- A part that the reading of a text comes to keeps the loose form of what it meets. -/
theorem Reaches.post {part : Script α} {Q : α → SymbolTable → List Returned → Prop} {value : α}
    (h : Reaches text file depth part s) (meets : part.Meets (nesting false) s.table Q)
    (hrun : part.run (runAt depth) s = (.ok value, t)) : ∃ R, Q value t.table R := by
  obtain ⟨htidy, Q', hstrict⟩ := h.meets
  have hadmits : (nesting true).Admits ParserState.table Tidy
      (part.events (runAt depth) (eventsAt depth) s) :=
    (Contract.sound_script (valid_nesting true) models_nesting htidy hstrict).1
  obtain ⟨-, hpost⟩ := Contract.sound_run
    (fun f u _ hpre hmodels => Contract.sound (valid_nesting false) trivial hpre hmodels)
    part trivial (models_loose hadmits) meets
  exact ⟨_, (hpost value t hrun).2⟩

/-- The reading of the text has come to a body: the rule for external declarations was called, and
the specifiers and the declarator of a function stood there, with a brace behind them.  This is
where the definition of a function is begun, and the only place. -/
def DefinesFunction (text : String) (file : Option String) (depth : Nat) (specifiers : Specifiers)
    (d : Declarator) (s : ParserState) : Prop :=
  ∃ start, Reaches text file (depth + 1) (.rule .externalDeclarations) start ∧
    (Script.peek >>= fun _ => Grammar.externalHead).run (runAt depth) start =
      (.ok (specifiers, some (d, true)), s)

namespace DefinesFunction

variable {specifiers : Specifiers} {d : Declarator}

theorem tidy (h : DefinesFunction text file depth specifiers d s) :
    Tidy s ∧ s.table.nested = [] := by
  obtain ⟨start, hreaches, hrun⟩ := h
  obtain ⟨htidy, _, hrule⟩ := hreaches.meets
  have houter : start.table.nested = [] := hrule.1 rfl
  have hhead : (Script.peek >>= fun _ => Grammar.externalHead).Keeps true .file :=
    Script.Restores.peek.keeps.bind fun _ => Grammar.keeps_externalHead
  obtain ⟨hsound, R, hframe⟩ := (Contract.sound_script (valid_nesting true) models_nesting htidy
    (hhead start.table fun _ => houter)).2 _ _ hrun
  exact ⟨hsound, hframe.nested_eq_nil houter⟩

/-- Of a definition its name remains, and nothing else. -/
theorem table_eq {function : FunctionDefinition}
    (h : DefinesFunction text file depth specifiers d s)
    (hrun : (Grammar.functionDefinition specifiers d).run (runAt depth) s = (.ok function, t)) :
    t.table = s.table.declare function.name .ordinary := by
  obtain ⟨htidy, houter⟩ := h.tidy
  have hinside : true = true → s.table.InBlock :=
    fun _ => SymbolTable.inBlock_of_nested_eq_nil houter
  have hmeets := Grammar.meets_functionDefinition specifiers d hinside
  obtain ⟨-, R, -, htable⟩ :=
    (Contract.sound_script (valid_nesting true) models_nesting htidy hmeets).2 _ _ hrun
  exact htable

/-- Every function that the rule for external declarations reads has been defined so. -/
theorem of_run {function : FunctionDefinition} {start : ParserState}
    (hreaches : Reaches text file (depth + 1) (.rule .externalDeclarations) start)
    (hrun : (Script.peek >>= fun _ => Grammar.externalDeclaration).run (runAt depth) start =
      (.ok (.function function), t)) :
    ∃ specifiers d s, DefinesFunction text file depth specifiers d s ∧
      (Grammar.functionDefinition specifiers d).run (runAt depth) s = (.ok function, t) := by
  rw [Grammar.externalDeclaration_eq, ← bind_assoc] at hrun
  obtain ⟨⟨specifiers, rest⟩, s, hhead, hrest⟩ := Script.run_of_bind hrun
  rcases rest with _ | ⟨d, _ | _⟩
  · cases hrest
  · -- Declarators that are no definition make a group.
    obtain ⟨group, u, -, hgroup⟩ := Script.run_of_bind hrest
    cases hgroup
  · obtain ⟨result, u, hbody, hresult⟩ := Script.run_of_bind hrest
    cases hresult
    exact ⟨specifiers, d, s, ⟨start, hreaches, hhead⟩, hbody⟩

end DefinesFunction

/-- What becomes of the open scopes in the reading of any text.  Every procedure that is carried out
leaves as many scopes as it found, of the same kinds, and has bound words in the innermost block
only; blocks, parameter lists and `for` loops leave the whole table as it was; the definition of a
function stands at the file scope and leaves its name there; the bodies of records bind nothing at
any moment; and the text is left with the file scope alone. -/
theorem scopes_restored (text : String) (file : Option String) :
    (∀ {α : Type} {part : Script α} {depth : Nat} {s t : ParserState} {value : α},
      Grammar.Procedure part → Reaches text file depth part s →
        part.run (runAt depth) s = (.ok value, t) → s.table.Frame t.table) ∧
    (∀ {depth : Nat} {s t : ParserState} {items : List Statement},
      Reaches text file depth Grammar.block s →
        Grammar.block.run (runAt depth) s = (.ok items, t) → t.table = s.table) ∧
    (∀ {depth : Nat} {s t : ParserState} {list : List Parameter × Bool},
      Reaches text file depth Grammar.parameterList s →
        Grammar.parameterList.run (runAt depth) s = (.ok list, t) → t.table = s.table) ∧
    (∀ {position : Position} {depth : Nat} {s t : ParserState} {loop : Statement},
      Reaches text file depth (Grammar.forLoop position) s →
        (Grammar.forLoop position).run (runAt depth) s = (.ok loop, t) → t.table = s.table) ∧
    (∀ {specifiers : Specifiers} {d : Declarator} {depth : Nat} {s t : ParserState}
      {function : FunctionDefinition}, DefinesFunction text file depth specifiers d s →
        (Grammar.functionDefinition specifiers d).run (runAt depth) s = (.ok function, t) →
          s.table.nested = [] ∧
            t.table = { s.table with file := s.table.file.insert function.name .ordinary }) ∧
    (∀ {r : Request} {s : ParserState}, .requested r s ∈ events text file →
      s.table.RecordsEmpty ∧ (r.perform s).2.table.RecordsEmpty) ∧
    (∀ {unit : List ExternalDeclaration} {t : ParserState},
      runUnit text file = (.ok unit, t) → t.table.depth = 1) := by
  obtain ⟨hadmits, hframe⟩ := sound_nesting text file
  refine ⟨?procedures, ?blocks, ?lists, ?loops, ?functions, ?records, ?depth⟩
  case procedures =>
    intro α part depth s t value hpart hreaches hrun
    obtain ⟨R, hframe⟩ := hreaches.post (hpart.meets s.table) hrun
    exact hframe
  case blocks =>
    intro depth s t items hreaches hrun
    obtain ⟨R, htable⟩ := hreaches.post (Grammar.restores_block s.table) hrun
    exact htable
  case lists =>
    intro depth s t list hreaches hrun
    obtain ⟨R, htable⟩ := hreaches.post (Grammar.restores_parameterList s.table) hrun
    exact htable
  case loops =>
    intro position depth s t loop hreaches hrun
    obtain ⟨R, htable⟩ := hreaches.post (Grammar.restores_forLoop position s.table) hrun
    exact htable
  case functions =>
    intro specifiers d depth s t function hdefines hrun
    obtain ⟨-, houter⟩ := hdefines.tidy
    exact ⟨houter, (hdefines.table_eq hrun).trans (SymbolTable.declare_of_nested_eq_nil houter _ _)⟩
  case records =>
    intro r s hmem
    obtain ⟨htidy, may⟩ := hadmits r s hmem
    refine ⟨htidy, ?_⟩
    rcases hperform : r.perform s with ⟨error | answer, t⟩
    · rw [Request.table_perform_of_error hperform]
      exact htidy
    · exact (models_nesting _ r s hmem htidy may answer t hperform).1
  case depth =>
    intro unit t hrun
    exact (hframe unit t hrun).2.depth

/-- Whether the body of a record is left that stands in a block inside the file scope. -/
def leavesRecord : Event → Bool
  | .requested (.leave _) s => s.table.kinds = [.record, .block, .block]
  | _ => false

/-- The body of a record is empty where it is left, though a constant was declared within. -/
theorem scopes_restored_enumeratorInRecord :
    ∃ position s, .requested (.leave position) s ∈
        events "int f(void) { struct { enum { A } e; } x; for (int i = A; ; ) ; }" none ∧
      s.table.kinds = [.record, .block, .block] ∧ s.table.RecordsEmpty := by
  have hany : (events "int f(void) { struct { enum { A } e; } x; for (int i = A; ; ) ; }" none).any
      leavesRecord = true := by decide +kernel
  obtain ⟨event, hmem, hleaves⟩ := List.any_eq_true.1 hany
  unfold leavesRecord at hleaves
  split at hleaves
  · rename_i position s
    have hrecords := (scopes_restored _ _).2.2.2.2.2.1 hmem
    exact ⟨position, s, hmem, by simpa using hleaves, hrecords.1⟩
  · cases hleaves

end Parser
end CSyntax
