import CSyntax.Proofs.Run.Consistency

/-!
# Refusals — the grammar refuses tokens that it was handed

A script that gives up says of which token, or of which position.  It refuses tokens that it has been
handed, before anything is declared that could change their kinds where it says which kind it found.
Two faults are told of a position alone: a storage class among the specifiers of a member, and a body
behind a declarator that cannot have one.

* `GrammarFault.found?` — the kind of token that a fault says was found;
* `ParseError.Refused` — the ways in which the grammar gives up;
* `Script.Shows`, `Script.Honest` — all that a script refuses are tokens that it was handed;
* `Grammar.honest_script` — the scripts of all rules are honest;
* `Parser.refused_of_runAt` — so runs fail in these ways, or with the fault that ends the lexemes.
-/

namespace CSyntax

variable {α β : Type} {origin : Source} {T : SymbolTable}

/-! ## Ways to give up -/

/-- The kind of token that a fault says was found. -/
def GrammarFault.found? : GrammarFault → Option TokenKind
  | .expected _ found | .expectedOneOf _ found | .expectedExpression found
  | .expectedDeclarator found | .expectedTypeSpecifier found | .expectedIdentifier found =>
      some found
  | .invalidTypeSpecifier _ | .duplicateStorageClass _ | .invalidFunctionDefinition _ => none

/-- What is said of a storage class among the specifiers of a member. -/
def GrammarFault.storedMember : GrammarFault :=
  .expectedTypeSpecifier (.keyword .typedef)

/-- How the grammar gives up where the table stands. -/
inductive ParseError.Refused (origin : Source) (T : SymbolTable) : ParseError → Prop
  /-- At a token whose kind is what was found. -/
  | found {token : Token} {fault : GrammarFault} : token.Fresh origin T →
      fault.found? = some token.kind → Refused origin T (.atToken token (.grammatical fault))
  /-- At a token of whose kind nothing is said; words may have been declared since it was handed
  out. -/
  | silent {token : Token} {fault : GrammarFault} {U : SymbolTable} : token.Fresh origin U →
      fault.found? = none → Refused origin T (.atToken token (.grammatical fault))
  | storedMember {position : Position} :
      Refused origin T (.atPosition position (.grammatical .storedMember))
  | bodyRefused {position : Position} {name : String} :
      Refused origin T (.atPosition position (.grammatical (.invalidFunctionDefinition name)))
  /-- Where the program contradicts itself. -/
  | contradicted {e : ParseError} {fault : InternalFault} :
      e.cause = .internal fault → Refused origin T e

namespace Script

/-! ## Scripts -/

/-- Begun where the table stands, the script refuses tokens that it has been handed. -/
def Shows (origin : Source) : Script α → SymbolTable → Prop
  | .done _, _ => True
  | .fail e, T => e.Refused origin T
  | .request r next, T => ∀ answer U,
      (∀ token, r.handed? answer = some token → U = T ∧ token.Fresh origin T) →
        (next answer).Shows origin U
  | .call _ next, _ => ∀ result U, (next result).Shows origin U

/-- Wherever it is begun, the script refuses tokens that it has been handed. -/
def Honest (origin : Source) (prog : Script α) : Prop :=
  ∀ T, prog.Shows origin T

theorem Shows.bind {prog : Script α} {next : α → Script β} (h : prog.Shows origin T)
    (hnext : ∀ value, (next value).Honest origin) : (prog >>= next).Shows origin T := by
  change (prog.bind next).Shows origin T
  induction prog generalizing T with
  | done value => exact hnext value T
  | fail e => exact h
  | request r _ ih => exact fun answer U hhanded => ih answer (h answer U hhanded)
  | call f _ ih => exact fun result U => ih result (h result U)

/-- A token is taken that nobody asks after. -/
theorem Shows.advance {next : Token → Script β} (h : ∀ token, (next token).Honest origin) :
    (Script.advance >>= next).Shows origin T :=
  fun token U _ => h token U

/-- A token is refused with the kind that it has. -/
theorem Shows.refuse {token : Token} {fault : GrammarFault} (h : token.Fresh origin T)
    (hfound : fault.found? = some token.kind) :
    (Script.refuse token fault : Script α).Shows origin T :=
  ParseError.Refused.found h hfound

/-- A token is refused of whose kind nothing is said. -/
theorem Shows.refuseSilently {token : Token} {fault : GrammarFault} {U : SymbolTable}
    (h : token.Fresh origin U) (hfound : fault.found? = none) :
    (Script.refuse token fault : Script α).Shows origin T :=
  ParseError.Refused.silent h hfound

namespace Honest

variable {prog : Script α} {next : α → Script β}

theorem bind (h : prog.Honest origin) (hnext : ∀ value, (next value).Honest origin) :
    (prog >>= next).Honest origin :=
  fun T => (h T).bind hnext

theorem pure {value : α} : (Pure.pure value : Script α).Honest origin :=
  fun _ => trivial

theorem contradict {position : Position} {fault : InternalFault} :
    (Script.contradict position fault : Script α).Honest origin :=
  fun _ => ParseError.Refused.contradicted rfl

theorem contradictAt {token : Token} {fault : InternalFault} :
    (Script.contradictAt token fault : Script α).Honest origin :=
  fun _ => ParseError.Refused.contradicted rfl

theorem request (r : Request) : (Script.request r .done).Honest origin :=
  fun _ _ _ _ => trivial

theorem rule (f : Nonterminal) : (Script.rule f).Honest origin :=
  fun _ _ _ => trivial

/-- A token that has been looked at is fresh until something is declared. -/
theorem peek {next : Token → Script β}
    (h : ∀ token T, token.Fresh origin T → (next token).Shows origin T) :
    (Script.peek >>= next).Honest origin := by
  intro T token U hhanded
  obtain ⟨rfl, hfresh⟩ := hhanded token rfl
  exact h token U hfresh

theorem peekNth {n : Nat} {next : Token → Script β} (h : ∀ token, (next token).Honest origin) :
    (Script.peekNth n >>= next).Honest origin :=
  (request (.peek n)).bind h

theorem advance {next : Token → Script β} (h : ∀ token, (next token).Honest origin) :
    (Script.advance >>= next).Honest origin :=
  fun _ => .advance h

theorem nextIs (kind : TokenKind) : (Script.nextIs kind).Honest origin :=
  peek fun _ T _ => pure T

theorem accept (kind : TokenKind) : (Script.accept kind).Honest origin := by
  refine (nextIs kind).bind fun found => ?_
  split
  · exact advance fun _ => pure
  · exact pure

theorem expect (kind : TokenKind) : (Script.expect kind).Honest origin := by
  refine peek fun token T hfresh => ?_
  split
  · exact request .advance T
  · exact .refuse hfresh rfl

theorem expectWord : Script.expectWord.Honest origin := by
  intro T token U hhanded
  obtain ⟨rfl, hfresh⟩ := hhanded token rfl
  dsimp only [Script.bind]
  split
  · exact pure U
  · exact pure U
  · exact .refuse hfresh rfl

theorem acceptWord : Script.acceptWord.Honest origin := by
  refine peek fun token T _ => ?_
  split
  · exact expectWord.bind (fun _ => pure) T
  · exact expectWord.bind (fun _ => pure) T
  · exact pure T

theorem here : Script.here.Honest origin :=
  peek fun _ T _ => pure T

end Honest

end Script

/-! ## The grammar -/

namespace Grammar

open Script.Honest

/-! ### Expressions -/

theorem honest_adjacentStrings : adjacentStrings.Honest origin := by
  refine peek fun token T _ => ?_
  split
  · exact .advance fun _ => (rule _).bind fun _ => pure
  · exact pure T

theorem honest_primary : primary.Honest origin := by
  refine peek fun token T hfresh => ?_
  split
  · exact .advance fun _ => pure
  · exact .advance fun _ => pure
  · split
    · exact .advance fun _ => pure
    · exact ParseError.Refused.contradicted rfl
  · exact .advance fun _ => pure
  · exact .advance fun _ => (rule _).bind fun _ => pure
  · split
    · exact .advance fun _ => (rule _).bind fun _ => (expect _).bind fun _ => pure
    · exact .refuse hfresh rfl

theorem honest_callArguments : callArguments.Honest origin := by
  refine (accept _).bind fun closed => ?_
  split
  · exact pure
  · refine (rule _).bind fun values => peek fun token T hfresh => ?_
    split
    · exact .advance fun _ => pure
    · exact .refuse hfresh rfl

theorem honest_postfixTail (operand : Expr) : (postfixTail operand).Honest origin := by
  refine peek fun token T _ => ?_
  split
  · exact .advance fun _ => (rule _).bind fun _ => (expect _).bind fun _ => rule _
  · exact .advance fun _ => honest_callArguments.bind fun _ => rule _
  · exact .advance fun _ => expectWord.bind fun _ => rule _
  · exact .advance fun _ => expectWord.bind fun _ => rule _
  · exact .advance fun _ => rule _
  · exact .advance fun _ => rule _
  · exact pure T

theorem honest_postfixed : postfixed.Honest origin :=
  honest_primary.bind fun _ => honest_postfixTail _

theorem honest_parenthesizedType? : parenthesizedType?.Honest origin := by
  refine (nextIs _).bind fun found => ?_
  split
  · refine (request .mark).bind fun m => advance fun _ => peek fun token T _ => ?_
    split
    · exact ((request (.release m)).bind fun _ => (rule _).bind fun _ => (expect _).bind fun _ =>
        pure) T
    · exact ((request (.reset m)).bind fun _ => pure) T
  · exact pure

theorem honest_unary : unary.Honest origin := by
  refine peek fun token T hfresh => ?_
  split
  · refine .advance fun _ => honest_parenthesizedType?.bind fun type => ?_
    split
    · exact pure
    · exact (rule _).bind fun _ => pure
  · refine honest_parenthesizedType?.bind (fun type => ?_) T
    split
    · exact (rule _).bind fun _ => pure
    · exact honest_postfixed
  · split
    · exact .advance fun _ => (rule _).bind fun _ => pure
    · exact .refuse hfresh rfl
  · exact honest_postfixed T

theorem honest_operation (operator : InfixOperator) (left : Expr) :
    (operation operator left).Honest origin := by
  cases operator with
  | binary op => exact (rule _).bind fun _ => pure
  | assign op => exact (rule _).bind fun _ => pure
  | conditional =>
      exact (rule _).bind fun _ => (expect _).bind fun _ => (rule _).bind fun _ => pure

theorem honest_infixTail (limit : Precedence) (left : Expr) :
    (infixTail limit left).Honest origin := by
  rw [infixTail_eq]
  refine peek fun token T _ => ?_
  split
  · exact .advance fun _ => (honest_operation _ _).bind fun _ => rule _
  · exact pure T

theorem honest_expression (limit : Precedence) : (expression limit).Honest origin :=
  honest_unary.bind fun _ => honest_infixTail _ _

theorem honest_arguments : arguments.Honest origin := by
  refine (honest_expression _).bind fun first => (accept _).bind fun found => ?_
  split
  · exact (rule _).bind fun _ => pure
  · exact pure

/-! ### Declarators -/

theorem honest_pointerTail : pointerTail.Honest origin := by
  refine peek fun token T _ => ?_
  split
  · exact .advance fun _ => (rule _).bind fun _ => pure
  · exact .advance fun _ => rule _
  · exact .advance fun _ => rule _
  · exact pure T

theorem honest_pointers : pointers.Honest origin := by
  refine (accept _).bind fun found => ?_
  split
  · exact (rule _).bind fun _ => pure
  · exact pure

theorem honest_parameterList : parameterList.Honest origin := by
  have hvoid : parameterList.isVoid.Honest origin := by
    refine (nextIs _).bind fun found => ?_
    split
    · exact peekNth fun _ => pure
    · exact pure
  have hparameters : parameterList.parametersUnlessClosed.Honest origin := by
    refine (nextIs _).bind fun found => ?_
    split
    · exact pure
    · exact rule _
  refine hvoid.bind fun found => ?_
  split
  · exact advance fun _ => advance fun _ => pure
  · exact (request (.enter .block)).bind fun _ => hparameters.bind fun _ => (expect _).bind fun _ =>
      (request (.leave _)).bind fun _ => pure

theorem honest_suffixes : suffixes.Honest origin := by
  refine (accept _).bind fun found => ?_
  split
  · refine (accept _).bind fun closed => ?_
    split
    · exact (rule _).bind fun _ => pure
    · exact (rule _).bind fun _ => (expect _).bind fun _ => (rule _).bind fun _ => pure
  · refine (accept _).bind fun found => ?_
    split
    · exact honest_parameterList.bind fun _ => (rule _).bind fun _ => pure
    · exact pure

theorem honest_opensDeclarator (mode : DeclaratorMode) :
    (opensDeclarator mode).Honest origin := by
  cases mode with
  | named => exact pure
  | nameless => exact peekNth fun token => by split <;> exact pure
  | either => exact peekNth fun token => by split <;> exact pure

theorem honest_declaratorCore (mode : DeclaratorMode) :
    (declaratorCore mode).Honest origin := by
  refine peek fun token T hfresh => ?_
  split
  · split
    · exact pure T
    · exact .advance fun _ => pure
  · split
    · exact pure T
    · exact .advance fun _ => pure
  · refine (honest_opensDeclarator mode).bind (fun nested => ?_) T
    split
    · exact advance fun _ => (rule _).bind fun _ => (expect _).bind fun _ => pure
    · exact pure
  · split
    · exact .refuse hfresh rfl
    · exact pure T

theorem honest_declarator (mode : DeclaratorMode) : (declarator mode).Honest origin :=
  honest_pointers.bind fun _ => (honest_declaratorCore mode).bind fun _ =>
    honest_suffixes.bind fun _ => pure

/-! ### Specifiers -/

theorem honest_requireTag (tag : Option String) : (requireTag tag).Honest origin := by
  cases tag with
  | some _ => exact pure
  | none =>
      exact peek fun token T hfresh => .refuse hfresh rfl

theorem honest_record (kind : RecordKind) : (record kind).Honest origin := by
  refine acceptWord.bind fun tag => (accept _).bind fun found => ?_
  split
  · exact (request (.enter .record)).bind fun _ => (rule _).bind fun _ => (expect _).bind fun _ =>
      (request (.leave _)).bind fun _ => pure
  · exact (honest_requireTag tag).bind fun _ => pure

theorem honest_recordType : recordType.Honest origin := by
  refine advance fun token => ?_
  split
  · exact honest_record _
  · exact honest_record _
  · exact contradictAt

theorem honest_enumeration : enumeration.Honest origin := by
  refine acceptWord.bind fun tag => (accept _).bind fun found => ?_
  split
  · exact (rule _).bind fun _ => (expect _).bind fun _ => pure
  · exact (honest_requireTag tag).bind fun _ => pure

theorem honest_enumerationType : enumerationType.Honest origin :=
  (expect _).bind fun _ => honest_enumeration

theorem honest_enumerator : enumerator.Honest origin := by
  refine expectWord.bind fun name => (request (.declareEnumerator name)).bind fun _ =>
    (accept _).bind fun found => ?_
  split
  · exact (rule _).bind fun _ => pure
  · exact pure

theorem honest_enumerators : enumerators.Honest origin := by
  refine (nextIs _).bind fun closed => ?_
  split
  · exact pure
  · refine honest_enumerator.bind fun first => (accept _).bind fun found => ?_
    split
    · exact (rule _).bind fun _ => pure
    · exact pure

/-- The word has been taken when it is refused. -/
theorem honest_typeWord (tally : SpecifierTally) {token : Token} (word : Keyword)
    (h : token.Fresh origin T) : (typeWord tally token word).Honest origin := by
  unfold typeWord
  split
  · exact fun _ => .refuseSilently h rfl
  · refine advance fun _ => ?_
    split
    · split
      · exact pure
      · exact fun _ => .refuseSilently h rfl
    · exact contradictAt

theorem honest_taggedType (tally : SpecifierTally) {token : Token} (word : Keyword)
    (h : token.Fresh origin T) : (taggedType tally token word).Honest origin := by
  unfold taggedType
  split
  · exact fun _ => .refuseSilently h rfl
  · split
    · exact honest_enumerationType.bind fun _ => pure
    · exact honest_recordType.bind fun _ => pure

theorem honest_specifier (tally : SpecifierTally) : (specifier tally).Honest origin := by
  refine peek fun token T hfresh => ?_
  split
  · split
    · split
      · exact .refuseSilently hfresh rfl
      · exact .advance fun _ => pure
    · split
      · exact .advance fun _ => pure
      · split
        · exact (honest_typeWord _ _ hfresh).bind (fun _ => pure) T
        · split
          · exact (honest_taggedType _ _ hfresh).bind (fun _ => pure) T
          · exact pure T
  · split
    · exact pure T
    · exact .advance fun _ => pure
  · exact pure T

theorem honest_specifierTail (tally : SpecifierTally) :
    (specifierTail tally).Honest origin := by
  refine (honest_specifier tally).bind fun next => ?_
  split
  · exact rule _
  · exact pure

theorem honest_specifiers : specifiers.Honest origin := by
  refine here.bind fun position => (honest_specifierTail _).bind fun tally => ?_
  split
  · exact pure
  · exact peek fun token T hfresh => .refuse hfresh rfl

theorem honest_typeName : typeName.Honest origin :=
  honest_specifiers.bind fun _ => (honest_declarator _).bind fun _ => pure

/-! ### Parameters and members -/

theorem honest_parameter : parameter.Honest origin := by
  refine here.bind fun position => honest_specifiers.bind fun specifiers =>
    (honest_declarator _).bind fun d => ?_
  dsimp only
  split
  · exact (request (.declare _ _)).bind fun _ => pure
  · exact pure

theorem honest_parameters : parameters.Honest origin := by
  refine (accept _).bind fun found => ?_
  split
  · exact pure
  · refine honest_parameter.bind fun first => (accept _).bind fun found => ?_
    split
    · exact (rule _).bind fun _ => pure
    · exact pure

theorem honest_memberDeclarators (specifiers : Specifiers) :
    (memberDeclarators specifiers).Honest origin := by
  refine (honest_declarator _).bind fun d => ?_
  split
  · exact contradict
  · refine (accept _).bind fun found => ?_
    split
    · exact (rule _).bind fun _ => pure
    · exact pure

/-- The kind that is reported for a storage class has not been looked at. -/
theorem honest_memberDeclaration : memberDeclaration.Honest origin := by
  refine honest_specifiers.bind fun specifiers => ?_
  split
  · exact fun _ => ParseError.Refused.storedMember
  · refine (rule _).bind fun members => peek fun token T hfresh => ?_
    split
    · exact .advance fun _ => pure
    · exact .refuse hfresh rfl

theorem honest_members : members.Honest origin := by
  refine (nextIs _).bind fun closed => ?_
  split
  · exact pure
  · exact honest_memberDeclaration.bind fun _ => (rule _).bind fun _ => pure

/-! ### Declarations -/

theorem honest_initialValue : initialValue.Honest origin := by
  refine here.bind fun position => (accept _).bind fun found => ?_
  split
  · exact (rule _).bind fun _ => (expect _).bind fun _ => pure
  · exact honest_expression _

theorem honest_initializerItems : initializerItems.Honest origin := by
  refine (nextIs _).bind fun closed => ?_
  split
  · exact pure
  · refine honest_initialValue.bind fun first => (accept _).bind fun found => ?_
    split
    · exact (rule _).bind fun _ => pure
    · exact pure

theorem honest_initial? (specifiers : Specifiers) : (initial? specifiers).Honest origin := by
  unfold initial?
  split
  · exact pure
  · refine (accept _).bind fun found => ?_
    split
    · exact honest_initialValue.bind fun _ => pure
    · exact pure

theorem honest_initDeclarator (specifiers : Specifiers) (d : Declarator) :
    (initDeclarator specifiers d).Honest origin := by
  unfold initDeclarator
  split
  · exact contradict
  · exact (request (.declare _ _)).bind fun _ => (honest_initial? _).bind fun _ => pure

theorem honest_declarations (specifiers : Specifiers) (d : Declarator) :
    (declarations specifiers d).Honest origin := by
  refine (honest_initDeclarator specifiers d).bind fun first => (accept _).bind fun found => ?_
  split
  · exact (rule _).bind fun _ => pure
  · exact pure

theorem honest_initDeclarators (specifiers : Specifiers) :
    (initDeclarators specifiers).Honest origin :=
  (honest_declarator _).bind fun _ => honest_declarations specifiers _

theorem honest_groupFrom (specifiers : Specifiers) (d : Declarator) :
    (groupFrom specifiers d).Honest origin :=
  (honest_declarations specifiers d).bind fun _ => (expect _).bind fun _ => pure

theorem honest_declarationGroup : declarationGroup.Honest origin := by
  refine honest_specifiers.bind fun specifiers => (accept _).bind fun found => ?_
  split
  · exact pure
  · exact (honest_declarator _).bind fun d => honest_groupFrom specifiers d

/-! ### Statements -/

theorem honest_condition : condition.Honest origin :=
  (expect _).bind fun _ => (rule _).bind fun _ => (expect _).bind fun _ => pure

theorem honest_expressionUnless (mark : Punctuator) :
    (expressionUnless mark).Honest origin := by
  refine (nextIs _).bind fun found => ?_
  split
  · exact pure
  · exact (honest_expression _).bind fun _ => pure

theorem honest_block : block.Honest origin :=
  (expect _).bind fun _ => (request (.enter .block)).bind fun _ => (rule _).bind fun _ =>
    (expect _).bind fun _ => (request (.leave _)).bind fun _ => pure

theorem honest_forStart : forStart.Honest origin := by
  refine (accept _).bind fun found => ?_
  split
  · exact pure
  · refine peek fun token T _ => ?_
    split
    · exact honest_declarationGroup.bind (fun _ => pure) T
    · exact (honest_expression _).bind (fun _ => (expect _).bind fun _ => pure) T

theorem honest_forLoop (position : Position) : (forLoop position).Honest origin :=
  (expect _).bind fun _ => (request (.enter .block)).bind fun _ => honest_forStart.bind fun _ =>
    (honest_expressionUnless _).bind fun _ => (expect _).bind fun _ =>
      (honest_expressionUnless _).bind fun _ => (expect _).bind fun _ => (rule _).bind fun _ =>
        (request (.leave _)).bind fun _ => pure

theorem honest_labelledStatement : labelledStatement.Honest origin := by
  refine advance fun token => ?_
  split
  · exact (rule _).bind fun _ => (expect _).bind fun _ => (rule _).bind fun _ => pure
  · exact (expect _).bind fun _ => (rule _).bind fun _ => pure
  · exact (expect _).bind fun _ => (rule _).bind fun _ => pure
  · exact contradictAt

theorem honest_selectionStatement : selectionStatement.Honest origin := by
  refine advance fun token => honest_condition.bind fun _ => (rule _).bind fun _ => ?_
  split
  · refine (accept _).bind fun found => ?_
    split
    · exact (rule _).bind fun _ => pure
    · exact pure
  · exact pure
  · exact contradictAt

theorem honest_iterationStatement : iterationStatement.Honest origin := by
  refine advance fun token => ?_
  split
  · exact honest_condition.bind fun _ => (rule _).bind fun _ => pure
  · exact (rule _).bind fun _ => (expect _).bind fun _ => honest_condition.bind fun _ =>
      (expect _).bind fun _ => pure
  · exact honest_forLoop _
  · exact contradictAt

theorem honest_jumpFrom (token : Token) : (jumpFrom token).Honest origin := by
  unfold jumpFrom
  split
  · exact expectWord.bind fun _ => pure
  · exact pure
  · exact pure
  · exact (honest_expressionUnless _).bind fun _ => pure
  · exact contradictAt

theorem honest_jumpStatement : jumpStatement.Honest origin :=
  advance fun token => (honest_jumpFrom token).bind fun _ => (expect _).bind fun _ => pure

theorem honest_expressionStatement (position : Position) :
    (expressionStatement position).Honest origin :=
  (honest_expression _).bind fun _ => (expect _).bind fun _ => pure

theorem honest_statement : statement.Honest origin := by
  refine peek fun token T _ => ?_
  split
  · exact honest_block.bind (fun _ => pure) T
  · exact .advance fun _ => pure
  · split
    · exact honest_selectionStatement T
    · exact honest_iterationStatement T
    · exact honest_jumpStatement T
    · exact honest_labelledStatement T
    · exact honest_expressionStatement _ T
  · refine peekNth (fun second => ?_) T
    split
    · exact honest_labelledStatement
    · exact honest_expressionStatement _
  · exact honest_expressionStatement _ T

theorem honest_blockItem (token : Token) : (blockItem token).Honest origin := by
  unfold blockItem
  split
  · exact honest_declarationGroup.bind fun _ => pure
  · exact honest_statement

theorem honest_blockItems : blockItems.Honest origin := by
  refine peek fun token T hfresh => ?_
  split
  · exact pure T
  · exact .refuse hfresh rfl
  · exact (honest_blockItem token).bind (fun _ => (rule _).bind fun _ => pure) T

/-! ### Functions and units -/

theorem honest_declareParameters (list : List Parameter) :
    (declareParameters list).Honest origin := by
  induction list with
  | nil => exact pure
  | cons first others ih =>
      unfold declareParameters
      split
      · exact (request (.declare _ _)).bind fun _ => ih
      · exact ih

theorem honest_functionDefinition (specifiers : Specifiers) (d : Declarator) :
    (functionDefinition specifiers d).Honest origin := by
  unfold functionDefinition
  split
  · exact contradict
  · split
    · exact fun _ => ParseError.Refused.bodyRefused
    · split
      · exact contradict
      · exact (request (.declare _ _)).bind fun _ => (expect _).bind fun _ =>
          (request (.enter .block)).bind fun _ => (honest_declareParameters _).bind fun _ =>
            (rule _).bind fun _ => (expect _).bind fun _ => (request (.leave _)).bind fun _ => pure

theorem honest_externalDeclaration : externalDeclaration.Honest origin := by
  refine honest_specifiers.bind fun specifiers => (accept _).bind fun found => ?_
  split
  · exact pure
  · refine (honest_declarator _).bind fun d => ?_
    split
    · refine (nextIs _).bind fun found => ?_
      split
      · exact (honest_functionDefinition specifiers d).bind fun _ => pure
      · exact (honest_groupFrom specifiers d).bind fun _ => pure
    · exact (honest_groupFrom specifiers d).bind fun _ => pure

theorem honest_externalDeclarations : externalDeclarations.Honest origin := by
  refine peek fun token T _ => ?_
  split
  · exact pure T
  · exact honest_externalDeclaration.bind (fun _ => (rule _).bind fun _ => pure) T

/-- The script of every rule refuses tokens that it has been handed. -/
theorem honest_script (f : Nonterminal) : (script f).Honest origin := by
  cases f with
  | expression limit => exact honest_expression limit
  | infixTail limit left => exact honest_infixTail limit left
  | postfixTail operand => exact honest_postfixTail operand
  | «arguments» => exact honest_arguments
  | adjacentStrings => exact honest_adjacentStrings
  | typeName => exact honest_typeName
  | specifierTail tally => exact honest_specifierTail tally
  | members => exact honest_members
  | memberDeclarators specifiers => exact honest_memberDeclarators specifiers
  | enumerators => exact honest_enumerators
  | pointerTail => exact honest_pointerTail
  | declarator mode => exact honest_declarator mode
  | suffixes => exact honest_suffixes
  | parameters => exact honest_parameters
  | initializerItems => exact honest_initializerItems
  | initDeclarators specifiers => exact honest_initDeclarators specifiers
  | statement => exact honest_statement
  | blockItems => exact honest_blockItems
  | externalDeclarations => exact honest_externalDeclarations

end Grammar

/-! ## Runs -/

/-- A request that fails is no matter of the grammar. -/
theorem Request.lexical_of_error {r : Request} {s t : ParserState} {e : ParseError}
    (h : r.Lawful origin s) (hperform : r.perform s = (.error e, t)) :
    ∃ fault, e.cause = .lexical fault := by
  rcases Request.outcome_of_lawful h with ⟨_, _, hok, -⟩ | ⟨_, _, herror, -, hending⟩
  · cases hok.symm.trans hperform
  · cases herror.symm.trans hperform
    exact Parser.lexical_of_ending (show s.cursor.source.outlook.ending = .error e from hending)

/-- A token that is handed out is fresh, and the table stays as it is. -/
theorem Request.handed_of_lawful {r : Request} {s t : ParserState} {answer : r.Answer}
    {token : Token} (h : r.Lawful origin s) (hperform : r.perform s = (.ok answer, t))
    (hhanded : r.handed? answer = some token) :
    t.table = s.table ∧ token.Fresh origin s.table := by
  refine ⟨?_, (Request.sound_perform h.sound h.marks hperform).2.2 token hhanded⟩
  cases r with
  | peek n => exact (congrArg (·.2.table) hperform).symm
  | advance => exact (congrArg (·.2.table) hperform).symm
  | _ => cases hhanded

namespace Parser

/-- A script that shows what it refuses fails as the grammar does, if the rules do that it calls, or
with a lexical fault. -/
theorem refused_of_run {callee : Script.Callee} {within : Nonterminal → ParserState → List Event}
    (hcallee : ∀ f s e t, Lawful origin (within f s) → callee f s = (.error e, t) →
      (∃ fault, e.cause = .lexical fault) ∨ e.Refused origin t.table)
    {prog : Script α} {s t : ParserState} {e : ParseError}
    (hlawful : Lawful origin (prog.events callee within s)) (h : prog.Shows origin s.table)
    (hrun : prog.run callee s = (.error e, t)) :
    (∃ fault, e.cause = .lexical fault) ∨ e.Refused origin t.table := by
  -- Requests fail only at lexical faults.  All other failures are the script's own or those of a
  -- rule.
  induction prog generalizing s with
  | done value => cases hrun
  | fail error =>
      cases hrun
      exact Or.inr h
  | request r next ih =>
      obtain ⟨hrequest, hnext⟩ := hlawful.request
      rcases hperform : r.perform s with ⟨error | answer, u⟩
      · rw [Script.run, hperform] at hrun
        cases hrun
        exact Or.inl (Request.lexical_of_error hrequest hperform)
      · rw [Script.run, hperform] at hrun
        refine ih answer (hnext answer u hperform) (h answer u.table fun token hhanded => ?_) hrun
        exact Request.handed_of_lawful hrequest hperform hhanded
  | call f next ih =>
      obtain ⟨hinside, hnext⟩ := hlawful.call
      rcases hresult : callee f s with ⟨error | result, u⟩
      · rw [Script.run, hresult] at hrun
        cases hrun
        exact hcallee f s e t hinside hresult
      · rw [Script.run, hresult] at hrun
        exact ih result (hnext result u hresult) (h result u.table) hrun

theorem refused_of_runAt {depth : Nat} {f : Nonterminal} {s t : ParserState} {e : ParseError}
    (hlawful : Lawful origin (eventsAt depth f s)) (hrun : runAt depth f s = (.error e, t)) :
    (∃ fault, e.cause = .lexical fault) ∨ e.Refused origin t.table := by
  induction depth generalizing f s e t with
  | zero =>
      cases hrun
      exact Or.inr (.contradicted rfl)
  | succ depth ih =>
      exact refused_of_run (fun _ _ _ _ => ih) hlawful.rule (Grammar.honest_script f s.table) hrun

/-- A parse fails with a lexical fault, or as the grammar gives up where its run ends. -/
theorem refused_of_parse {text : String} {file : Option String} {e : ParseError}
    (h : parse text file = .error e) : (∃ fault, e.cause = .lexical fault) ∨
      e.Refused (Source.ofString text file) (runUnit text file).2.table := by
  unfold parse at h
  rcases hrun : runUnit text file with ⟨error | list, t⟩
  · rw [hrun] at h
    cases h
    exact refused_of_runAt (lawful_events text file) hrun
  · rw [hrun] at h
    cases h

end Parser

end CSyntax
