import CSyntax.Proofs.Run.Parts
import CSyntax.Proofs.Scope.Frame

/-!
# Nesting — scopes are closed by the rules that open them

Rules open and close scopes and declare words, and return early in many places.  The contract
`nesting` follows the table alone through the scripts: a rule that is carried out leaves it within
the frame that it found, and a rule that declares words is called where the innermost scope is a
block.  The other rules leave enumeration constants at most, and so make no word a type name.

The second half of this counts on the first, and the first on the second: where the innermost scope
is the body of a record, a declaration would bind a word there.  So the contract comes in two forms.
The strict one asks for the place of each rule and shows that runs declare in blocks; the other
takes that for granted and speaks of a rule wherever it is called.
-/

namespace CSyntax

variable {α β : Type} {strict : Bool} {T U V : SymbolTable}

/-! ## Places of rules -/

/-- Where a rule may be called. -/
inductive Place
  | anywhere
  /-- The innermost scope is a block. -/
  | block
  /-- No scope but the file scope is open. -/
  | file

namespace Place

def Holds : Place → SymbolTable → Prop
  | .anywhere, _ => True
  | .block, table => table.InBlock
  | .file, table => table.nested = []

theorem Holds.frame {place : Place} (hT : place.Holds T) (h : T.Frame U) : place.Holds U := by
  cases place with
  | anywhere => trivial
  | block => exact h.inBlock hT
  | file => exact h.nested_eq_nil hT

end Place

/-- How a rule that may be called at a place leaves the table.  A rule that may be called anywhere
makes no word a type name. -/
structure Place.Left (place : Place) (T U : SymbolTable) : Prop extends T.Frame U where
  fades : place = .anywhere → T.Fades U

namespace Place.Left

variable {place : Place}

theorem refl (T : SymbolTable) : place.Left T T :=
  ⟨.refl T, fun _ => .refl T⟩

theorem trans (h : place.Left T U) (h' : place.Left U V) : place.Left T V :=
  ⟨h.toFrame.trans h'.toFrame, fun hplace => (h.fades hplace).trans (h'.fades hplace)⟩

theorem of_anywhere (h : Place.anywhere.Left T U) : place.Left T U :=
  ⟨h.toFrame, fun _ => h.fades rfl⟩

end Place.Left

/-- Parameters, the declarators of a declaration and the items of a block are declared where they
stand.  All other rules declare nothing, or open a block for it. -/
def Nonterminal.place : Nonterminal → Place
  | .parameters => .block
  | .initDeclarators _ => .block
  | .blockItems => .block
  | .externalDeclarations => .file
  | _ => .anywhere

/-! ## The contract -/

/-- What requests do to the table, and the frame that rules leave it in.  The strict form says
besides where words are declared. -/
def nesting (strict : Bool) : Contract SymbolTable where
  may
    | .leave _, T => T.leave? ≠ none
    | .declare _ _, T => strict = true → T.InBlock
    | _, _ => True
  step
    | .enter kind, T, _, U => U = T.enter kind
    | .leave _, T, _, U => T.leave? = some U
    | .declare name meaning, T, _, U => T.InBlock ∧ U = T.declare name meaning
    | .declareEnumerator name, T, _, U => U = T.declareEnumerator name
    | _, T, _, U => U = T
  pre f T := strict = true → f.place.Holds T
  post f T _ U _ := f.place.Left T U

namespace Script

/-- The script leaves the table as it is. -/
def Restores (strict : Bool) (prog : Script α) : Prop :=
  ∀ T, prog.Meets (nesting strict) T fun _ U _ => U = T

/-- Begun at its place, the script leaves the table in the frame that it finds. -/
def Keeps (strict : Bool) (place : Place) (prog : Script α) : Prop :=
  ∀ T, (strict = true → place.Holds T) → prog.Meets (nesting strict) T fun _ U _ => place.Left T U

/-- Begun somewhere in a scope, where the table was `V` when it had been opened, the script ends
as `P` says. -/
def Closes (strict : Bool) (place : Place) (V : SymbolTable) (P : α → SymbolTable → Prop)
    (prog : Script α) : Prop :=
  ∀ U, place.Left V U → prog.Meets (nesting strict) U fun a W _ => P a W

variable {place : Place} {P : β → SymbolTable → Prop} {prog : Script α} {next : α → Script β}

theorem Restores.keeps (h : prog.Restores strict) : prog.Keeps strict place :=
  fun T _ => (h T).mono fun _ _ _ hU => hU ▸ .refl _

theorem Restores.bind (h : prog.Restores strict) (hnext : ∀ a, (next a).Restores strict) :
    (prog >>= next).Restores strict := by
  intro T
  refine Meets.bind (h T) ?_
  rintro a U R rfl
  exact hnext a U

theorem Keeps.bind (h : prog.Keeps strict place) (hnext : ∀ a, (next a).Keeps strict place) :
    (prog >>= next).Keeps strict place := by
  intro T hT
  refine Meets.bind (h T hT) ?_
  intro a U R hU
  have hplace : strict = true → place.Holds U := fun hs => (hT hs).frame hU.toFrame
  exact (hnext a U hplace).mono fun _ _ _ => hU.trans

theorem Keeps.bindCloses (h : prog.Keeps strict place) (hV : strict = true → place.Holds V)
    (hnext : ∀ a, (next a).Closes strict place V P) : (prog >>= next).Closes strict place V P := by
  intro U hU
  refine Meets.bind (h U fun hs => (hV hs).frame hU.toFrame) ?_
  intro a W R hW
  exact hnext a W (hU.trans hW)

theorem Keeps.weaken (h : prog.Keeps strict .block) : prog.Keeps strict .file := by
  intro T hT
  exact (h T fun hs => SymbolTable.inBlock_of_nested_eq_nil (hT hs)).mono fun _ _ _ hU =>
    ⟨hU.toFrame, nofun⟩

/-! ### Requests -/

namespace Restores

theorem pure {a : α} : (Pure.pure a : Script α).Restores strict :=
  fun _ => rfl

theorem fail {error : ParseError} : (Script.fail error : Script α).Restores strict :=
  fun _ => trivial

theorem refuse {token : Token} {fault : GrammarFault} :
    (Script.refuse token fault : Script α).Restores strict :=
  fun _ => trivial

theorem contradict {position : Position} {fault : InternalFault} :
    (Script.contradict position fault : Script α).Restores strict :=
  fun _ => trivial

theorem contradictAt {token : Token} {fault : InternalFault} :
    (Script.contradictAt token fault : Script α).Restores strict :=
  fun _ => trivial

theorem peek : Script.peek.Restores strict :=
  fun _ => ⟨trivial, fun _ _ h => h⟩

theorem peekNth (n : Nat) : (Script.peekNth n).Restores strict :=
  fun _ => ⟨trivial, fun _ _ h => h⟩

theorem advance : Script.advance.Restores strict :=
  fun _ => ⟨trivial, fun _ _ h => h⟩

theorem mark : Script.mark.Restores strict :=
  fun _ => ⟨trivial, fun _ _ h => h⟩

theorem reset (m : Mark) : (Script.reset m).Restores strict :=
  fun _ => ⟨trivial, fun _ _ h => h⟩

theorem release (m : Mark) : (Script.release m).Restores strict :=
  fun _ => ⟨trivial, fun _ _ h => h⟩

theorem nextIs (kind : TokenKind) : (Script.nextIs kind).Restores strict :=
  peek.bind fun _ => pure

theorem accept (kind : TokenKind) : (Script.accept kind).Restores strict := by
  refine (nextIs kind).bind fun found => ?_
  split
  · exact advance.bind fun _ => pure
  · exact pure

theorem expect (kind : TokenKind) : (Script.expect kind).Restores strict := by
  refine peek.bind fun token => ?_
  split
  · exact advance
  · exact refuse

theorem expectWord : Script.expectWord.Restores strict := by
  refine advance.bind fun token => ?_
  split
  · exact pure
  · exact pure
  · exact refuse

theorem acceptWord : Script.acceptWord.Restores strict := by
  refine peek.bind fun token => ?_
  split
  · exact expectWord.bind fun _ => pure
  · exact expectWord.bind fun _ => pure
  · exact pure

theorem here : Script.here.Restores strict :=
  peek.bind fun _ => pure

/-- A block that is opened and closed again leaves nothing. -/
theorem enclosed {body : Unit → Script α}
    (h : ∀ T : SymbolTable, (body ()).Closes strict .block (T.enter .block) fun _ W => W = T) :
    (Script.enter .block >>= body).Restores strict := by
  intro T
  refine ⟨trivial, ?_⟩
  rintro _ _ rfl
  exact h T _ (.refl _)

end Restores

namespace Keeps

theorem rule (f : Nonterminal) (h : f.place = .anywhere) :
    (Script.rule f).Keeps strict place := by
  intro T _
  refine ⟨fun _ => h ▸ trivial, ?_⟩
  intro result U R hU
  have hleft : Place.anywhere.Left T U := h ▸ hU
  exact hleft.of_anywhere

/-- A rule that declares words is called at its own place. -/
theorem ruleAt (f : Nonterminal) : (Script.rule f).Keeps strict f.place :=
  fun _ hT => ⟨hT, fun _ _ _ hU => hU⟩

theorem declare (name : String) (meaning : Meaning) :
    (Script.declare name meaning).Keeps strict .block := by
  intro T hT
  refine ⟨hT, ?_⟩
  rintro _ _ ⟨hblock, rfl⟩
  exact ⟨SymbolTable.frame_declare hblock name meaning, nofun⟩

theorem declareEnumerator (name : String) :
    (Script.declareEnumerator name).Keeps strict place := by
  intro T _
  refine ⟨trivial, ?_⟩
  rintro _ _ rfl
  exact ⟨SymbolTable.frame_declareEnumerator T name, fun _ => .declareEnumerator T name⟩

end Keeps

namespace Closes

variable {place : Place}

theorem mono {P P' : α → SymbolTable → Prop} {prog : Script α} (h : prog.Closes strict place V P)
    (hP : ∀ a W, P a W → P' a W) : prog.Closes strict place V P' :=
  fun U hU => (h U hU).mono fun a W _ => hP a W

theorem leave_block (position : Position) (a : α) :
    (Script.leave position >>= fun _ => Pure.pure a).Closes strict place (T.enter .block)
      fun b W => b = a ∧ W = T := by
  intro U hU
  have hleave : U.leave? = some T := hU.leave_block
  refine ⟨fun hnone => by simp [hleave] at hnone, ?_⟩
  intro _ W hW
  exact ⟨rfl, Option.some.inj (hW.symm.trans hleave)⟩

/-- A block that is left where it was opened leaves the table that it found. -/
theorem leaves_block (position : Position) (a : α) :
    (Script.leave position >>= fun _ => Pure.pure a).Closes strict place (T.enter .block)
      fun _ W => W = T :=
  (leave_block position a).mono fun _ _ h => h.2

theorem leave_record (position : Position) (a : α) :
    (Script.leave position >>= fun _ => Pure.pure a).Closes strict .anywhere (T.enter .record)
      fun _ W => place.Left T W := by
  intro U hU
  refine ⟨?_, fun _ W hW => ⟨hU.toFrame.leave_record hW, fun _ =>
    .leave_record hU.toFrame (hU.fades rfl) hW⟩⟩
  -- The record itself is still open.
  intro hnone
  have hdepth := hU.depth
  rw [(U.leave?_eq_none_iff).1 hnone] at hdepth
  simp [SymbolTable.depth, SymbolTable.enter] at hdepth

end Closes

end Script

namespace Grammar

open Script.Restores Script.Keeps

variable {place : Place}

/-! ## Expressions -/

theorem keeps_primary : primary.Keeps strict place := by
  refine peek.keeps.bind fun token => ?_
  split
  · exact advance.keeps.bind fun _ => pure.keeps
  · exact advance.keeps.bind fun _ => pure.keeps
  · split
    · exact advance.keeps.bind fun _ => pure.keeps
    · exact contradictAt.keeps
  · exact advance.keeps.bind fun _ => pure.keeps
  · exact advance.keeps.bind fun _ => (rule _ rfl).bind fun _ => pure.keeps
  · split
    · exact advance.keeps.bind fun _ => (rule _ rfl).bind fun _ => (expect _).keeps.bind fun _ =>
        pure.keeps
    · exact refuse.keeps

theorem keeps_adjacentStrings : adjacentStrings.Keeps strict place := by
  refine peek.keeps.bind fun token => ?_
  split
  · exact advance.keeps.bind fun _ => (rule _ rfl).bind fun _ => pure.keeps
  · exact pure.keeps

theorem keeps_callArguments : callArguments.Keeps strict place := by
  refine (accept _).keeps.bind fun closed => ?_
  split
  · exact pure.keeps
  · refine (rule _ rfl).bind fun values => peek.keeps.bind fun token => ?_
    split
    · exact advance.keeps.bind fun _ => pure.keeps
    · exact refuse.keeps

theorem keeps_postfixTail (operand : Expr) : (postfixTail operand).Keeps strict place := by
  refine peek.keeps.bind fun token => ?_
  split
  · exact advance.keeps.bind fun _ => (rule _ rfl).bind fun _ => (expect _).keeps.bind fun _ =>
      rule _ rfl
  · exact advance.keeps.bind fun _ => keeps_callArguments.bind fun _ => rule _ rfl
  · exact advance.keeps.bind fun _ => expectWord.keeps.bind fun _ => rule _ rfl
  · exact advance.keeps.bind fun _ => expectWord.keeps.bind fun _ => rule _ rfl
  · exact advance.keeps.bind fun _ => rule _ rfl
  · exact advance.keeps.bind fun _ => rule _ rfl
  · exact pure.keeps

theorem keeps_postfixed : postfixed.Keeps strict place :=
  keeps_primary.bind fun _ => keeps_postfixTail _

theorem keeps_parenthesizedType? : parenthesizedType?.Keeps strict place := by
  refine (nextIs _).keeps.bind fun found => ?_
  split
  · refine mark.keeps.bind fun m => advance.keeps.bind fun _ => peek.keeps.bind fun token => ?_
    split
    · exact (release m).keeps.bind fun _ => (rule _ rfl).bind fun _ => (expect _).keeps.bind fun _ =>
        pure.keeps
    · exact (reset m).keeps.bind fun _ => pure.keeps
  · exact pure.keeps

theorem keeps_unary : unary.Keeps strict place := by
  refine peek.keeps.bind fun token => ?_
  split
  · refine advance.keeps.bind fun _ => keeps_parenthesizedType?.bind fun type => ?_
    split
    · exact pure.keeps
    · exact (rule _ rfl).bind fun _ => pure.keeps
  · refine keeps_parenthesizedType?.bind fun type => ?_
    split
    · exact (rule _ rfl).bind fun _ => pure.keeps
    · exact keeps_postfixed
  · split
    · exact advance.keeps.bind fun _ => (rule _ rfl).bind fun _ => pure.keeps
    · exact refuse.keeps
  · exact keeps_postfixed

theorem keeps_infixOperation (token : Token) (right : Nat) (left : Expr) :
    (infixOperation token right left).Keeps strict place := by
  unfold infixOperation
  split
  · split
    · exact (rule _ rfl).bind fun _ => (expect _).keeps.bind fun _ => (rule _ rfl).bind fun _ =>
        pure.keeps
    · split
      · exact (rule _ rfl).bind fun _ => pure.keeps
      · exact (rule _ rfl).bind fun _ => pure.keeps
      · exact contradictAt.keeps
  · exact contradictAt.keeps

theorem keeps_infixTail (limit : Precedence) (left : Expr) :
    (infixTail limit left).Keeps strict place := by
  refine peek.keeps.bind fun token => ?_
  split
  · split
    · exact pure.keeps
    · exact advance.keeps.bind fun _ => (keeps_infixOperation _ _ _).bind fun _ => rule _ rfl
  · exact pure.keeps

theorem keeps_expression (limit : Precedence) : (expression limit).Keeps strict place :=
  keeps_unary.bind fun _ => keeps_infixTail _ _

theorem keeps_arguments : arguments.Keeps strict place := by
  refine (keeps_expression _).bind fun first => (accept _).keeps.bind fun found => ?_
  split
  · exact (rule _ rfl).bind fun _ => pure.keeps
  · exact pure.keeps

/-! ## Declarators -/

theorem keeps_pointerTail : pointerTail.Keeps strict place := by
  refine peek.keeps.bind fun token => ?_
  split
  · exact advance.keeps.bind fun _ => (rule _ rfl).bind fun _ => pure.keeps
  · exact advance.keeps.bind fun _ => rule _ rfl
  · exact advance.keeps.bind fun _ => rule _ rfl
  · exact pure.keeps

theorem keeps_pointers : pointers.Keeps strict place := by
  refine (accept _).keeps.bind fun found => ?_
  split
  · exact (rule _ rfl).bind fun _ => pure.keeps
  · exact pure.keeps

theorem restores_isVoid : parameterList.isVoid.Restores strict := by
  refine (nextIs _).bind fun found => ?_
  split
  · exact (peekNth 1).bind fun _ => pure
  · exact pure

theorem keeps_parametersUnlessClosed :
    parameterList.parametersUnlessClosed.Keeps strict .block := by
  refine (nextIs _).keeps.bind fun found => ?_
  split
  · exact pure.keeps
  · exact ruleAt .parameters

theorem restores_parameterList : parameterList.Restores strict := by
  refine restores_isVoid.bind fun found => ?_
  split
  · exact advance.bind fun _ => advance.bind fun _ => pure
  · refine enclosed fun T => ?_
    have hblock : strict = true → Place.block.Holds (T.enter .block) := fun _ => rfl
    exact keeps_parametersUnlessClosed.bindCloses hblock fun _ =>
      (expect _).keeps.bindCloses hblock fun _ => .leaves_block _ _

theorem keeps_suffixes : suffixes.Keeps strict place := by
  refine (accept _).keeps.bind fun found => ?_
  split
  · refine (accept _).keeps.bind fun closed => ?_
    split
    · exact (rule _ rfl).bind fun _ => pure.keeps
    · exact (rule _ rfl).bind fun _ => (expect _).keeps.bind fun _ => (rule _ rfl).bind fun _ =>
        pure.keeps
  · refine (accept _).keeps.bind fun found => ?_
    split
    · exact restores_parameterList.keeps.bind fun _ => (rule _ rfl).bind fun _ => pure.keeps
    · exact pure.keeps

theorem keeps_opensDeclarator (mode : DeclaratorMode) :
    (opensDeclarator mode).Keeps strict place := by
  have looked : ∀ k : Token → Script Bool, (∀ token, (k token).Keeps strict place) →
      (Script.peekNth 1 >>= k).Keeps strict place :=
    fun k hk => (peekNth 1).keeps.bind hk
  cases mode with
  | named => exact pure.keeps
  | nameless => exact looked _ fun token => by split <;> exact pure.keeps
  | either => exact looked _ fun token => by split <;> exact pure.keeps

theorem keeps_declaratorCore (mode : DeclaratorMode) :
    (declaratorCore mode).Keeps strict place := by
  refine peek.keeps.bind fun token => ?_
  split
  · split
    · exact pure.keeps
    · exact advance.keeps.bind fun _ => pure.keeps
  · split
    · exact pure.keeps
    · exact advance.keeps.bind fun _ => pure.keeps
  · refine (keeps_opensDeclarator mode).bind fun nested => ?_
    split
    · exact advance.keeps.bind fun _ => (rule _ rfl).bind fun _ => (expect _).keeps.bind fun _ =>
        pure.keeps
    · exact pure.keeps
  · split
    · exact refuse.keeps
    · exact pure.keeps

theorem keeps_declarator (mode : DeclaratorMode) : (declarator mode).Keeps strict place :=
  keeps_pointers.bind fun _ => (keeps_declaratorCore mode).bind fun _ => keeps_suffixes.bind fun _ =>
    pure.keeps

/-! ## Records and enumerations -/

theorem keeps_requireTag (tag : Option String) : (requireTag tag).Keeps strict place := by
  cases tag with
  | some _ => exact pure.keeps
  | none => exact peek.keeps.bind fun _ => refuse.keeps

/-- The body of a record is a scope that binds nothing; what is declared in it goes further out. -/
theorem keeps_record (kind : RecordKind) : (record kind).Keeps strict place := by
  refine acceptWord.keeps.bind fun tag => (accept _).keeps.bind fun found => ?_
  split
  · intro T _
    refine ⟨trivial, ?_⟩
    rintro _ _ rfl
    have hrule : (Script.rule .members).Keeps strict .anywhere := rule _ rfl
    have hclose : (Script.expectMark .closeBrace).Keeps strict .anywhere := (expect _).keeps
    exact hrule.bindCloses (fun _ => trivial) (fun _ => hclose.bindCloses (fun _ => trivial) fun _ =>
      .leave_record _ _) _ (.refl _)
  · exact (keeps_requireTag tag).bind fun _ => pure.keeps

theorem keeps_recordType : recordType.Keeps strict place := by
  refine advance.keeps.bind fun token => ?_
  split
  · exact keeps_record _
  · exact keeps_record _
  · exact contradictAt.keeps

theorem keeps_enumeration : enumeration.Keeps strict place := by
  refine acceptWord.keeps.bind fun tag => (accept _).keeps.bind fun found => ?_
  split
  · exact (rule _ rfl).bind fun _ => (expect _).keeps.bind fun _ => pure.keeps
  · exact (keeps_requireTag tag).bind fun _ => pure.keeps

theorem keeps_enumerationType : enumerationType.Keeps strict place :=
  (expect _).keeps.bind fun _ => keeps_enumeration

theorem keeps_enumerator : enumerator.Keeps strict place := by
  refine expectWord.keeps.bind fun name => (declareEnumerator name).bind fun _ =>
    (accept _).keeps.bind fun found => ?_
  split
  · exact (rule _ rfl).bind fun _ => pure.keeps
  · exact pure.keeps

theorem keeps_enumerators : enumerators.Keeps strict place := by
  refine (nextIs _).keeps.bind fun closed => ?_
  split
  · exact pure.keeps
  · refine keeps_enumerator.bind fun first => (accept _).keeps.bind fun found => ?_
    split
    · exact (rule _ rfl).bind fun _ => pure.keeps
    · exact pure.keeps

/-! ## Specifiers, parameters and members -/

theorem keeps_typeWord (tally : SpecifierTally) (token : Token) (word : Keyword) :
    (typeWord tally token word).Keeps strict place := by
  unfold typeWord
  split
  · exact refuse.keeps
  · refine advance.keeps.bind fun _ => ?_
    split
    · split
      · exact pure.keeps
      · exact refuse.keeps
    · exact contradictAt.keeps

theorem keeps_taggedType (tally : SpecifierTally) (token : Token) (word : Keyword) :
    (taggedType tally token word).Keeps strict place := by
  unfold taggedType
  split
  · exact refuse.keeps
  · split
    · exact keeps_enumerationType.bind fun _ => pure.keeps
    · exact keeps_recordType.bind fun _ => pure.keeps

theorem keeps_specifier (tally : SpecifierTally) : (specifier tally).Keeps strict place := by
  refine peek.keeps.bind fun token => ?_
  split
  · split
    · split
      · exact refuse.keeps
      · exact advance.keeps.bind fun _ => pure.keeps
    · split
      · exact advance.keeps.bind fun _ => pure.keeps
      · split
        · exact (keeps_typeWord _ _ _).bind fun _ => pure.keeps
        · split
          · exact (keeps_taggedType _ _ _).bind fun _ => pure.keeps
          · exact pure.keeps
  · split
    · exact pure.keeps
    · exact advance.keeps.bind fun _ => pure.keeps
  · exact pure.keeps

theorem keeps_specifierTail (tally : SpecifierTally) :
    (specifierTail tally).Keeps strict place := by
  refine (keeps_specifier tally).bind fun next => ?_
  split
  · exact rule _ rfl
  · exact pure.keeps

theorem keeps_specifiers : specifiers.Keeps strict place := by
  refine here.keeps.bind fun position => (keeps_specifierTail _).bind fun tally => ?_
  split
  · exact pure.keeps
  · exact peek.keeps.bind fun _ => refuse.keeps

theorem keeps_typeName : typeName.Keeps strict place :=
  keeps_specifiers.bind fun _ => (keeps_declarator _).bind fun _ => pure.keeps

theorem keeps_parameter : parameter.Keeps strict .block := by
  refine here.keeps.bind fun position => keeps_specifiers.bind fun specifiers =>
    (keeps_declarator _).bind fun d => ?_
  dsimp only
  split
  · exact (declare _ _).bind fun _ => pure.keeps
  · exact pure.keeps

theorem keeps_parameters : parameters.Keeps strict .block := by
  refine (accept _).keeps.bind fun found => ?_
  split
  · exact pure.keeps
  · refine keeps_parameter.bind fun first => (accept _).keeps.bind fun found => ?_
    split
    · exact (ruleAt .parameters).bind fun _ => pure.keeps
    · exact pure.keeps

theorem keeps_memberDeclarators (specifiers : Specifiers) :
    (memberDeclarators specifiers).Keeps strict place := by
  refine (keeps_declarator _).bind fun d => ?_
  split
  · exact contradict.keeps
  · refine (accept _).keeps.bind fun found => ?_
    split
    · exact (rule _ rfl).bind fun _ => pure.keeps
    · exact pure.keeps

theorem keeps_memberDeclaration : memberDeclaration.Keeps strict place := by
  refine keeps_specifiers.bind fun specifiers => ?_
  split
  · exact fail.keeps
  · refine (rule _ rfl).bind fun members => peek.keeps.bind fun token => ?_
    split
    · exact advance.keeps.bind fun _ => pure.keeps
    · exact refuse.keeps

theorem keeps_members : members.Keeps strict place := by
  refine (nextIs _).keeps.bind fun closed => ?_
  split
  · exact pure.keeps
  · exact keeps_memberDeclaration.bind fun _ => (rule _ rfl).bind fun _ => pure.keeps

/-! ## Declarations -/

theorem keeps_initialValue : initialValue.Keeps strict place := by
  refine here.keeps.bind fun position => (accept _).keeps.bind fun found => ?_
  split
  · exact (rule _ rfl).bind fun _ => (expect _).keeps.bind fun _ => pure.keeps
  · exact keeps_expression _

theorem keeps_initializerItems : initializerItems.Keeps strict place := by
  refine (nextIs _).keeps.bind fun closed => ?_
  split
  · exact pure.keeps
  · refine keeps_initialValue.bind fun first => (accept _).keeps.bind fun found => ?_
    split
    · exact (rule _ rfl).bind fun _ => pure.keeps
    · exact pure.keeps

theorem keeps_initial? (specifiers : Specifiers) :
    (initial? specifiers).Keeps strict place := by
  unfold initial?
  split
  · exact pure.keeps
  · refine (accept _).keeps.bind fun found => ?_
    split
    · exact keeps_initialValue.bind fun _ => pure.keeps
    · exact pure.keeps

theorem keeps_initDeclarator (specifiers : Specifiers) (d : Declarator) :
    (initDeclarator specifiers d).Keeps strict .block := by
  unfold initDeclarator
  split
  · exact contradict.keeps
  · exact (declare _ _).bind fun _ => (keeps_initial? _).bind fun _ => pure.keeps

theorem keeps_declarations (specifiers : Specifiers) (d : Declarator) :
    (declarations specifiers d).Keeps strict .block := by
  refine (keeps_initDeclarator specifiers d).bind fun first => (accept _).keeps.bind fun found => ?_
  split
  · exact (ruleAt (.initDeclarators specifiers)).bind fun _ => pure.keeps
  · exact pure.keeps

theorem keeps_initDeclarators (specifiers : Specifiers) :
    (initDeclarators specifiers).Keeps strict .block :=
  (keeps_declarator _).bind fun _ => keeps_declarations specifiers _

theorem keeps_groupFrom (specifiers : Specifiers) (d : Declarator) :
    (groupFrom specifiers d).Keeps strict .block :=
  (keeps_declarations specifiers d).bind fun _ => (expect _).keeps.bind fun _ => pure.keeps

theorem keeps_declarationGroup : declarationGroup.Keeps strict .block := by
  refine keeps_specifiers.bind fun specifiers => (accept _).keeps.bind fun found => ?_
  split
  · exact pure.keeps
  · exact (keeps_declarator _).bind fun d => keeps_groupFrom specifiers d

/-! ## Statements -/

theorem keeps_condition : condition.Keeps strict place :=
  (expect _).keeps.bind fun _ => (rule _ rfl).bind fun _ => (expect _).keeps.bind fun _ => pure.keeps

theorem keeps_expressionUnless (mark : Punctuator) :
    (expressionUnless mark).Keeps strict place := by
  refine (nextIs _).keeps.bind fun found => ?_
  split
  · exact pure.keeps
  · exact (keeps_expression _).bind fun _ => pure.keeps

theorem restores_block : block.Restores strict := by
  refine (expect _).bind fun _ => enclosed fun T => ?_
  have hblock : strict = true → Place.block.Holds (T.enter .block) := fun _ => rfl
  exact (ruleAt .blockItems).bindCloses hblock fun _ =>
    (expect _).keeps.bindCloses hblock fun _ => .leaves_block _ _

theorem keeps_forStart : forStart.Keeps strict .block := by
  refine (accept _).keeps.bind fun found => ?_
  split
  · exact pure.keeps
  · refine peek.keeps.bind fun token => ?_
    split
    · exact keeps_declarationGroup.bind fun _ => pure.keeps
    · exact (keeps_expression _).bind fun _ => (expect _).keeps.bind fun _ => pure.keeps

theorem restores_forLoop (position : Position) : (forLoop position).Restores strict := by
  refine (expect _).bind fun _ => enclosed fun T => ?_
  have hblock : strict = true → Place.block.Holds (T.enter .block) := fun _ => rfl
  exact keeps_forStart.bindCloses hblock fun _ =>
    (keeps_expressionUnless _).bindCloses hblock fun _ =>
      (expect _).keeps.bindCloses hblock fun _ =>
        (keeps_expressionUnless _).bindCloses hblock fun _ =>
          (expect _).keeps.bindCloses hblock fun _ =>
            (rule .statement rfl).bindCloses hblock fun _ => .leaves_block _ _

theorem keeps_labelledStatement : labelledStatement.Keeps strict place := by
  refine advance.keeps.bind fun token => ?_
  split
  · exact (rule _ rfl).bind fun _ => (expect _).keeps.bind fun _ => (rule _ rfl).bind fun _ =>
      pure.keeps
  · exact (expect _).keeps.bind fun _ => (rule _ rfl).bind fun _ => pure.keeps
  · exact (expect _).keeps.bind fun _ => (rule _ rfl).bind fun _ => pure.keeps
  · exact contradictAt.keeps

theorem keeps_selectionStatement : selectionStatement.Keeps strict place := by
  refine advance.keeps.bind fun token => keeps_condition.bind fun _ => (rule _ rfl).bind fun _ => ?_
  split
  · refine (accept _).keeps.bind fun found => ?_
    split
    · exact (rule _ rfl).bind fun _ => pure.keeps
    · exact pure.keeps
  · exact pure.keeps
  · exact contradictAt.keeps

theorem keeps_iterationStatement : iterationStatement.Keeps strict place := by
  refine advance.keeps.bind fun token => ?_
  split
  · exact keeps_condition.bind fun _ => (rule _ rfl).bind fun _ => pure.keeps
  · exact (rule _ rfl).bind fun _ => (expect _).keeps.bind fun _ => keeps_condition.bind fun _ =>
      (expect _).keeps.bind fun _ => pure.keeps
  · exact (restores_forLoop _).keeps
  · exact contradictAt.keeps

theorem keeps_jumpFrom (token : Token) : (jumpFrom token).Keeps strict place := by
  unfold jumpFrom
  split
  · exact expectWord.keeps.bind fun _ => pure.keeps
  · exact pure.keeps
  · exact pure.keeps
  · exact (keeps_expressionUnless _).bind fun _ => pure.keeps
  · exact contradictAt.keeps

theorem keeps_jumpStatement : jumpStatement.Keeps strict place :=
  advance.keeps.bind fun token => (keeps_jumpFrom token).bind fun _ => (expect _).keeps.bind fun _ =>
    pure.keeps

theorem keeps_expressionStatement (position : Position) :
    (expressionStatement position).Keeps strict place :=
  (keeps_expression _).bind fun _ => (expect _).keeps.bind fun _ => pure.keeps

theorem keeps_statement : statement.Keeps strict place := by
  refine peek.keeps.bind fun token => ?_
  split
  · exact restores_block.keeps.bind fun _ => pure.keeps
  · exact advance.keeps.bind fun _ => pure.keeps
  · split
    · exact keeps_selectionStatement
    · exact keeps_iterationStatement
    · exact keeps_jumpStatement
    · exact keeps_labelledStatement
    · exact keeps_expressionStatement _
  · refine (peekNth 1).keeps.bind fun second => ?_
    split
    · exact keeps_labelledStatement
    · exact keeps_expressionStatement _
  · exact keeps_expressionStatement _

theorem keeps_blockItem (token : Token) : (blockItem token).Keeps strict .block := by
  unfold blockItem
  split
  · exact keeps_declarationGroup.bind fun _ => pure.keeps
  · exact keeps_statement

theorem keeps_blockItems : blockItems.Keeps strict .block := by
  refine peek.keeps.bind fun token => ?_
  split
  · exact pure.keeps
  · exact refuse.keeps
  · exact (keeps_blockItem token).bind fun _ => (ruleAt .blockItems).bind fun _ => pure.keeps

/-! ## Functions and units -/

theorem keeps_declareParameters (list : List Parameter) :
    (declareParameters list).Keeps strict .block := by
  induction list with
  | nil => exact pure.keeps
  | cons first others ih =>
      unfold declareParameters
      split
      · exact (declare _ _).bind fun _ => ih
      · exact ih

/-- Of a function, its name is left where it is defined, and nothing of its body. -/
theorem meets_functionDefinition (specifiers : Specifiers) (d : Declarator)
    (hT : strict = true → T.InBlock) :
    (functionDefinition specifiers d).Meets (nesting strict) T fun function U _ =>
      T.InBlock ∧ U = T.declare function.name .ordinary := by
  unfold functionDefinition
  split
  · trivial
  · rename_i name position hname
    split
    · trivial
    · split
      · trivial
      · rename_i list hlist
        have hdeclare : (Script.declare name .ordinary).Meets (nesting strict) T fun _ U _ =>
            T.InBlock ∧ U = T.declare name .ordinary := ⟨hT, fun _ _ h => h⟩
        refine Script.Meets.bind hdeclare ?_
        rintro _ _ _ ⟨hinside, rfl⟩
        refine Script.Meets.bind (expect _ _) ?_
        rintro _ _ _ rfl
        refine ⟨trivial, ?_⟩
        rintro _ _ rfl
        have hblock : strict = true →
          Place.block.Holds ((T.declare name .ordinary).enter .block) := fun _ => rfl
        refine (keeps_declareParameters list).bindCloses hblock (fun _ => ?_) _ (.refl _)
        refine (ruleAt .blockItems).bindCloses hblock fun _ => ?_
        refine (expect _).keeps.bindCloses hblock fun _ => ?_
        refine (Script.Closes.leave_block _ _).mono ?_
        rintro _ _ ⟨rfl, rfl⟩
        exact ⟨hinside, rfl⟩

theorem keeps_functionDefinition (specifiers : Specifiers) (d : Declarator) :
    (functionDefinition specifiers d).Keeps strict .block := by
  intro T hT
  refine (meets_functionDefinition specifiers d hT).mono ?_
  rintro function U _ ⟨hinside, rfl⟩
  exact ⟨SymbolTable.frame_declare hinside _ _, nofun⟩

theorem keeps_externalDeclaration : externalDeclaration.Keeps strict .block := by
  refine keeps_specifiers.bind fun specifiers => (accept _).keeps.bind fun found => ?_
  split
  · exact pure.keeps
  · refine (keeps_declarator _).bind fun d => ?_
    split
    · refine (nextIs _).keeps.bind fun found => ?_
      split
      · exact (keeps_functionDefinition specifiers d).bind fun _ => pure.keeps
      · exact (keeps_groupFrom specifiers d).bind fun _ => pure.keeps
    · exact (keeps_groupFrom specifiers d).bind fun _ => pure.keeps

theorem keeps_externalDeclarations : externalDeclarations.Keeps strict .file := by
  refine peek.keeps.bind fun token => ?_
  split
  · exact pure.keeps
  · exact keeps_externalDeclaration.weaken.bind fun _ =>
      (ruleAt .externalDeclarations).bind fun _ => pure.keeps

end Grammar

/-- The script of every rule keeps the frame. -/
theorem valid_nesting (strict : Bool) : (nesting strict).Valid := by
  suffices h : ∀ f, (Grammar.script f).Keeps strict f.place from fun f T hT => h f T hT
  intro f
  cases f with
  | expression limit => exact Grammar.keeps_expression limit
  | infixTail limit left => exact Grammar.keeps_infixTail limit left
  | postfixTail operand => exact Grammar.keeps_postfixTail operand
  | «arguments» => exact Grammar.keeps_arguments
  | adjacentStrings => exact Grammar.keeps_adjacentStrings
  | typeName => exact Grammar.keeps_typeName
  | specifierTail tally => exact Grammar.keeps_specifierTail tally
  | members => exact Grammar.keeps_members
  | memberDeclarators specifiers => exact Grammar.keeps_memberDeclarators specifiers
  | enumerators => exact Grammar.keeps_enumerators
  | pointerTail => exact Grammar.keeps_pointerTail
  | declarator mode => exact Grammar.keeps_declarator mode
  | suffixes => exact Grammar.keeps_suffixes
  | parameters => exact Grammar.keeps_parameters
  | initializerItems => exact Grammar.keeps_initializerItems
  | initDeclarators specifiers => exact Grammar.keeps_initDeclarators specifiers
  | statement => exact Grammar.keeps_statement
  | blockItems => exact Grammar.keeps_blockItems
  | externalDeclarations => exact Grammar.keeps_externalDeclarations

end CSyntax
