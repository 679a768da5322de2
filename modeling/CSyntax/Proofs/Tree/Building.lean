import CSyntax.Proofs.Expression.Completeness
import CSyntax.Proofs.Run.Faults
import CSyntax.Proofs.Tree.WellFormed

/-!
# Building — rules build well-formed trees

Every node of a finished unit is well formed (`wellFormed_of_parse`), since no rule ever builds
another one.  The contract `building` says what each rule counts on and what it builds:

* `Nonterminal.Begun` — the operand, or the specifiers, that the rule was begun with are well formed;
* `Nonterminal.Built` — what the rule gives is well formed.

Nothing has to be known of the state.  Of the tokens it is enough that their words are identifiers,
which a run has from the freshness of what it is handed.
-/

namespace CSyntax

/-! ## What rules count on and give -/

/-- A storage class is found beside no `typedef`, and the type that was read is well formed. -/
structure SpecifierTally.WellFormed (tally : SpecifierTally) : Prop where
  other : ∀ type ∈ tally.other, type.Everywhere wellFormed
  storage : tally.isTypedef = true → tally.storage = none

structure Specifiers.WellFormed (specifiers : Specifiers) : Prop where
  base : specifiers.base.Everywhere wellFormed
  storage : specifiers.isTypedef = true → specifiers.storage = none

def Declarator.WellFormed (d : Declarator) : Prop :=
  ∀ modifier ∈ d.modifiers, modifier.Everywhere wellFormed

/-- The declaration is one that the specifiers begin. -/
structure Declaration.BegunBy (specifiers : Specifiers) (d : Declaration) : Prop where
  isTypedef : d.isTypedef = specifiers.isTypedef
  storage : d.storage = specifiers.storage
  qualifiers : d.qualifiers = specifiers.qualifiers
  wraps : specifiers.base.Wraps d.type
  bare : specifiers.isTypedef = true → d.initial = none
  everywhere : d.Everywhere wellFormed

namespace Nonterminal

/-- What the rule was begun with is well formed. -/
def Begun : Nonterminal → Prop
  | .infixTail _ left => left.Everywhere wellFormed .operand
  | .postfixTail operand => operand.Everywhere wellFormed .operand
  | .specifierTail tally => tally.WellFormed
  | .memberDeclarators specifiers => specifiers.WellFormed
  | .initDeclarators specifiers => specifiers.WellFormed
  | _ => True

/-- What the rule gives is well formed. -/
def Built : (f : Nonterminal) → f.Result → Prop
  | .expression _, value => value.Everywhere wellFormed .operand
  | .infixTail _ _, value => value.Everywhere wellFormed .operand
  | .postfixTail _, value => value.Everywhere wellFormed .operand
  | .arguments, list => ∀ value ∈ list, value.Everywhere wellFormed .operand
  | .adjacentStrings, _ => True
  | .typeName, type => type.Everywhere wellFormed
  | .specifierTail _, tally => tally.WellFormed
  | .members, list => ∀ member ∈ list, member.type.Everywhere wellFormed
  | .memberDeclarators _, list => ∀ member ∈ list, member.type.Everywhere wellFormed
  | .enumerators, list =>
      ∀ enumerator ∈ list, ∀ value ∈ enumerator.value, value.Everywhere wellFormed .operand
  | .pointerTail, _ => True
  | .declarator _, d => d.WellFormed
  | .suffixes, modifiers => ∀ modifier ∈ modifiers, modifier.Everywhere wellFormed
  | .parameters, list => ∀ parameter ∈ list.1, parameter.type.Everywhere wellFormed
  | .initializerItems, items => ∀ item ∈ items, item.Everywhere wellFormed .initial
  | .initDeclarators specifiers, list => ∀ d ∈ list, d.BegunBy specifiers
  | .statement, s => s.Everywhere wellFormed
  | .blockItems, items => ∀ item ∈ items, item.Everywhere wellFormed
  | .externalDeclarations, list => ∀ d ∈ list, d.Everywhere wellFormed

end Nonterminal

/-- The words of tokens are identifiers, and rules that are begun with well-formed trees build
others. -/
def building : Contract Unit where
  may _ _ := True
  step r _ answer _ := ∀ token, r.handed? answer = some token →
    ∀ name ∈ token.kind.words, Identifier name
  pre f _ := f.Begun
  post f _ result _ _ := f.Built result

namespace Script

variable {α β : Type}

/-- The script gives a value with the property. -/
def Builds (prog : Script α) (P : α → Prop) : Prop :=
  prog.Meets building () fun value _ _ => P value

namespace Builds

variable {P : α → Prop} {Q : β → Prop}

theorem bind {prog : Script α} {next : α → Script β} (h : prog.Builds P)
    (hnext : ∀ value, P value → (next value).Builds Q) : (prog >>= next).Builds Q :=
  Meets.bind h fun value _ _ hvalue => hnext value hvalue

theorem pure {value : α} (h : P value) : (Pure.pure value : Script α).Builds P :=
  h

theorem fail {error : ParseError} : (Script.fail error : Script α).Builds P :=
  trivial

theorem refuse {token : Token} {fault : GrammarFault} :
    (Script.refuse token fault : Script α).Builds P :=
  trivial

theorem contradict {position : Position} {fault : InternalFault} :
    (Script.contradict position fault : Script α).Builds P :=
  trivial

theorem contradictAt {token : Token} {fault : InternalFault} :
    (Script.contradictAt token fault : Script α).Builds P :=
  trivial

/-- A request answers as it may. -/
theorem request {r : Request} {next : r.Answer → Script α}
    (h : ∀ answer, (next answer).Builds P) : (Script.request r next).Builds P :=
  ⟨trivial, fun answer _ _ => h answer⟩

theorem peek : Script.peek.Builds fun token => ∀ name ∈ token.kind.words, Identifier name :=
  ⟨trivial, fun token _ hstep => hstep token rfl⟩

theorem rule {f : Nonterminal} (h : f.Begun) : (Script.rule f).Builds f.Built :=
  ⟨h, fun _ _ _ hpost => hpost⟩

theorem expr (limit : Precedence) : (Script.rule (.expression limit)).Builds fun e =>
    e.Everywhere wellFormed .operand :=
  rule trivial

theorem substatement : (Script.rule .statement).Builds fun s => s.Everywhere wellFormed :=
  rule trivial

/-- A script that reads marks and words alone may be read first. -/
theorem skip {prog : Script α} {next : α → Script β} (h : prog.Builds fun _ => True)
    (hnext : ∀ value, (next value).Builds Q) : (prog >>= next).Builds Q :=
  h.bind fun value _ => hnext value

theorem weaken {P' : α → Prop} {prog : Script α} (h : prog.Builds P)
    (hP : ∀ value, P value → P' value) : prog.Builds P' :=
  h.mono fun value _ _ hvalue => hP value hvalue

/-! ### Single tokens -/

theorem peekNth (n : Nat) : (Script.peekNth n).Builds fun _ => True :=
  request fun _ => pure trivial

theorem advance : Script.advance.Builds fun _ => True :=
  request fun _ => pure trivial

theorem mark : Script.mark.Builds fun _ => True :=
  request fun _ => pure trivial

theorem reset (m : Mark) : (Script.reset m).Builds fun _ => True :=
  request fun _ => pure trivial

theorem release (m : Mark) : (Script.release m).Builds fun _ => True :=
  request fun _ => pure trivial

theorem enter (kind : ScopeKind) : (Script.enter kind).Builds fun _ => True :=
  request fun _ => pure trivial

theorem leave (position : Position) : (Script.leave position).Builds fun _ => True :=
  request fun _ => pure trivial

theorem declare (name : String) (meaning : Meaning) :
    (Script.declare name meaning).Builds fun _ => True :=
  request fun _ => pure trivial

theorem declareEnumerator (name : String) : (Script.declareEnumerator name).Builds fun _ => True :=
  request fun _ => pure trivial

theorem nextIs (kind : TokenKind) : (Script.nextIs kind).Builds fun _ => True :=
  peek.bind fun _ _ => pure trivial

theorem accept (kind : TokenKind) : (Script.accept kind).Builds fun _ => True := by
  refine (nextIs kind).skip fun found => ?_
  split
  · exact advance.skip fun _ => pure trivial
  · exact pure trivial

theorem expect (kind : TokenKind) : (Script.expect kind).Builds fun _ => True := by
  refine peek.bind fun token _ => ?_
  split
  · exact advance
  · exact refuse

theorem expectWord : Script.expectWord.Builds fun _ => True := by
  refine advance.skip fun token => ?_
  split
  · exact pure trivial
  · exact pure trivial
  · exact refuse

theorem acceptWord : Script.acceptWord.Builds fun _ => True := by
  refine peek.bind fun token _ => ?_
  split
  · exact expectWord.skip fun _ => pure trivial
  · exact expectWord.skip fun _ => pure trivial
  · exact pure trivial

theorem here : Script.here.Builds fun _ => True :=
  peek.bind fun _ _ => pure trivial

end Builds
end Script

/-! ## Expressions -/

namespace Grammar

open Script.Builds

theorem builds_primary : primary.Builds fun e => e.Everywhere wellFormed .operand := by
  have leaf : ∀ e : Expr, e.operands = [] → e.types = [] → e.WellFormed .operand →
      e.Everywhere wellFormed .operand := by
    intro e hoperands htypes hnode
    exact .intro hnode (by simp [hoperands]) (by simp [htypes])
  refine peek.bind fun token _ => ?_
  split
  · exact advance.skip fun _ => pure (leaf _ rfl rfl trivial)
  · exact advance.skip fun _ => pure (leaf _ rfl rfl trivial)
  · split
    · exact advance.skip fun _ => pure (leaf _ rfl rfl trivial)
    · exact fail
  · exact advance.skip fun _ => pure (leaf _ rfl rfl trivial)
  · exact advance.skip fun _ => (rule (f := .adjacentStrings) trivial).bind fun _ _ =>
      pure (leaf _ rfl rfl trivial)
  · split
    · exact advance.skip fun _ => (expr _).bind fun value hvalue =>
        (expect _).skip fun _ => pure hvalue
    · exact refuse

theorem builds_adjacentStrings : adjacentStrings.Builds fun _ => True := by
  refine peek.bind fun token _ => ?_
  split
  · exact advance.skip fun _ => (rule (f := .adjacentStrings) trivial).bind fun _ _ => pure trivial
  · exact pure trivial

theorem builds_callArguments :
    callArguments.Builds fun values => ∀ value ∈ values, value.Everywhere wellFormed .operand := by
  refine (accept _).skip fun found => ?_
  split
  · exact pure nofun
  · refine (rule (f := .arguments) trivial).bind fun values hvalues => peek.bind fun token _ => ?_
    split
    · exact advance.skip fun _ => pure hvalues
    · exact refuse

theorem builds_postfixTail {operand : Expr} (h : operand.Everywhere wellFormed .operand) :
    (postfixTail operand).Builds fun e => e.Everywhere wellFormed .operand := by
  have tail : ∀ e : Expr, e.Everywhere wellFormed .operand →
      (Script.rule (.postfixTail e)).Builds fun e => e.Everywhere wellFormed .operand :=
    fun e he => rule he
  -- An operator is put on an operand without changing it.
  have around : ∀ (e : Expr) others, e.operands = operand :: others → e.roleBelow = .operand →
      e.types = [] → e.WellFormed .operand → (∀ o ∈ others, o.Everywhere wellFormed .operand) →
      e.Everywhere wellFormed .operand := by
    intro e others hoperands hrole htypes hnode hothers
    refine .intro hnode ?_ (by simp [htypes])
    rw [hoperands, hrole]
    exact List.forall_mem_cons.2 ⟨h, hothers⟩
  refine peek.bind fun token _ => ?_
  split
  · refine advance.skip fun _ => (expr _).bind fun subscript hsubscript =>
      (expect _).skip fun _ => tail _ (around _ [subscript] rfl rfl rfl trivial ?_)
    exact List.forall_mem_singleton.2 hsubscript
  · exact advance.skip fun _ => builds_callArguments.bind fun values hvalues =>
      tail _ (around _ values rfl rfl rfl trivial hvalues)
  · exact advance.skip fun _ => expectWord.skip fun _ => tail _ (around _ [] rfl rfl rfl trivial nofun)
  · exact advance.skip fun _ => expectWord.skip fun _ => tail _ (around _ [] rfl rfl rfl trivial nofun)
  · exact advance.skip fun _ => tail _ (around _ [] rfl rfl rfl trivial nofun)
  · exact advance.skip fun _ => tail _ (around _ [] rfl rfl rfl trivial nofun)
  · exact pure h

theorem builds_postfixed : postfixed.Builds fun e => e.Everywhere wellFormed .operand :=
  builds_primary.bind fun _ h => builds_postfixTail h

theorem builds_parenthesizedType? :
    parenthesizedType?.Builds fun type? => ∀ type ∈ type?, type.Everywhere wellFormed := by
  refine (nextIs _).skip fun found => ?_
  split
  · refine mark.skip fun m => advance.skip fun _ => peek.bind fun token _ => ?_
    split
    · refine (release m).skip fun _ => (rule (f := .typeName) trivial).bind fun type htype =>
        (expect _).skip fun _ => pure ?_
      rintro _ ⟨⟩
      exact htype
    · exact (reset m).skip fun _ => pure nofun
  · exact pure nofun

theorem builds_unary : unary.Builds fun e => e.Everywhere wellFormed .operand := by
  refine peek.bind fun token _ => ?_
  split
  · refine advance.skip fun _ => builds_parenthesizedType?.bind fun type? htype => ?_
    split
    · exact pure (.intro trivial nofun (List.forall_mem_singleton.2 (htype _ rfl)))
    · exact (expr _).bind fun e he =>
        pure (.intro trivial (List.forall_mem_singleton.2 he) nofun)
  · refine builds_parenthesizedType?.bind fun type? htype => ?_
    split
    · exact (expr _).bind fun e he => pure (.intro trivial (List.forall_mem_singleton.2 he)
        (List.forall_mem_singleton.2 (htype _ rfl)))
    · exact builds_postfixed
  · split
    · exact advance.skip fun _ => (expr _).bind fun e he =>
        pure (.intro trivial (List.forall_mem_singleton.2 he) nofun)
    · exact refuse
  · exact builds_postfixed

/-- The operations that assignments carry out stand in the list. -/
theorem assignable_of_infixOperator? {limit : Precedence} {kind : TokenKind}
    {operator : Option BinaryOperator} (h : infixOperator? limit kind = some (.assign operator)) :
    ∀ op ∈ operator, op ∈ BinaryOperator.assignable := by
  obtain ⟨mark, -, hmark, -⟩ := infixOperator?_eq_some.1 h
  have hall : ∀ x ∈ assignmentMarks, ∀ op ∈ x.2, op ∈ BinaryOperator.assignable := by decide
  exact hall _ (mem_assignmentMarks.2 hmark)

theorem builds_operation {operator : InfixOperator} {left : Expr}
    (hleft : left.Everywhere wellFormed .operand)
    (hoperator : ∀ op, operator = .assign op → ∀ o ∈ op, o ∈ BinaryOperator.assignable) :
    (operation operator left).Builds fun e => e.Everywhere wellFormed .operand := by
  have both : ∀ {value : Expr}, value.Everywhere wellFormed .operand →
      ∀ e ∈ [left, value], e.Everywhere wellFormed .operand :=
    fun hvalue => List.forall_mem_cons.2 ⟨hleft, List.forall_mem_singleton.2 hvalue⟩
  cases operator with
  | binary op =>
      exact (expr _).bind fun value hvalue => pure (.intro trivial (both hvalue) nofun)
  | assign op =>
      exact (expr _).bind fun value hvalue => pure (.intro (hoperator op rfl) (both hvalue) nofun)
  | conditional =>
      refine (expr _).bind fun whenTrue htrue => (expect _).skip fun _ =>
        (expr _).bind fun whenFalse hfalse => pure (.intro trivial ?_ nofun)
      exact List.forall_mem_cons.2 ⟨hleft, List.forall_mem_cons.2 ⟨htrue,
        List.forall_mem_singleton.2 hfalse⟩⟩

theorem builds_infixTail (limit : Precedence) {left : Expr}
    (hleft : left.Everywhere wellFormed .operand) :
    (infixTail limit left).Builds fun e => e.Everywhere wellFormed .operand := by
  rw [infixTail_eq]
  refine peek.bind fun token _ => ?_
  split
  · rename_i operator hoperator
    refine advance.skip fun _ => (builds_operation hleft ?_).bind fun value hvalue => rule hvalue
    rintro op rfl
    exact assignable_of_infixOperator? hoperator
  · exact pure hleft

theorem builds_expression (limit : Precedence) :
    (expression limit).Builds fun e => e.Everywhere wellFormed .operand :=
  builds_unary.bind fun _ h => builds_infixTail limit h

theorem builds_arguments :
    arguments.Builds fun values => ∀ value ∈ values, value.Everywhere wellFormed .operand := by
  refine (builds_expression _).bind fun first hfirst => (accept _).skip fun found => ?_
  split
  · exact (rule (f := .arguments) trivial).bind fun others hothers =>
      pure (List.forall_mem_cons.2 ⟨hfirst, hothers⟩)
  · exact pure (List.forall_mem_singleton.2 hfirst)

/-! ## Declarators -/

theorem builds_pointerTail : pointerTail.Builds fun _ => True := by
  refine peek.bind fun token _ => ?_
  split
  · exact advance.skip fun _ => (rule (f := .pointerTail) trivial).bind fun _ _ => pure trivial
  · exact advance.skip fun _ => rule (f := .pointerTail) trivial
  · exact advance.skip fun _ => rule (f := .pointerTail) trivial
  · exact pure trivial

theorem builds_pointers : pointers.Builds fun _ => True := by
  refine (accept _).skip fun found => ?_
  split
  · exact (rule (f := .pointerTail) trivial).bind fun _ _ => pure trivial
  · exact pure trivial

theorem builds_parameterList : parameterList.Builds fun list =>
    ∀ parameter ∈ list.1, parameter.type.Everywhere wellFormed := by
  have isVoid : parameterList.isVoid.Builds fun _ => True := by
    refine (nextIs _).skip fun found => ?_
    split
    · exact (peekNth 1).skip fun _ => pure trivial
    · exact pure trivial
  have unlessClosed : parameterList.parametersUnlessClosed.Builds fun list =>
      ∀ parameter ∈ list.1, parameter.type.Everywhere wellFormed := by
    refine (nextIs _).skip fun found => ?_
    split
    · exact pure nofun
    · exact rule (f := .parameters) trivial
  refine isVoid.skip fun found => ?_
  split
  · exact advance.skip fun _ => advance.skip fun _ => pure nofun
  · exact (enter _).skip fun _ => unlessClosed.bind fun list hlist => (expect _).skip fun close =>
      (leave _).skip fun _ => pure hlist

theorem builds_suffixes :
    suffixes.Builds fun modifiers => ∀ modifier ∈ modifiers, modifier.Everywhere wellFormed := by
  have more : ∀ {α : Type} {P : α → Prop} {k : List TypeModifier → Script α},
      (∀ modifiers, (∀ m ∈ modifiers, m.Everywhere wellFormed) → (k modifiers).Builds P) →
      (Script.rule .suffixes >>= k).Builds P :=
    fun hk => (rule (f := .suffixes) trivial).bind hk
  refine (accept _).skip fun found => ?_
  split
  · refine (accept _).skip fun closed => ?_
    split
    · exact more fun modifiers h => pure (List.forall_mem_cons.2 ⟨.array nofun, h⟩)
    · refine (expr _).bind fun size hsize => (expect _).skip fun _ =>
        more fun modifiers h => pure (List.forall_mem_cons.2 ⟨.array ?_, h⟩)
      rintro _ ⟨⟩
      exact hsize
  · refine (accept _).skip fun found => ?_
    split
    · exact builds_parameterList.bind fun list hlist => more fun modifiers h =>
        pure (List.forall_mem_cons.2 ⟨.function hlist, h⟩)
    · exact pure nofun

theorem builds_opensDeclarator (mode : DeclaratorMode) :
    (opensDeclarator mode).Builds fun _ => True := by
  have looked : ∀ k : Token → Script Bool, (∀ token, (k token).Builds fun _ => True) →
      (Script.peekNth 1 >>= k).Builds fun _ => True := fun k hk => (peekNth 1).skip hk
  cases mode with
  | named => exact pure trivial
  | nameless => exact looked _ fun token => by split <;> exact pure trivial
  | either => exact looked _ fun token => by split <;> exact pure trivial

theorem builds_declaratorCore (mode : DeclaratorMode) :
    (declaratorCore mode).Builds Declarator.WellFormed := by
  have none : ∀ name, Declarator.WellFormed { name := name, modifiers := [] } := fun _ => nofun
  refine peek.bind fun token _ => ?_
  split
  · split
    · exact pure (none _)
    · exact advance.skip fun _ => pure (none _)
  · split
    · exact pure (none _)
    · exact advance.skip fun _ => pure (none _)
  · refine (builds_opensDeclarator mode).skip fun nested => ?_
    split
    · exact advance.skip fun _ => (rule (f := .declarator mode) trivial).bind fun d hd =>
        (expect _).skip fun _ => pure hd
    · exact pure (none _)
  · split
    · exact refuse
    · exact pure (none _)

theorem builds_declarator (mode : DeclaratorMode) :
    (declarator mode).Builds Declarator.WellFormed := by
  refine builds_pointers.skip fun count => (builds_declaratorCore mode).bind fun core hcore =>
    builds_suffixes.bind fun after hafter => pure ?_
  intro modifier hmodifier
  rcases List.mem_append.1 hmodifier with hmodifier | hinner
  · rcases List.mem_append.1 hmodifier with hpointer | hsuffix
    · rw [List.eq_of_mem_replicate hpointer]
      exact .pointer
    · exact hafter modifier (List.mem_reverse.1 hsuffix)
  · exact hcore modifier hinner

/-! ## Specifiers, parameters and members -/

theorem builds_requireTag (tag : Option String) :
    (requireTag tag).Builds fun _ => tag ≠ none := by
  cases tag with
  | some _ => exact pure (by simp)
  | none => exact peek.bind fun _ _ => refuse

theorem builds_record (kind : RecordKind) :
    (record kind).Builds fun type => type.Everywhere wellFormed := by
  refine acceptWord.skip fun tag => (accept _).skip fun found => ?_
  split
  · refine (enter _).skip fun _ => (rule (f := .members) trivial).bind fun members hmembers =>
      (expect _).skip fun close => (leave _).skip fun _ => pure (.intro (fun _ => rfl) ?_ nofun)
    exact List.forall_mem_map.2 hmembers
  · refine (builds_requireTag tag).bind fun _ htag => pure (.intro ?_ nofun nofun)
    exact fun hnone => absurd hnone htag

theorem builds_recordType : recordType.Builds fun type => type.Everywhere wellFormed := by
  refine advance.skip fun token => ?_
  split
  · exact builds_record _
  · exact builds_record _
  · exact contradictAt

theorem builds_enumeration : enumeration.Builds fun type => type.Everywhere wellFormed := by
  refine acceptWord.skip fun tag => (accept _).skip fun found => ?_
  split
  · refine (rule (f := .enumerators) trivial).bind fun enumerators henumerators =>
      (expect _).skip fun _ => pure (.intro (fun _ => rfl) nofun ?_)
    intro value hvalue
    obtain ⟨enumerator, hmem, hsome⟩ := List.mem_filterMap.1 hvalue
    exact henumerators enumerator hmem value hsome
  · refine (builds_requireTag tag).bind fun _ htag => pure (.intro ?_ nofun nofun)
    exact fun hnone => absurd hnone htag

theorem builds_enumerationType : enumerationType.Builds fun type => type.Everywhere wellFormed :=
  (expect _).skip fun _ => builds_enumeration

theorem builds_enumerator : enumerator.Builds fun enumerator =>
    ∀ value ∈ enumerator.value, value.Everywhere wellFormed .operand := by
  refine expectWord.skip fun name => (declareEnumerator name).skip fun _ =>
    (accept _).skip fun found => ?_
  split
  · refine (expr _).bind fun value hvalue => pure ?_
    rintro _ ⟨⟩
    exact hvalue
  · exact pure nofun

theorem builds_enumerators : enumerators.Builds fun enumerators =>
    ∀ enumerator ∈ enumerators, ∀ value ∈ enumerator.value, value.Everywhere wellFormed .operand := by
  refine (nextIs _).skip fun closed => ?_
  split
  · exact pure nofun
  · refine builds_enumerator.bind fun first hfirst => (accept _).skip fun found => ?_
    split
    · exact (rule (f := .enumerators) trivial).bind fun others hothers =>
        pure (List.forall_mem_cons.2 ⟨hfirst, hothers⟩)
    · exact pure (List.forall_mem_singleton.2 hfirst)

theorem builds_typeWord {tally : SpecifierTally} (h : tally.WellFormed) (token : Token)
    (word : Keyword) : (typeWord tally token word).Builds SpecifierTally.WellFormed := by
  unfold typeWord
  split
  · exact refuse
  · refine advance.skip fun _ => ?_
    split
    · split
      · exact pure ⟨h.other, h.storage⟩
      · exact refuse
    · exact contradictAt

theorem builds_taggedType {tally : SpecifierTally} (h : tally.WellFormed) (token : Token)
    (word : Keyword) : (taggedType tally token word).Builds SpecifierTally.WellFormed := by
  have read : ∀ type : CType, type.Everywhere wellFormed →
      SpecifierTally.WellFormed { tally with other := some type } := by
    refine fun type htype => ⟨?_, h.storage⟩
    rintro _ ⟨⟩
    exact htype
  unfold taggedType
  split
  · exact refuse
  · split
    · exact builds_enumerationType.bind fun type htype => pure (read type htype)
    · exact builds_recordType.bind fun type htype => pure (read type htype)

/-- A storage class is added where there is none yet. -/
theorem wellFormed_addModifier {tally : SpecifierTally} (h : tally.WellFormed) {word : Keyword}
    (hword : word.isStorageClass = true → tally.hasStorageClass = false) :
    (tally.addModifier word).WellFormed := by
  refine ⟨by simpa using h.other, ?_⟩
  have hstorage := h.storage
  cases word <;> simp_all [SpecifierTally.addModifier, SpecifierTally.hasStorageClass,
    Keyword.isStorageClass]

theorem builds_specifier {tally : SpecifierTally} (h : tally.WellFormed) :
    (specifier tally).Builds fun next => ∀ t ∈ next, t.WellFormed := by
  have some : ∀ {t : SpecifierTally}, t.WellFormed → ∀ u ∈ some t, u.WellFormed := by
    rintro t ht _ ⟨⟩
    exact ht
  refine peek.bind fun token htoken => ?_
  split
  · split
    · split
      · exact refuse
      · rename_i hclass hnone
        refine advance.skip fun _ => pure (some (wellFormed_addModifier h fun _ => ?_))
        simpa using hnone
    · rename_i hclass
      split
      · exact advance.skip fun _ => pure (some (wellFormed_addModifier h fun hword =>
          absurd hword hclass))
      · split
        · exact (builds_typeWord h _ _).bind fun t ht => pure (some ht)
        · split
          · exact (builds_taggedType h _ _).bind fun t ht => pure (some ht)
          · exact pure nofun
  · rename_i name hkind
    split
    · exact pure nofun
    · refine advance.skip fun _ => pure (some ⟨?_, h.storage⟩)
      rintro _ ⟨⟩
      -- A type name is an identifier, as all words of tokens are.
      exact .intro (Or.inr (htoken name (by simp [hkind, TokenKind.words]))) nofun nofun
  · exact pure nofun

theorem builds_specifierTail {tally : SpecifierTally} (h : tally.WellFormed) :
    (specifierTail tally).Builds SpecifierTally.WellFormed := by
  refine (builds_specifier h).bind fun next hnext => ?_
  split
  · rename_i t
    exact rule (f := .specifierTail t) (hnext t rfl)
  · exact pure h

theorem builds_specifiers : specifiers.Builds Specifiers.WellFormed := by
  have hempty : SpecifierTally.WellFormed .empty := ⟨fun _ htype => (by cases htype), fun _ => rfl⟩
  refine here.skip fun position => (builds_specifierTail hempty).bind fun tally htally => ?_
  split
  · rename_i base hbase
    refine pure ⟨?_, htally.storage⟩
    -- The base is the type that was read, or is spelled by the words that were.
    unfold SpecifierTally.type? at hbase
    split at hbase
    · rename_i type hother
      obtain rfl := Option.some.inj hbase
      exact htally.other _ hother
    · obtain ⟨name, hname, rfl⟩ := Option.map_eq_some_iff.1 hbase
      exact .intro (Or.inl (ArithmeticType.mem_spellings hname)) (List.forall_mem_nil _)
        (List.forall_mem_nil _)
  · exact peek.bind fun _ _ => refuse

theorem everywhere_type {specifiers : Specifiers} {d : Declarator} (h : specifiers.WellFormed)
    (hd : d.WellFormed) : (d.type specifiers.base).Everywhere wellFormed :=
  h.base.wrap allowWrapping_wellFormed hd

theorem builds_typeName : typeName.Builds fun type => type.Everywhere wellFormed :=
  builds_specifiers.bind fun _ h => (builds_declarator _).bind fun _ hd => pure (everywhere_type h hd)

theorem builds_parameter : parameter.Builds fun p => p.type.Everywhere wellFormed := by
  refine here.skip fun position => builds_specifiers.bind fun specifiers h =>
    (builds_declarator _).bind fun d hd => ?_
  dsimp only
  split
  · exact (declare _ _).skip fun _ => pure (everywhere_type h hd)
  · exact pure (everywhere_type h hd)

theorem builds_parameters : parameters.Builds fun list =>
    ∀ parameter ∈ list.1, parameter.type.Everywhere wellFormed := by
  refine (accept _).skip fun found => ?_
  split
  · exact pure nofun
  · refine builds_parameter.bind fun first hfirst => (accept _).skip fun found => ?_
    split
    · exact (rule (f := .parameters) trivial).bind fun list hlist =>
        pure (List.forall_mem_cons.2 ⟨hfirst, hlist⟩)
    · exact pure (List.forall_mem_singleton.2 hfirst)

theorem builds_memberDeclarators {specifiers : Specifiers} (h : specifiers.WellFormed) :
    (memberDeclarators specifiers).Builds fun members =>
      ∀ member ∈ members, member.type.Everywhere wellFormed := by
  refine (builds_declarator _).bind fun d hd => ?_
  split
  · exact contradict
  · refine (accept _).skip fun found => ?_
    split
    · exact (rule (f := .memberDeclarators specifiers) h).bind fun others hothers =>
        pure (List.forall_mem_cons.2 ⟨everywhere_type h hd, hothers⟩)
    · exact pure (List.forall_mem_singleton.2 (everywhere_type h hd))

theorem builds_memberDeclaration : memberDeclaration.Builds fun members =>
    ∀ member ∈ members, member.type.Everywhere wellFormed := by
  refine builds_specifiers.bind fun specifiers h => ?_
  split
  · exact fail
  · refine (rule (f := .memberDeclarators specifiers) h).bind fun members hmembers =>
      peek.bind fun token _ => ?_
    split
    · exact advance.skip fun _ => pure hmembers
    · exact refuse

theorem builds_members : members.Builds fun members =>
    ∀ member ∈ members, member.type.Everywhere wellFormed := by
  refine (nextIs _).skip fun closed => ?_
  split
  · exact pure nofun
  · exact builds_memberDeclaration.bind fun first hfirst =>
      (rule (f := .members) trivial).bind fun others hothers =>
        pure (List.forall_mem_append.2 ⟨hfirst, hothers⟩)

/-! ## Declarations -/

theorem builds_initialValue :
    initialValue.Builds fun e => e.Everywhere wellFormed .initial := by
  refine here.skip fun position => (accept _).skip fun found => ?_
  split
  · exact (rule (f := .initializerItems) trivial).bind fun items hitems => (expect _).skip fun _ =>
      pure (.intro rfl hitems nofun)
  · exact (builds_expression _).weaken fun _ he => he.initial

theorem builds_initializerItems : initializerItems.Builds fun items =>
    ∀ item ∈ items, item.Everywhere wellFormed .initial := by
  refine (nextIs _).skip fun closed => ?_
  split
  · exact pure nofun
  · refine builds_initialValue.bind fun first hfirst => (accept _).skip fun found => ?_
    split
    · exact (rule (f := .initializerItems) trivial).bind fun others hothers =>
        pure (List.forall_mem_cons.2 ⟨hfirst, hothers⟩)
    · exact pure (List.forall_mem_singleton.2 hfirst)

theorem builds_initial? (specifiers : Specifiers) :
    (initial? specifiers).Builds fun initial =>
      (specifiers.isTypedef = true → initial = none) ∧
        ∀ e ∈ initial, e.Everywhere wellFormed .initial := by
  unfold initial?
  split
  · exact pure ⟨fun _ => rfl, nofun⟩
  · rename_i hnot
    refine (accept _).skip fun found => ?_
    split
    · refine builds_initialValue.bind fun e he => pure ⟨fun htypedef => absurd htypedef hnot, ?_⟩
      rintro _ ⟨⟩
      exact he
    · exact pure ⟨fun _ => rfl, nofun⟩

theorem builds_initDeclarator {specifiers : Specifiers} (h : specifiers.WellFormed)
    {d : Declarator} (hd : d.WellFormed) :
    (initDeclarator specifiers d).Builds fun declaration => declaration.BegunBy specifiers := by
  unfold initDeclarator
  split
  · exact contradict
  · refine (declare _ _).skip fun _ => (builds_initial? specifiers).bind fun initial hinitial =>
      pure ?_
    exact { isTypedef := rfl, storage := rfl, qualifiers := rfl, wraps := d.wraps _,
            bare := hinitial.1, everywhere := ⟨everywhere_type h hd, hinitial.2⟩ }

theorem builds_declarations {specifiers : Specifiers} (h : specifiers.WellFormed)
    {d : Declarator} (hd : d.WellFormed) :
    (declarations specifiers d).Builds fun list => ∀ d ∈ list, d.BegunBy specifiers := by
  refine (builds_initDeclarator h hd).bind fun first hfirst => (accept _).skip fun found => ?_
  split
  · exact (rule (f := .initDeclarators specifiers) h).bind fun others hothers =>
      pure (List.forall_mem_cons.2 ⟨hfirst, hothers⟩)
  · exact pure (List.forall_mem_singleton.2 hfirst)

theorem builds_initDeclarators {specifiers : Specifiers} (h : specifiers.WellFormed) :
    (initDeclarators specifiers).Builds fun list => ∀ d ∈ list, d.BegunBy specifiers :=
  (builds_declarator _).bind fun _ hd => builds_declarations h hd

/-- Declarations that one list of specifiers begins agree with each other. -/
theorem everywhere_group {specifiers : Specifiers} {list : List Declaration}
    (h : specifiers.WellFormed) (hlist : ∀ d ∈ list, d.BegunBy specifiers) (position : Position) :
    DeclarationGroup.Everywhere wellFormed
      { base := specifiers.base, declarations := list, position := position } := by
  refine ⟨⟨?_, ?_, ?_⟩, h.base, fun d hd => (hlist d hd).everywhere⟩
  · intro d hd d' hd'
    have hbegun := hlist d hd
    have hbegun' := hlist d' hd'
    exact ⟨hbegun.isTypedef.trans hbegun'.isTypedef.symm, hbegun.storage.trans hbegun'.storage.symm,
      hbegun.qualifiers.trans hbegun'.qualifiers.symm⟩
  · exact fun d hd => (hlist d hd).wraps
  · intro d hd htypedef
    have hbegun := hlist d hd
    have hspecified : specifiers.isTypedef = true := hbegun.isTypedef ▸ htypedef
    exact ⟨hbegun.bare hspecified, hbegun.storage.trans (h.storage hspecified)⟩

theorem builds_groupFrom {specifiers : Specifiers} (h : specifiers.WellFormed) {d : Declarator}
    (hd : d.WellFormed) :
    (groupFrom specifiers d).Builds fun group => group.Everywhere wellFormed :=
  (builds_declarations h hd).bind fun _ hlist => (expect _).skip fun _ =>
    pure (everywhere_group h hlist _)

theorem builds_declarationGroup :
    declarationGroup.Builds fun group => group.Everywhere wellFormed := by
  refine builds_specifiers.bind fun specifiers h => (accept _).skip fun found => ?_
  split
  · exact pure (everywhere_group h (List.forall_mem_nil _) _)
  · exact (builds_declarator _).bind fun _ hd => builds_groupFrom h hd

/-! ## Statements -/

theorem builds_condition : condition.Builds fun e => e.Everywhere wellFormed .operand :=
  (expect _).skip fun _ => (expr _).bind fun _ h =>
    (expect _).skip fun _ => pure h

theorem builds_expressionUnless (mark : Punctuator) : (expressionUnless mark).Builds fun value =>
    ∀ e ∈ value, e.Everywhere wellFormed .operand := by
  refine (nextIs _).skip fun found => ?_
  split
  · exact pure nofun
  · refine (builds_expression _).bind fun e he => pure ?_
    rintro _ ⟨⟩
    exact he

theorem builds_block : block.Builds fun items => ∀ item ∈ items, item.Everywhere wellFormed :=
  (expect _).skip fun _ => (enter _).skip fun _ => (rule (f := .blockItems) trivial).bind fun _ h =>
    (expect _).skip fun _ => (leave _).skip fun _ => pure h

/-- What is known of the start of a loop. -/
def Starts : ForStart → Prop
  | .declaration group => group.Everywhere wellFormed
  | .expression value => value.Everywhere wellFormed .operand

theorem builds_forStart : forStart.Builds fun start => ∀ s ∈ start, Starts s := by
  refine (accept _).skip fun found => ?_
  split
  · exact pure nofun
  · refine peek.bind fun token _ => ?_
    split
    · refine builds_declarationGroup.bind fun group h => pure ?_
      rintro _ ⟨⟩
      exact h
    · refine (builds_expression _).bind fun value h => (expect _).skip fun _ => pure ?_
      rintro _ ⟨⟩
      exact h

theorem builds_forLoop (position : Position) :
    (forLoop position).Builds fun s => s.Everywhere wellFormed := by
  refine (expect _).skip fun _ => (enter _).skip fun _ => builds_forStart.bind fun start hstart =>
    (builds_expressionUnless _).bind fun condition hcondition => (expect _).skip fun _ =>
      (builds_expressionUnless _).bind fun step hstep => (expect _).skip fun _ =>
        substatement.bind fun body hbody => (leave _).skip fun _ => pure ?_
  have hexprs : ∀ e ∈ condition.toList ++ step.toList, e.Everywhere wellFormed .operand := by
    refine List.forall_mem_append.2 ⟨?_, ?_⟩
    · simpa using hcondition
    · simpa using hstep
  have hbodies : ∀ t ∈ [body], t.Everywhere wellFormed := List.forall_mem_singleton.2 hbody
  rcases start with _ | group | value
  · exact .intro trivial hexprs nofun hbodies
  · exact .intro trivial hexprs (List.forall_mem_singleton.2 (hstart _ rfl)) hbodies
  · exact .intro trivial (List.forall_mem_cons.2 ⟨hstart _ rfl, hexprs⟩) nofun hbodies

theorem builds_expressionStatement (position : Position) :
    (expressionStatement position).Builds fun s => s.Everywhere wellFormed :=
  (builds_expression _).bind fun _ h => (expect _).skip fun _ =>
    pure (.intro trivial (List.forall_mem_singleton.2 h) nofun nofun)

theorem builds_labelledStatement : labelledStatement.Builds fun s => s.Everywhere wellFormed := by
  refine advance.skip fun token => ?_
  split
  · exact (expr _).bind fun value hvalue => (expect _).skip fun _ => substatement.bind fun s hs =>
      pure (.intro trivial (List.forall_mem_singleton.2 hvalue) nofun
        (List.forall_mem_singleton.2 hs))
  · exact (expect _).skip fun _ => substatement.bind fun s hs =>
      pure (.intro trivial nofun nofun (List.forall_mem_singleton.2 hs))
  · exact (expect _).skip fun _ => substatement.bind fun s hs =>
      pure (.intro trivial nofun nofun (List.forall_mem_singleton.2 hs))
  · exact contradictAt

theorem builds_selectionStatement :
    selectionStatement.Builds fun s => s.Everywhere wellFormed := by
  refine advance.skip fun token => builds_condition.bind fun condition hcondition =>
    substatement.bind fun s hs => ?_
  have hexprs : ∀ e ∈ [condition], e.Everywhere wellFormed .operand :=
    List.forall_mem_singleton.2 hcondition
  split
  · refine (accept _).skip fun found => ?_
    split
    · refine substatement.bind fun otherwise hotherwise => pure (.intro trivial hexprs nofun ?_)
      exact List.forall_mem_cons.2 ⟨hs, List.forall_mem_singleton.2 hotherwise⟩
    · exact pure (.intro trivial hexprs nofun (List.forall_mem_singleton.2 hs))
  · exact pure (.intro trivial hexprs nofun (List.forall_mem_singleton.2 hs))
  · exact contradictAt

theorem builds_iterationStatement :
    iterationStatement.Builds fun s => s.Everywhere wellFormed := by
  refine advance.skip fun token => ?_
  split
  · refine builds_condition.bind fun condition hcondition => substatement.bind fun s hs => pure ?_
    exact .intro trivial (List.forall_mem_singleton.2 hcondition) nofun
      (List.forall_mem_singleton.2 hs)
  · refine substatement.bind fun s hs => (expect _).skip fun _ => builds_condition.bind fun condition
      hcondition => (expect _).skip fun _ => pure ?_
    exact .intro trivial (List.forall_mem_singleton.2 hcondition) nofun
      (List.forall_mem_singleton.2 hs)
  · exact builds_forLoop _
  · exact contradictAt

theorem builds_jumpFrom (token : Token) :
    (jumpFrom token).Builds fun s => s.Everywhere wellFormed := by
  unfold jumpFrom
  split
  · exact expectWord.skip fun _ => pure (.intro trivial nofun nofun nofun)
  · exact pure (.intro trivial nofun nofun nofun)
  · exact pure (.intro trivial nofun nofun nofun)
  · exact (builds_expressionUnless _).bind fun value hvalue =>
      pure (.intro trivial (by simpa [Statement.exprs] using hvalue) nofun nofun)
  · exact contradictAt

theorem builds_jumpStatement : jumpStatement.Builds fun s => s.Everywhere wellFormed :=
  advance.skip fun token => (builds_jumpFrom token).bind fun _ hjump =>
    (expect _).skip fun _ => pure hjump

theorem builds_statement : statement.Builds fun s => s.Everywhere wellFormed := by
  refine peek.bind fun token _ => ?_
  split
  · exact builds_block.bind fun items hitems => pure (.intro trivial nofun nofun hitems)
  · exact advance.skip fun _ => pure (.intro trivial nofun nofun nofun)
  · split
    · exact builds_selectionStatement
    · exact builds_iterationStatement
    · exact builds_jumpStatement
    · exact builds_labelledStatement
    · exact builds_expressionStatement _
  · refine (peekNth 1).skip fun second => ?_
    split
    · exact builds_labelledStatement
    · exact builds_expressionStatement _
  · exact builds_expressionStatement _

theorem builds_blockItem (token : Token) :
    (blockItem token).Builds fun s => s.Everywhere wellFormed := by
  unfold blockItem
  split
  · exact builds_declarationGroup.bind fun group h =>
      pure (.intro trivial nofun (List.forall_mem_singleton.2 h) nofun)
  · exact builds_statement

theorem builds_blockItems :
    blockItems.Builds fun items => ∀ item ∈ items, item.Everywhere wellFormed := by
  refine peek.bind fun token _ => ?_
  split
  · exact pure nofun
  · exact refuse
  · exact (builds_blockItem token).bind fun first hfirst =>
      (rule (f := .blockItems) trivial).bind fun others hothers =>
        pure (List.forall_mem_cons.2 ⟨hfirst, hothers⟩)

/-! ## Functions and units -/

theorem builds_declareParameters (list : List Parameter) :
    (declareParameters list).Builds fun _ => True := by
  induction list with
  | nil => exact pure trivial
  | cons first others ih =>
      unfold declareParameters
      split
      · exact (declare _ _).skip fun _ => ih
      · exact ih

/-- The parameters of a declarator's function stand in one of its wrappings. -/
theorem everywhere_parameters {d : Declarator} (hd : d.WellFormed) {list : List Parameter}
    (hlist : d.parameters? = some list) : ∀ p ∈ list, p.type.Everywhere wellFormed := by
  unfold Declarator.parameters? at hlist
  split at hlist
  · rename_i variadic hlast
    obtain rfl := Option.some.inj hlist
    cases hd _ (List.mem_of_getLast? hlast) with
    | function h => exact h
  · cases hlist

theorem builds_functionDefinition {specifiers : Specifiers} (h : specifiers.WellFormed)
    {d : Declarator} (hd : d.WellFormed) :
    (functionDefinition specifiers d).Builds fun f => f.Everywhere wellFormed := by
  unfold functionDefinition
  split
  · exact contradict
  · split
    · exact fail
    · split
      · exact contradict
      · rename_i list hlist
        refine (declare _ _).skip fun _ => (expect _).skip fun _ => (enter _).skip fun _ =>
          (builds_declareParameters list).skip fun _ =>
            (rule (f := .blockItems) trivial).bind fun body hbody => (expect _).skip fun close =>
              (leave _).skip fun _ => pure ?_
        exact { node := Declarator.type_of_parameters? hlist specifiers.base,
                type := everywhere_type h hd, parameters := everywhere_parameters hd hlist,
                body := hbody }

theorem builds_externalDeclaration :
    externalDeclaration.Builds fun d => d.Everywhere wellFormed := by
  refine builds_specifiers.bind fun specifiers h => (accept _).skip fun found => ?_
  split
  · exact pure (everywhere_group h (List.forall_mem_nil _) _)
  · refine (builds_declarator _).bind fun d hd => ?_
    split
    · refine (nextIs _).skip fun found => ?_
      split
      · exact (builds_functionDefinition h hd).bind fun _ hf => pure hf
      · exact (builds_groupFrom h hd).bind fun _ hgroup => pure hgroup
    · exact (builds_groupFrom h hd).bind fun _ hgroup => pure hgroup

theorem builds_externalDeclarations :
    externalDeclarations.Builds fun list => ∀ d ∈ list, d.Everywhere wellFormed := by
  refine peek.bind fun token _ => ?_
  split
  · exact pure nofun
  · exact builds_externalDeclaration.bind fun first hfirst =>
      (rule (f := .externalDeclarations) trivial).bind fun others hothers =>
        pure (List.forall_mem_cons.2 ⟨hfirst, hothers⟩)

end Grammar

/-- Every rule builds well-formed trees from well-formed ones. -/
theorem valid_building : building.Valid := by
  rintro f ⟨⟩ hbegun
  cases f with
  | expression limit => exact Grammar.builds_expression limit
  | infixTail limit left => exact Grammar.builds_infixTail limit hbegun
  | postfixTail operand => exact Grammar.builds_postfixTail hbegun
  | «arguments» => exact Grammar.builds_arguments
  | adjacentStrings => exact Grammar.builds_adjacentStrings
  | typeName => exact Grammar.builds_typeName
  | specifierTail tally => exact Grammar.builds_specifierTail hbegun
  | members => exact Grammar.builds_members
  | memberDeclarators specifiers => exact Grammar.builds_memberDeclarators hbegun
  | enumerators => exact Grammar.builds_enumerators
  | pointerTail => exact Grammar.builds_pointerTail
  | declarator mode => exact Grammar.builds_declarator mode
  | suffixes => exact Grammar.builds_suffixes
  | parameters => exact Grammar.builds_parameters
  | initializerItems => exact Grammar.builds_initializerItems
  | initDeclarators specifiers => exact Grammar.builds_initDeclarators hbegun
  | statement => exact Grammar.builds_statement
  | blockItems => exact Grammar.builds_blockItems
  | externalDeclarations => exact Grammar.builds_externalDeclarations

/-! ## Units -/

/-- Every node of a unit is well formed, at any depth. -/
theorem wellFormed_of_parse {text : String} {file : Option String} {unit : TranslationUnit}
    (h : parse text file = .ok unit) : unit.Everywhere wellFormed := by
  obtain ⟨t, hrun⟩ := Parser.runUnit_of_parse h
  have hmodels : building.Models (fun _ => ()) (fun _ => True) (Parser.events text file) := by
    intro r s hmem _ _ answer t hperform
    refine ⟨trivial, fun token hhanded name hname => ?_⟩
    have hfresh := (Parser.handed_fresh hmem).1 answer t token hperform hhanded
    exact hfresh.identifier (Parser.lawful_events text file r s hmem).sound.table hname
  exact ((Contract.sound valid_building trivial (f := .externalDeclarations) trivial hmodels).2 _ _
    hrun).2

/-- A function that returns a pointer to a function, with members, lists and a `typedef` around. -/
def handlerText : String :=
  "typedef unsigned long size; struct point { int x, y; } *const origin = { 0, { 1, 2 } };
static int (*handler(size n, char))(int) { n += sizeof (size); return 0; }"

theorem wellFormed_of_parse_handlerText :
    ∃ unit, parse handlerText none = .ok unit ∧ unit.functions.length = 1 ∧
      unit.Everywhere wellFormed := by
  have hparses : (parse handlerText none).toOption.map (·.functions.length) = some 1 := by
    decide +kernel
  rcases hparse : parse handlerText none with error | unit
  · simp [hparse, Except.toOption] at hparses
  · refine ⟨unit, rfl, by simpa [hparse, Except.toOption] using hparses, ?_⟩
    exact wellFormed_of_parse hparse

end CSyntax
