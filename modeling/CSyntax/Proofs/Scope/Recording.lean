import CSyntax.Proofs.Expression.Operators
import CSyntax.Proofs.Scope.Entries
import CSyntax.Proofs.Scope.Restoration

/-!
# Recording — the innermost block holds what the tree declares there

The parser binds words as it reads, and in the end hands out a tree.  The contract `recording` adds
to `nesting` that a rule binds in the innermost block what its result declares there, and nothing
else: expressions and types their enumeration constants, declarations their entries.

* `SymbolTable.block` — the bindings of the innermost block;
* `SymbolTable.Records`, `SymbolTable.Gains` — what has been bound there between two tables;
* `valid_recording` — the scripts of all rules keep the contract;
* `Parser.typedefs_agree` — the file scope at the end of a unit and the aliases of its tree.
-/

namespace CSyntax

variable {α β : Type} {S T U V W : SymbolTable} {names others : List String}
  {entries : List Entry}

/-! ## The innermost block -/

namespace SymbolTable

/-- The bindings of the innermost block, beyond the bodies of records that are open. -/
def block (table : SymbolTable) : Bindings Meaning :=
  (table.nested.find? fun scope => scope.kind = .block).elim table.file Scope.bindings

theorem block_of_nested_eq_nil (h : T.nested = []) : T.block = T.file := by
  simp [block, h]

@[simp] theorem block_enter_record (T : SymbolTable) : (T.enter .record).block = T.block := by
  simp [block, enter, Scope.fresh]

theorem block_declare (hT : T.InBlock) (name : String) (meaning : Meaning) :
    (T.declare name meaning).block = T.block.insert name meaning := by
  rcases T with ⟨_ | ⟨scope, outer⟩, file⟩
  · rfl
  · have hkind : scope.kind = .block := hT
    simp [block, declare, Scope.declare, hkind]

theorem block_declareEnumerator (T : SymbolTable) (name : String) :
    (T.declareEnumerator name).block = T.block.insert name .ordinary := by
  rcases T with ⟨nested, file⟩
  simp only [declareEnumerator, block]
  induction nested with
  | nil => rfl
  | cons scope outer ih =>
      rcases scope with ⟨kind, bindings⟩
      cases kind with
      | block => rfl
      | record =>
          have hskip : decide (ScopeKind.record = ScopeKind.block) = false := rfl
          cases hfound : declareInBlock? name outer with
          | none => simpa [declareInBlock?, hfound, hskip] using ih
          | some found => simpa [declareInBlock?, hfound, hskip] using ih

/-- The innermost block is not that of a record that is left. -/
theorem block_of_leave_record (hframe : (T.enter .record).Frame U) (hleave : U.leave? = some W) :
    W.block = U.block := by
  rcases U with ⟨_ | ⟨scope, outer⟩, file⟩
  · cases hleave
  · cases hleave
    have hkind : scope.kind = .record := by
      have hkinds := congrArg List.head? hframe.kinds
      simpa [kinds, scopes, enter, Scope.fresh] using hkinds
    simp [block, hkind]

/-! ## What has been bound -/

/-- Between the tables the entries have been bound in the innermost block, and nothing else. -/
def Records (T : SymbolTable) (entries : List Entry) (U : SymbolTable) : Prop :=
  ∀ name, U.block.get? name = (T.block.insertAll entries).get? name

/-- Between the tables the words have been declared as ordinary ones. -/
def Gains (T : SymbolTable) (names : List String) (U : SymbolTable) : Prop :=
  T.Records (ordinaries names) U

theorem Records.refl (T : SymbolTable) : T.Records [] T :=
  fun _ => rfl

theorem Records.trans {more : List Entry} (h : S.Records entries T) (h' : T.Records more U) :
    S.Records (entries ++ more) U := by
  intro name
  rw [h' name, Bindings.insertAll_append]
  exact Bindings.get?_insertAll_congr h more name

theorem Records.declare (h : S.Records entries T) (hT : T.InBlock) (name : String)
    (meaning : Meaning) : S.Records (entries ++ [(name, meaning)]) (T.declare name meaning) := by
  refine h.trans fun other => ?_
  rw [block_declare hT]
  rfl

theorem Records.gains (h : S.Records entries T) (h' : T.Gains names U) :
    S.Records (entries ++ ordinaries names) U :=
  Records.trans h h'

namespace Gains

theorem refl (T : SymbolTable) : T.Gains [] T :=
  Records.refl T

theorem iff : S.Gains names T ↔ ∀ name, T.block.get? name =
    if name ∈ names then some .ordinary else S.block.get? name := by
  simp only [Gains, Records, Bindings.get?_insertAll_ordinaries]

/-- The order in which words are declared does not count, nor how often. -/
theorem congr (h : S.Gains names T) (hsame : ∀ name, name ∈ names ↔ name ∈ others) :
    S.Gains others T := by
  rw [iff] at h ⊢
  simpa only [← hsame] using h

theorem again (h : S.Gains names T) (hsub : others ⊆ names) : S.Gains (names ++ others) T := by
  refine h.congr fun name => ?_
  rw [List.mem_append]
  exact ⟨.inl, fun hname => hname.elim id (hsub ·)⟩

theorem declareEnumerator (h : S.Gains names T) (name : String) :
    S.Gains (names ++ [name]) (T.declareEnumerator name) := by
  have hone : T.Gains [name] (T.declareEnumerator name) := by
    intro other
    rw [block_declareEnumerator]
    rfl
  have hboth := Records.trans h hone
  rwa [ordinaries, ordinaries, ← List.map_append] at hboth

theorem enter_record (h : S.Gains names T) : S.Gains names (T.enter .record) := by
  rw [iff] at h ⊢
  simpa using h

theorem leave_record (h : S.Gains names U) (hframe : (T.enter .record).Frame U)
    (hleave : U.leave? = some W) : S.Gains names W := by
  rw [iff] at h ⊢
  simpa only [block_of_leave_record hframe hleave] using h

end Gains

/-- Where the one list of words has been declared, the other one has been in the end. -/
def Turns (T : SymbolTable) (given found : List String) (U : SymbolTable) : Prop :=
  ∀ ⦃S : SymbolTable⦄ ⦃names : List String⦄,
    S.Gains (names ++ given) T → S.Gains (names ++ found) U

theorem Turns.refl (given : List String) (T : SymbolTable) : T.Turns given given T :=
  fun _ _ h => h

theorem Turns.trans {given between found : List String} (h : T.Turns given between U)
    (h' : U.Turns between found V) : T.Turns given found V :=
  fun _ _ hT => h' (h hT)

end SymbolTable

/-! ## The contract -/

/-- The enumeration constants in the type among the specifiers read so far. -/
def SpecifierTally.constants (tally : SpecifierTally) : List String :=
  (tally.other.map CType.constants).getD []

/-- The type among the specifiers is a base: it is built around nothing else. -/
def SpecifierTally.Plain (tally : SpecifierTally) : Prop :=
  ∀ type, tally.other = some type → type.outerConstants = []

/-- Further specifiers keep the base plain and declare its constants. -/
structure SpecifierTally.Specified (T : SymbolTable) (tally result : SpecifierTally)
    (U : SymbolTable) : Prop where
  plain : tally.Plain → result.Plain
  turns : T.Turns tally.constants result.constants U

def TypeModifier.constants : TypeModifier → List String
  | .array size => Expr.constantsOption size
  | .pointer | .function _ _ => []

/-- The enumeration constants in a declarator.  Lists of parameters keep their own. -/
def Declarator.constants (d : Declarator) : List String :=
  d.modifiers.flatMap TypeModifier.constants

/-- What a rule binds in the innermost block, in terms of its result. -/
def Nonterminal.Records (T : SymbolTable) : (f : Nonterminal) → f.Result → SymbolTable → Prop
  | .expression _, value, U => T.Turns [] value.constants U
  | .infixTail _ left, value, U => T.Turns left.constants value.constants U
  | .postfixTail operand, value, U => T.Turns operand.constants value.constants U
  | .arguments, values, U => T.Turns [] (Expr.constantsList values) U
  | .adjacentStrings, _, U => T.Turns [] [] U
  | .typeName, type, U => T.Turns [] type.constants U
  | .specifierTail tally, result, U => tally.Specified T result U
  | .members, list, U => T.Turns [] (Member.constantsList list) U
  | .memberDeclarators specifiers, list, U =>
      T.Turns specifiers.base.constants (Member.constantsList list) U
  | .enumerators, list, U => T.Turns [] (Enumerator.constantsList list) U
  | .pointerTail, _, U => T.Turns [] [] U
  | .declarator _, d, U => T.Turns [] d.constants U
  | .suffixes, modifiers, U => T.Turns [] (modifiers.flatMap TypeModifier.constants) U
  | .initializerItems, items, U => T.Turns [] (Expr.constantsList items) U
  | .initDeclarators specifiers, list, U =>
      specifiers.base.outerConstants = [] → T.Records (list.flatMap Declaration.entries) U
  | .externalDeclarations, list, U => T.Records (list.flatMap ExternalDeclaration.entries) U
  -- Of these nothing is left in the end, since they stand in scopes of their own.
  | .parameters, _, _ | .statement, _, _ | .blockItems, _, _ => True

/-- The contract `nesting`, with what is bound in the innermost block. -/
def recording : Contract SymbolTable where
  may _ _ := True
  step := (nesting false).step
  pre _ _ := True
  post f T result U R := (nesting false).post f T result U R ∧ f.Records T result U

theorem recording_refines : recording.Refines (nesting false) where
  may _ := trivial
  step h := h
  pre _ := trivial
  post h := h.1

theorem recording_free : recording.Free where
  may _ _ := trivial
  pre _ _ := trivial

namespace Script

/-- What a script gives at a table, and the table that it leaves. -/
def Ends (prog : Script α) (T : SymbolTable) (Q : α → SymbolTable → Prop) : Prop :=
  prog.Meets recording T fun value U _ => Q value U

theorem Restores.ends {prog : Script α} (h : prog.Restores false) :
    prog.Ends T fun _ U => U = T :=
  Meets.refine recording_refines (h T)

theorem Keeps.ends {prog : Script α} {place : Place} (h : prog.Keeps false place) :
    prog.Ends T fun _ U => place.Left T U :=
  Meets.refine recording_refines (h T nofun)

namespace Ends

variable {P : α → SymbolTable → Prop} {Q : β → SymbolTable → Prop} {prog : Script α}
  {next : α → Script β}

theorem bind (h : prog.Ends T P) (hnext : ∀ value U, P value U → (next value).Ends U Q) :
    (prog >>= next).Ends T Q :=
  Meets.bind h fun value U _ hP => hnext value U hP

theorem mono {P' : α → SymbolTable → Prop} (h : prog.Ends T P)
    (hP : ∀ value U, P value U → P' value U) : prog.Ends T P' :=
  Meets.mono h fun value U _ => hP value U

theorem and {P' : α → SymbolTable → Prop} (h : prog.Ends T P) (h' : prog.Ends T P') :
    prog.Ends T fun value U => P value U ∧ P' value U :=
  Meets.and h h'

/-- A script that leaves the table as it is. -/
theorem stay (h : prog.Restores false) (hnext : ∀ value, (next value).Ends T Q) :
    (prog >>= next).Ends T Q := by
  refine bind h.ends ?_
  rintro value _ rfl
  exact hnext value

/-- A script of which nothing counts. -/
theorem pass (hnext : ∀ value U, (next value).Ends U Q) : (prog >>= next).Ends T Q :=
  bind (Meets.of_forall recording_free fun _ _ _ => trivial) fun value U (_ : True) => hnext value U

/-- A script leaves at once what it leaves under many assumptions. -/
theorem all {ι : Sort*} {P : ι → α → SymbolTable → Prop} (h : ∀ i, prog.Ends T (P i)) :
    prog.Ends T fun value U => ∀ i, P i value U :=
  Meets.all recording_free h

theorem pure {value : α} (h : P value T) : (Pure.pure value : Script α).Ends T P :=
  h

theorem fail {error : ParseError} : (Script.fail error : Script α).Ends T P :=
  trivial

theorem refuse {token : Token} {fault : GrammarFault} :
    (Script.refuse token fault : Script α).Ends T P :=
  trivial

theorem contradict {position : Position} {fault : InternalFault} :
    (Script.contradict position fault : Script α).Ends T P :=
  trivial

theorem contradictAt {token : Token} {fault : InternalFault} :
    (Script.contradictAt token fault : Script α).Ends T P :=
  trivial

theorem enter (kind : ScopeKind) : (Script.enter kind).Ends T fun _ U => U = T.enter kind :=
  ⟨trivial, fun _ _ h => h⟩

theorem leave (position : Position) :
    (Script.leave position).Ends T fun _ U => T.leave? = some U :=
  ⟨trivial, fun _ _ h => h⟩

theorem declare (name : String) (meaning : Meaning) : (Script.declare name meaning).Ends T
    fun _ U => T.InBlock ∧ U = T.declare name meaning :=
  ⟨trivial, fun _ _ h => h⟩

theorem declareEnumerator (name : String) :
    (Script.declareEnumerator name).Ends T fun _ U => U = T.declareEnumerator name :=
  ⟨trivial, fun _ _ h => h⟩

theorem rule (f : Nonterminal) :
    (Script.rule f).Ends T fun result U => f.Records T result U :=
  ⟨trivial, fun _ _ _ h => h.2⟩

/-- What holds for any words that have been declared before is what a rule promises. -/
theorem turns {given : List String} {found : α → List String}
    (h : ∀ {S : SymbolTable} {names}, S.Gains (names ++ given) T →
      prog.Ends T fun value U => S.Gains (names ++ found value) U) :
    prog.Ends T fun value U => T.Turns given (found value) U :=
  .all fun _ => .all fun _ => .all h

end Ends

/-- Carried out where some words have been declared, the script declares those of its result. -/
def Gathers (prog : Script α) (found : α → List String) : Prop :=
  ∀ ⦃S T : SymbolTable⦄ ⦃names : List String⦄, S.Gains names T →
    prog.Ends T fun value U => S.Gains (names ++ found value) U

namespace Gathers

variable {prog : Script α} {found : α → List String}

theorem of_rule (h : ∀ T, prog.Ends T fun value U => T.Turns [] (found value) U) :
    prog.Gathers found :=
  fun S T names hS => (h T).mono fun _ _ hU => hU (by rwa [List.append_nil])

theorem turns (h : prog.Gathers found) :
    prog.Ends T fun value U => T.Turns [] (found value) U :=
  Ends.turns fun hS => h (by rwa [List.append_nil] at hS)

theorem expression (limit : Precedence) :
    (Script.rule (.expression limit)).Gathers Expr.constants :=
  of_rule fun _ => .rule (.expression limit)

theorem arguments : (Script.rule .arguments).Gathers Expr.constantsList :=
  of_rule fun _ => .rule .arguments

theorem adjacentStrings : (Script.rule .adjacentStrings).Gathers fun _ => [] :=
  of_rule fun _ => .rule .adjacentStrings

theorem typeName : (Script.rule .typeName).Gathers CType.constants :=
  of_rule fun _ => .rule .typeName

theorem members : (Script.rule .members).Gathers Member.constantsList :=
  of_rule fun _ => .rule .members

theorem enumerators : (Script.rule .enumerators).Gathers Enumerator.constantsList :=
  of_rule fun _ => .rule .enumerators

theorem pointerTail : (Script.rule .pointerTail).Gathers fun _ => [] :=
  of_rule fun _ => .rule .pointerTail

theorem declarator (mode : DeclaratorMode) :
    (Script.rule (.declarator mode)).Gathers Declarator.constants :=
  of_rule fun _ => .rule (.declarator mode)

theorem suffixes :
    (Script.rule .suffixes).Gathers fun list => list.flatMap TypeModifier.constants :=
  of_rule fun _ => .rule .suffixes

theorem initializerItems : (Script.rule .initializerItems).Gathers Expr.constantsList :=
  of_rule fun _ => .rule .initializerItems

end Gathers

end Script

namespace Grammar

open Script.Ends
open Script.Restores (peek peekNth advance mark reset release nextIs accept expect expectWord
  acceptWord here)

/-! ## Expressions -/

theorem gathers_adjacentStrings : adjacentStrings.Gathers fun _ => [] := by
  intro S T names h
  refine stay peek fun token => ?_
  split
  · exact stay advance fun _ => .bind (Script.Gathers.adjacentStrings h) fun _ _ hmore => .pure hmore
  · exact .pure (by simpa using h)

theorem gathers_primary : primary.Gathers Expr.constants := by
  intro S T names h
  have leaf : ∀ {e : Expr}, e.constants = [] → S.Gains (names ++ e.constants) T := by
    intro e he
    rwa [he, List.append_nil]
  refine stay peek fun token => ?_
  split
  · exact stay advance fun _ => .pure (leaf rfl)
  · exact stay advance fun _ => .pure (leaf rfl)
  · split
    · exact stay advance fun _ => .pure (leaf rfl)
    · exact contradictAt
  · exact stay advance fun _ => .pure (leaf rfl)
  · exact stay advance fun _ => .bind (Script.Gathers.adjacentStrings h) fun _ _ hmore => .pure hmore
  · split
    · exact stay advance fun _ => .bind (Script.Gathers.expression _ h) fun _ _ hvalue =>
        stay (expect _) fun _ => .pure hvalue
    · exact refuse

theorem gathers_callArguments : callArguments.Gathers Expr.constantsList := by
  intro S T names h
  refine stay (accept _) fun closed => ?_
  split
  · exact .pure (by simpa using h)
  · refine .bind (Script.Gathers.arguments h) fun values U hvalues => stay peek fun token => ?_
    split
    · exact stay advance fun _ => .pure hvalues
    · exact refuse

/-- Operators are added to an operand whose constants have been declared. -/
theorem ends_postfixRule {operand : Expr} (h : S.Gains (names ++ operand.constants) T) :
    (Script.rule (.postfixTail operand)).Ends T fun value U =>
      S.Gains (names ++ value.constants) U :=
  (rule (.postfixTail operand)).mono fun _ _ hU => hU h

theorem ends_postfixTail {operand : Expr} (h : S.Gains (names ++ operand.constants) T) :
    (postfixTail operand).Ends T fun value U => S.Gains (names ++ value.constants) U := by
  refine stay peek fun token => ?_
  split
  · refine stay advance fun _ => .bind (Script.Gathers.expression _ h) fun subscript U hU =>
      stay (expect _) fun _ => ends_postfixRule ?_
    rwa [List.append_assoc] at hU
  · refine stay advance fun _ => .bind (gathers_callArguments h) fun values U hU =>
      ends_postfixRule ?_
    rwa [List.append_assoc] at hU
  · exact stay advance fun _ => stay expectWord fun _ => ends_postfixRule h
  · exact stay advance fun _ => stay expectWord fun _ => ends_postfixRule h
  · exact stay advance fun _ => ends_postfixRule h
  · exact stay advance fun _ => ends_postfixRule h
  · exact .pure h

theorem gathers_postfixed : postfixed.Gathers Expr.constants := by
  intro S T names h
  exact .bind (gathers_primary h) fun _ _ hoperand => ends_postfixTail hoperand

theorem gathers_parenthesizedType? :
    parenthesizedType?.Gathers fun type? => (type?.map CType.constants).getD [] := by
  intro S T names h
  refine stay (nextIs _) fun found => ?_
  split
  · refine stay mark fun m => stay advance fun _ => stay peek fun token => ?_
    split
    · exact stay (release m) fun _ => .bind (Script.Gathers.typeName h) fun _ _ htype =>
        stay (expect _) fun _ => .pure htype
    · exact stay (reset m) fun _ => .pure (by simpa using h)
  · exact .pure (by simpa using h)

theorem gathers_unary : unary.Gathers Expr.constants := by
  intro S T names h
  refine stay peek fun token => ?_
  split
  · refine stay advance fun _ => .bind (gathers_parenthesizedType? h) fun type U htype => ?_
    cases type with
    | some type => exact .pure htype
    | none =>
        have hU : S.Gains names U := by simpa using htype
        exact .bind (Script.Gathers.expression _ hU) fun _ _ hoperand => .pure hoperand
  · refine .bind (gathers_parenthesizedType? h) fun type U htype => ?_
    cases type with
    | some type =>
        refine .bind (Script.Gathers.expression _ htype) fun operand V hoperand => .pure ?_
        rwa [List.append_assoc] at hoperand
    | none =>
        have hU : S.Gains names U := by simpa using htype
        exact gathers_postfixed hU
  · split
    · exact stay advance fun _ => .bind (Script.Gathers.expression _ h) fun _ _ hoperand =>
        .pure hoperand
    · exact refuse
  · exact gathers_postfixed h

theorem ends_operation (operator : InfixOperator) {left : Expr}
    (h : S.Gains (names ++ left.constants) T) :
    (operation operator left).Ends T fun value U => S.Gains (names ++ value.constants) U := by
  cases operator with
  | binary op =>
      refine .bind (Script.Gathers.expression _ h) fun right U hU => .pure ?_
      rwa [List.append_assoc] at hU
  | assign op =>
      refine .bind (Script.Gathers.expression _ h) fun value U hU => .pure ?_
      rwa [List.append_assoc] at hU
  | conditional =>
      refine .bind (Script.Gathers.expression _ h) fun whenTrue U hU => stay (expect _) fun _ =>
        .bind (Script.Gathers.expression _ hU) fun whenFalse V hV => .pure ?_
      rwa [List.append_assoc, List.append_assoc, ← List.append_assoc left.constants] at hV

theorem ends_infixTail (limit : Precedence) {left : Expr}
    (h : S.Gains (names ++ left.constants) T) :
    (infixTail limit left).Ends T fun value U => S.Gains (names ++ value.constants) U := by
  rw [infixTail_eq]
  refine stay peek fun token => ?_
  split
  · exact stay advance fun _ => .bind (ends_operation _ h) fun value U hvalue =>
      (rule (.infixTail limit value)).mono fun _ _ hU => hU hvalue
  · exact .pure h

theorem gathers_expression (limit : Precedence) :
    (expression limit).Gathers Expr.constants := by
  intro S T names h
  exact .bind (gathers_unary h) fun _ _ hoperand => ends_infixTail limit hoperand

theorem gathers_arguments : arguments.Gathers Expr.constantsList := by
  intro S T names h
  refine .bind (gathers_expression _ h) fun first U hfirst => stay (accept _) fun found => ?_
  split
  · refine .bind (Script.Gathers.arguments hfirst) fun others V hothers => .pure ?_
    rwa [List.append_assoc] at hothers
  · exact .pure (by simpa using hfirst)

/-! ## Declarators -/

theorem gathers_pointerTail : pointerTail.Gathers fun _ => [] := by
  intro S T names h
  refine stay peek fun token => ?_
  split
  · exact stay advance fun _ => .bind (Script.Gathers.pointerTail h) fun _ _ hmore => .pure hmore
  · exact stay advance fun _ => Script.Gathers.pointerTail h
  · exact stay advance fun _ => Script.Gathers.pointerTail h
  · exact .pure (by simpa using h)

theorem gathers_pointers : pointers.Gathers fun _ => [] := by
  intro S T names h
  refine stay (accept _) fun found => ?_
  split
  · exact .bind (Script.Gathers.pointerTail h) fun _ _ hmore => .pure hmore
  · exact .pure (by simpa using h)

theorem gathers_suffixes :
    suffixes.Gathers fun list => list.flatMap TypeModifier.constants := by
  intro S T names h
  -- A further suffix stands behind the constants of the first.
  have more : ∀ (first : TypeModifier) {U : SymbolTable},
      S.Gains (names ++ first.constants) U →
      (Script.rule .suffixes >>= fun others => Pure.pure (first :: others)).Ends U
        fun list V => S.Gains (names ++ list.flatMap TypeModifier.constants) V := by
    intro first U hfirst
    refine .bind (Script.Gathers.suffixes hfirst) fun others V hothers => .pure ?_
    rwa [List.append_assoc] at hothers
  refine stay (accept _) fun found => ?_
  split
  · refine stay (accept _) fun closed => ?_
    split
    · refine more (.array none) ?_
      simpa [TypeModifier.constants] using h
    · exact .bind (Script.Gathers.expression _ h) fun size U hsize => stay (expect _) fun _ =>
        more (.array (some size)) hsize
  · refine stay (accept _) fun found => ?_
    split
    · refine stay restores_parameterList fun list => ?_
      exact more (.function list.1 list.2) (by simpa [TypeModifier.constants] using h)
    · exact .pure (by simpa using h)

theorem restores_opensDeclarator (mode : DeclaratorMode) :
    (opensDeclarator mode).Restores false := by
  have looked : ∀ k : Token → Script Bool, (∀ token, (k token).Restores false) →
      (Script.peekNth 1 >>= k).Restores false := fun k hk => (peekNth 1).bind hk
  cases mode with
  | named => exact Script.Restores.pure
  | nameless => exact looked _ fun token => by split <;> exact Script.Restores.pure
  | either => exact looked _ fun token => by split <;> exact Script.Restores.pure

theorem gathers_declaratorCore (mode : DeclaratorMode) :
    (declaratorCore mode).Gathers Declarator.constants := by
  intro S T names h
  have bare : ∀ {name : Option (String × Position)},
      S.Gains (names ++ Declarator.constants { name := name, modifiers := [] }) T := by
    intro name
    simpa [Declarator.constants] using h
  refine stay peek fun token => ?_
  split
  · split
    · exact .pure bare
    · exact stay advance fun _ => .pure bare
  · split
    · exact .pure bare
    · exact stay advance fun _ => .pure bare
  · refine stay (restores_opensDeclarator mode) fun nested => ?_
    split
    · exact stay advance fun _ => .bind (Script.Gathers.declarator _ h) fun _ _ hinner =>
        stay (expect _) fun _ => .pure hinner
    · exact .pure bare
  · split
    · exact refuse
    · exact .pure bare

theorem gathers_declarator (mode : DeclaratorMode) :
    (declarator mode).Gathers Declarator.constants := by
  intro S T names h
  refine .bind (gathers_pointers h) fun count U hU => ?_
  rw [List.append_nil] at hU
  refine .bind (gathers_declaratorCore mode hU) fun core V hcore => ?_
  refine .bind (gathers_suffixes hcore) fun after W hafter => .pure (hafter.congr fun name => ?_)
  have hpointers : (List.replicate count TypeModifier.pointer).flatMap TypeModifier.constants =
      [] := by
    simp [TypeModifier.constants]
  simp only [Declarator.constants, List.flatMap_append, hpointers, List.nil_append,
    List.mem_append, List.mem_flatMap, List.mem_reverse]
  rw [or_assoc]
  exact or_congr_right or_comm

end Grammar

/-- If each modifier adds its constants to what is collected in a type, a declarator adds its own. -/
theorem Declarator.collect_type {collect : CType → List String}
    (hcollect : ∀ base modifier,
      collect (TypeModifier.apply base modifier) = collect base ++ modifier.constants)
    (d : Declarator) (base : CType) : collect (d.type base) = collect base ++ d.constants := by
  unfold Declarator.type Declarator.constants
  induction d.modifiers generalizing base with
  | nil => simp
  | cons first others ih =>
      rw [List.foldl_cons, ih, List.flatMap_cons, ← List.append_assoc, hcollect]

theorem Declarator.constants_type (d : Declarator) (base : CType) :
    (d.type base).constants = base.constants ++ d.constants := by
  refine d.collect_type (fun base modifier => ?_) base
  cases modifier with
  | array size => rfl
  | pointer | function parameters variadic => exact (List.append_nil _).symm

theorem Declarator.outerConstants_type (d : Declarator) {base : CType}
    (h : base.outerConstants = []) : (d.type base).outerConstants = d.constants := by
  have hcollect : (d.type base).outerConstants = base.outerConstants ++ d.constants := by
    refine d.collect_type (fun base modifier => ?_) base
    cases modifier with
    | array size => rfl
    | pointer | function parameters variadic => exact (List.append_nil _).symm
  rw [hcollect, h, List.nil_append]

namespace Grammar

open Script.Ends
open Script.Restores (peek peekNth advance mark reset release nextIs accept expect expectWord
  acceptWord here)

/-! ## Records and enumerations -/

theorem restores_requireTag (tag : Option String) : (requireTag tag).Restores false := by
  cases tag with
  | some _ => exact Script.Restores.pure
  | none => exact peek.bind fun _ => Script.Restores.refuse

/-- The body of a record lets constants through to the block around it. -/
theorem gathers_record (kind : RecordKind) : (record kind).Gathers CType.constants := by
  intro S T names h
  refine stay acceptWord fun tag => stay (accept _) fun found => ?_
  split
  · refine .bind (enter .record) ?_
    rintro _ _ rfl
    have hframe : (Script.rule .members).Ends (T.enter .record) fun _ U =>
        Place.anywhere.Left (T.enter .record) U := (Script.Keeps.rule .members rfl).ends
    refine .bind (hframe.and (Script.Gathers.members h.enter_record)) ?_
    rintro list U ⟨hleft, hlist⟩
    refine stay (expect _) fun close => .bind (leave close.position) fun _ W hleave => .pure ?_
    exact hlist.leave_record hleft.toFrame hleave
  · refine stay (restores_requireTag tag) fun _ => .pure ?_
    simpa using h

theorem gathers_recordType : recordType.Gathers CType.constants := by
  intro S T names h
  refine stay advance fun token => ?_
  split
  · exact gathers_record _ h
  · exact gathers_record _ h
  · exact contradictAt

theorem gathers_enumeration : enumeration.Gathers CType.constants := by
  intro S T names h
  refine stay acceptWord fun tag => stay (accept _) fun found => ?_
  split
  · exact .bind (Script.Gathers.enumerators h) fun list U hlist => stay (expect _) fun _ => .pure hlist
  · refine stay (restores_requireTag tag) fun _ => .pure ?_
    simpa using h

theorem gathers_enumerationType : enumerationType.Gathers CType.constants := by
  intro S T names h
  exact stay (expect _) fun _ => gathers_enumeration h

theorem gathers_enumerator : enumerator.Gathers Enumerator.constants := by
  intro S T names h
  refine stay expectWord fun name => .bind (declareEnumerator name) ?_
  rintro _ _ rfl
  have hname := h.declareEnumerator name
  refine stay (accept _) fun found => ?_
  split
  · refine .bind (Script.Gathers.expression _ hname) fun value U hvalue => .pure ?_
    rwa [List.append_assoc] at hvalue
  · exact .pure hname

theorem gathers_enumerators : enumerators.Gathers Enumerator.constantsList := by
  intro S T names h
  refine stay (nextIs _) fun closed => ?_
  split
  · exact .pure (by simpa using h)
  · refine .bind (gathers_enumerator h) fun first U hfirst => stay (accept _) fun found => ?_
    split
    · refine .bind (Script.Gathers.enumerators hfirst) fun others V hothers => .pure ?_
      rwa [List.append_assoc] at hothers
    · exact .pure (by simpa using hfirst)

/-! ## Specifiers -/

/-- A record or an enumeration is a base and has no part outside of it. -/
theorem plain_record (kind : RecordKind) :
    (record kind).Ends T fun type _ => type.outerConstants = [] := by
  refine stay acceptWord fun tag => stay (accept _) fun found => ?_
  split
  · exact pass fun _ _ => pass fun members _ => pass fun close _ => pass fun _ _ => .pure rfl
  · exact pass fun _ _ => .pure rfl

theorem plain_recordType : recordType.Ends T fun type _ => type.outerConstants = [] := by
  refine stay advance fun token => ?_
  split
  · exact plain_record _
  · exact plain_record _
  · exact contradictAt

theorem plain_enumerationType :
    enumerationType.Ends T fun type _ => type.outerConstants = [] := by
  refine stay (expect _) fun _ => stay acceptWord fun tag => stay (accept _) fun found => ?_
  split
  · exact pass fun enumerators _ => pass fun _ _ => .pure rfl
  · exact pass fun _ _ => .pure rfl

theorem constants_of_not_hasType {tally : SpecifierTally} (h : ¬ tally.hasType = true) :
    tally.constants = [] := by
  have hother : tally.other = none := by
    unfold SpecifierTally.hasType at h
    cases hother : tally.other <;> simp_all
  simp [SpecifierTally.constants, hother]

theorem ends_typeWord (tally : SpecifierTally) (token : Token) (word : Keyword) :
    (typeWord tally token word).Ends T (tally.Specified T) := by
  unfold typeWord
  split
  · exact refuse
  · refine stay advance fun _ => ?_
    split
    · split
      · exact .pure ⟨id, .refl _ T⟩
      · exact refuse
    · exact contradictAt

theorem ends_taggedType (tally : SpecifierTally) (token : Token) (word : Keyword) :
    (taggedType tally token word).Ends T (tally.Specified T) := by
  unfold taggedType
  split
  · exact refuse
  · rename_i hnone
    have found : ∀ {type : CType} {U : SymbolTable},
        type.outerConstants = [] ∧ T.Turns [] type.constants U →
        tally.Specified T { tally with other := some type } U := by
      rintro type U ⟨hplain, hturns⟩
      refine ⟨fun _ other hother => ?_, ?_⟩
      · cases hother
        exact hplain
      · rwa [constants_of_not_hasType hnone]
    split
    · exact .bind (plain_enumerationType.and gathers_enumerationType.turns) fun _ _ h =>
        .pure (found h)
    · exact .bind (plain_recordType.and gathers_recordType.turns) fun _ _ h => .pure (found h)

theorem ends_specifier (tally : SpecifierTally) : (specifier tally).Ends T fun next U =>
    tally.Specified T (next.getD tally) U := by
  have same : tally.Specified T tally T := ⟨id, .refl _ T⟩
  have modified : ∀ word, tally.Specified T (tally.addModifier word) T := by
    intro word
    refine ⟨by simp [SpecifierTally.Plain], ?_⟩
    simpa [SpecifierTally.constants] using same.turns
  refine stay peek fun token => ?_
  split
  · split
    · split
      · exact refuse
      · exact stay advance fun _ => .pure (modified _)
    · split
      · exact stay advance fun _ => .pure (modified _)
      · split
        · exact .bind (ends_typeWord tally token _) fun _ _ hresult => .pure hresult
        · split
          · exact .bind (ends_taggedType tally token _) fun _ _ hresult => .pure hresult
          · exact .pure same
  · split
    · exact .pure same
    · rename_i hnone
      refine stay advance fun _ => .pure ⟨fun _ type htype => ?_, ?_⟩
      · cases htype
        rfl
      · rw [constants_of_not_hasType hnone]
        exact .refl [] T
  · exact .pure same

theorem ends_specifierTail (tally : SpecifierTally) :
    (specifierTail tally).Ends T (tally.Specified T) := by
  refine .bind (ends_specifier tally) fun found U hfound => ?_
  cases found with
  | some next =>
      exact (rule (.specifierTail next)).mono fun _ _ hresult =>
        ⟨hresult.plain ∘ hfound.plain, hfound.turns.trans hresult.turns⟩
  | none => exact .pure hfound

/-- Specifiers name a base, and declare the constants in it. -/
theorem ends_specifiers (h : S.Gains names T) : specifiers.Ends T fun result U =>
    result.base.outerConstants = [] ∧ S.Gains (names ++ result.base.constants) U := by
  refine stay here fun position => .bind (ends_specifierTail .empty) fun tally U htally => ?_
  have hgains : S.Gains (names ++ tally.constants) U := htally.turns (by
    simpa [SpecifierTally.constants, SpecifierTally.empty] using h)
  cases hbase : tally.type? with
  | none => exact stay peek fun token => refuse
  | some base =>
      refine .pure ?_
      cases hother : tally.other with
      | some type =>
          obtain rfl : type = base := by simpa [SpecifierTally.type?, hother] using hbase
          have hconstants : tally.constants = type.constants := by
            simp [SpecifierTally.constants, hother]
          exact ⟨htally.plain nofun type hother, hconstants ▸ hgains⟩
      | none =>
          obtain ⟨spelling, -, rfl⟩ : ∃ spelling,
              ArithmeticType.canonical? tally.words = some spelling ∧ .named spelling = base := by
            simpa [SpecifierTally.type?, hother] using hbase
          have hconstants : tally.constants = [] := by simp [SpecifierTally.constants, hother]
          rw [hconstants] at hgains
          exact ⟨rfl, hgains⟩

theorem gathers_typeName : typeName.Gathers CType.constants := by
  intro S T names h
  refine .bind (ends_specifiers h) fun specifiers U hspecifiers => ?_
  refine .bind (gathers_declarator .nameless hspecifiers.2) fun d V hd => .pure ?_
  rwa [Declarator.constants_type, ← List.append_assoc]

/-! ## Members -/

theorem ends_memberDeclarators (specifiers : Specifiers)
    (h : S.Gains (names ++ specifiers.base.constants) T) :
    (memberDeclarators specifiers).Ends T fun list U =>
      S.Gains (names ++ Member.constantsList list) U := by
  refine .bind (gathers_declarator .named h) fun d U hd => ?_
  rw [List.append_assoc, ← Declarator.constants_type] at hd
  split
  · exact contradict
  · rename_i name position hname
    refine stay (accept _) fun found => ?_
    split
    · -- The constants of the base have been declared with those of the first member.
      have hbase : S.Gains ((names ++ (d.type specifiers.base).constants) ++
          specifiers.base.constants) U := by
        refine hd.again fun constant hconstant => List.mem_append_right _ ?_
        rw [Declarator.constants_type]
        exact List.mem_append_left _ hconstant
      refine .bind (rule (.memberDeclarators specifiers)) fun others V hothers => .pure ?_
      have hlist := hothers hbase
      rwa [List.append_assoc] at hlist
    · exact .pure (by simpa [Member.constants] using hd)

theorem gathers_memberDeclaration : memberDeclaration.Gathers Member.constantsList := by
  intro S T names h
  refine .bind (ends_specifiers h) fun specifiers U hspecifiers => ?_
  split
  · exact fail
  · refine .bind (rule (.memberDeclarators specifiers)) fun list V hlist => stay peek fun token => ?_
    split
    · exact stay advance fun _ => .pure (hlist hspecifiers.2)
    · exact refuse

theorem gathers_members : members.Gathers Member.constantsList := by
  intro S T names h
  refine stay (nextIs _) fun closed => ?_
  split
  · exact .pure (by simpa using h)
  · refine .bind (gathers_memberDeclaration h) fun first U hfirst => ?_
    refine .bind (Script.Gathers.members hfirst) fun others V hothers => .pure ?_
    simpa using hothers

/-! ## Declarations -/

theorem gathers_initialValue : initialValue.Gathers Expr.constants := by
  intro S T names h
  refine stay here fun position => stay (accept _) fun found => ?_
  split
  · exact .bind (Script.Gathers.initializerItems h) fun items U hitems =>
      stay (expect _) fun _ => .pure hitems
  · exact gathers_expression _ h

theorem gathers_initializerItems : initializerItems.Gathers Expr.constantsList := by
  intro S T names h
  refine stay (nextIs _) fun closed => ?_
  split
  · exact .pure (by simpa using h)
  · refine .bind (gathers_initialValue h) fun first U hfirst => stay (accept _) fun found => ?_
    split
    · refine .bind (Script.Gathers.initializerItems hfirst) fun others V hothers => .pure ?_
      rwa [List.append_assoc] at hothers
    · exact .pure (by simpa using hfirst)

theorem gathers_initial? (specifiers : Specifiers) :
    (initial? specifiers).Gathers Expr.constantsOption := by
  intro S T names h
  unfold initial?
  split
  · exact .pure (by simpa using h)
  · refine stay (accept _) fun found => ?_
    split
    · exact .bind (gathers_initialValue h) fun _ _ hvalue => .pure hvalue
    · exact .pure (by simpa using h)

/-- A script that gathers constants adds them to whatever has been declared. -/
theorem records_of_gathers {prog : Script α} {found : α → List String} (h : prog.Gathers found)
    (hT : S.Records entries T) :
    prog.Ends T fun value U => S.Records (entries ++ ordinaries (found value)) U :=
  (h (.refl T)).mono fun _ _ hU => hT.gains hU

theorem ends_initDeclarator (specifiers : Specifiers) (d : Declarator)
    (hplain : specifiers.base.outerConstants = [])
    (h : S.Records (entries ++ ordinaries d.constants) T) :
    (initDeclarator specifiers d).Ends T fun declaration U =>
      S.Records (entries ++ declaration.entries) U := by
  unfold initDeclarator
  split
  · exact contradict
  · rename_i name position hname
    refine .bind (declare name _) ?_
    rintro _ _ ⟨hblock, rfl⟩
    refine .bind (records_of_gathers (gathers_initial? specifiers) (h.declare hblock name _))
      fun initial U hU => .pure ?_
    unfold Declaration.entries Declaration.meaning
    rw [d.outerConstants_type hplain]
    simpa only [List.append_assoc] using hU

theorem ends_declarations (specifiers : Specifiers) (d : Declarator)
    (hplain : specifiers.base.outerConstants = [])
    (h : S.Records (entries ++ ordinaries d.constants) T) :
    (declarations specifiers d).Ends T fun list U =>
      S.Records (entries ++ list.flatMap Declaration.entries) U := by
  refine .bind (ends_initDeclarator specifiers d hplain h) fun first U hfirst =>
    stay (accept _) fun found => ?_
  split
  · refine .bind (rule (.initDeclarators specifiers)) fun others V hothers => .pure ?_
    rw [List.flatMap_cons, ← List.append_assoc]
    exact hfirst.trans (hothers hplain)
  · exact .pure (by simpa using hfirst)

theorem ends_initDeclarators (specifiers : Specifiers)
    (hplain : specifiers.base.outerConstants = []) :
    (initDeclarators specifiers).Ends T fun list U =>
      T.Records (list.flatMap Declaration.entries) U :=
  .bind (records_of_gathers (gathers_declarator .named) (.refl T)) fun d _ hd =>
    ends_declarations specifiers d hplain hd

theorem ends_groupFrom (specifiers : Specifiers) (d : Declarator)
    (hplain : specifiers.base.outerConstants = [])
    (h : S.Records (entries ++ ordinaries d.constants) T) :
    (groupFrom specifiers d).Ends T fun group U => group.base = specifiers.base ∧
      S.Records (entries ++ group.declarations.flatMap Declaration.entries) U :=
  .bind (ends_declarations specifiers d hplain h) fun _ _ hlist => stay (expect _) fun _ =>
    .pure ⟨rfl, hlist⟩

/-! ## Functions and units -/

theorem ends_functionDefinition (specifiers : Specifiers) (d : Declarator) :
    (functionDefinition specifiers d).Ends T fun f U => f.type = d.type specifiers.base ∧
      T.InBlock ∧ U = T.declare f.name .ordinary := by
  have htable : (functionDefinition specifiers d).Meets (nesting false) T fun f U _ =>
      T.InBlock ∧ U = T.declare f.name .ordinary := meets_functionDefinition specifiers d nofun
  refine Script.Meets.and ?_ (htable.refine recording_refines)
  unfold functionDefinition
  split
  · exact contradict
  · split
    · exact fail
    · split
      · exact contradict
      · exact pass fun _ _ => pass fun _ _ => pass fun _ _ => pass fun _ _ => pass fun body _ =>
          pass fun close _ => pass fun _ _ => .pure rfl

theorem ends_externalDeclaration :
    externalDeclaration.Ends T fun e U => T.Records e.entries U := by
  refine .bind (ends_specifiers (.refl T)) fun specifiers U hspecifiers => ?_
  obtain ⟨hplain, hbase⟩ := hspecifiers
  rw [List.nil_append] at hbase
  have group : ∀ {d : Declarator} {V : SymbolTable},
      T.Records (ordinaries specifiers.base.constants ++ ordinaries d.constants) V →
      (groupFrom specifiers d >>= fun group => Pure.pure (ExternalDeclaration.declaration group)).Ends
        V fun e W => T.Records e.entries W := by
    intro d V hd
    refine .bind (ends_groupFrom specifiers d hplain hd) fun group W hgroup => .pure ?_
    obtain ⟨hsame, hrecords⟩ := hgroup
    rwa [ExternalDeclaration.entries, DeclarationGroup.entries, hsame]
  refine stay (accept _) fun found => ?_
  split
  · refine .pure ?_
    have hentries : (bareGroup specifiers).entries = ordinaries specifiers.base.constants :=
      List.append_nil _
    rwa [ExternalDeclaration.entries, hentries]
  · refine .bind (records_of_gathers (gathers_declarator .named) hbase) fun d V hd => ?_
    split
    · refine stay (nextIs _) fun found => ?_
      split
      · refine .bind (ends_functionDefinition specifiers d) fun f W hf => .pure ?_
        obtain ⟨htype, hblock, rfl⟩ := hf
        have hname := hd.declare hblock f.name .ordinary
        rw [ordinaries, ordinaries, ← List.map_append, ← d.constants_type, ← htype] at hname
        exact hname
      · exact group hd
    · exact group hd

theorem ends_externalDeclarations : externalDeclarations.Ends T fun list U =>
    T.Records (list.flatMap ExternalDeclaration.entries) U := by
  refine stay peek fun token => ?_
  split
  · exact .pure (.refl T)
  · refine .bind ends_externalDeclaration fun first U hfirst => ?_
    exact .bind (rule .externalDeclarations) fun others V hothers => .pure (hfirst.trans hothers)

end Grammar

/-! ## The contract holds -/

/-- The scripts of all rules keep the contract. -/
theorem valid_recording : recording.Valid := by
  intro f T _
  have hleft : (Grammar.script f).Meets recording T fun result U R =>
      (nesting false).post f T result U (R ++ [⟨f, result⟩]) :=
    (valid_nesting false f T nofun).refine recording_refines
  suffices h : (Grammar.script f).Ends T fun result U => f.Records T result U from hleft.and h
  cases f with
  | expression limit => exact (Grammar.gathers_expression limit).turns
  | infixTail limit left => exact .turns (Grammar.ends_infixTail limit)
  | postfixTail operand => exact .turns Grammar.ends_postfixTail
  | «arguments» => exact Grammar.gathers_arguments.turns
  | adjacentStrings => exact Grammar.gathers_adjacentStrings.turns
  | typeName => exact Grammar.gathers_typeName.turns
  | specifierTail tally => exact Grammar.ends_specifierTail tally
  | members => exact Grammar.gathers_members.turns
  | memberDeclarators specifiers => exact .turns (Grammar.ends_memberDeclarators specifiers)
  | enumerators => exact Grammar.gathers_enumerators.turns
  | pointerTail => exact Grammar.gathers_pointerTail.turns
  | declarator mode => exact (Grammar.gathers_declarator mode).turns
  | suffixes => exact Grammar.gathers_suffixes.turns
  | initializerItems => exact Grammar.gathers_initializerItems.turns
  | initDeclarators specifiers => exact .all (Grammar.ends_initDeclarators specifiers)
  | externalDeclarations => exact Grammar.ends_externalDeclarations
  | «parameters» | statement | blockItems => exact .of_forall recording_free fun _ _ _ => trivial

/-! ## Units that are read -/

namespace Parser

variable {text : String} {file : Option String}

theorem models_recording {trace : List Event}
    (h : (nesting true).Admits ParserState.table Tidy trace) :
    recording.Models ParserState.table (fun _ => True) trace := by
  intro r s hmem _ _ answer t hperform
  have hstep : (nesting false).step r s.table answer t.table :=
    Request.nesting_perform hperform (h r s hmem).2
  exact ⟨trivial, hstep⟩

/-- A script that is begun at a tidy state and keeps the strict contract leaves what it promises. -/
theorem ends_of_run {prog : Script α} {P : α → SymbolTable → List Returned → Prop}
    {Q : α → SymbolTable → Prop} {depth : Nat} {s t : ParserState} {value : α} (htidy : Tidy s)
    (hstrict : prog.Meets (nesting true) s.table P) (h : prog.Ends s.table Q)
    (hrun : prog.run (runAt depth) s = (.ok value, t)) : Tidy t ∧ Q value t.table := by
  have hadmits : (nesting true).Admits ParserState.table Tidy
      (prog.events (runAt depth) (eventsAt depth) s) :=
    (Contract.sound_script (valid_nesting true) models_nesting htidy hstrict).1
  obtain ⟨hend, -⟩ :=
    (Contract.sound_script (valid_nesting true) models_nesting htidy hstrict).2 value t hrun
  have hpost := (Contract.sound_run
    (fun _ _ _ hpre hmodels => Contract.sound valid_recording trivial hpre hmodels)
    prog trivial (models_recording hadmits) h).2 value t hrun
  exact ⟨hend, hpost.2⟩

/-- At the end of a unit the file scope alone is open, and binds words as their entries say. -/
theorem file_eq_entries {list : List ExternalDeclaration} {t : ParserState}
    (h : runUnit text file = (.ok list, t)) : t.table.nested = [] ∧ ∀ name,
      t.table.file.get? name =
        (Bindings.ofList (list.flatMap ExternalDeclaration.entries)).get? name := by
  obtain ⟨hadmits, htidy⟩ := sound_nesting text file
  have hrecords : SymbolTable.empty.Records (list.flatMap ExternalDeclaration.entries) t.table :=
    ((Contract.sound valid_recording trivial trivial (models_recording hadmits)).2 list t h).2.2
  have hnested : t.table.nested = [] := (htidy list t h).2.nested_eq_nil rfl
  refine ⟨hnested, fun name => ?_⟩
  rw [← SymbolTable.block_of_nested_eq_nil hnested]
  exact hrecords name

/-- The aliases of a unit that is read agree with the file scope that the parser is left with.  Words
are bound there as their last declarations at file scope say; a word that names a type there is an
alias of that type; an alias names its type there, unless an ordinary declaration at file scope
stands behind all its `typedef` declarations; and a word that is declared in other places only is in
neither. -/
theorem typedefs_agree {unit : TranslationUnit} (h : parse text file = .ok unit) :
    (runUnit text file).2.table.nested = [] ∧
    (∀ name meaning, (runUnit text file).2.table.file.get? name = some meaning ↔
      unit.Ends name meaning) ∧
    (∀ name type, (runUnit text file).2.table.file.get? name = some (.typeName type) →
      unit.typedefs.get? name = some type) ∧
    (∀ name type, unit.typedefs.get? name = some type →
      (runUnit text file).2.table.file.get? name = some (.typeName type) ∨
      (runUnit text file).2.table.file.get? name = some .ordinary ∧ unit.Retracts name type) ∧
    (∀ name, (∀ meaning, (name, meaning) ∉ unit.fileEntries) →
      (runUnit text file).2.table.file.get? name = none ∧ unit.typedefs.get? name = none) := by
  obtain ⟨t, hrun⟩ := runUnit_of_parse h
  obtain ⟨hnested, hfile⟩ := file_eq_entries hrun
  -- The file scope is made of the entries of the unit, in their order.
  have hends : ∀ name meaning,
      t.table.file.get? name = some meaning ↔ unit.Ends name meaning := by
    intro name meaning
    rw [hfile]
    exact Bindings.get?_ofList_eq_some_iff
  rw [hrun]
  refine ⟨hnested, hends, ?_, ?_, ?_⟩
  · intro name type hname
    exact TranslationUnit.typedefs_of_ends ((hends name _).1 hname)
  · intro name type hname
    rcases TranslationUnit.ends_of_typedefs hname with hlast | ⟨hlast, hretracts⟩
    · exact .inl ((hends name _).2 hlast)
    · exact .inr ⟨(hends name _).2 hlast, hretracts⟩
  · intro name hnone
    refine ⟨?_, TranslationUnit.typedefs_eq_none hnone⟩
    rw [hfile]
    exact Bindings.get?_ofList_eq_none_iff.2 hnone

/-- A constant in a record takes a `typedef` name back; what a function declares is in neither
place. -/
theorem typedefs_agree_of_constant : ∃ unit,
    parse "typedef int t, u; struct s { enum { t } e; } v; int f(int a) { typedef int w; }" none =
      .ok unit ∧ unit.Retracts "t" (.named "int") ∧ unit.typedefs.get? "w" = none := by
  have hreads : (match parse
      "typedef int t, u; struct s { enum { t } e; } v; int f(int a) { typedef int w; }" none with
    | .ok unit => decide (unit.typedefs.get? "t" = some (.named "int") ∧
        (runUnit "typedef int t, u; struct s { enum { t } e; } v; int f(int a) { typedef int w; }"
          none).2.table.file.get? "t" = some .ordinary ∧
        unit.fileEntries.map (·.1) = ["t", "u", "t", "v", "f"])
    | .error _ => false) = true := by decide +kernel
  split at hreads
  · rename_i unit hparse
    obtain ⟨halias, hordinary, hentries⟩ := of_decide_eq_true hreads
    obtain ⟨-, -, -, hnamed, hnone⟩ := typedefs_agree hparse
    refine ⟨unit, hparse, ?_, (hnone "w" fun meaning hmem => ?_).2⟩
    · rcases hnamed "t" _ halias with htype | ⟨-, hretracts⟩
      · exact absurd (htype.symm.trans hordinary) (by decide)
      · exact hretracts
    · have hname : "w" ∈ unit.fileEntries.map (·.1) := List.mem_map_of_mem hmem
      rw [hentries] at hname
      exact absurd hname (by decide)
  · cases hreads

end Parser

end CSyntax
