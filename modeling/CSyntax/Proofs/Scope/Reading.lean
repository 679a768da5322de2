import CSyntax.Proofs.Expression.Operators
import CSyntax.Proofs.Scope.Agreement

/-!
# Reading — every rule reads what a walk would

The contract `scoping` states over symbol tables what each rule leaves behind: expressions, types
and statements leave the table as it was and all their words fit it; declarations change it as the
walk over them changes an environment.  The scripts of all rules keep it (`valid_scoping`), and with
`Parser.handed_fresh` it holds of runs: a unit that is read can be walked (`walk_of_parse`).
-/

namespace CSyntax

variable {typedefs : String → Prop} {T U V : SymbolTable}

/-! ## Results and tables -/

/-- Whether a word is classified by what the table declares. -/
def TokenKind.Current (table : SymbolTable) : TokenKind → Prop
  | .identifier name => table.isTypeName name = false
  | .typeName name => table.isTypeName name = true
  | _ => True

namespace SpecifierTally

def mentions (tally : SpecifierTally) : List Mention :=
  (tally.other.map CType.mentions).getD []

/-- Whether the type that has been named is no pointer, array or function. -/
def Bare (tally : SpecifierTally) : Prop :=
  ∀ type, tally.other = some type → type.Bare

end SpecifierTally

namespace TypeModifier

/-- The parameters that leave their names in the modifier. -/
def parameters : TypeModifier → List Parameter
  | .function parameters _ => parameters
  | _ => []

def mentions : TypeModifier → List Mention
  | .pointer => []
  | .array size => Expr.mentionsOption size
  | .function parameters _ => parameters.flatMap Parameter.mentions

/-- What a modifier says fits a table.  Parameters are walked in a scope of their own. -/
def Fits (table : SymbolTable) : TypeModifier → Prop
  | .pointer => True
  | .array size => table.Fits (Expr.mentionsOption size)
  | .function parameters _ =>
      ∃ env, parameters.foldlM Parameter.walk table.environment.enter = some env

end TypeModifier

/-- What the modifiers of a declarator say is read and the table stays. -/
def Shapes (typedefs : String → Prop) (table : SymbolTable) (modifiers : List TypeModifier)
    (after : SymbolTable) (read : List Parameter) : Prop :=
  Reads typedefs table (modifiers.flatMap TypeModifier.parameters) read
    (modifiers.flatMap TypeModifier.mentions)
    (after = table) (∀ m ∈ modifiers, m.Fits table)

/-- An expression that begins with another one, behind which the rest is read. -/
def Grows (typedefs : String → Prop) (table : SymbolTable) (left value : Expr)
    (after : SymbolTable) (read : List Parameter) : Prop :=
  ∃ new, value.mentions = left.mentions ++ new ∧ Plain typedefs table new after read

/-- The parameters whose names are left in a unit. -/
def ExternalDeclaration.parameters : ExternalDeclaration → List Parameter
  | .declaration _ => []
  | .function definition => definition.parameters

/-! ## The contract -/

/-- What a rule leaves behind at a table, if it gives the result. -/
@[simp] def Nonterminal.Promise (typedefs : String → Prop) (T : SymbolTable) :
    (f : Nonterminal) → f.Result → SymbolTable → List Parameter → Prop
  | .expression _, value, U, read => Plain typedefs T value.mentions U read
  | .infixTail _ left, value, U, read => Grows typedefs T left value U read
  | .postfixTail operand, value, U, read => Grows typedefs T operand value U read
  | .arguments, values, U, read => Plain typedefs T (values.flatMap Expr.mentions) U read
  | .adjacentStrings, _, U, read => Plain typedefs T [] U read
  | .typeName, type, U, read => Plain typedefs T type.mentions U read
  | .specifierTail tally, result, U, read =>
      (tally.Bare → result.Bare) ∧
        ∃ new, result.mentions = tally.mentions ++ new ∧ Plain typedefs T new U read
  | .members, list, U, read => Plain typedefs T (list.flatMap Member.mentions) U read
  | .memberDeclarators specifiers, list, U, read =>
      ∃ new, (∀ m, m ∈ list.flatMap Member.mentions ↔ m ∈ specifiers.base.mentions ++ new) ∧
        Plain typedefs T new U read
  | .enumerators, _, _, _ => True
  | .pointerTail, _, U, read => Plain typedefs T [] U read
  | .declarator _, d, U, read => Shapes typedefs T d.modifiers U read
  | .suffixes, modifiers, U, read => Shapes typedefs T modifiers U read
  | .parameters, (list, _), U, read =>
      Reads typedefs T list read (list.flatMap Parameter.mentions)
        (U.leave? = T.leave?) (∃ env, list.foldlM Parameter.walk T.environment = some env)
  | .initializerItems, items, U, read => Plain typedefs T (items.flatMap Expr.mentions) U read
  | .initDeclarators specifiers, list, U, read =>
      specifiers.base.Bare →
        Reads typedefs T [] read (list.flatMap Declaration.mentions)
          (U.leave? = T.leave?)
          (U.Within typedefs ∧
            list.foldlM (Declaration.walk specifiers.base) T.environment = some U.environment)
  | .statement, result, U, read =>
      Reads typedefs T [] read result.mentions
        (U = T) (result.walk T.environment = some T.environment)
  | .blockItems, items, U, read =>
      Reads typedefs T [] read (Statement.mentionsList items)
        (U.leave? = T.leave?) (Statement.walkList T.environment items = some U.environment)
  | .externalDeclarations, list, _, read =>
      Reads typedefs T (list.flatMap ExternalDeclaration.parameters) read
        (list.flatMap ExternalDeclaration.mentions) True
        (T.nested = [] → ∃ env, list.foldlM ExternalDeclaration.walk T.environment = some env)

/-- Words are classified by the table, the table changes as requested, and rules keep their
promises. -/
def scoping (typedefs : String → Prop) : Contract SymbolTable where
  may _ _ := True
  step
    | .peek _, T, token, U => U = T ∧ token.kind.Current T
    | .advance, T, token, U => U = T ∧ token.kind.Current T
    | .mark, T, _, U => U = T
    | .reset _, T, _, U => U = T
    | .release _, T, _, U => U = T
    | .enter kind, T, _, U => U = T.enter kind
    | .leave _, T, _, U => T.leave? = some U
    | .declare name meaning, T, _, U => U = T.declare name meaning
    | .declareEnumerator name, T, _, U => U = T.declareEnumerator name
  pre _ _ := True
  post f T result U R := f.Promise typedefs T result U (parametersIn R)

namespace Script

variable {α β : Type}

/-- What a script gives at a table, the table that it leaves, and the parameters that are read. -/
def Gives (typedefs : String → Prop) (prog : Script α) (T : SymbolTable)
    (Q : α → SymbolTable → List Parameter → Prop) : Prop :=
  prog.Meets (scoping typedefs) T fun value U R => Q value U (parametersIn R)

/-- A script that leaves the table and reads no parameters. -/
def Quiet (typedefs : String → Prop) (prog : Script α) (T : SymbolTable) (P : α → Prop) : Prop :=
  prog.Gives typedefs T fun value U read => U = T ∧ read = [] ∧ P value

namespace Gives

variable {P : α → SymbolTable → List Parameter → Prop} {Q : β → SymbolTable → List Parameter → Prop}

theorem bind {prog : Script α} {next : α → Script β} (h : prog.Gives typedefs T P)
    (hnext : ∀ value U read, P value U read →
      (next value).Gives typedefs U fun b V read' => Q b V (read ++ read')) :
    (prog >>= next).Gives typedefs T Q := by
  refine Meets.bind h fun value U R hP => (hnext value U _ hP).mono ?_
  intro b V S hQ
  simpa using hQ

theorem pure {value : α} (h : P value T []) : (Pure.pure value : Script α).Gives typedefs T P :=
  h

theorem fail {error : ParseError} : (Script.fail error : Script α).Gives typedefs T P :=
  trivial

theorem refuse {token : Token} {fault : GrammarFault} :
    (Script.refuse token fault : Script α).Gives typedefs T P :=
  trivial

theorem contradict {position : Position} {fault : InternalFault} :
    (Script.contradict position fault : Script α).Gives typedefs T P :=
  trivial

theorem contradictAt {token : Token} {fault : InternalFault} :
    (Script.contradictAt token fault : Script α).Gives typedefs T P :=
  trivial

theorem rule (f : Nonterminal) : (Script.rule f).Gives typedefs T (f.Promise typedefs T) := by
  refine ⟨trivial, fun result U R hpost => ?_⟩
  change f.Promise typedefs T result U (parametersIn (R ++ []))
  rw [List.append_nil]
  exact hpost

theorem mono {P' : α → SymbolTable → List Parameter → Prop} {prog : Script α}
    (h : prog.Gives typedefs T P) (hP : ∀ value U read, P value U read → P' value U read) :
    prog.Gives typedefs T P' :=
  Meets.mono h fun value U _ => hP value U _

/-- The contract asks nothing of a script itself. -/
theorem of_forall {prog : Script α} (h : ∀ value U read, P value U read) :
    prog.Gives typedefs T P :=
  Meets.of_forall ⟨fun _ _ => trivial, fun _ _ => trivial⟩ fun value U _ => h value U _

theorem enter {Q : β → SymbolTable → List Parameter → Prop} {next : Unit → Script β}
    (kind : ScopeKind) (hnext : (next ()).Gives typedefs (T.enter kind) Q) :
    (Script.enter kind >>= next).Gives typedefs T Q := by
  refine ⟨trivial, ?_⟩
  rintro _ U rfl
  exact hnext

theorem leave {Q : β → SymbolTable → List Parameter → Prop} {next : Unit → Script β}
    (position : Position)
    (hnext : ∀ U, T.leave? = some U → (next ()).Gives typedefs U Q) :
    (Script.leave position >>= next).Gives typedefs T Q := by
  refine ⟨trivial, ?_⟩
  intro _ U hU
  exact hnext U hU

theorem declare {Q : β → SymbolTable → List Parameter → Prop} {next : Unit → Script β}
    (name : String) (meaning : Meaning)
    (hnext : (next ()).Gives typedefs (T.declare name meaning) Q) :
    (Script.declare name meaning >>= next).Gives typedefs T Q := by
  refine ⟨trivial, ?_⟩
  rintro _ U rfl
  exact hnext

end Gives

namespace Quiet

variable {P : α → Prop} {Q : β → SymbolTable → List Parameter → Prop}

theorem bind {prog : Script α} {next : α → Script β} (h : prog.Quiet typedefs T P)
    (hnext : ∀ value, P value → (next value).Gives typedefs T Q) :
    (prog >>= next).Gives typedefs T Q := by
  refine Gives.bind h ?_
  rintro value U read ⟨rfl, rfl, hvalue⟩
  exact hnext value hvalue

theorem pure {value : α} (h : P value) : (Pure.pure value : Script α).Quiet typedefs T P :=
  ⟨rfl, rfl, h⟩

theorem peek : Script.peek.Quiet typedefs T fun token => token.kind.Current T := by
  refine ⟨trivial, ?_⟩
  rintro token U ⟨rfl, htoken⟩
  exact ⟨rfl, rfl, htoken⟩

theorem peekNth (n : Nat) : (Script.peekNth n).Quiet typedefs T fun _ => True := by
  refine ⟨trivial, ?_⟩
  rintro token U ⟨rfl, -⟩
  exact ⟨rfl, rfl, trivial⟩

theorem advance : Script.advance.Quiet typedefs T fun _ => True := by
  refine ⟨trivial, ?_⟩
  rintro token U ⟨rfl, -⟩
  exact ⟨rfl, rfl, trivial⟩

theorem mark : Script.mark.Quiet typedefs T fun _ => True := by
  refine ⟨trivial, ?_⟩
  rintro m U rfl
  exact ⟨rfl, rfl, trivial⟩

theorem reset (m : Mark) : (Script.reset m).Quiet typedefs T fun _ => True := by
  refine ⟨trivial, ?_⟩
  rintro _ U rfl
  exact ⟨rfl, rfl, trivial⟩

theorem release (m : Mark) : (Script.release m).Quiet typedefs T fun _ => True := by
  refine ⟨trivial, ?_⟩
  rintro _ U rfl
  exact ⟨rfl, rfl, trivial⟩

theorem nextIs (kind : TokenKind) : (Script.nextIs kind).Quiet typedefs T fun _ => True :=
  peek.bind fun _ _ => pure trivial

theorem accept (kind : TokenKind) : (Script.accept kind).Quiet typedefs T fun _ => True := by
  refine (nextIs kind).bind fun found _ => ?_
  split
  · exact advance.bind fun _ _ => pure trivial
  · exact pure trivial

theorem expect (kind : TokenKind) : (Script.expect kind).Quiet typedefs T fun _ => True := by
  refine peek.bind fun token _ => ?_
  split
  · exact advance
  · exact Gives.refuse

theorem expectWord : Script.expectWord.Quiet typedefs T fun _ => True := by
  refine advance.bind fun token _ => ?_
  split
  · exact pure trivial
  · exact pure trivial
  · exact Gives.refuse

theorem acceptWord : Script.acceptWord.Quiet typedefs T fun _ => True := by
  refine peek.bind fun token _ => ?_
  split
  · exact expectWord.bind fun _ _ => pure trivial
  · exact expectWord.bind fun _ _ => pure trivial
  · exact pure trivial

theorem here : Script.here.Quiet typedefs T fun _ => True :=
  peek.bind fun _ _ => pure trivial

end Quiet

end Script

/-! ## Expressions -/

namespace Grows

variable {a b c : Expr} {read read' : List Parameter}

theorem refl : Grows typedefs T a a T [] :=
  ⟨[], by simp, .nil⟩

theorem trans (h : Grows typedefs T a b U read) (h' : Grows typedefs U b c V read') :
    Grows typedefs T a c V (read ++ read') := by
  obtain ⟨new, hb, hnew⟩ := h
  obtain ⟨new', hc, hnew'⟩ := h'
  exact ⟨new ++ new', by rw [hc, hb, List.append_assoc], hnew.append hnew'⟩

theorem plain (h : Plain typedefs T a.mentions U read) (h' : Grows typedefs U a b V read') :
    Plain typedefs T b.mentions V (read ++ read') := by
  obtain ⟨new, hb, hnew⟩ := h'
  rw [hb]
  exact h.append hnew

end Grows

namespace Grammar

open Script Script.Gives Script.Quiet

theorem gives_adjacentStrings :
    adjacentStrings.Gives typedefs T fun _ U read => Plain typedefs T [] U read := by
  refine Quiet.bind peek fun token _ => ?_
  split
  · refine Quiet.bind advance fun _ _ => Gives.bind (Gives.rule _) fun more U read h => ?_
    exact Gives.pure (by simpa using h)
  · exact Gives.pure Plain.nil

theorem gives_primary :
    primary.Gives typedefs T fun value U read => Plain typedefs T value.mentions U read := by
  refine Quiet.bind peek fun token htoken => ?_
  split
  · rename_i name hkind
    refine Quiet.bind advance fun _ _ => Gives.pure (Plain.of_fits ?_)
    rw [Expr.mentions, SymbolTable.fits_identifier]
    simpa [hkind, TokenKind.Current] using htoken
  · exact Quiet.bind advance fun _ _ => Gives.pure (by simp [Expr.mentions])
  · split
    · exact Quiet.bind advance fun _ _ => Gives.pure (by simp [Expr.mentions])
    · exact Gives.fail
  · exact Quiet.bind advance fun _ _ => Gives.pure (by simp [Expr.mentions])
  · refine Quiet.bind advance fun _ _ => Gives.bind (Gives.rule _) fun more U read h => ?_
    exact Gives.pure (by simpa [Expr.mentions] using h)
  · split
    · refine Quiet.bind advance fun _ _ => Gives.bind (Gives.rule _) fun value U read h => ?_
      exact Quiet.bind (expect _) fun _ _ => Gives.pure (by simpa using h)
    · exact Gives.refuse

theorem gives_callArguments : callArguments.Gives typedefs T fun values U read =>
    Plain typedefs T (values.flatMap Expr.mentions) U read := by
  refine Quiet.bind (accept _) fun found _ => ?_
  split
  · exact Gives.pure Plain.nil
  · refine Gives.bind (Gives.rule _) fun values U read h => Quiet.bind peek fun token _ => ?_
    split
    · exact Quiet.bind advance fun _ _ => Gives.pure (by simpa using h)
    · exact Gives.refuse

theorem gives_postfixTail (operand : Expr) : (postfixTail operand).Gives typedefs T fun value U read =>
    Grows typedefs T operand value U read := by
  -- Each operator makes the operand grow by what stands behind it, and the rest goes on from there.
  have next : ∀ {value : Expr} {U : SymbolTable} {read : List Parameter},
      Grows typedefs T operand value U read →
        (Script.rule (.postfixTail value)).Gives typedefs U fun result V read' =>
          Grows typedefs T operand result V (read ++ read') := by
    intro value U read h
    exact (Gives.rule (.postfixTail value)).mono fun result V read' h' => h.trans h'
  refine Quiet.bind peek fun token _ => ?_
  split
  · refine Quiet.bind advance fun _ _ => Gives.bind (Gives.rule _) fun subscript U read h => ?_
    refine Quiet.bind (expect _) fun _ _ => next ⟨subscript.mentions, ?_, h⟩
    rw [Expr.mentions]
  · refine Quiet.bind advance fun _ _ => Gives.bind gives_callArguments fun values U read h => ?_
    refine next ⟨values.flatMap Expr.mentions, ?_, h⟩
    rw [Expr.mentions, Expr.mentionsList_eq]
  · refine Quiet.bind advance fun _ _ => Quiet.bind expectWord fun name _ => ?_
    exact next ⟨[], by simp [Expr.mentions], Plain.nil⟩
  · refine Quiet.bind advance fun _ _ => Quiet.bind expectWord fun name _ => ?_
    exact next ⟨[], by simp [Expr.mentions], Plain.nil⟩
  · exact Quiet.bind advance fun _ _ => next ⟨[], by simp [Expr.mentions], Plain.nil⟩
  · exact Quiet.bind advance fun _ _ => next ⟨[], by simp [Expr.mentions], Plain.nil⟩
  · exact Gives.pure Grows.refl

theorem gives_postfixed :
    postfixed.Gives typedefs T fun value U read => Plain typedefs T value.mentions U read := by
  refine Gives.bind gives_primary fun operand U read h => ?_
  exact (gives_postfixTail operand).mono fun value V read' h' => Grows.plain h h'

theorem gives_parenthesizedType? : parenthesizedType?.Gives typedefs T fun type? U read =>
    Plain typedefs T ((type?.map CType.mentions).getD []) U read := by
  refine Quiet.bind (nextIs _) fun found _ => ?_
  split
  · refine Quiet.bind mark fun m _ => Quiet.bind advance fun _ _ =>
      Quiet.bind peek fun token _ => ?_
    split
    · refine Quiet.bind (release m) fun _ _ => Gives.bind (Gives.rule _) fun type U read h => ?_
      exact Quiet.bind (expect _) fun _ _ => Gives.pure (by simpa using h)
    · exact Quiet.bind (reset m) fun _ _ => Gives.pure Plain.nil
  · exact Gives.pure Plain.nil

theorem gives_unary :
    unary.Gives typedefs T fun value U read => Plain typedefs T value.mentions U read := by
  refine Quiet.bind peek fun token _ => ?_
  split
  · refine Quiet.bind advance fun _ _ => Gives.bind gives_parenthesizedType? fun type? U read h => ?_
    split
    · exact Gives.pure (by simpa [Expr.mentions] using h)
    · refine Gives.bind (Gives.rule _) fun operand V read' h' => Gives.pure ?_
      simpa [Expr.mentions] using h.append h'
  · refine Gives.bind gives_parenthesizedType? fun type? U read h => ?_
    split
    · refine Gives.bind (Gives.rule _) fun operand V read' h' => Gives.pure ?_
      simpa [Expr.mentions] using h.append h'
    · exact gives_postfixed.mono fun value V read' h' => h.append h'
  · split
    · refine Quiet.bind advance fun _ _ => Gives.bind (Gives.rule _) fun operand U read h => ?_
      exact Gives.pure (by simpa [Expr.mentions] using h)
    · exact Gives.refuse
  · exact gives_postfixed

theorem gives_operation (operator : InfixOperator) (left : Expr) :
    (operation operator left).Gives typedefs T fun value U read =>
      Grows typedefs T left value U read := by
  unfold operation
  split
  · refine Gives.bind (Gives.rule _) fun right U read h => Gives.pure ⟨right.mentions, ?_, ?_⟩
    · rw [Expr.mentions]
    · simpa using h
  · refine Gives.bind (Gives.rule _) fun value U read h => Gives.pure ⟨value.mentions, ?_, ?_⟩
    · rw [Expr.mentions]
    · simpa using h
  · refine Gives.bind (Gives.rule _) fun whenTrue U read h => Quiet.bind (expect _) fun _ _ => ?_
    refine Gives.bind (Gives.rule _) fun whenFalse V read' h' => Gives.pure ?_
    refine ⟨whenTrue.mentions ++ whenFalse.mentions, ?_, ?_⟩
    · rw [Expr.mentions, List.append_assoc]
    · simpa using h.append h'

theorem gives_infixTail (limit : Precedence) (left : Expr) :
    (infixTail limit left).Gives typedefs T fun value U read =>
      Grows typedefs T left value U read := by
  rw [infixTail_eq]
  refine Quiet.bind peek fun token _ => ?_
  split
  · rename_i operator _
    refine Quiet.bind advance fun _ _ => Gives.bind (gives_operation operator left) ?_
    intro value U read h
    exact (Gives.rule (.infixTail limit value)).mono fun result V read' h' => h.trans h'
  · exact Gives.pure Grows.refl

theorem gives_expression (limit : Precedence) : (expression limit).Gives typedefs T
    fun value U read => Plain typedefs T value.mentions U read := by
  refine Gives.bind gives_unary fun operand U read h => ?_
  exact (gives_infixTail limit operand).mono fun value V read' h' => Grows.plain h h'

theorem gives_arguments : «arguments».Gives typedefs T fun values U read =>
    Plain typedefs T (values.flatMap Expr.mentions) U read := by
  refine Gives.bind (gives_expression .assignment) fun first U read h => ?_
  refine Quiet.bind (accept _) fun found _ => ?_
  split
  · refine Gives.bind (Gives.rule _) fun others V read' h' => Gives.pure ?_
    simpa using h.append h'
  · exact Gives.pure (by simpa using h)

end Grammar

end CSyntax
