import CSyntax.Proofs.Expression.Completeness
import CSyntax.Proofs.Lexical.Spelling
import CSyntax.Proofs.Lockstep.Batch

/-!
# Consistency — the parser never contradicts itself

Some faults say that the lexer or the parser contradicted itself: what a word was taken for it is
not, a declaration went on from a declarator without a name, a body followed a declarator that
declares no function, a floating constant had no value, a punctuator was looked for at the end of the
text, the file scope was to be left, or the rules nested deeper than the text is long.  No text
brings them about (`Parser.consistent`), since each guard is passed whenever a run comes to it:

* `Parser.isSome_name_of_named` — a declarator that has to have a name has one;
* `Parser.DefinesFunction.isFunction` — a body is begun behind the declarator of a function;
* `Parser.readable_of_handed` — a floating constant that is handed to a rule has a value;
* `Parser.operates_of_priorities` — what has priorities is one of the operators;
* `Source.lexical_of_nextLexeme` — the lexer refuses characters of the text and nothing else;
* `Parser.nested_of_leave` — the scope that is left is not the file scope.

A word that decides how a rule goes on is looked at twice, before it is taken and behind that.  That
both looks find the same is what the scripts agree on with themselves (`Grammar.sync_recordType`,
`Grammar.sync_selectionStatement` and the lemmas beside them).
-/

namespace CSyntax

variable {α : Type}

/-! ## Declarators that have to have a name -/

/-- Declarators of declarations have names; nothing else is said. -/
def naming : Contract Unit where
  may _ _ := True
  step _ _ _ _ := True
  pre _ _ := True
  post
    | .declarator .named, _, d, _, _ => d.name.isSome = true
    | _, _, _, _, _ => True

namespace Script

/-- The script gives a value with the property. -/
def Named (prog : Script α) (P : α → Prop) : Prop :=
  prog.Meets naming () fun value _ _ => P value

namespace Named

variable {β : Type} {Q : β → Prop}

theorem of_forall {P : α → Prop} {prog : Script α} (h : ∀ value, P value) : prog.Named P :=
  Meets.of_forall ⟨fun _ _ => trivial, fun _ _ => trivial⟩ fun value _ _ => h value

/-- What is read before does not matter. -/
theorem skip {prog : Script α} {next : α → Script β} (hnext : ∀ value, (next value).Named Q) :
    (prog >>= next).Named Q :=
  Meets.bind (of_forall fun _ => trivial : prog.Named fun _ => True) fun value _ _ _ => hnext value

theorem bind {P : α → Prop} {prog : Script α} {next : α → Script β} (h : prog.Named P)
    (hnext : ∀ value, P value → (next value).Named Q) : (prog >>= next).Named Q :=
  Meets.bind h fun value _ _ hvalue => hnext value hvalue

theorem pure {P : α → Prop} {value : α} (h : P value) : (Pure.pure value : Script α).Named P :=
  h

end Named
end Script

namespace Grammar

open Script

theorem named_declaratorCore : (declaratorCore .named).Named fun d => d.name.isSome = true := by
  refine Named.skip fun token => ?_
  split
  · exact Named.skip fun _ => Named.pure rfl
  · exact Named.skip fun _ => Named.pure rfl
  · -- The name is that of the declarator in parentheses.
    have hinner : (Script.rule (.declarator .named)).Named fun d => d.name.isSome = true :=
      ⟨trivial, fun _ _ _ hname => hname⟩
    have hopens : (opensDeclarator .named).Named fun found => found = true := Named.pure rfl
    refine hopens.bind fun found hfound => ?_
    rw [if_pos hfound]
    exact Named.skip fun _ => hinner.bind fun inner hname => Named.skip fun _ => Named.pure hname
  · trivial

theorem named_declarator : (declarator .named).Named fun d => d.name.isSome = true := by
  refine Named.skip fun count => named_declaratorCore.bind fun core hcore => ?_
  exact Named.skip fun after => Named.pure hcore

/-- A body is looked for behind the declarator of a function alone. -/
theorem named_externalHead : externalHead.Named fun head =>
    ∀ d, head.2 = some (d, true) → d.name.isSome = true ∧ d.parameters?.isSome = true := by
  refine Named.skip fun specifiers => Named.skip fun ended => ?_
  split
  · exact Named.pure nofun
  · refine named_declarator.bind fun d hname => ?_
    split
    · rename_i hparameters
      refine Named.skip fun found => Named.pure ?_
      rintro _ ⟨⟩
      exact ⟨hname, hparameters⟩
    · exact Named.pure nofun

end Grammar

theorem valid_naming : naming.Valid := by
  intro f _ _
  cases f with
  | declarator mode =>
      cases mode with
      | named => exact Grammar.named_declarator
      | nameless => exact Script.Named.of_forall fun _ => trivial
      | either => exact Script.Named.of_forall fun _ => trivial
  | _ => exact Script.Named.of_forall fun _ => trivial

/-- The declarator of a function is one whose last wrapping is a function. -/
theorem Declarator.isSome_parameters?_iff {d : Declarator} :
    d.parameters?.isSome = true ↔
      ∃ others list variadic, d.modifiers = others ++ [.function list variadic] := by
  unfold Declarator.parameters?
  constructor
  · intro h
    split at h
    · rename_i list variadic hlast
      obtain ⟨others, hothers⟩ := List.getLast?_eq_some_iff.1 hlast
      exact ⟨others, list, variadic, hothers⟩
    · cases h
  · rintro ⟨others, list, variadic, hmodifiers⟩
    simp [hmodifiers]

/-- What the lexer refuses it refuses for the characters of the text.  There is one at least, so no
punctuator is looked for at the end. -/
theorem Source.lexical_of_nextLexeme {s t : Source} {e : ParseError}
    (h : s.nextLexeme = (.error e, t)) : ∃ fault, e.cause = .lexical fault := by
  rw [nextLexeme_eq] at h
  split at h
  · rcases hscan : Lexeme.scan (s.drop (Trivia.measure s.rest).length).rest with ⟨cause | w, n⟩
    · obtain ⟨fault, rfl, -, -⟩ := Lexeme.refused_of_error hscan
      simp only [hscan] at h
      cases h
      exact ⟨fault, rfl⟩
    · simp only [hscan] at h
      cases h
  · cases h
    exact ⟨_, rfl⟩

namespace Parser

variable {text : String} {file : Option String} {depth : Nat} {s t : ParserState}

theorem property_of_named {prog : Script α} {P : α → Prop} {value : α} (h : prog.Named P)
    (hrun : prog.run (runAt depth) s = (.ok value, t)) : P value := by
  have models : ∀ trace, naming.Models (fun _ => ()) (fun _ => True) trace :=
    fun _ _ _ _ _ _ _ _ _ => ⟨trivial, trivial⟩
  obtain ⟨-, -, hvalue⟩ := (Contract.sound_script valid_naming models trivial h).2 value t hrun
  exact hvalue

/-- A declarator that has to have a name has one, at whatever state it is read. -/
theorem isSome_name_of_named {d : Declarator}
    (hrun : (Grammar.declarator .named).run (runAt depth) s = (.ok d, t)) : d.name.isSome = true :=
  property_of_named (P := fun d => d.name.isSome = true) Grammar.named_declarator hrun

/-- A body is begun behind a declarator with a name whose last wrapping is a function. -/
theorem DefinesFunction.isFunction {specifiers : Specifiers} {d : Declarator}
    (h : DefinesFunction text file depth specifiers d s) :
    d.name.isSome = true ∧
      ∃ others list variadic, d.modifiers = others ++ [.function list variadic] := by
  obtain ⟨start, -, hrun⟩ := h
  have hhead := property_of_named
    (Script.Named.skip fun _ : Token => Grammar.named_externalHead) hrun d rfl
  exact ⟨hhead.1, Declarator.isSome_parameters?_iff.1 hhead.2⟩

/-! ## What a run is handed, and what it leaves -/

/-- A fresh token is cut off the text, so a floating constant in it has a value. -/
theorem readable_of_handed {r : Request} {answer : r.Answer} {token : Token} {constant : String}
    (h : .requested r s ∈ events text file) (hperform : r.perform s = (.ok answer, t))
    (hhanded : r.handed? answer = some token) (hkind : token.kind = .floating constant) :
    (Decimal.constant? constant.toList).isSome = true := by
  obtain ⟨w, ⟨n, u, -, hnext⟩, hclass⟩ :=
    Token.fresh_iff.1 ((handed_fresh h).1 answer t token hperform hhanded)
  obtain ⟨_, _, -, -, hscan, -⟩ := Source.nextLexeme_eq_ok hnext
  refine Lexeme.readable_of_scan hscan constant ?_
  rw [← SymbolTable.lexeme_classify s.table w, ← hclass, hkind]
  rfl

theorem nested_of_leave {position : Position}
    (h : .requested (.leave position) s ∈ events text file) : s.table.nested ≠ [] := by
  have hopen : s.table.leave? ≠ none := (lawful_events text file _ _ h).scopes
  intro hnested
  exact hopen (by simp [SymbolTable.leave?, hnested])

/-- A token with priorities is a punctuator: the question mark, an assignment or a binary operator. -/
theorem operates_of_priorities {kind : TokenKind} {own right : Nat}
    (h : kind.priorities? = some (own, right)) : ∃ mark, kind = .punctuator mark ∧
      (mark = .question ∨
        (∃ op, (mark, op) ∈ assignmentMarks ∧ mark.assignment? = some op) ∨
        ∃ p op, (mark, op) ∈ Precedence.marks p ∧ mark.binaryOperator? = some op) := by
  cases kind with
  | punctuator mark =>
      have hsome : mark.priorities? = some (own, right) := h
      rw [Punctuator.priorities?_eq] at hsome
      obtain ⟨operator, hoperator, -⟩ := Option.map_eq_some_iff.1 hsome
      refine ⟨mark, rfl, ?_⟩
      cases operator with
      | conditional => exact Or.inl (Punctuator.infixOperator?_eq_conditional.1 hoperator)
      | assign op =>
          exact Or.inr (Or.inl ⟨op, mem_assignmentMarks.2 hoperator,
            Punctuator.infixOperator?_eq_assign.1 hoperator⟩)
      | binary op =>
          exact Or.inr (Or.inr ⟨op.precedence, op, Precedence.mem_marks.2 ⟨hoperator, rfl⟩,
            Punctuator.infixOperator?_eq_binary.1 hoperator⟩)
  | _ => cases h

/-- The fault in which the lexemes of a text end is one of lexing. -/
theorem lexical_of_ending {source : Source} {e : ParseError}
    (h : source.outlook.ending = .error e) : ∃ fault, e.cause = .lexical fault := by
  induction source using Source.induction_on_lexemes with
  | fault hread =>
      rw [Source.outlook_of_error hread] at h
      cases h
      exact Source.lexical_of_nextLexeme hread
  | ended hread =>
      rw [Source.outlook_of_endOfFile hread] at h
      cases h
  | lexeme hread hw ih =>
      rw [Source.outlook_of_ok hread hw] at h
      exact ih h

/-! ## No contradiction -/

/-- No text makes the parser contradict itself, since every guard is passed: declarators that have to
have a name have one, a body is begun behind the declarator of a function, floating constants have
values, a token with priorities is one of the operators, no lexeme but the end is looked for at the
end of the text and what the lexer refuses are characters, and the file scope is never left. -/
theorem consistent (text : String) (file : Option String) :
    (∀ e fault, parse text file = .error e → e.cause ≠ .internal fault) ∧
    (∀ {depth : Nat} {s t : ParserState} {d : Declarator},
      (Grammar.declarator .named).run (runAt depth) s = (.ok d, t) → d.name.isSome = true) ∧
    (∀ {depth : Nat} {specifiers : Specifiers} {d : Declarator} {s : ParserState},
      DefinesFunction text file depth specifiers d s → d.name.isSome = true ∧
        ∃ others list variadic, d.modifiers = others ++ [.function list variadic]) ∧
    (∀ {r : Request} {s t : ParserState} {answer : r.Answer} {token : Token} {constant : String},
      .requested r s ∈ events text file → r.perform s = (.ok answer, t) →
        r.handed? answer = some token → token.kind = .floating constant →
          (Decimal.constant? constant.toList).isSome = true) ∧
    (∀ {kind : TokenKind} {own right : Nat},
      kind.priorities? = some (own, right) → ∃ mark, kind = .punctuator mark ∧
        (mark = .question ∨
          (∃ op, (mark, op) ∈ assignmentMarks ∧ mark.assignment? = some op) ∨
          ∃ p op, (mark, op) ∈ Precedence.marks p ∧ mark.binaryOperator? = some op)) ∧
    (∀ s : Source, (s.rest = [] → s.nextLexeme = (.ok (.endOfFile, s.position), s)) ∧
      ∀ e t, s.nextLexeme = (.error e, t) → ∃ fault, e.cause = .lexical fault) ∧
    (∀ {position : Position} {s : ParserState},
      .requested (.leave position) s ∈ events text file → s.table.nested ≠ []) := by
  refine ⟨?internal, isSome_name_of_named, DefinesFunction.isFunction, readable_of_handed,
    operates_of_priorities, ?lexer, nested_of_leave⟩
  case internal =>
    intro e fault herror hcause
    -- The parser gives up with a fault of the grammar, or hands on the one that ends the lexemes.
    rcases error_of_parse herror with ⟨⟨grammatical, hgrammatical⟩, -⟩ | hending
    · rw [hcause] at hgrammatical
      cases hgrammatical
    · obtain ⟨lexical, hlexical⟩ := lexical_of_ending hending
      rw [hcause] at hlexical
      cases hlexical
  case lexer =>
    exact fun s => ⟨Source.nextLexeme_of_rest_eq_nil, fun _ _ => Source.lexical_of_nextLexeme⟩

/-- Whether a floating constant is taken by the request. -/
def takesFloating : Event → Bool
  | .requested .advance s =>
      match Request.perform .advance s with
      | (.ok token, _) => token.kind = .floating "1.5e+3"
      | _ => false
  | _ => false

/-- Whether the scope that is left is the body of a function. -/
def leavesBody : Event → Bool
  | .requested (.leave _) s => s.table.depth = 2
  | _ => false

/-- A body behind a function of a type definition is refused, not read, and an empty body is begun
behind the declarator of a function.  In a text that is read the constant that is taken has a value,
and behind it the scope of the body is left.  A compound assignment has priorities, and a character
that begins nothing is refused as such. -/
theorem consistent_bodies :
    (∃ e, parse "typedef int f(void) { }" none = .error e ∧ ∀ fault, e.cause ≠ .internal fault) ∧
    (∃ d t, (Grammar.declarator .named).run (runAt 3) (.ofSource (.ofString "(*(f))(void)" none)) =
      (.ok d, t) ∧ d.name.isSome = true) ∧
    (∃ specifiers d s, DefinesFunction "int f(void) { }" none 15 specifiers d s ∧
      d.name.isSome = true ∧
        ∃ others list variadic, d.modifiers = others ++ [.function list variadic]) ∧
    (∃ s, .requested .advance s ∈ events "double f(void) { return 1.5e+3; }" none ∧
      (Decimal.constant? "1.5e+3".toList).isSome = true) ∧
    (∃ mark, TokenKind.punctuator .plusAssign = .punctuator mark ∧
      (mark = .question ∨
        (∃ op, (mark, op) ∈ assignmentMarks ∧ mark.assignment? = some op) ∨
        ∃ p op, (mark, op) ∈ Precedence.marks p ∧ mark.binaryOperator? = some op)) ∧
    (∃ e t, (Source.ofString "@" none).nextLexeme = (.error e, t) ∧
      ∃ fault, e.cause = .lexical fault) ∧
    (∃ position s, .requested (.leave position) s ∈ events "double f(void) { return 1.5e+3; }" none ∧
      s.table.nested ≠ []) := by
  refine ⟨?refused, ?name, ?body, ?constant, ?operator, ?lexer, ?scope⟩
  case refused =>
    have hfails : (parse "typedef int f(void) { }" none).toOption.isNone = true := by decide +kernel
    rcases hparse : parse "typedef int f(void) { }" none with e | unit
    · exact ⟨e, rfl, fun fault => (consistent _ none).1 e fault hparse⟩
    · simp [hparse, Except.toOption] at hfails
  case name =>
    have hreads : ((Grammar.declarator .named).run (runAt 3)
        (.ofSource (.ofString "(*(f))(void)" none))).1.toOption.isSome = true := by decide +kernel
    rcases hrun : (Grammar.declarator .named).run (runAt 3)
      (.ofSource (.ofString "(*(f))(void)" none)) with ⟨e | d, t⟩
    · simp [hrun, Except.toOption] at hreads
    · exact ⟨d, t, rfl, (consistent "" none).2.1 hrun⟩
  case body =>
    have hreads : ((Script.peek >>= fun _ => Grammar.externalHead).run (runAt 15)
        (.ofSource (.ofString "int f(void) { }" none))).1.toOption.any
          (fun head => head.2.any (·.2)) = true := by decide +kernel
    rcases hrun : (Script.peek >>= fun _ => Grammar.externalHead).run (runAt 15)
      (.ofSource (.ofString "int f(void) { }" none)) with ⟨e | ⟨specifiers, _ | ⟨d, isBody⟩⟩, s⟩
    · simp [hrun, Except.toOption] at hreads
    · simp [hrun, Except.toOption] at hreads
    · obtain rfl : isBody = true := by simpa [hrun, Except.toOption] using hreads
      have hdefines : DefinesFunction "int f(void) { }" none 15 specifiers d s :=
        ⟨_, Script.Reaches.self, hrun⟩
      exact ⟨specifiers, d, s, hdefines, (consistent _ none).2.2.1 hdefines⟩
  case constant =>
    have hany : (events "double f(void) { return 1.5e+3; }" none).any takesFloating = true := by
      decide +kernel
    obtain ⟨event, hmem, htakes⟩ := List.any_eq_true.1 hany
    unfold takesFloating at htakes
    split at htakes
    · rename_i s
      split at htakes
      · rename_i token t hperform
        have hkind : token.kind = .floating "1.5e+3" := by simpa using htakes
        exact ⟨s, hmem, (consistent _ none).2.2.2.1 hmem hperform rfl hkind⟩
      · cases htakes
    · cases htakes
  case operator =>
    have hpriorities : (TokenKind.punctuator .plusAssign).priorities? = some (26, 26) := rfl
    exact (consistent "" none).2.2.2.2.1 hpriorities
  case lexer =>
    have hfails : (Source.ofString "@" none).nextLexeme.1.toOption.isNone = true := by decide +kernel
    rcases hread : (Source.ofString "@" none).nextLexeme with ⟨e | w, t⟩
    · exact ⟨e, t, rfl, ((consistent "" none).2.2.2.2.2.1 _).2 e t hread⟩
    · simp [hread, Except.toOption] at hfails
  case scope =>
    have hany : (events "double f(void) { return 1.5e+3; }" none).any leavesBody = true := by
      decide +kernel
    obtain ⟨event, hmem, hleaves⟩ := List.any_eq_true.1 hany
    unfold leavesBody at hleaves
    split at hleaves
    · exact ⟨_, _, hmem, (consistent _ none).2.2.2.2.2.2 hmem⟩
    · cases hleaves

end Parser
end CSyntax
