import CSyntax.Proofs.Alias.Grounding

/-!
# Resolution — what the type names of a unit stand for

Resolution follows names through the last declarations of a unit.  A reading in source order takes
each alias with what was visible where it was declared.  The two agree wherever no alias on the way
has been declared again with another type, at file scope or in the body at hand
(`resolve_of_parse`).  Where one has been, resolution may come to another type, and it gives up on a
name whose last declaration is of itself (`resolve_redeclared`).
-/

namespace CSyntax

variable {text : String} {file : Option String}

/-- What the names of a unit that is read stand for.  A name that is last declared as an alias
stands for the end of its chain, if the aliases behind it are in force at the end of the unit, and
no name with an alias is left but one whose aliases lead back to it.  In the body of a function the
same holds of its aliases, which hide those of the unit. -/
theorem resolve_of_parse {unit : TranslationUnit} (h : parse text file = .ok unit) :
    (∀ name chain, unit.aliases.declared? name = some chain →
      InForce [unit.typedefs] chain.links.tail →
        unit.resolve (.named name) = chain.target ∧ Settled [unit.typedefs] chain.target) ∧
    (∀ type name, unit.resolve type = .named name → unit.typedefs.get? name ≠ none →
      Circles [unit.typedefs] (.named name)) ∧
    ∀ before f behind, unit.declarations = before ++ .function f :: behind →
      (∀ name chain, (f.aliases before).declared? name = some chain →
        InForce [Statement.aliases f.body, unit.typedefs] chain.links.tail →
          unit.resolveIn f.body (.named name) = chain.target ∧
            Settled [Statement.aliases f.body, unit.typedefs] chain.target) ∧
      ∀ type name, unit.resolveIn f.body type = .named name →
        aliasIn? [Statement.aliases f.body, unit.typedefs] name ≠ none →
          Circles [Statement.aliases f.body, unit.typedefs] (.named name) := by
  have hgrounds : Aliases.fresh.GroundsUnit unit.declarations := Parser.grounds_of_parse h
  refine ⟨hgrounds.resolves.target, fun type name hresolve hname => ?_, ?_⟩
  · refine hgrounds.resolves.circles type name hresolve ?_
    simpa [aliasIn?] using hname
  · intro before f behind hunit
    have hbody := hgrounds.resolves_body hunit
    exact ⟨hbody.target, hbody.circles⟩

/-- A check that the unit of a text passes shows that the text is read. -/
theorem exists_unit_of_any {check : TranslationUnit → Bool}
    (h : (parse text file).toOption.any check = true) :
    ∃ unit, parse text file = .ok unit ∧ check unit = true := by
  rcases hparse : parse text file with error | unit
  · simp [hparse, Except.toOption] at h
  · exact ⟨unit, rfl, by simpa [hparse, Except.toOption] using h⟩

/-- The function that a unit ends with, if it does, and the declarations before it. -/
def TranslationUnit.lastFunction? (unit : TranslationUnit) :
    Option (List ExternalDeclaration × FunctionDefinition) :=
  match unit.declarations.reverse with
  | .function f :: before => some (before.reverse, f)
  | _ => none

theorem TranslationUnit.declarations_of_lastFunction? {unit : TranslationUnit}
    {last : List ExternalDeclaration × FunctionDefinition} (h : unit.lastFunction? = some last) :
    unit.declarations = last.1 ++ [.function last.2] := by
  unfold lastFunction? at h
  split at h
  · rename_i f before hreverse
    obtain rfl := Option.some.inj h
    simpa using congrArg List.reverse hreverse
  · cases h

/-- A text with a chain of aliases through file scope and a body.  A parameter hides one of them
where the body begins, which changes nothing of those declared before. -/
def chainText : String :=
  "typedef unsigned U; typedef U V, *P; typedef V W; void f(int V) { typedef W X; typedef X Y; }"

theorem resolve_of_parse_chain :
    ∃ unit f, parse chainText none = .ok unit ∧ .function f ∈ unit.declarations ∧
      unit.resolve (.named "W") = .named "unsigned int" ∧
      unit.resolveIn f.body (.named "Y") = .named "unsigned int" := by
  have hcheck : (parse chainText none).toOption.any (fun unit =>
      unit.lastFunction?.any fun last =>
        (unit.aliases.declared? "W").any (fun chain => chain.target = .named "unsigned int" ∧
          InForce [unit.typedefs] chain.links.tail) &&
        ((last.2.aliases last.1).declared? "Y").any (fun chain =>
          chain.target = .named "unsigned int" ∧
            InForce [Statement.aliases last.2.body, unit.typedefs] chain.links.tail)) = true := by
    decide +kernel
  obtain ⟨unit, hparse, hunit⟩ := exists_unit_of_any hcheck
  obtain ⟨hfile, -, hbody⟩ := resolve_of_parse hparse
  obtain ⟨⟨before, f⟩, hlast, hunit⟩ := (Option.any_eq_true _ _).1 hunit
  have hdeclarations := TranslationUnit.declarations_of_lastFunction? hlast
  obtain ⟨hW, hY⟩ := Bool.and_eq_true_iff.1 hunit
  obtain ⟨chainW, hdeclaredW, hW⟩ := (Option.any_eq_true _ _).1 hW
  obtain ⟨chainY, hdeclaredY, hY⟩ := (Option.any_eq_true _ _).1 hY
  obtain ⟨htargetW, hforceW⟩ := of_decide_eq_true hW
  obtain ⟨htargetY, hforceY⟩ := of_decide_eq_true hY
  refine ⟨unit, f, hparse, by simp [hdeclarations], ?_, ?_⟩
  · rw [(hfile "W" chainW hdeclaredW hforceW).1, htargetW]
  · rw [((hbody before f [] hdeclarations).1 "Y" chainY hdeclaredY hforceY).1, htargetY]

/-- Where an alias is declared again, resolution does not follow the chain of a name.  It leaves a
name that is declared again as itself, at file scope or in a body, and goes on from a later
declaration of a name that stood for another type. -/
theorem resolve_redeclared :
    (∃ unit chain, parse "typedef int T; typedef T T;" none = .ok unit ∧
      unit.aliases.declared? "T" = some chain ∧ chain.target = .named "int" ∧
      unit.resolve (.named "T") = .named "T" ∧ unit.typedefs.get? "T" ≠ none) ∧
    (∃ unit chain, parse "typedef int A; typedef A B; typedef char A;" none = .ok unit ∧
      unit.aliases.declared? "B" = some chain ∧ chain.target = .named "int" ∧
      unit.resolve (.named "B") = .named "char") ∧
    ∃ unit before f behind chain,
      parse "typedef int T; void f(void) { typedef T T; }" none = .ok unit ∧
      unit.declarations = before ++ .function f :: behind ∧
      (f.aliases before).declared? "T" = some chain ∧ chain.target = .named "int" ∧
      unit.resolveIn f.body (.named "T") = .named "T" := by
  refine ⟨?itself, ?again, ?body⟩
  case itself =>
    have hcheck : (parse "typedef int T; typedef T T;" none).toOption.any (fun unit =>
        (unit.aliases.declared? "T").any fun chain => chain.target = .named "int" ∧
          unit.resolve (.named "T") = .named "T" ∧ unit.typedefs.get? "T" ≠ none) = true := by
      decide +kernel
    obtain ⟨unit, hparse, hunit⟩ := exists_unit_of_any hcheck
    obtain ⟨chain, hdeclared, hchain⟩ := (Option.any_eq_true _ _).1 hunit
    exact ⟨unit, chain, hparse, hdeclared, of_decide_eq_true hchain⟩
  case again =>
    have hcheck : (parse "typedef int A; typedef A B; typedef char A;" none).toOption.any
        (fun unit => (unit.aliases.declared? "B").any fun chain =>
          chain.target = .named "int" ∧ unit.resolve (.named "B") = .named "char") = true := by
      decide +kernel
    obtain ⟨unit, hparse, hunit⟩ := exists_unit_of_any hcheck
    obtain ⟨chain, hdeclared, hchain⟩ := (Option.any_eq_true _ _).1 hunit
    exact ⟨unit, chain, hparse, hdeclared, of_decide_eq_true hchain⟩
  case body =>
    have hcheck : (parse "typedef int T; void f(void) { typedef T T; }" none).toOption.any
        (fun unit => unit.lastFunction?.any fun last =>
          ((last.2.aliases last.1).declared? "T").any fun chain =>
            chain.target = .named "int" ∧
              unit.resolveIn last.2.body (.named "T") = .named "T") = true := by
      decide +kernel
    obtain ⟨unit, hparse, hunit⟩ := exists_unit_of_any hcheck
    obtain ⟨⟨before, f⟩, hlast, hunit⟩ := (Option.any_eq_true _ _).1 hunit
    obtain ⟨chain, hdeclared, hchain⟩ := (Option.any_eq_true _ _).1 hunit
    exact ⟨unit, before, f, [], chain, hparse,
      TranslationUnit.declarations_of_lastFunction? hlast, hdeclared, of_decide_eq_true hchain⟩

end CSyntax
