import CSyntax.Proofs.Prefix.Completion
import Mathlib.Tactic.FinCases

/-!
# Expressions — lexemes that begin an expression can be completed

An expression that has not begun is completed by a zero, and the operators behind an operand by
nothing.  Wherever lexemes run out, what is open is closed from the inside outwards.

A parenthesis that has run out makes a cast or belongs to `sizeof`: a type name and the closing
parenthesis complete it.
-/

namespace CSyntax
namespace Grammar

open Script Script.Viable

variable {depth : Nat} {fault : ParseError} {place : Place} {T : SymbolTable}

namespace Calls

theorem expression (calls : Calls depth fault) (limit : Precedence) :
    Viable (α := Expr) depth fault place (Script.rule (.expression limit)) (.only .zero) .closer
      fun _ => True :=
  (calls.anywhere (.expression limit) rfl rfl).weaken fun _ _ => trivial

theorem infixTail (calls : Calls depth fault) (limit : Precedence) (left : Expr) :
    Viable (α := Expr) depth fault place (Script.rule (.infixTail limit left)) .closer .closer
      fun _ => True :=
  (calls.anywhere (.infixTail limit left) rfl rfl).weaken fun _ _ => trivial

theorem postfixTail (calls : Calls depth fault) (operand : Expr) :
    Viable (α := Expr) depth fault place (Script.rule (.postfixTail operand)) .closer .closer
      fun _ => True :=
  (calls.anywhere (.postfixTail operand) rfl rfl).weaken fun _ _ => trivial

end Calls

/-! ## What is read off fillers -/

theorem opens_adjacentStrings (hT : T.KeywordFree) :
    adjacentStrings.Opens T .closer .closer := by
  refine Opens.look (a := "") hT ?_
  intro kind hkind position
  fin_cases hkind <;> rfl

theorem opens_postfixTail (hT : T.KeywordFree) (operand : Expr) :
    (postfixTail operand).Opens T .closer .closer := by
  refine Opens.look (a := operand) hT ?_
  intro kind hkind position
  fin_cases hkind <;> rfl

theorem opens_infixTail (hT : T.KeywordFree) (limit : Precedence) (left : Expr) :
    (infixTail limit left).Opens T .closer .closer := by
  refine Opens.look (a := left) hT ?_
  intro kind hkind position
  fin_cases hkind <;> rfl

theorem opens_primary : primary.Opens T (.only .zero) .closer := by
  refine ⟨[.zero], .integer (.start none) 0, T, fun after _ => Sequel.leads_cons after
    List.mem_cons_self, Reads.peek ?_⟩
  exact Reads.cons Reads.advance fun _ _ => .pure rfl

theorem opens_postfixed (hT : T.KeywordFree) : postfixed.Opens T (.only .zero) .closer := by
  have hready : Place.anywhere.Ready T := { keywordFree := hT, holds := trivial }
  have hsteady : primary.Steady .anywhere fun _ => True :=
    .of_orderly orderly_primary keeps_primary
  exact opens_primary.bind hsteady hready (List.Subset.refl _) fun operand U _ hU _ =>
    opens_postfixTail hU.keywordFree operand

/-- The zero that a level is read off is no operator in front of an operand. -/
theorem opens_unary (hT : T.KeywordFree) : unary.Opens T (.only .zero) .closer := by
  obtain ⟨c, value, U, hleads, hreads⟩ := opens_postfixed hT
  refine ⟨c, value, U, hleads, ?_⟩
  rintro v after hv rfl hafter
  obtain ⟨_, rfl, htakes⟩ := hreads v after hv rfl hafter
  obtain ⟨first, others, hpieces, hfirst⟩ := (hleads after hafter).faces hT
  rw [hpieces] at htakes ⊢
  have hkind : (v.next first).kind = .integer 0 := List.mem_singleton.1 hfirst
  refine ⟨_, rfl, Takes.peek.bind ?_⟩
  rw [hkind]
  exact htakes

theorem opens_expression (hT : T.KeywordFree) (limit : Precedence) :
    (expression limit).Opens T (.only .zero) .closer := by
  have hready : Place.anywhere.Ready T := { keywordFree := hT, holds := trivial }
  have hsteady : unary.Steady .anywhere fun _ => True := .of_orderly orderly_unary keeps_unary
  exact (opens_unary hT).bind hsteady hready (List.Subset.refl _) fun operand U _ hU _ =>
    opens_infixTail hU.keywordFree limit operand

theorem opens_arguments (hT : T.KeywordFree) : arguments.Opens T (.only .zero) .closer := by
  have hready : Place.anywhere.Ready T := { keywordFree := hT, holds := trivial }
  have hsteady : (expression .assignment).Steady .anywhere fun _ => True :=
    .of_orderly (orderly_expression _) (keeps_expression _)
  exact (opens_expression hT _).bind hsteady hready (List.Subset.refl _) fun _ U _ hU _ =>
    .accept_not .pure hU.keywordFree (by decide)

/-! ## Primary and postfix expressions -/

theorem viable_primary (calls : Calls depth fault) :
    primary.Viable depth fault place (.only .zero) .closer fun _ => True := by
  refine peek (.of_orderly orderly_primary keeps_primary) (fun T _ => opens_primary) ?_
  intro T piece p hT
  dsimp only
  split
  · exact .advance .pure
  · exact .advance .pure
  · split
    · exact .advance .pure
    · exact .fail
  · exact .advance .pure
  · exact behind hT (calls.anywhere .adjacentStrings rfl rfl).map
  · split
    · exact behind hT ((calls.expression .comma).bind (by decide) fun _ _ =>
        (expect (.punctuator .closeParen) (by decide)).map)
    · exact .refuse

theorem viable_adjacentStrings (calls : Calls depth fault) :
    adjacentStrings.Viable depth fault place .closer .closer fun _ => True := by
  refine peek (.of_orderly orderly_adjacentStrings keeps_adjacentStrings)
    (fun T hT => opens_adjacentStrings hT.keywordFree) ?_
  intro T piece p hT
  dsimp only
  split
  · exact behind hT (calls.anywhere .adjacentStrings rfl rfl).map
  · exact .pure

theorem viable_callArguments (calls : Calls depth fault) :
    callArguments.Viable depth fault place (.only .zero) .closer fun _ => True := by
  refine accept (N := .closer) done ?_ (by decide)
  refine (calls.anywhere .arguments rfl rfl).bind (N := .only (.punctuator .closeParen)) (by decide)
    fun values _ => ?_
  exact expectOneOf (.punctuator .closeParen) (by decide) trivial

theorem viable_postfixTail (calls : Calls depth fault) (operand : Expr) :
    (postfixTail operand).Viable depth fault place .closer .closer fun _ => True := by
  refine peek (.of_orderly (orderly_postfixTail operand) (keeps_postfixTail operand))
    (fun T hT => opens_postfixTail hT.keywordFree operand) ?_
  intro T piece p hT
  dsimp only
  split
  · exact behind hT ((calls.expression .comma).bind (by decide) fun _ _ =>
      (expect (.punctuator .closeBracket) (by decide)).andThen fun _ _ => calls.postfixTail _)
  · exact behind hT ((viable_callArguments calls).andThen fun _ _ => calls.postfixTail _)
  · exact behind hT (expectWord.andThen fun _ _ => calls.postfixTail _)
  · exact behind hT (expectWord.andThen fun _ _ => calls.postfixTail _)
  · exact behind hT (calls.postfixTail _)
  · exact behind hT (calls.postfixTail _)
  · exact .pure

theorem viable_postfixed (calls : Calls depth fault) :
    postfixed.Viable depth fault place (.only .zero) .closer fun _ => True :=
  (viable_primary calls).andThen fun operand _ => viable_postfixTail calls operand

/-! ## Types in parentheses -/

/-- What is read behind a parenthesis with the beginning of a type name. -/
def enclosedType : Script (Option CType) := do
  let type ← rule .typeName
  let _ ← expectMark .closeParen
  return some type

section

variable {v : View} {p : List Piece} {opening first : Piece}

theorem takes_enclosedType {w : View} {found : Option CType} (hv : v.taken = none)
    (hopening : v.kind opening = .punctuator .openParen)
    (hfirst : (v.kind first).startsTypeName = true)
    (h : enclosedType.Takes (v.facing (first :: p)) found w) :
    parenthesizedType?.Takes (v.facing (opening :: first :: p)) found w := by
  refine Takes.nextIs.bind ?_
  rw [if_pos (by simpa using hopening)]
  refine Takes.bind (w := { v.facing (opening :: first :: p) with taken := some [] })
    (Takes.request rfl Takes.pure) ?_
  refine Takes.bind (a := v.next opening)
    (w := { v.facing (first :: p) with taken := some [opening] })
    (Takes.request rfl Takes.pure) ?_
  refine Takes.bind (a := v.next first) (Takes.request rfl Takes.pure) ?_
  rw [View.kind_next, hfirst, if_pos rfl]
  refine Takes.bind (a := ()) (w := v.facing (first :: p)) (Takes.request ?_ Takes.pure) h
  simp [View.perform, View.facing, hv]

theorem barred_enclosedType (hv : v.taken = none)
    (hopening : v.kind opening = .punctuator .openParen)
    (hfirst : (v.kind first).startsTypeName = true)
    (h : enclosedType.Barred (v.facing (first :: p))) :
    parenthesizedType?.Barred (v.facing (opening :: first :: p)) := by
  refine Barred.rest Takes.nextIs ?_
  rw [if_pos (by simpa using hopening)]
  refine Barred.rest (w := { v.facing (opening :: first :: p) with taken := some [] })
    (Takes.request rfl Takes.pure) ?_
  refine Barred.rest (a := v.next opening)
    (w := { v.facing (first :: p) with taken := some [opening] })
    (Takes.request rfl Takes.pure) ?_
  refine Barred.rest (a := v.next first) (Takes.request rfl Takes.pure) ?_
  rw [View.kind_next, hfirst, if_pos rfl]
  refine Barred.rest (a := ()) (w := v.facing (first :: p)) (Takes.request ?_ Takes.pure) h
  simp [View.perform, View.facing, hv]

end

theorem viable_enclosedType (calls : Calls depth fault) :
    enclosedType.Viable depth fault place (.only .int) .closer fun _ => True :=
  (calls.anywhere .typeName rfl rfl).bind (by decide) fun _ _ =>
    (expect (.punctuator .closeParen) (by decide)).map

/-- If the parenthesis stands behind a mark, the lexemes have run out before it is known whether a
type name comes, or in the type name. -/
theorem starves_parenthesizedType? {opening : Piece} {p : List Piece}
    (hstarves : parenthesizedType?.Starves (Parser.StarvesAt depth)
      (.alone T (opening :: p) fault)) :
    T.classify opening.lexeme = .punctuator .openParen ∧
      (p = [] ∨ ∃ first others, p = first :: others ∧
        (T.classify first.lexeme).startsTypeName = true ∧
        enclosedType.Starves (Parser.StarvesAt depth) (.alone T p fault)) := by
  change (if decide (T.classify opening.lexeme = .punctuator .openParen) = true then _
    else Pure.pure none : Script (Option CType)).Starves _ _ at hstarves
  split at hstarves
  · rename_i hopening
    refine ⟨by simpa using hopening, ?_⟩
    cases p with
    | nil => exact Or.inl rfl
    | cons first others =>
        refine Or.inr ⟨first, others, rfl, ?_⟩
        change (if (T.classify first.lexeme).startsTypeName = true then _ else _ :
          Script (Option CType)).Starves _ _ at hstarves
        split at hstarves
        · exact ⟨‹_›, hstarves⟩
        · exact hstarves.elim
  · exact hstarves.elim

theorem viable_parenthesizedType? (calls : Calls depth fault) :
    parenthesizedType?.Viable depth fault place .closer .closer fun _ => True where
  steady := .of_orderly orderly_parenthesizedType? keeps_parenthesizedType?
  continues T hT := by
    have hopens : parenthesizedType?.Opens T .closer .closer := by
      refine Opens.look (a := none) hT.keywordFree ?_
      intro kind hkind position
      fin_cases hkind <;> rfl
    refine { opens := hopens, resumes := fun p => ?_ }
    cases p with
    | nil => exact .of_opens hopens
    | cons opening p =>
        intro hstarves
        obtain ⟨hopening, rfl | ⟨first, others, rfl, hfirst, hinside⟩⟩ :=
          starves_parenthesizedType? hstarves
        · obtain ⟨c, a, U, hleads, hreads⟩ := (viable_enclosedType calls).opens hT
          refine Or.inl ⟨a, c, U, ?_⟩
          rintro v after hv rfl hafter
          obtain ⟨_, rfl, htakes⟩ := hreads v after hv rfl hafter
          obtain ⟨first, others, hpieces, hfirst⟩ := (hleads after hafter).faces hT.keywordFree
          rw [hpieces] at htakes
          refine ⟨_, rfl, ?_⟩
          rw [List.singleton_append, List.cons_append, hpieces]
          refine takes_enclosedType hv hopening ?_ htakes
          rw [show v.kind first = .keyword .int from List.mem_singleton.1 hfirst]
          rfl
        · rcases (viable_enclosedType calls).resumes hT _ hinside with
            ⟨a, c, U, hreads⟩ | hbarred
          · refine Or.inl ⟨a, c, U, ?_⟩
            rintro v after hv rfl hafter
            obtain ⟨_, rfl, htakes⟩ := hreads v after hv rfl hafter
            exact ⟨_, rfl, takes_enclosedType hv hopening hfirst htakes⟩
          · exact Or.inr (barred_enclosedType (v := .alone T [] fault) rfl hopening hfirst hbarred)

/-! ## Operators in front and between -/

theorem viable_unary (calls : Calls depth fault) :
    unary.Viable depth fault place (.only .zero) .closer fun _ => True := by
  refine peek (.of_orderly orderly_unary keeps_unary) (fun T hT => opens_unary hT.keywordFree) ?_
  intro T piece p hT
  dsimp only
  split
  · refine behind hT (Q := fun _ => True) ((viable_parenthesizedType? calls).bind
      (List.Subset.refl _) fun type _ => ?_)
    cases type with
    | none => exact (calls.expression .unary).map.mono (by decide) (List.Subset.refl _) fun _ => id
    | some type => exact done
  · refine Viable.resumes (P := fun _ => True) ((viable_parenthesizedType? calls).bind
      (N := .only .zero) (by decide) fun type _ => ?_) hT _
    cases type with
    | none => exact viable_postfixed calls
    | some type => exact (calls.expression .unary).map
  · split
    · exact behind hT (calls.expression .unary).map
    · exact .refuse
  · exact (viable_postfixed calls).resumes hT _

theorem viable_operation (calls : Calls depth fault) (operator : InfixOperator) (left : Expr) :
    (operation operator left).Viable depth fault place (.only .zero) .closer fun _ => True := by
  cases operator with
  | binary op => exact (calls.expression _).map
  | assign op => exact (calls.expression _).map
  | conditional =>
      exact (calls.expression _).bind (by decide) fun _ _ =>
        (expect (.punctuator .colon) (by decide)).andThen fun _ _ =>
          (calls.expression _).map

theorem viable_infixTail (calls : Calls depth fault) (limit : Precedence) (left : Expr) :
    (infixTail limit left).Viable depth fault place .closer .closer fun _ => True := by
  have hsteady : (infixTail limit left).Steady place fun _ => True :=
    .of_orderly (orderly_infixTail limit left) (keeps_infixTail limit left)
  have hopens : ∀ T, place.Ready T → (infixTail limit left).Opens T .closer .closer :=
    fun T hT => opens_infixTail hT.keywordFree limit left
  rw [infixTail_eq] at hsteady hopens ⊢
  refine peek hsteady hopens ?_
  intro T piece p hT
  dsimp only
  split
  · exact behind hT ((viable_operation calls _ left).andThen fun value _ =>
      calls.infixTail limit value)
  · exact .pure

theorem viable_expression (calls : Calls depth fault) (limit : Precedence) :
    (expression limit).Viable depth fault place (.only .zero) .closer fun _ => True :=
  (viable_unary calls).andThen fun operand _ => viable_infixTail calls limit operand

theorem viable_arguments (calls : Calls depth fault) :
    arguments.Viable depth fault place (.only .zero) .closer fun _ => True :=
  (viable_expression calls .assignment).andThen fun _ _ =>
    accept ((calls.anywhere .arguments rfl rfl).map) done (by decide)

end Grammar
end CSyntax
