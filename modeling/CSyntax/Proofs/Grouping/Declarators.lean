import CSyntax.Proofs.Grouping.Expressions

/-!
# Declarators — declarators and initial values do not reach over a separator

A declarator with a name and the initial value behind it end at a semicolon or a comma alike.  The
other declarators, specifiers, members and lists are read in parentheses or braces.  With these, all
rules that are called on the way are local (`Seam.calls`), and so is a declarator with its initial
value as a whole (`Grammar.local_initDeclarator`).
-/

namespace CSyntax
namespace Grammar

open Script Script.Local

variable {σ : Seam} {depth : Nat}

/-! ## Declarators -/

theorem local_pointerTail (calls : σ.Calls depth) : pointerTail.Local σ depth true := by
  refine peekPure (b := 0) (fun token => ?_) fun _ => ⟨rfl, rfl⟩
  split
  · exact advance.bind fun _ => (calls .pointerTail rfl).map
  · exact advance.bind fun _ => calls .pointerTail rfl
  · exact advance.bind fun _ => calls .pointerTail rfl
  · exact pure

theorem local_pointers (calls : σ.Calls depth) : pointers.Local σ depth true := by
  refine (Local.accept fun _ => by decide).bind fun found => ?_
  split
  · exact (calls .pointerTail rfl).map
  · exact pure

theorem local_isVoid_inside : parameterList.isVoid.Local σ depth false := by
  refine nextIsInside.within fun is => ?_
  split
  · exact second (fun _ => pure) fun _ => ⟨(rfl : _ = Pure.pure false), rfl⟩
  · exact pure

/-- Where the seam comes next there is no `void`, and no second token is looked at. -/
theorem local_isVoid : parameterList.isVoid.Local σ depth true where
  unmarked := local_isVoid_inside.unmarked (σ := σ)
  across {v w front after found} hv hread hahead _ := by
    obtain ⟨is, u, hnext, hrest⟩ := bind_of_read hread
    obtain ⟨rfl, token, htoken, rfl⟩ := nextIs_of_read hnext
    cases front with
    | nil =>
        obtain rfl : v.next σ.mark = token := Option.some_inj.1 htoken
        rw [View.kind_next, σ.kind_mark, if_neg (by decide)] at hrest
        obtain ⟨rfl, rfl⟩ := pure_of_read hrest
        obtain rfl := List.append_cancel_right (show [] ++ _ = after ++ _ from hahead)
        have hother : decide ((σ.across v []).kind σ.other = .keyword .void) = false := by
          rcases σ.kind_other v with hkind | hkind <;> exact hkind ▸ rfl
        refine Takes.bind (Takes.nextIs (v := σ.across v [])) ?_
        rw [hother]
        exact Takes.pure
    | cons piece others =>
        -- Nothing has been taken, so what was in front of the seam is left.
        have hw : σ.before v (piece :: others) = w := by
          split at hrest
          · obtain ⟨_, _, hpeek, hpure⟩ := bind_of_read hrest
            obtain ⟨rfl, -⟩ := peekNth_of_read hpeek
            exact (pure_of_read hpure).2
          · exact (pure_of_read hrest).2
        subst hw
        obtain rfl := List.append_cancel_right
          (show (piece :: others) ++ _ = after ++ _ from hahead)
        exact local_isVoid_inside.across hv hread hahead fun _ => List.cons_ne_nil _ _

theorem local_parametersUnlessClosed (calls : σ.Calls depth) :
    parameterList.parametersUnlessClosed.Local σ depth false := by
  refine nextIsInside.within fun closed => ?_
  split
  · exact pure
  · exact calls .parameters rfl

theorem local_parameterList (calls : σ.Calls depth) : parameterList.Local σ depth true := by
  refine local_isVoid.bind fun found => ?_
  split
  · exact advance.bind fun _ => advance.map
  · exact (Local.enter _).bind fun _ => (local_parametersUnlessClosed calls).upTo (by decide)
      fun _ _ => (Local.leave _).map

theorem local_suffixes (calls : σ.Calls depth) : suffixes.Local σ depth true := by
  have more : (rule .suffixes).Local σ depth true := calls .suffixes rfl
  refine (Local.accept fun _ => by decide).bind fun found => ?_
  split
  · refine (Local.accept fun _ => by decide).bind fun closed => ?_
    split
    · exact more.map
    · exact (calls (.expression .conditional) rfl).upTo (by decide) fun _ _ => more.map
  · refine (Local.accept fun _ => by decide).bind fun found => ?_
    split
    · exact (local_parameterList calls).bind fun _ => more.map
    · exact pure

theorem local_opensDeclarator (mode : DeclaratorMode) :
    (opensDeclarator mode).Local σ depth (mode = .named) := by
  cases mode with
  | named => exact pure
  | nameless | either =>
      refine second (fun token => ?_) fun _ => ⟨rfl, rfl⟩
      split <;> exact pure

theorem local_declaratorCore (calls : σ.Calls depth) (mode : DeclaratorMode) :
    (declaratorCore mode).Local σ depth (mode = .named) := by
  refine look (fun token => ?_) fun hmode => .inl fun _ => ?_
  · split
    · split
      · exact pure
      · exact advance.map
    · split
      · exact pure
      · exact advance.map
    · refine (local_opensDeclarator mode).sequence (fun opens => ?_) (by cases mode <;> simp)
      split
      · exact advance.bind fun _ => (calls (.declarator mode) rfl).upTo (by decide) fun _ _ => pure
      · exact pure
    · split
      · exact refuse
      · exact pure
  · dsimp only
    rw [if_pos (of_decide_eq_true hmode)]
    exact .refuse

theorem local_declarator (calls : σ.Calls depth) (mode : DeclaratorMode) :
    (declarator mode).Local σ depth (mode = .named) :=
  (local_pointers calls).bind fun count => (local_declaratorCore calls mode).sequence
    (fun core => (local_suffixes calls).map) (by cases mode <;> simp)

/-! ## Records and enumerations -/

theorem local_requireTag (tag : Option String) : (requireTag tag).Local σ depth false := by
  unfold requireTag
  split
  · exact pure
  · exact peek fun _ => refuse

theorem local_record (calls : σ.Calls depth) (kind : RecordKind) :
    (record kind).Local σ depth false := by
  refine Local.acceptWord.bind fun tag => acceptInside.within fun found => ?_
  split
  · exact (Local.enter _).bind fun _ => (calls .members rfl).upTo (by decide) fun _ _ =>
      (Local.leave _).map
  · exact (local_requireTag tag).within fun _ => pure

theorem local_recordType (calls : σ.Calls depth) : recordType.Local σ depth false := by
  refine advance.bind fun token => ?_
  split
  · exact local_record calls .struct
  · exact local_record calls .union
  · exact contradictAt

theorem local_enumeration (calls : σ.Calls depth) : enumeration.Local σ depth false := by
  refine Local.acceptWord.bind fun tag => acceptInside.within fun found => ?_
  split
  · exact (calls .enumerators rfl).upTo (by decide) fun _ _ => pure
  · exact (local_requireTag tag).within fun _ => pure

theorem local_enumerationType (calls : σ.Calls depth) : enumerationType.Local σ depth false :=
  (Local.expect (by decide)).bind fun _ => local_enumeration calls

theorem local_enumerator (calls : σ.Calls depth) : enumerator.Local σ depth false := by
  refine Local.expectWord.bind fun name => (Local.declareEnumerator name).bind fun _ =>
    acceptInside.within fun found => ?_
  split
  · exact (calls (.expression .conditional) rfl).within fun _ => pure
  · exact pure

theorem local_enumerators (calls : σ.Calls depth) : enumerators.Local σ depth false := by
  refine nextIsInside.within fun closed => ?_
  split
  · exact pure
  · refine (local_enumerator calls).within fun first => acceptInside.within fun found => ?_
    split
    · exact (calls .enumerators rfl).within fun _ => pure
    · exact pure

/-! ## Specifiers -/

theorem local_typeWord (tally : SpecifierTally) (token : Token) (word : Keyword) :
    (typeWord tally token word).Local σ depth false := by
  unfold typeWord
  split
  · exact refuse
  · refine advance.bind fun _ => ?_
    split
    · split
      · exact pure
      · exact refuse
    · exact contradictAt

theorem local_taggedType (calls : σ.Calls depth) (tally : SpecifierTally) (token : Token)
    (word : Keyword) : (taggedType tally token word).Local σ depth false := by
  unfold taggedType
  split
  · exact refuse
  · split
    · exact (local_enumerationType calls).within fun _ => pure
    · exact (local_recordType calls).within fun _ => pure

theorem local_specifier (calls : σ.Calls depth) (tally : SpecifierTally) :
    (specifier tally).Local σ depth false := by
  refine peek fun token => ?_
  split
  · split
    · split
      · exact refuse
      · exact advance.map
    · split
      · exact advance.map
      · split
        · exact (local_typeWord tally token _).within fun _ => pure
        · split
          · exact (local_taggedType calls tally token _).within fun _ => pure
          · exact pure
  · split
    · exact pure
    · exact advance.map
  · exact pure

theorem local_specifierTail (calls : σ.Calls depth) (tally : SpecifierTally) :
    (specifierTail tally).Local σ depth false := by
  refine (local_specifier calls tally).within fun found => ?_
  split
  · exact calls (.specifierTail _) rfl
  · exact pure

theorem local_specifiers (calls : σ.Calls depth) : specifiers.Local σ depth false := by
  refine here.within fun position => (local_specifierTail calls .empty).within fun tally => ?_
  split
  · exact pure
  · exact peek fun _ => refuse

theorem local_typeName (calls : σ.Calls depth) : typeName.Local σ depth false :=
  (local_specifiers calls).within fun _ => (local_declarator calls .nameless).within fun _ => pure

/-! ## Parameters and members -/

theorem local_parameter (calls : σ.Calls depth) : parameter.Local σ depth false := by
  refine here.within fun position => (local_specifiers calls).within fun specifiers =>
    (local_declarator calls .either).within fun d => ?_
  dsimp only
  split
  · exact (Local.declare _ _).bind fun _ => pure
  · exact pure

theorem local_parameters (calls : σ.Calls depth) : parameters.Local σ depth false := by
  refine acceptInside.within fun found => ?_
  split
  · exact pure
  · refine (local_parameter calls).within fun first => acceptInside.within fun found => ?_
    split
    · exact (calls .parameters rfl).within fun _ => pure
    · exact pure

theorem local_memberDeclarators (calls : σ.Calls depth) (specifiers : Specifiers) :
    (memberDeclarators specifiers).Local σ depth false := by
  refine (local_declarator calls .named).within fun d => ?_
  split
  · exact contradict
  · refine acceptInside.within fun found => ?_
    split
    · exact (calls (.memberDeclarators specifiers) rfl).within fun _ => pure
    · exact pure

theorem local_memberDeclaration (calls : σ.Calls depth) :
    memberDeclaration.Local σ depth false := by
  refine (local_specifiers calls).within fun specifiers => ?_
  split
  · exact fail
  · refine (calls (.memberDeclarators specifiers) rfl).within fun members => peek fun token => ?_
    split
    · exact advance.map
    · exact refuse

theorem local_members (calls : σ.Calls depth) : members.Local σ depth false := by
  refine nextIsInside.within fun closed => ?_
  split
  · exact pure
  · exact (local_memberDeclaration calls).within fun first =>
      (calls .members rfl).within fun _ => pure

/-! ## Initial values -/

/-- No initial value begins with a semicolon. -/
theorem stuck_expression (limit : Precedence) : (expression limit).Stuck σ depth :=
  Stuck.bind (.peek fun _ => .refuse)

theorem local_initialValue (calls : σ.Calls depth) : initialValue.Local σ depth true := by
  refine here.closed (fun position => ?_) fun _ => .accept (by decide) (stuck_expression _)
  refine (Local.accept fun _ => by decide).bind fun found => ?_
  split
  · exact (calls .initializerItems rfl).upTo (by decide) fun _ _ => pure
  · exact local_expression calls .assignment

theorem local_initializerItems (calls : σ.Calls depth) : initializerItems.Local σ depth false := by
  refine nextIsInside.within fun closed => ?_
  split
  · exact pure
  · refine (local_initialValue calls).within fun first => acceptInside.within fun found => ?_
    split
    · exact (calls .initializerItems rfl).within fun _ => pure
    · exact pure

theorem local_initial? (calls : σ.Calls depth) (specifiers : Specifiers) :
    (initial? specifiers).Local σ depth true := by
  unfold initial?
  split
  · exact pure
  · refine (Local.accept fun _ => by decide).bind fun found => ?_
    split
    · exact (local_initialValue calls).map
    · exact pure

theorem local_initDeclarator (calls : σ.Calls depth) (specifiers : Specifiers) (d : Declarator) :
    (initDeclarator specifiers d).Local σ depth true := by
  unfold initDeclarator
  split
  · exact contradict
  · exact (Local.declare _ _).bind fun _ => (local_initial? calls specifiers).map

end Grammar

/-! ## All rules -/

/-- All rules that are called in a declarator or an initial value are local. -/
theorem Seam.calls (σ : Seam) (depth : Nat) : σ.Calls depth := by
  induction depth with
  | zero =>
      intro f _
      exact { unmarked := fun _ => nofun, across := fun _ => nofun }
  | succ depth ih =>
      intro f hinner
      refine .rule ?_
      cases f with
      | expression limit => exact Grammar.local_expression ih limit
      | infixTail limit left => exact Grammar.local_infixTail ih limit left
      | postfixTail operand => exact Grammar.local_postfixTail ih operand
      | «arguments» => exact Grammar.local_arguments ih
      | adjacentStrings => exact Grammar.local_adjacentStrings ih
      | typeName => exact Grammar.local_typeName ih
      | specifierTail tally => exact Grammar.local_specifierTail ih tally
      | members => exact Grammar.local_members ih
      | memberDeclarators specifiers => exact Grammar.local_memberDeclarators ih specifiers
      | enumerators => exact Grammar.local_enumerators ih
      | pointerTail => exact Grammar.local_pointerTail ih
      | declarator mode => exact (Grammar.local_declarator ih mode).inside
      | suffixes => exact Grammar.local_suffixes ih
      | «parameters» => exact Grammar.local_parameters ih
      | initializerItems => exact Grammar.local_initializerItems ih
      | initDeclarators _ | statement | blockItems | externalDeclarations => cases hinner

end CSyntax
