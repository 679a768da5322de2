import CSyntax.Proofs.Expression.Soundness
import CSyntax.Proofs.Grouping.Seam
import CSyntax.Proofs.Prefix.Expressions

/-!
# Expressions — operators do not reach over a separator

An expression ends at a semicolon, and at a comma unless it is one of the loosest stratum, to which
the comma belongs as an operator.  Where such an expression is read there are parentheses or brackets
around it, so that it never comes to the seam.
-/

namespace CSyntax

/-! ## Rules that are called -/

namespace Nonterminal

/-- Whether the rule may end at the seam.  The others ask for a comma, or have a closing mark behind
them. -/
def touches : Nonterminal → Bool
  | .expression limit | .infixTail limit _ => limit ≠ .comma
  | .postfixTail _ | .adjacentStrings | .suffixes | .pointerTail => true
  | _ => false

/-- Whether the rule may be called in a declarator or an initial value. -/
def isInner : Nonterminal → Bool
  | .initDeclarators _ | .statement | .blockItems | .externalDeclarations => false
  | _ => true

end Nonterminal

/-- What is known of the rules that are called. -/
def Seam.Calls (σ : Seam) (depth : Nat) : Prop :=
  ∀ f : Nonterminal, f.isInner = true → (Script.rule f).Local σ depth f.touches

namespace Grammar

open Script Script.Local

variable {σ : Seam} {depth : Nat}

/-! ## Operands -/

theorem local_adjacentStrings (calls : σ.Calls depth) : adjacentStrings.Local σ depth true := by
  refine peekPure (b := "") (fun token => ?_) fun _ => ⟨rfl, rfl⟩
  split
  · exact advance.bind fun _ => (calls .adjacentStrings rfl).map
  · exact pure

theorem local_primary (calls : σ.Calls depth) : primary.Local σ depth true := by
  refine peekStuck (fun token => ?_) fun _ => ?_
  · split
    · exact advance.map
    · exact advance.map
    · split
      · exact advance.map
      · exact fail
    · exact advance.map
    · exact advance.bind fun _ => (calls .adjacentStrings rfl).map
    · split
      · exact advance.bind fun _ =>
          (calls (.expression .comma) rfl).upTo (by decide) fun _ _ => pure
      · exact refuse
  · exact .refuse

theorem local_callArguments (calls : σ.Calls depth) : callArguments.Local σ depth true := by
  refine (Local.accept fun _ => by decide).bind fun closed => ?_
  split
  · exact pure
  · refine (calls .arguments rfl).closed (fun values => peekStuck (fun token => ?_) fun _ => ?_)
      fun values => .peek fun _ => ?_
    · split
      · exact advance.map
      · exact refuse
    · exact .refuse
    · exact .refuse

theorem local_postfixTail (calls : σ.Calls depth) (operand : Expr) :
    (postfixTail operand).Local σ depth true := by
  have tail : ∀ operand, (Script.rule (.postfixTail operand)).Local σ depth true :=
    fun operand => calls (.postfixTail operand) rfl
  refine peekPure (b := operand) (fun token => ?_) fun _ => ⟨rfl, rfl⟩
  split
  · exact advance.bind fun _ => (calls (.expression .comma) rfl).upTo (by decide) fun _ _ => tail _
  · exact advance.bind fun _ => (local_callArguments calls).bind fun _ => tail _
  · exact advance.bind fun _ => expectWord.bind fun _ => tail _
  · exact advance.bind fun _ => expectWord.bind fun _ => tail _
  · exact advance.bind fun _ => tail _
  · exact advance.bind fun _ => tail _
  · exact pure

theorem local_postfixed (calls : σ.Calls depth) : postfixed.Local σ depth true :=
  (local_primary calls).bind fun operand => local_postfixTail calls operand

/-! ## Types in parentheses -/

theorem local_enclosedType (calls : σ.Calls depth) : enclosedType.Local σ depth true :=
  (calls .typeName rfl).upTo (by decide) fun _ _ => pure

/-- Either nothing is taken, or a type is read behind the parenthesis. -/
theorem enclosedType_of_read {v w : View} {pieces : List Piece} {type? : Option CType}
    (hv : v.taken = none)
    (h : parenthesizedType?.read (Parser.readAt depth) (v.facing pieces) = some (type?, w)) :
    (type? = none ∧ w = v.facing pieces ∧ ∀ opening first others,
      pieces = opening :: first :: others → v.kind opening = .punctuator .openParen →
        (v.kind first).startsTypeName = false) ∨
    ∃ opening first others, pieces = opening :: first :: others ∧
      v.kind opening = .punctuator .openParen ∧ (v.kind first).startsTypeName = true ∧
      enclosedType.read (Parser.readAt depth) (v.facing (first :: others)) = some (type?, w) := by
  refine (parenthesizedType?_of_read hv h).imp_right ?_
  rintro ⟨opening, first, others, type, u, token, rfl, rfl, hopening, hfirst, hname, hclose⟩
  refine ⟨opening, first, others, rfl, hopening, hfirst, ?_⟩
  rw [enclosedType, read_bind, read_rule, hname, Option.bind_some]
  dsimp only
  rw [read_bind, hclose]
  rfl

/-- The parenthesis is put back if what comes behind it is no type name, such as a separator. -/
theorem local_parenthesizedType? (calls : σ.Calls depth) :
    parenthesizedType?.Local σ depth true where
  unmarked {v w type?} hv hread := by
    have hfacing : parenthesizedType?.read (Parser.readAt depth) (v.facing v.ahead) =
        some (type?, w) := hread
    rcases enclosedType_of_read hv hfacing with
      ⟨-, rfl, -⟩ | ⟨_, _, _, -, -, -, henclosed⟩
    · exact hv
    · exact (local_enclosedType calls).unmarked (by exact hv) henclosed
  across {v w front after type?} hv hread hahead hafter := by
    have hother : ((v.kind σ.other).startsTypeName = false ∧
        v.kind σ.other ≠ .punctuator .openParen) := by
      rcases σ.kind_other v with hkind | hkind <;> rw [hkind] <;> decide
    rcases enclosedType_of_read hv hread with
      ⟨rfl, rfl, hnot⟩ | ⟨opening, first, others, hpieces, hopening, hfirst, henclosed⟩
    · obtain rfl := List.append_cancel_right (show front ++ _ = after ++ _ from hahead)
      cases front with
      | nil =>
          exact takes_parenthesizedType?_of_not (v := σ.across v []) hv
            fun hkind => absurd hkind hother.2
      | cons opening others =>
          refine takes_parenthesizedType?_of_not (v := σ.across v []) hv fun hkind => ?_
          cases others with
          | nil => exact ⟨σ.other, σ.otherRest, rfl, hother.1⟩
          | cons first others => exact ⟨first, _, rfl, hnot opening first _ rfl hkind⟩
    · -- The separator neither is a parenthesis nor begins a type name.
      have hmark := σ.kind_mark v
      rcases front with _ | ⟨piece, _ | ⟨second, front⟩⟩
      · obtain ⟨rfl, -⟩ := List.cons.inj hpieces
        simp [hmark] at hopening
      · obtain ⟨rfl, -⟩ := List.cons.inj (List.cons.inj hpieces).2
        simp [hmark, TokenKind.startsTypeName] at hfirst
      · obtain ⟨rfl, hrest⟩ := List.cons.inj hpieces
        obtain ⟨rfl, rfl⟩ := List.cons.inj hrest
        have hinside : enclosedType.read (Parser.readAt depth) (σ.before v (second :: front)) =
            some (type?, w) := henclosed
        exact takes_enclosedType (v := σ.across v []) hv hopening hfirst
          ((local_enclosedType calls).across hv hinside hahead hafter)

/-! ## Operators -/

theorem local_unary (calls : σ.Calls depth) : unary.Local σ depth true := by
  have operand : (Script.rule (.expression .unary)).Local σ depth true :=
    calls (.expression .unary) rfl
  refine peekStuck (fun token => ?_) fun _ => .refuse
  split
  · refine advance.bind fun _ => (local_parenthesizedType? calls).bind fun type => ?_
    split
    · exact pure
    · exact operand.map
  · refine (local_parenthesizedType? calls).bind fun type => ?_
    split
    · exact operand.map
    · exact local_postfixed calls
  · split
    · exact advance.bind fun _ => operand.map
    · exact refuse
  · exact local_postfixed calls

theorem local_operation (calls : σ.Calls depth) (operator : InfixOperator) (left : Expr) :
    (operation operator left).Local σ depth true := by
  -- What stands to the right of an operator binds more tightly than the comma.
  have right : (Script.rule (.expression operator.operand)).Local σ depth true := by
    have hcomma : operator.operand ≠ .comma := by
      rcases operator with operator | _ | _
      · cases operator <;> decide
      · exact nofun
      · exact nofun
    have hrule := calls (.expression operator.operand) rfl
    rwa [Nonterminal.touches, decide_eq_true hcomma] at hrule
  cases operator with
  | binary op => exact right.map
  | assign op => exact right.map
  | conditional => exact (calls (.expression .comma) rfl).upTo (by decide) fun _ _ => right.map

theorem local_infixTail (calls : σ.Calls depth) (limit : Precedence) (left : Expr) :
    (infixTail limit left).Local σ depth (limit ≠ .comma) := by
  rw [infixTail_eq]
  refine look (fun token => ?_) fun hlimit => .inr ⟨left, fun _ => ⟨rfl, ?_⟩⟩
  · split
    · exact advance.bind fun _ => (local_operation calls _ left).bind fun value =>
        calls (.infixTail limit value) rfl
    · exact pure
  · cases limit <;> first | rfl | simp at hlimit

theorem local_expression (calls : σ.Calls depth) (limit : Precedence) :
    (expression limit).Local σ depth (limit ≠ .comma) :=
  (local_unary calls).bind fun operand => local_infixTail calls limit operand

theorem local_arguments (calls : σ.Calls depth) : arguments.Local σ depth false := by
  refine (local_expression calls .assignment).within fun first =>
    acceptInside.within fun found => ?_
  split
  · exact (calls .arguments rfl).within fun _ => pure
  · exact pure

end Grammar
end CSyntax
