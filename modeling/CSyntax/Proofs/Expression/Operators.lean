import CSyntax.Parser.Expression

/-!
# Operators — infix operators and their levels

The parser goes by priorities: it takes an operator whose priority is at most that of the level, and
reads the right operand up to the operator's second number.  Proofs about expressions go by the
levels themselves.  This file joins the two:

* `InfixOperator` — what may follow a finished operand, with its level and that of its right
  operand;
* `Precedence.priority_le_iff`, `Precedence.priority_le_upTo` — priorities compare as levels do, and
  the level up to a number has just the operators up to that number;
* `InfixOperator.upTo_right` — the second number of an operator stands for the level of its right
  operand;
* `Grammar.infixTail_eq` — the rule for infix operators in the terms of levels.  Every token with
  priorities is one of the operators, so neither contradiction of the rule is left.
-/

namespace CSyntax

namespace Precedence

/-- The number of levels that bind tighter. -/
def rank : Precedence → Nat
  | .unary => 0
  | .multiplicative => 1
  | .additive => 2
  | .shift => 3
  | .relational => 4
  | .equality => 5
  | .bitwiseAnd => 6
  | .bitwiseXor => 7
  | .bitwiseOr => 8
  | .logicalAnd => 9
  | .logicalOr => 10
  | .conditional => 11
  | .assignment => 12
  | .comma => 13

/-- The next tighter level. -/
def tighter : Precedence → Precedence
  | .unary => .unary
  | .multiplicative => .unary
  | .additive => .multiplicative
  | .shift => .additive
  | .relational => .shift
  | .equality => .relational
  | .bitwiseAnd => .equality
  | .bitwiseXor => .bitwiseAnd
  | .bitwiseOr => .bitwiseXor
  | .logicalAnd => .bitwiseOr
  | .logicalOr => .logicalAnd
  | .conditional => .logicalOr
  | .assignment => .conditional
  | .comma => .assignment

theorem rank_tighter (p : Precedence) : p.tighter.rank = p.rank - 1 := by
  cases p <;> rfl

end Precedence

namespace BinaryOperator

def precedence : BinaryOperator → Precedence
  | .multiply | .divide | .remainder => .multiplicative
  | .add | .subtract => .additive
  | .shiftLeft | .shiftRight => .shift
  | .less | .greater | .lessEqual | .greaterEqual => .relational
  | .equal | .notEqual => .equality
  | .bitwiseAnd => .bitwiseAnd
  | .bitwiseXor => .bitwiseXor
  | .bitwiseOr => .bitwiseOr
  | .logicalAnd => .logicalAnd
  | .logicalOr => .logicalOr
  | .comma => .comma

end BinaryOperator

/-! ## Operators after an operand -/

/-- What may follow a finished operand. -/
inductive InfixOperator
  | binary (operator : BinaryOperator)
  /-- An assignment, with the operation it carries out unless it is plain. -/
  | assign (operator : Option BinaryOperator)
  | conditional
  deriving DecidableEq

namespace InfixOperator

def precedence : InfixOperator → Precedence
  | .binary operator => operator.precedence
  | .assign _ => .assignment
  | .conditional => .conditional

/-- The level of the right operand.  A binary operator groups to the left, so its right operand is
of the next tighter level; assignments and conditionals group to the right. -/
def operand : InfixOperator → Precedence
  | .binary operator => operator.precedence.tighter
  | .assign _ => .assignment
  | .conditional => .conditional

end InfixOperator

namespace Punctuator

/-- The infix operator that a punctuator stands for: the question mark, an assignment or a binary
operator. -/
def infixOperator? (mark : Punctuator) : Option InfixOperator :=
  if mark = .question then some .conditional
  else
    match mark.assignment?, mark.binaryOperator? with
    | some operator, _ => some (.assign operator)
    | none, some operator => some (.binary operator)
    | none, none => none

variable {mark : Punctuator}

/-- No punctuator stands for operators of two kinds. -/
theorem infixOperator?_eq_binary {operator : BinaryOperator} :
    mark.infixOperator? = some (.binary operator) ↔ mark.binaryOperator? = some operator := by
  cases mark <;> simp [infixOperator?, assignment?, binaryOperator?]

theorem infixOperator?_eq_assign {operator : Option BinaryOperator} :
    mark.infixOperator? = some (.assign operator) ↔ mark.assignment? = some operator := by
  cases mark <;> simp [infixOperator?, assignment?, binaryOperator?]

theorem infixOperator?_eq_conditional :
    mark.infixOperator? = some .conditional ↔ mark = .question := by
  cases mark <;> simp [infixOperator?, assignment?, binaryOperator?]

end Punctuator

/-! ## Priorities stand for levels -/

namespace Precedence

theorem priority_eq (p : Precedence) : p.priority = 2 * p.rank + 2 := by
  cases p <;> rfl

theorem priority_le_iff {p q : Precedence} : p.priority ≤ q.priority ↔ p.rank ≤ q.rank := by
  rw [priority_eq, priority_eq]
  omega

theorem mem_loosestFirst {p : Precedence} (hp : p ≠ .unary) : p ∈ loosestFirst := by
  cases p <;> first | decide | exact absurd rfl hp

/-- The level that goes up to a number has just the operators with priorities up to the number. -/
theorem priority_le_upTo {p : Precedence} (hp : p ≠ .unary) (n : Nat) :
    p.priority ≤ (upTo n).priority ↔ p.priority ≤ n := by
  have hmem := mem_loosestFirst hp
  have hsorted : loosestFirst.Pairwise fun q r => r.priority ≤ q.priority := by decide
  unfold upTo
  cases hfind : loosestFirst.find? fun level => level.priority ≤ n with
  | none =>
      have hlarge : ¬ p.priority ≤ n := by simpa using List.find?_eq_none.1 hfind p hmem
      have hunary : ¬ p.priority ≤ Precedence.unary.priority := by
        cases p <;> first | decide | exact absurd rfl hp
      exact iff_of_false hunary hlarge
  | some level =>
      obtain ⟨hlevel, looser, others, hsplit, hlooser⟩ := List.find?_eq_some_iff_append.1 hfind
      refine ⟨fun h => Nat.le_trans h (by simpa using hlevel), fun h => ?_⟩
      rw [hsplit] at hmem hsorted
      rcases List.mem_append.1 hmem with hbefore | hfrom
      · exact absurd h (by simpa using hlooser p hbefore)
      · rcases List.mem_cons.1 hfrom with rfl | hothers
        · exact Nat.le_refl _
        · exact List.rel_of_pairwise_cons (List.pairwise_append.1 hsorted).2.1 hothers

theorem rank_injective {p q : Precedence} (h : p.rank = q.rank) : p = q := by
  cases p <;> cases q <;> first | rfl | cases h

/-- A level is told by the operators that it has. -/
theorem upTo_eq {n : Nat} {q : Precedence}
    (h : ∀ p : Precedence, p ≠ .unary → (p.priority ≤ n ↔ p.rank ≤ q.rank)) : upTo n = q := by
  have hlevel : ∀ p : Precedence, p ≠ .unary → (p.rank ≤ (upTo n).rank ↔ p.rank ≤ q.rank) := by
    intro p hp
    rw [← priority_le_iff, priority_le_upTo hp, h p hp]
  refine rank_injective (Nat.le_antisymm ?_ ?_)
  · by_cases hunary : upTo n = .unary
    · rw [hunary]
      exact Nat.zero_le _
    · exact (hlevel _ hunary).1 (Nat.le_refl _)
  · by_cases hunary : q = .unary
    · rw [hunary]
      exact Nat.zero_le _
    · exact (hlevel _ hunary).2 (Nat.le_refl _)

end Precedence

namespace InfixOperator

/-- The number up to which the right operand goes. -/
def right : InfixOperator → Nat
  | .binary operator => operator.precedence.priority - 1
  | .assign _ => Precedence.assignment.priority
  | .conditional => Precedence.conditional.priority

theorem upTo_right (operator : InfixOperator) :
    Precedence.upTo operator.right = operator.operand := by
  cases operator with
  | binary operator =>
      -- The number is one short of the priority of the operator itself.
      have hrank : 0 < operator.precedence.rank := by cases operator <;> decide
      refine Precedence.upTo_eq fun p _ => ?_
      rw [right, operand, Precedence.rank_tighter, Precedence.priority_eq, Precedence.priority_eq]
      omega
  | assign _ => exact Precedence.upTo_eq fun p _ => Precedence.priority_le_iff (q := .assignment)
  | conditional => exact Precedence.upTo_eq fun p _ => Precedence.priority_le_iff (q := .conditional)

end InfixOperator

/-- Punctuators with priorities are the infix operators, and the priorities are those of the
levels. -/
theorem Punctuator.priorities?_eq (mark : Punctuator) :
    mark.priorities? =
      mark.infixOperator?.map fun operator => (operator.precedence.priority, operator.right) := by
  cases mark <;> rfl

/-! ## The rule for infix operators -/

namespace Grammar

open Script

/-- The right side of an operator that has just been taken, joined with its left side. -/
def operation (operator : InfixOperator) (left : Expr) : Script Expr := do
  match operator with
  | .binary op =>
      let right ← rule (.expression operator.operand)
      return .binary left.position op left right
  | .assign op =>
      let value ← rule (.expression operator.operand)
      return .assign left.position op left value
  | .conditional =>
      let whenTrue ← rule (.expression .comma)
      let _ ← expectMark .colon
      let whenFalse ← rule (.expression operator.operand)
      return .conditional left.position left whenTrue whenFalse

/-- The infix operator that a token is, if it binds at least as tightly as the level. -/
def infixOperator? (limit : Precedence) : TokenKind → Option InfixOperator
  | .punctuator mark =>
      mark.infixOperator?.filter fun operator => operator.precedence.rank ≤ limit.rank
  | _ => none

theorem infixOperation_eq {token : Token} {mark : Punctuator} {operator : InfixOperator}
    (hkind : token.kind = .punctuator mark) (hoperator : mark.infixOperator? = some operator)
    (left : Expr) : infixOperation token operator.right left = operation operator left := by
  rw [infixOperation, hkind]
  dsimp only
  cases operator with
  | conditional =>
      have hquestion := Punctuator.infixOperator?_eq_conditional.1 hoperator
      rw [if_pos hquestion]
      rfl
  | assign op =>
      have hassignment := Punctuator.infixOperator?_eq_assign.1 hoperator
      have hother : mark ≠ .question := by
        rintro rfl
        cases hassignment
      simp only [if_neg hother, hassignment]
      rfl
  | binary op =>
      have hbinary := Punctuator.infixOperator?_eq_binary.1 hoperator
      have hplain : mark.assignment? = none := by
        cases mark <;> first | rfl | cases hbinary
      have hother : mark ≠ .question := by
        rintro rfl
        cases hbinary
      simp only [if_neg hother, hplain, hbinary]
      rw [InfixOperator.upTo_right]
      rfl

theorem infixTail_eq (limit : Precedence) (left : Expr) :
    infixTail limit left = peek >>= fun token =>
      match infixOperator? limit token.kind with
      | some operator => do
          let _ ← advance
          let value ← operation operator left
          rule (.infixTail limit value)
      | none => return left := by
  unfold infixTail
  congr 1
  funext token
  cases hkind : token.kind with
  | punctuator mark =>
      cases hmark : mark.infixOperator? with
      | none => simp [TokenKind.priorities?, Punctuator.priorities?_eq, infixOperator?, hmark]
      | some operator =>
          simp only [TokenKind.priorities?, Punctuator.priorities?_eq, hmark, Option.map_some,
            infixOperator?, infixOperation_eq hkind hmark]
          by_cases hrank : operator.precedence.rank ≤ limit.rank
          · have hpriority := Nat.not_lt.2 (Precedence.priority_le_iff.2 hrank)
            rw [if_neg hpriority, Option.filter_some_pos (by simpa using hrank)]
          · have hpriority := Nat.not_le.1 (mt Precedence.priority_le_iff.1 hrank)
            rw [if_pos hpriority, Option.filter_some_neg (by simpa using hrank)]
  | _ => rfl

end Grammar
end CSyntax
