import CSyntax.Proofs.Tree.Everywhere

/-!
# Ordered — where the nodes of a tree stand

The positions in a finished unit are those of tokens, and they follow the order of the text.  This
file says so as a check of every node:

* `Position.Ascend` — positions in the order of the text, within a stretch of it;
* `Expr.Ordered`, `DeclarationGroup.Ordered`, `Statement.Ordered`, `FunctionDefinition.Ordered` — how
  the parts of a node stand to the node and to each other;
* `placed` — the checks, where the positions of tokens are given.
-/

namespace CSyntax

/-! ## Positions in order -/

/-- The first position stands before the second in the text. -/
def Position.Before (p q : Position) : Prop :=
  p.offset < q.offset

/-- The position stands in the stretch of text from one offset on and before another. -/
def Position.Within (a b : Nat) (p : Position) : Prop :=
  a ≤ p.offset ∧ p.offset < b

/-- The positions stand in the stretch in the order of the text. -/
structure Position.Ascend (a b : Nat) (places : List Position) : Prop where
  within : ∀ p ∈ places, p.Within a b
  pairwise : places.Pairwise Position.Before

theorem Position.Within.mono {a b c d : Nat} {p : Position} (h : p.Within a b) (hfrom : c ≤ a)
    (hto : b ≤ d) : p.Within c d :=
  ⟨Nat.le_trans hfrom h.1, Nat.lt_of_lt_of_le h.2 hto⟩

namespace Position.Ascend

variable {a b c d : Nat} {p : Position} {places others : List Position}

theorem nil : Ascend a b [] :=
  ⟨nofun, .nil⟩

theorem singleton (h : p.Within a b) : Ascend a b [p] :=
  ⟨List.forall_mem_singleton.2 h, List.pairwise_singleton _ _⟩

theorem mono (h : Ascend a b places) (hfrom : c ≤ a) (hto : b ≤ d) : Ascend c d places :=
  ⟨fun p hp => (h.within p hp).mono hfrom hto, h.pairwise⟩

/-- Positions that stand in stretches one after the other. -/
theorem append (h : Ascend a b places) (hothers : Ascend c d others) (hbc : b ≤ c) (hab : a ≤ b)
    (hcd : c ≤ d) : Ascend a d (places ++ others) := by
  refine ⟨List.forall_mem_append.2 ⟨?_, ?_⟩, List.pairwise_append.2 ⟨h.pairwise, hothers.pairwise, ?_⟩⟩
  · exact fun p hp => (h.within p hp).mono (Nat.le_refl _) (Nat.le_trans hbc hcd)
  · exact fun p hp => (hothers.within p hp).mono (Nat.le_trans hab hbc) (Nat.le_refl _)
  · intro p hp q hq
    calc p.offset < b := (h.within p hp).2
      _ ≤ c := hbc
      _ ≤ q.offset := (hothers.within q hq).1

theorem cons (h : p.Within a b) (hothers : Ascend c d others) (hbc : b ≤ c) (hcd : c ≤ d) :
    Ascend a d (p :: others) :=
  (singleton h).append hothers hbc (Nat.le_trans h.1 (Nat.le_of_lt h.2)) hcd

/-- Behind a position that stands before the stretch. -/
theorem pairwise_cons (h : Ascend a b places) (hlt : p.offset < a) :
    (p :: places).Pairwise Before :=
  List.pairwise_cons.2 ⟨fun q hq => Nat.lt_of_lt_of_le hlt (h.within q hq).1, h.pairwise⟩

end Position.Ascend

/-! ## The order of nodes -/

/-- Whether the operator stands behind its operand. -/
def UnaryOperator.isPostfix : UnaryOperator → Bool
  | .postIncrement | .postDecrement => true
  | _ => false

namespace Expr

/-- Whether the text of an expression begins with that of an operand. -/
def startsWithOperand : Expr → Bool
  | .call .. | .binary .. | .index .. | .member .. | .assign .. | .conditional .. => true
  | .unary _ operator _ => operator.isPostfix
  | _ => false

/-- The operands stand in order.  An expression that begins with its first operand stands where that
one does, and any other before all its operands. -/
def Ordered (e : Expr) : Prop :=
  if e.startsWithOperand then
    (e.operands.map (·.position)).head? = some e.position ∧
      (e.operands.map (·.position)).Pairwise Position.Before
  else
    (e.position :: e.operands.map (·.position)).Pairwise Position.Before

end Expr

/-- Where a declaration stands and where its initial value does. -/
def Declaration.places (d : Declaration) : List Position :=
  d.position :: (d.initial.map (·.position)).toList

/-- The group stands before its declarations, and these stand in order with their initial values. -/
def DeclarationGroup.Ordered (group : DeclarationGroup) : Prop :=
  (group.position :: group.declarations.flatMap (·.places)).Pairwise Position.Before

def ForStart.position : ForStart → Position
  | .declaration group => group.position
  | .expression value => value.position

namespace Statement

/-- Where the parts of a statement stand, in the order in which they are written. -/
def parts : Statement → List Position
  | .block _ items => items.map (·.position)
  | .declaration _ group => [group.position]
  | .expression _ value => [value.position]
  | .if _ condition whenTrue whenFalse =>
      [condition.position, whenTrue.position] ++ (whenFalse.map (·.position)).toList
  | .while _ condition body => [condition.position, body.position]
  | .doWhile _ body condition => [body.position, condition.position]
  | .for _ start condition step body =>
      (start.map (·.position)).toList ++ (condition.map (·.position)).toList ++
        (step.map (·.position)).toList ++ [body.position]
  | .switch _ subject body => [subject.position, body.position]
  | .case _ value body => [value.position, body.position]
  | .default _ body => [body.position]
  | .label _ _ body => [body.position]
  | .return _ value => (value.map (·.position)).toList
  | .goto _ _ | .break _ | .continue _ | .empty _ => []

/-- No part stands before the statement, and the parts stand in order. -/
def Ordered (s : Statement) : Prop :=
  (∀ p ∈ s.parts, s.position.offset ≤ p.offset) ∧ s.parts.Pairwise Position.Before

end Statement

/-- The parameters stand in order behind the place where the function does, and the items of the body
in order behind them. -/
def FunctionDefinition.Ordered (f : FunctionDefinition) : Prop :=
  (f.position :: (f.parameters.map (·.position) ++ f.body.map (·.position))).Pairwise Position.Before

/-! ## The checks -/

/-- Nodes stand where tokens do, and in order. -/
def placed (real : Position → Prop) : NodeChecks where
  type _ := True
  expr _ e := real e.position ∧ e.Ordered
  group group := real group.position ∧ (∀ d ∈ group.declarations, real d.position) ∧ group.Ordered
  statement s := real s.position ∧ s.Ordered
  definition f := real f.position ∧ (∀ p ∈ f.parameters, real p.position) ∧ f.Ordered

variable {real : Position → Prop}

theorem allowWrapping_placed : (placed real).AllowWrapping :=
  fun _ _ => trivial

namespace Expr

variable {e left : Expr} {others : List Expr} {role : Role} {a b : Nat}

theorem Everywhere.real_position (h : e.Everywhere (placed real) role) : real e.position := by
  obtain ⟨⟨hreal, -⟩, -, -⟩ := h
  exact hreal

/-- Where an expression stands is not a matter of its role. -/
theorem Everywhere.inRole (h : e.Everywhere (placed real) role) (role' : Role) :
    e.Everywhere (placed real) role' :=
  h.recast id

/-- An expression that begins before its operands. -/
theorem everywhere_before (hreal : real e.position) (hstart : e.startsWithOperand = false)
    (htypes : ∀ t ∈ e.types, t.Everywhere (placed real))
    (hoperands : ∀ o ∈ e.operands, o.Everywhere (placed real) e.roleBelow)
    (hascend : Position.Ascend a b (e.operands.map (·.position))) (hlt : e.position.offset < a) :
    e.Everywhere (placed real) role := by
  refine .intro ⟨hreal, ?_⟩ hoperands htypes
  rw [Ordered, if_neg (by simp [hstart])]
  exact hascend.pairwise_cons hlt

/-- An expression without operands and types. -/
theorem everywhere_leaf (hreal : real e.position) (hstart : e.startsWithOperand = false)
    (htypes : e.types = []) (hoperands : e.operands = []) : e.Everywhere (placed real) role := by
  refine everywhere_before (a := e.position.offset + 1) (b := 0) hreal hstart ?_ ?_ ?_ (by omega)
  · simp [htypes]
  · simp [hoperands]
  · rw [hoperands]
    exact .nil

/-- An expression that begins with its left operand. -/
theorem everywhere_after (hleft : left.Everywhere (placed real) .operand)
    (hoperands : e.operands = left :: others) (hposition : e.position = left.position)
    (hstart : e.startsWithOperand = true) (hrole : e.roleBelow = .operand) (htypes : e.types = [])
    (hothers : ∀ o ∈ others, o.Everywhere (placed real) .operand)
    (hascend : Position.Ascend a b (others.map (·.position))) (hlt : left.position.offset < a) :
    e.Everywhere (placed real) role := by
  refine .intro ⟨?_, ?_⟩ ?_ (by simp [htypes])
  · rw [hposition]
    exact hleft.real_position
  · rw [Ordered, if_pos hstart, hoperands, hposition]
    exact ⟨rfl, hascend.pairwise_cons hlt⟩
  · rw [hoperands, hrole]
    exact List.forall_mem_cons.2 ⟨hleft, hothers⟩

end Expr

/-- A statement whose parts stand in order from where it stands. -/
theorem Statement.everywhere_placed {s : Statement} {b : Nat} (hreal : real s.position)
    (hascend : Position.Ascend s.position.offset b s.parts)
    (hexprs : ∀ e ∈ s.exprs, e.Everywhere (placed real) .operand)
    (hgroups : ∀ g ∈ s.groups, g.Everywhere (placed real))
    (hbodies : ∀ t ∈ s.bodies, t.Everywhere (placed real)) : s.Everywhere (placed real) :=
  .intro ⟨hreal, fun p hp => (hascend.within p hp).1, hascend.pairwise⟩ hexprs hgroups hbodies

end CSyntax
