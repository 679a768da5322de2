import CSyntax.Proofs.Span.Spanning

/-!
# Expressions — the stretches of expressions

An expression stands in the stretch that its rule reads, with its operands in order.  Parentheses
take up text around an expression and leave its position alone, so that a node may begin before the
stretch of its first operand does but not before the operand.
-/

namespace CSyntax
namespace Grammar

open Script Position

variable {o : Outlook} {N a : Nat}

/-! ## Primary expressions -/

theorem spans_adjacentStrings (hN : N ≤ a + 1) :
    adjacentStrings.Spans o N a fun _ _ => True := by
  refine .peek fun token _ => ?_
  split
  · rename_i hkind
    exact .advance (by simp [hkind]) fun b hab _ =>
      .call (by omega) trivial fun _ _ _ _ _ => .pure trivial
  · exact (Spans.pure trivial).known

theorem spans_primary (hN : N ≤ a + 1) : primary.Spans o N a fun e b =>
    e.Everywhere (placed o.Real) .operand ∧ e.position.Within a b := by
  refine .peek fun token hshows => ?_
  have hreal : ∀ {b}, a < b → b ≤ o.stop.offset → o.Real token.position :=
    fun hab hb => hshows.real (Nat.lt_of_lt_of_le hab hb)
  -- A literal or a name is all that is taken.
  have leaf : ∀ {e : Expr}, e.position = token.position → e.startsWithOperand = false →
      e.types = [] → e.operands = [] → token.kind ≠ .endOfFile →
      (Script.advance >>= fun _ => pure e).SpansFrom o N a token fun e b =>
        e.Everywhere (placed o.Real) .operand ∧ e.position.Within a b := by
    intro e hposition hstart htypes hoperands hkind
    refine .advance hkind fun b hab hb => .pure ⟨?_, hposition ▸ hshows.within hab⟩
    exact Expr.everywhere_leaf (hposition ▸ hreal hab hb) hstart htypes hoperands
  split
  · exact leaf rfl rfl rfl rfl (by simp_all)
  · exact leaf rfl rfl rfl rfl (by simp_all)
  · split
    · exact leaf rfl rfl rfl rfl (by simp_all)
    · exact Spans.fail.known
  · exact leaf rfl rfl rfl rfl (by simp_all)
  · rename_i hkind
    refine .advance (by simp [hkind]) fun b hab hb =>
      .call (f := .adjacentStrings) (by omega) trivial fun _ c hbc hc _ => .pure ⟨?_, ?_⟩
    · exact Expr.everywhere_leaf (hreal hab hb) rfl rfl rfl
    · exact hshows.within (by omega)
  · split
    · rename_i hkind
      refine .advance (by simp [hkind]) fun b hab _ =>
        .call (f := .expression .comma) (by omega) trivial ?_
      rintro value c hbc - ⟨hvalue, hwithin⟩
      exact .expect nofun fun _ d hcd _ => .pure ⟨hvalue, hwithin.mono (by omega) (by omega)⟩
    · exact .refuse

/-! ## Postfix expressions -/

theorem spans_callArguments (hN : N ≤ a) : callArguments.Spans o N a fun values b =>
    (∀ e ∈ values, e.Everywhere (placed o.Real) .operand) ∧ Ascend a b (values.map (·.position)) := by
  refine .accept nofun (fun b hab _ => .pure ⟨nofun, .nil⟩) (.call (f := .arguments) hN trivial ?_)
  rintro values b hab - ⟨hvalues, hascend⟩
  refine .peek fun token _ => ?_
  split
  · rename_i hkind
    exact .advance (by simp [hkind]) fun c hbc _ =>
      .pure ⟨hvalues, hascend.mono (Nat.le_refl _) (by omega)⟩
  · exact .refuse

theorem spans_postfixTail {operand : Expr} (hN : N ≤ a + 1)
    (h : operand.Everywhere (placed o.Real) .operand) (hlt : operand.position.offset < a) :
    (postfixTail operand).Spans o N a fun e _ =>
      e.Everywhere (placed o.Real) .operand ∧ e.position = operand.position := by
  -- The operator is put around the operand, whose position the new node takes over.
  have around : ∀ {e : Expr} {l b c}, e.operands = operand :: l →
      e.position = operand.position → e.startsWithOperand = true → e.roleBelow = .operand →
      e.types = [] → (∀ x ∈ l, x.Everywhere (placed o.Real) .operand) →
      Ascend b c (l.map (·.position)) → a < b → b ≤ c →
      (Script.rule (.postfixTail e)).Spans o N c fun e _ =>
        e.Everywhere (placed o.Real) .operand ∧ e.position = operand.position := by
    intro e l b c hoperands hposition hstart hrole htypes hothers hascend hab hbc
    refine .rule (by omega) ⟨?_, ?_⟩ ?_
    · exact Expr.everywhere_after h hoperands hposition hstart hrole htypes hothers hascend (by omega)
    · rw [hposition]
      omega
    · rintro result d - ⟨hresult, hsame⟩
      exact ⟨hresult, hsame.trans hposition⟩
  refine .peek fun token _ => ?_
  split
  · rename_i hkind
    refine .advance (by simp [hkind]) fun b hab _ =>
      .call (f := .expression .comma) (by omega) trivial ?_
    rintro subscript c hbc - ⟨hsubscript, hwithin⟩
    refine .expect nofun fun _ d hcd _ => ?_
    exact around (l := [subscript]) rfl rfl rfl rfl rfl (List.forall_mem_singleton.2 hsubscript)
      (.singleton (hwithin.mono (Nat.le_refl _) (Nat.le_of_lt hcd))) hab (by omega)
  · rename_i hkind
    refine .advance (by simp [hkind]) fun b hab _ => (spans_callArguments (by omega)).bind ?_
    rintro values c hbc - ⟨hvalues, hascend⟩
    exact around rfl rfl rfl rfl rfl hvalues hascend hab hbc
  · rename_i hkind
    exact .advance (by simp [hkind]) fun b hab _ => .expectWord fun name c hbc _ =>
      around (l := []) rfl rfl rfl rfl rfl nofun .nil hab (by omega)
  · rename_i hkind
    exact .advance (by simp [hkind]) fun b hab _ => .expectWord fun name c hbc _ =>
      around (l := []) rfl rfl rfl rfl rfl nofun .nil hab (by omega)
  · rename_i hkind
    exact .advance (by simp [hkind]) fun b hab _ =>
      around (l := []) rfl rfl rfl rfl rfl nofun .nil hab (Nat.le_refl _)
  · rename_i hkind
    exact .advance (by simp [hkind]) fun b hab _ =>
      around (l := []) rfl rfl rfl rfl rfl nofun .nil hab (Nat.le_refl _)
  · exact (Spans.pure ⟨h, rfl⟩).known

theorem spans_postfixed (hN : N ≤ a + 1) : postfixed.Spans o N a fun e b =>
    e.Everywhere (placed o.Real) .operand ∧ e.position.Within a b := by
  refine (spans_primary hN).bind ?_
  rintro operand b hab - ⟨hoperand, hwithin⟩
  refine (spans_postfixTail (by omega) hoperand hwithin.2).weaken ?_
  rintro e c hbc ⟨he, hsame⟩
  exact ⟨he, hsame ▸ hwithin.mono (Nat.le_refl _) hbc⟩

/-! ## Unary expressions -/

/-- If no type name follows, the parenthesis alone has been taken when it is given back. -/
theorem spans_parenthesizedType? (hN : N ≤ a + 1) : parenthesizedType?.Spans o N a fun type? b =>
    ∀ type ∈ type?, type.Everywhere (placed o.Real) ∧ a < b := by
  refine .nextIs (fun token _ hkind => ?_) (.pure nofun)
  rintro x hrests rfl hstop hahead
  refine ⟨hrests.saved, ?_⟩
  rintro m _ rfl
  refine ⟨trivial, ?_⟩
  rintro token' y ⟨hahead', -, hby, hsaved, -, hmoved⟩
  obtain rfl : token = token' := Option.some.inj (hahead.symm.trans hahead')
  obtain ⟨hlt, hended⟩ := hmoved (by simp [hkind])
  -- Behind the mark stands the parenthesis alone.
  have hkept : y.saved = some { here := x.here, kinds := [.punctuator .openParen] } := by
    rw [hsaved, hkind]
    rfl
  replace hlt : x.here < y.here := hlt
  replace hended : y.ended = false := hended.trans hrests.ended
  refine ⟨trivial, ?_⟩
  rintro second z ⟨rfl, -⟩
  dsimp only [Script.bind]
  split
  · -- The mark is released, and a type name is read.
    refine ⟨congrArg Option.isSome hkept, ?_⟩
    rintro _ _ rfl
    have htype : (do
        let type ← Script.rule .typeName
        let _ ← expectMark .closeParen
        return some type).Spans o N z.here fun type? b =>
          ∀ type ∈ type?, type.Everywhere (placed o.Real) ∧ z.here < b := by
      refine .call (f := .typeName) (by omega) trivial fun type b hab _ htype =>
        .expect nofun fun _ c hbc _ => .pure ?_
      rintro _ ⟨⟩
      exact ⟨htype, by omega⟩
    refine (htype { z with saved := none } ⟨rfl, hended⟩ rfl hby).mono ?_
    rintro type? w - ⟨hw, hle, hwstop, htypes⟩
    refine ⟨hw, by omega, hwstop, fun type hmem => ?_⟩
    obtain ⟨htype, hbefore⟩ := htypes type hmem
    exact ⟨htype, by omega⟩
  · refine ⟨congrArg (Option.map Saved.kinds) hkept, ?_⟩
    rintro _ w ⟨hhere, hnone, hsame⟩
    have hback : x.here = w.here := by simpa [hkept] using hhere
    exact ⟨⟨hnone, hsame.trans hended⟩, Nat.le_of_eq hback, hback ▸ hstop, nofun⟩

theorem spans_unary (hN : N ≤ a + 1) : unary.Spans o N a fun e b =>
    e.Everywhere (placed o.Real) .operand ∧ e.position.Within a b := by
  refine .peek fun token hshows => ?_
  have hreal : ∀ {b}, a < b → b ≤ o.stop.offset → o.Real token.position :=
    fun hab hb => hshows.real (Nat.lt_of_lt_of_le hab hb)
  -- An operand stands behind what has been taken before it.
  have before : ∀ {e operand : Expr} {b c : Nat}, e.operands = [operand] →
      e.position = token.position → e.startsWithOperand = false → e.roleBelow = .operand →
      (∀ t ∈ e.types, t.Everywhere (placed o.Real)) → operand.Everywhere (placed o.Real) .operand →
      operand.position.Within b c → a < b → c ≤ o.stop.offset →
      e.Everywhere (placed o.Real) .operand ∧ e.position.Within a c := by
    intro e operand b c hoperands hposition hstart hrole htypes hoperand hwithin hab hc
    have hbc : b < c := Nat.lt_of_le_of_lt hwithin.1 hwithin.2
    refine ⟨Expr.everywhere_before (a := b) (b := c) ?_ hstart htypes ?_ ?_ ?_,
      hposition ▸ hshows.within (by omega)⟩
    · rw [hposition]
      exact hreal hab (by omega)
    · rw [hoperands, hrole]
      exact List.forall_mem_singleton.2 hoperand
    · rw [hoperands]
      exact .singleton hwithin
    · rw [hposition, hshows.offset]
      exact hab
  split
  · rename_i hkind
    refine .advance (by simp [hkind]) fun b hab _ => (spans_parenthesizedType? (by omega)).bind ?_
    rintro type? c hbc hc htypes
    split
    · rename_i type
      refine .pure ⟨Expr.everywhere_before (a := a + 1) (b := 0) (hreal hab (by omega)) rfl ?_ nofun
        .nil ?_, hshows.within (by omega)⟩
      · exact List.forall_mem_singleton.2 (htypes _ rfl).1
      · exact Nat.lt_succ_of_le (Nat.le_of_eq hshows.offset)
    · refine .call (f := .expression .unary) (by omega) trivial ?_
      rintro operand d hcd hd ⟨hoperand, hwithin⟩
      exact .pure (before rfl rfl rfl rfl nofun hoperand hwithin (by omega) hd)
  · refine (Spans.bind (spans_parenthesizedType? hN) ?_).known
    rintro type? b hab hb htypes
    split
    · rename_i type
      obtain ⟨htype, hlt⟩ := htypes type rfl
      refine .call (f := .expression .unary) (by omega) trivial ?_
      rintro operand c hbc hc ⟨hoperand, hwithin⟩
      exact .pure (before rfl rfl rfl rfl (List.forall_mem_singleton.2 htype) hoperand hwithin hlt hc)
    · refine (spans_postfixed (by omega)).weaken ?_
      rintro e c - ⟨he, hwithin⟩
      exact ⟨he, hwithin.mono hab (Nat.le_refl _)⟩
  · rename_i mark hmark hkind
    split
    · rename_i operator hoperator
      refine .advance (by simp [hkind]) fun b hab _ =>
        .call (f := .expression .unary) (by omega) trivial ?_
      rintro operand c hbc hc ⟨hoperand, hwithin⟩
      refine .pure (before rfl rfl ?_ rfl nofun hoperand hwithin hab hc)
      cases mark <;> cases hoperator <;> rfl
    · exact .refuse
  · exact (spans_postfixed hN).known

/-! ## Infix operators -/

theorem spans_operation (operator : InfixOperator) {left : Expr} (hN : N ≤ a)
    (hleft : left.Everywhere (placed o.Real) .operand) (hlt : left.position.offset < a) :
    (operation operator left).Spans o N a fun e _ =>
      e.Everywhere (placed o.Real) .operand ∧ e.position = left.position := by
  cases operator with
  | binary op =>
      refine .call (f := .expression _) hN trivial ?_
      rintro right b - - ⟨hright, hwithin⟩
      exact .pure ⟨Expr.everywhere_after hleft rfl rfl rfl rfl rfl
        (List.forall_mem_singleton.2 hright) (.singleton hwithin) hlt, rfl⟩
  | assign op =>
      refine .call (f := .expression _) hN trivial ?_
      rintro value b - - ⟨hvalue, hwithin⟩
      exact .pure ⟨Expr.everywhere_after hleft rfl rfl rfl rfl rfl
        (List.forall_mem_singleton.2 hvalue) (.singleton hwithin) hlt, rfl⟩
  | conditional =>
      refine .call (f := .expression .comma) hN trivial ?_
      rintro whenTrue b hab - ⟨htrue, hwithin⟩
      refine .expect nofun fun _ c hbc _ => .call (f := .expression _) (by omega) trivial ?_
      rintro whenFalse d hcd - ⟨hfalse, hwithin'⟩
      refine .pure ⟨Expr.everywhere_after hleft rfl rfl rfl rfl rfl ?_
        (.cons hwithin (.singleton hwithin') (by omega) hcd) hlt, rfl⟩
      exact List.forall_mem_cons.2 ⟨htrue, List.forall_mem_singleton.2 hfalse⟩

theorem spans_infixTail (limit : Precedence) {left : Expr} (hN : N ≤ a + 1)
    (hleft : left.Everywhere (placed o.Real) .operand) (hlt : left.position.offset < a) :
    (infixTail limit left).Spans o N a fun e _ =>
      e.Everywhere (placed o.Real) .operand ∧ e.position = left.position := by
  rw [infixTail_eq]
  refine .peek fun token _ => ?_
  split
  · rename_i operator hoperator
    have hkind : token.kind ≠ .endOfFile := by
      intro hend
      simp [hend, infixOperator?] at hoperator
    refine .advance hkind fun b hab _ =>
      (spans_operation operator (by omega) hleft (by omega)).bind ?_
    rintro value c hbc - ⟨hvalue, hsame⟩
    refine .rule (by omega) ⟨hvalue, by rw [hsame]; omega⟩ ?_
    rintro result d - ⟨hresult, hposition⟩
    exact ⟨hresult, hposition.trans hsame⟩
  · exact (Spans.pure ⟨hleft, rfl⟩).known

theorem spans_expression (limit : Precedence) (hN : N ≤ a + 1) :
    (expression limit).Spans o N a fun e b =>
      e.Everywhere (placed o.Real) .operand ∧ e.position.Within a b := by
  refine (spans_unary hN).bind ?_
  rintro operand b hab - ⟨hoperand, hwithin⟩
  refine (spans_infixTail limit (by omega) hoperand hwithin.2).weaken ?_
  rintro e c hbc ⟨he, hsame⟩
  exact ⟨he, hsame ▸ hwithin.mono (Nat.le_refl _) hbc⟩

theorem spans_arguments (hN : N ≤ a + 1) : arguments.Spans o N a fun values b =>
    (∀ e ∈ values, e.Everywhere (placed o.Real) .operand) ∧ Ascend a b (values.map (·.position)) := by
  refine (spans_expression _ hN).bind ?_
  rintro first b hab - ⟨hfirst, hwithin⟩
  refine .accept nofun (fun c hbc _ => .call (f := .arguments) (by omega) trivial ?_) (.pure ?_)
  · rintro others d hcd - ⟨hothers, hascend⟩
    exact .pure ⟨List.forall_mem_cons.2 ⟨hfirst, hothers⟩, .cons hwithin hascend (by omega) hcd⟩
  · exact ⟨List.forall_mem_singleton.2 hfirst, .singleton hwithin⟩

end Grammar
end CSyntax
