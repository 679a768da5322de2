import CSyntax.Proofs.Renaming.Places

/-!
# Expressions — scripts of expressions with new names

In an expression the words behind points and arrows are members, and all others are ordinary.  Each
script of an expression leaves the scanner at the calm place where it began.
-/

namespace CSyntax
namespace Grammar

open Script (Renames RenamesAt)

variable {ρ : Renaming} {P : Nat → Prop} {depth : Nat} {σ : Scanner}

/-! ## Primary expressions -/

theorem renames_primary (calls : Parser.RenamesCalls ρ P depth) (hσ : σ.Calm) :
    Renames ρ P depth σ primary primary (Renamed (Expr.respell ρ) Expr.erase) fun _ => σ := by
  have hsame := Scanner.expecting_nothing hσ.expects
  refine .peek_ordinary (fun _ _ => hσ.nameSpace) fun kind p p' => ?_
  dsimp only
  split
  · exact .take hσ.expects (by simp) hσ.word fun _ => .pure rfl rfl
  · exact .take hσ.expects (by simp) hsame fun _ => .pure rfl rfl
  · split
    · exact .take hσ.expects (by simp) hsame fun _ => .pure rfl rfl
    · exact .any .fail
  · exact .take hσ.expects (by simp) hsame fun _ => .pure rfl rfl
  · exact .take hσ.expects (by simp) hsame fun _ => (calls (.adjacentStrings hσ)).bind
      fun _ _ h => .pure (h ▸ rfl) rfl
  · split
    · rename_i hkind
      subst hkind
      exact .take hσ.expects (by simp) hσ.openParen fun _ =>
        (calls (.expression .comma (.list σ) .nothing)).bind fun _ _ h =>
          (Renames.expectMark (Scanner.close_list hσ.expects (Or.inl rfl))).bind
            fun _ _ _ => .pure h rfl
    · exact .any .refuse

theorem renames_adjacentStrings (calls : Parser.RenamesCalls ρ P depth) (hσ : σ.Calm) :
    Renames ρ P depth σ adjacentStrings adjacentStrings Eq fun _ => σ := by
  refine .peek_ordinary (fun _ _ => hσ.nameSpace) fun kind p p' => ?_
  dsimp only
  split
  · exact .take hσ.expects (by simp) (Scanner.expecting_nothing hσ.expects) fun _ =>
      (calls (.adjacentStrings hσ)).bind fun _ _ h => .pure (h ▸ rfl) rfl
  · exact .any (.pure rfl rfl)

/-! ## Postfix expressions -/

/-- Behind the opening parenthesis of a call. -/
theorem renames_callArguments (calls : Parser.RenamesCalls ρ P depth) (hσ : σ.Calm) :
    Renames ρ P depth (σ.within .list .nothing) callArguments callArguments
      (Renamed (List.map (Expr.respell ρ)) (List.map Expr.erase)) fun _ => σ := by
  have hclose := Scanner.close_list hσ.expects (Or.inl rfl)
  refine .acceptMark hclose (.pure rfl rfl) fun _ _ => .any ?_
  refine (calls (.arguments (.list σ))).bind fun values values' h => ?_
  refine .peek_ordinary (fun _ _ => (Scanner.Calm.list σ).nameSpace) fun kind p p' => ?_
  dsimp only
  split
  · rename_i hkind
    subst hkind
    exact .take rfl (by simp) hclose fun _ => .pure h rfl
  · exact .any .refuse

theorem renames_postfixTail (calls : Parser.RenamesCalls ρ P depth) (hσ : σ.Calm)
    {operand operand' : Expr} (h : Renamed (Expr.respell ρ) Expr.erase operand operand') :
    Renames ρ P depth σ (postfixTail operand) (postfixTail operand')
      (Renamed (Expr.respell ρ) Expr.erase) fun _ => σ := by
  have hsame := Scanner.expecting_nothing hσ.expects
  have tail : ∀ {e e' : Expr}, Renamed (Expr.respell ρ) Expr.erase e e' →
      Renames ρ P depth σ (Script.rule (.postfixTail e)) (Script.rule (.postfixTail e'))
        (Renamed (Expr.respell ρ) Expr.erase) fun _ => σ := fun he => calls (.postfixTail hσ he)
  have member : Renames ρ P depth (σ.expecting .member) Script.expectWord Script.expectWord
      (fun name name' => name' = ρ.name .member name) fun _ => σ :=
    .expectWord (fun _ _ => rfl) (by simp [Scanner.expecting]) hsame
  refine .peek_ordinary (fun _ _ => hσ.nameSpace) fun kind p p' => ?_
  dsimp only
  split
  · refine .take hσ.expects (by simp) rfl fun _ =>
      (calls (.expression .comma (.list σ) .nothing)).bind fun e e' he =>
        (Renames.expectMark (Scanner.close_list hσ.expects (Or.inr (Or.inl rfl)))).bind
          fun _ _ _ => tail ?_
    simp only [Renamed, Alike, Expr.respell, Expr.erase] at h he ⊢
    rw [h, he]
  · refine .take hσ.expects (by simp) hσ.openParen fun _ => (renames_callArguments calls hσ).bind
      fun values values' hvalues => tail ?_
    simp only [Renamed, Alike, Expr.respell, Expr.erase, Expr.respellList_eq, Expr.eraseList_eq]
      at h hvalues ⊢
    rw [h, hvalues]
  · refine .take hσ.expects (by simp) rfl fun _ => member.bind fun name name' hname => tail ?_
    simp only [Renamed, Alike, Expr.respell, Expr.erase] at h ⊢
    rw [h, hname, Renaming.name]
  · refine .take hσ.expects (by simp) rfl fun _ => member.bind fun name name' hname => tail ?_
    simp only [Renamed, Alike, Expr.respell, Expr.erase] at h ⊢
    rw [h, hname, Renaming.name]
  · exact .take hσ.expects (by simp) hsame fun _ =>
      tail (congrArg (Expr.unary .erased .postIncrement) h)
  · exact .take hσ.expects (by simp) hsame fun _ =>
      tail (congrArg (Expr.unary .erased .postDecrement) h)
  · exact .any (.pure h rfl)

theorem renames_postfixed (calls : Parser.RenamesCalls ρ P depth) (hσ : σ.Calm) :
    Renames ρ P depth σ postfixed postfixed (Renamed (Expr.respell ρ) Expr.erase) fun _ => σ :=
  (renames_primary calls hσ).bind fun _ _ h => renames_postfixTail calls hσ h

/-! ## Unary expressions -/

/-- The look behind a parenthesis is taken with a mark set, so the views in between are not related. -/
theorem renames_parenthesizedType? (calls : Parser.RenamesCalls ρ P depth) (hσ : σ.Calm) :
    Renames ρ P depth σ parenthesizedType? parenthesizedType?
      (Renamed (Option.map (CType.respell ρ)) (Option.map CType.erase)) fun _ => σ := by
  refine .nextIsMark (fun token hopen => ?_) fun _ _ => .any (.pure rfl rfl)
  intro v v' hv htoken
  have hclear := hv.clear htoken fun h => absurd h hσ.not_statement
  obtain ⟨piece, others, -, -, hahead, rfl, -⟩ := hv.exists_cons htoken (by simp [hopen])
  obtain ⟨piece', others', hahead', -, -, hrest⟩ := hv.cons hahead
  rw [show v.kind piece = .punctuator .openParen from hopen] at hrest
  -- The views behind the parenthesis are related, although those with a mark set are not.
  have hinside : ρ.Related P (σ.within .list .nothing) (v.facing others) (v'.facing others') := by
    have hopened : σ.after (.punctuator .openParen) piece.position.offset =
        σ.within .list .nothing := hσ.openParen
    rwa [hopened] at hrest
  obtain ⟨second, second', third, hsecond, hsecond', htwins⟩ := hinside.token?
  have hkind : second'.kind = second.kind := htwins.kind (Or.inl (Scanner.Calm.list σ).nameSpace)
  have htaken := hv.regular.unmarked
  have htaken' := hv.regular'.unmarked
  have htake : View.perform .advance { v with taken := some [] } =
      some (v.next piece, { v with ahead := others, taken := some [piece] }) := by
    simp [View.perform, View.token?, View.next, View.kind, hahead]
  have htake' : View.perform .advance { v' with taken := some [] } =
      some (v'.next piece', { v' with ahead := others', taken := some [piece'] }) := by
    simp [View.perform, View.token?, View.next, View.kind, hahead']
  have hlook : View.perform (.peek 0) { v with ahead := others, taken := some [piece] } =
      some (second, { v with ahead := others, taken := some [piece] }) := by
    change ((v.facing others).token? 0).map _ = _
    rw [hsecond]
    rfl
  have hlook' : View.perform (.peek 0) { v' with ahead := others', taken := some [piece'] } =
      some (second', { v' with ahead := others', taken := some [piece'] }) := by
    change ((v'.facing others').token? 0).map _ = _
    rw [hsecond']
    rfl
  refine .request .mark .mark rfl rfl (by simp) ?_
  refine .request .advance .advance htake htake' (fun _ => hclear) ?_
  refine .request (.peek 0) (.peek 0) hlook hlook' (by simp) ?_
  dsimp only [Script.bind]
  rw [hkind]
  split
  · refine .request (.release ⟨0⟩) (.release ⟨0⟩) rfl rfl (by simp) ?_
    have htype : Renames ρ P depth (σ.within .list .nothing)
        (Script.rule .typeName >>= fun type => Script.expectMark .closeParen >>= fun _ =>
          Pure.pure (some type))
        (Script.rule .typeName >>= fun type => Script.expectMark .closeParen >>= fun _ =>
          Pure.pure (some type))
        (Renamed (Option.map (CType.respell ρ)) (Option.map CType.erase)) fun _ => σ :=
      (calls (.typeName (.list σ))).bind fun type type' h =>
        (Renames.expectMark (Scanner.close_list hσ.expects (Or.inl rfl))).bind
          fun _ _ _ => .pure (congrArg some h) rfl
    have hreleased : ρ.Related P (σ.within .list .nothing)
        { v with ahead := others, taken := none } { v' with ahead := others', taken := none } := by
      simpa [View.facing, htaken, htaken'] using hinside
    exact htype _ _ hreleased
  · refine .request (.reset ⟨0⟩) (.reset ⟨0⟩) rfl rfl (by simp) ?_
    have hback : { v with ahead := [piece] ++ others, taken := none } = v := by
      rw [List.singleton_append, ← hahead, ← htaken]
    have hback' : { v' with ahead := [piece'] ++ others', taken := none } = v' := by
      rw [List.singleton_append, ← hahead', ← htaken']
    have hnone : Renames ρ P depth σ (Pure.pure none) (Pure.pure none)
        (Renamed (Option.map (CType.respell ρ)) (Option.map CType.erase)) fun _ => σ := .pure rfl rfl
    exact hnone _ _ (hback.symm ▸ hback'.symm ▸ hv)

theorem renames_unary (calls : Parser.RenamesCalls ρ P depth) (hσ : σ.Calm) {e : Expects}
    (he : e.Idle) : Renames ρ P depth (σ.expecting e) unary unary
      (Renamed (Expr.respell ρ) Expr.erase) fun _ => σ := by
  have operand : ∀ {k k' : Expr → Expr},
      (∀ {x x' : Expr}, Renamed (Expr.respell ρ) Expr.erase x x' →
        Renamed (Expr.respell ρ) Expr.erase (k x) (k' x')) →
      Renames ρ P depth σ
        (Script.rule (.expression .unary) >>= fun x => Pure.pure (k x))
        (Script.rule (.expression .unary) >>= fun x => Pure.pure (k' x))
        (Renamed (Expr.respell ρ) Expr.erase) fun _ => σ := by
    intro k k' hk
    have hcall := calls (.expression .unary hσ .nothing)
    rw [Scanner.expecting_nothing hσ.expects] at hcall
    exact hcall.bind fun _ _ hx => .pure (hk hx) rfl
  refine .peek_ordinary (fun _ _ => hσ.nameSpace_idle he) fun kind p p' => ?_
  by_cases hbrace : kind = .punctuator .openBrace
  · subst hbrace
    exact .any .refuse
  refine .relax (fun _ => hσ.agrees_idle he hbrace) ?_
  dsimp only
  split
  · refine .take hσ.expects (by simp) (Scanner.expecting_nothing hσ.expects) fun _ =>
      (renames_parenthesizedType? calls hσ).bind fun type type' h => ?_
    rcases type with _ | type <;> rcases type' with _ | type' <;> simp [Renamed, Alike] at h
    · refine operand fun hx => ?_
      simp only [Renamed, Alike, Expr.respell, Expr.erase] at hx ⊢
      rw [hx]
    · refine .pure ?_ rfl
      simp only [Renamed, Alike, Expr.respell, Expr.erase]
      rw [h]
  · refine .any ((renames_parenthesizedType? calls hσ).bind fun type type' h => ?_)
    rcases type with _ | type <;> rcases type' with _ | type' <;> simp [Renamed, Alike] at h
    · exact renames_postfixed calls hσ
    · refine operand fun hx => ?_
      simp only [Renamed, Alike, Expr.respell, Expr.erase] at hx ⊢
      rw [h, hx]
  · split
    · rename_i hoperator
      refine .take hσ.expects (by simp) (Scanner.mark_unary hσ.expects hoperator) fun _ =>
        operand fun hx => ?_
      simp only [Renamed, Alike, Expr.respell, Expr.erase] at hx ⊢
      rw [hx]
    · exact .any .refuse
  · exact .any (renames_postfixed calls hσ)

/-! ## Infix operators -/

theorem renames_operation (calls : Parser.RenamesCalls ρ P depth) (hσ : σ.Calm)
    (operator : InfixOperator) {left left' : Expr}
    (h : Renamed (Expr.respell ρ) Expr.erase left left') :
    Renames ρ P depth (σ.operated operator) (operation operator left) (operation operator left')
      (Renamed (Expr.respell ρ) Expr.erase) fun _ => σ := by
  have operand : ∀ (limit : Precedence), Renames ρ P depth σ (Script.rule (.expression limit))
      (Script.rule (.expression limit)) (Renamed (Expr.respell ρ) Expr.erase) fun _ => σ := by
    intro limit
    have hcall := calls (.expression limit hσ .nothing)
    rwa [Scanner.expecting_nothing hσ.expects] at hcall
  cases operator with
  | binary op =>
      refine (operand _).bind fun e e' he => .pure ?_ rfl
      simp only [Renamed, Alike, Expr.respell, Expr.erase] at h he ⊢
      rw [h, he]
  | assign op =>
      have value : Renames ρ P depth (σ.operated (.assign op))
          (Script.rule (.expression .assignment)) (Script.rule (.expression .assignment))
          (Renamed (Expr.respell ρ) Expr.erase) fun _ => σ := by
        cases op with
        | none => exact calls (.expression .assignment hσ .initial)
        | some op => exact operand .assignment
      refine value.bind fun e e' he => .pure ?_ rfl
      simp only [Renamed, Alike, Expr.respell, Expr.erase] at h he ⊢
      rw [h, he]
  | conditional =>
      refine (calls (.expression .comma (.list σ) .nothing)).bind fun e e' he =>
        (Renames.expectMark (Scanner.close_list hσ.expects (Or.inr (Or.inr (Or.inl rfl))))).bind
          fun _ _ _ => (operand _).bind fun f f' hf => .pure ?_ rfl
      simp only [Renamed, Alike, Expr.respell, Expr.erase] at h he hf ⊢
      rw [h, he, hf]

theorem exists_mark_of_infixOperator? {limit : Precedence} {kind : TokenKind}
    {operator : InfixOperator} (h : infixOperator? limit kind = some operator) :
    ∃ mark, kind = .punctuator mark ∧ mark.infixOperator? = some operator := by
  unfold infixOperator? at h
  split at h
  · exact ⟨_, rfl, (Option.filter_eq_some_iff.1 h).1⟩
  · cases h

theorem renames_infixTail (calls : Parser.RenamesCalls ρ P depth) (hσ : σ.Calm)
    (limit : Precedence) {left left' : Expr} (h : Renamed (Expr.respell ρ) Expr.erase left left') :
    Renames ρ P depth σ (infixTail limit left) (infixTail limit left')
      (Renamed (Expr.respell ρ) Expr.erase) fun _ => σ := by
  rw [infixTail_eq, infixTail_eq]
  refine .peek_ordinary (fun _ _ => hσ.nameSpace) fun kind p p' => ?_
  dsimp only
  split
  · rename_i operator hoperator
    obtain ⟨mark, rfl, hmark⟩ := exists_mark_of_infixOperator? hoperator
    exact .take hσ.expects (by simp) (hσ.mark_infixed hmark) fun _ =>
      (renames_operation calls hσ operator h).bind fun _ _ hvalue =>
        calls (.infixTail limit hσ hvalue)
  · exact .any (.pure h rfl)

theorem renames_expression (calls : Parser.RenamesCalls ρ P depth) (hσ : σ.Calm) {e : Expects}
    (he : e.Idle) (limit : Precedence) :
    Renames ρ P depth (σ.expecting e) (expression limit) (expression limit)
      (Renamed (Expr.respell ρ) Expr.erase) fun _ => σ :=
  (renames_unary calls hσ he).bind fun _ _ h => renames_infixTail calls hσ limit h

theorem renames_arguments (calls : Parser.RenamesCalls ρ P depth) (hσ : σ.Calm) :
    Renames ρ P depth σ «arguments» «arguments»
      (Renamed (List.map (Expr.respell ρ)) (List.map Expr.erase)) fun _ => σ := by
  have hfirst := renames_expression calls hσ .nothing .assignment
  rw [Scanner.expecting_nothing hσ.expects] at hfirst
  refine hfirst.bind fun first first' hfirst => .acceptMark hσ.comma ?_ fun _ _ => .any ?_
  · refine (calls (.arguments hσ)).bind fun others others' hothers => .pure ?_ rfl
    simp only [Renamed, Alike, List.map_cons] at hfirst hothers ⊢
    rw [hfirst, hothers]
  · refine .pure ?_ rfl
    simp only [Renamed, Alike, List.map_cons, List.map_nil] at hfirst ⊢
    rw [hfirst]

end Grammar
end CSyntax
