import CSyntax.Proofs.Expression.Operators
import CSyntax.Proofs.Lockstep.Agreement

/-!
# Expressions — the scripts of expressions agree with themselves

The ways of dealing with one token, and then each script of an expression, do the same on
corresponding tokens: what they decide, they decide on kinds of tokens, and positions only go into
the trees and the reports of faults.
-/

namespace CSyntax

/-! ## Single tokens -/

namespace Script

variable {K : Correspondence} {α β : Type} {guarded sinks : Bool} {R : α → β → Prop}
  {yes no : Script α} {yes' no' : Script β} {kind : TokenKind} {mark : Punctuator}

theorem Agree.nextIs {x : Stand} {Q : α → β → Stand → Prop}
    (hyes : Agree K (x.face kind) yes yes' Q) (hno : ∀ other, Agree K (x.face other) no no' Q) :
    Agree K x (Script.nextIs kind >>= fun found => if found = true then yes else no)
      (Script.nextIs kind >>= fun found => if found = true then yes' else no') Q := by
  change Agree K x
    (Script.peek >>= fun token => if decide (token.kind = kind) = true then yes else no)
    (Script.peek >>= fun token => if decide (token.kind = kind) = true then yes' else no') Q
  refine .peek ?_
  rintro ⟨found, p⟩ ⟨found', p'⟩ ⟨hsame, -, -⟩
  obtain rfl : found = found' := hsame.symm
  by_cases hfound : found = kind
  · subst hfound
    simpa [Script.bind] using hyes
  · simpa [Script.bind, hfound] using hno found

namespace Sync

theorem nextIs (hyes : SyncAt K kind guarded yes yes' R sinks)
    (hno : Sync K guarded no no' R sinks) :
    Sync K guarded (Script.nextIs kind >>= fun found => if found = true then yes else no)
      (Script.nextIs kind >>= fun found => if found = true then yes' else no') R sinks := by
  intro x hsaved hguard
  refine .nextIs (hyes (x.face kind) hsaved rfl hguard) ?_
  exact fun other => hno (x.face other) hsaved hguard

theorem nextIsMark (hyes : SyncAt K (.punctuator mark) guarded yes yes' R sinks)
    (hno : Sync K guarded no no' R sinks) :
    Sync K guarded (Script.nextIsMark mark >>= fun found => if found = true then yes else no)
      (Script.nextIsMark mark >>= fun found => if found = true then yes' else no') R sinks :=
  nextIs hyes hno

/-- A token of the kind is taken only if it is next. -/
theorem accept (hkind : kind ≠ .endOfFile) (hyes : Sync K true yes yes' R false)
    (hno : Sync K guarded no no' R sinks) :
    Sync K guarded (Script.accept kind >>= fun found => if found = true then yes else no)
      (Script.accept kind >>= fun found => if found = true then yes' else no') R sinks := by
  rw [Script.accept_bind, Script.accept_bind]
  refine nextIs ?_ (by simpa using hno)
  exact .advance hkind fun _ _ _ => by simpa using hyes

theorem acceptMark (hyes : Sync K true yes yes' R false) (hno : Sync K guarded no no' R sinks) :
    Sync K guarded (Script.acceptMark mark >>= fun found => if found = true then yes else no)
      (Script.acceptMark mark >>= fun found => if found = true then yes' else no') R sinks :=
  accept nofun hyes hno

theorem expect (hkind : kind ≠ .endOfFile) :
    Sync K guarded (Script.expect kind) (Script.expect kind) (fun _ _ => True) true := by
  refine peek ?_
  intro found p p' hp _
  dsimp only
  by_cases hfound : found = kind
  · rw [if_pos hfound, if_pos hfound]
    have htake : SyncAt K found guarded (Script.advance >>= Pure.pure)
        (Script.advance >>= Pure.pure) (fun _ _ => True) true :=
      .advance (hfound ▸ hkind) fun _ _ _ => pure trivial
    rwa [bind_pure] at htake
  · rw [if_neg hfound, if_neg hfound]
    exact (refuse hp _).at_

theorem expectMark : Sync K guarded (Script.expectMark mark) (Script.expectMark mark)
    (fun _ _ => True) true :=
  expect nofun

theorem expectWord : Sync K guarded Script.expectWord Script.expectWord Eq true := by
  intro x hsaved _
  refine .advance ?_
  rintro ⟨kind, p⟩ ⟨kind', p'⟩ ⟨hkind, hp, -⟩ -
  obtain rfl : kind = kind' := hkind.symm
  cases kind with
  | identifier name => exact .done ⟨rfl, hsaved, fun _ => by simp [Stand.take]⟩
  | typeName name => exact .done ⟨rfl, hsaved, fun _ => by simp [Stand.take]⟩
  | _ => exact .fail ⟨⟨_, rfl⟩, rfl, hp⟩

theorem acceptWord :
    Sync K guarded Script.acceptWord Script.acceptWord Eq false := by
  refine peek ?_
  intro kind p p' _ _
  dsimp only
  split
  · exact (expectWord.behind fun name _ h => pure (h ▸ rfl) : Sync K guarded _ _ _ false).at_
  · exact (expectWord.behind fun name _ h => pure (h ▸ rfl) : Sync K guarded _ _ _ false).at_
  · exact (pure rfl).at_

theorem here : Sync K guarded Script.here Script.here K.positions false :=
  peek fun _ _ _ hp _ => (pure hp).at_

end Sync
end Script

namespace Grammar

open Script (Sync SyncAt SyncIf)
open Script.Sync

variable {K : Correspondence} {guarded sinks : Bool}

/-! ## Primary expressions -/

theorem sync_primary : Sync K guarded primary primary (Alike Expr.erase) true := by
  refine peek ?_
  intro kind p p' hp hread
  dsimp only
  split
  · exact .advance nofun fun _ _ _ => .pure rfl
  · exact .advance nofun fun _ _ _ => .pure rfl
  · rename_i text
    -- The lexer lets no constant through that has no value.
    obtain ⟨value, hvalue⟩ := Option.isSome_iff_exists.1 (hread text rfl)
    simp only [hvalue]
    exact .advance nofun fun _ _ _ => .pure rfl
  · exact .advance nofun fun _ _ _ => .pure rfl
  · exact .advance nofun fun _ _ _ => (rule .adjacentStrings).bind fun _ _ h => .pure (h ▸ rfl)
  · split
    · rename_i hkind
      exact .advance (by simp [hkind]) fun _ _ _ => (rule (.expression _)).bind fun _ _ h =>
        expectMark.behind fun _ _ _ => .pure h
    · exact (refuse hp _).at_

theorem sync_adjacentStrings :
    Sync K guarded adjacentStrings adjacentStrings Eq false := by
  refine peek ?_
  intro kind p p' _ _
  dsimp only
  split
  · exact .advance nofun fun _ _ _ => (rule .adjacentStrings).bind fun _ _ h => .pure (h ▸ rfl)
  · exact (pure rfl).at_

/-! ## Postfix expressions -/

theorem sync_callArguments :
    Sync K true callArguments callArguments (Alike (List.map Expr.erase)) false := by
  refine acceptMark (pure rfl) ?_
  refine (rule .arguments).bind fun values values' h => peek ?_
  intro kind p p' hp _
  dsimp only
  split
  · rename_i hkind
    exact .advance (by simp [hkind]) fun _ _ _ => .pure h
  · exact (refuse hp _).at_

theorem sync_postfixTail {operand operand' : Expr} (h : Alike Expr.erase operand operand') :
    Sync K guarded (postfixTail operand) (postfixTail operand') (Alike Expr.erase) false := by
  have tail : ∀ {e e' : Expr}, Alike Expr.erase e e' →
      Sync K true (Script.rule (.postfixTail e)) (Script.rule (.postfixTail e'))
        (Alike Expr.erase) false := fun he => rule (.postfixTail he)
  refine peek ?_
  intro kind p p' _ _
  dsimp only
  split
  · refine .advance (by simp) fun _ _ _ => (rule (.expression _)).bind fun e e' he =>
      expectMark.behind fun _ _ _ => tail ?_
    simp only [Alike, Expr.erase] at h he ⊢
    rw [h, he]
  · refine .advance (by simp) fun _ _ _ => sync_callArguments.bind fun values values' hvalues =>
      tail ?_
    simp only [Alike, Expr.erase, Expr.eraseList_eq] at h hvalues ⊢
    rw [h, hvalues]
  · refine .advance (by simp) fun _ _ _ => expectWord.behind fun name name' hname => tail ?_
    simp only [Alike, Expr.erase] at h ⊢
    rw [h, hname]
  · refine .advance (by simp) fun _ _ _ => expectWord.behind fun name name' hname => tail ?_
    simp only [Alike, Expr.erase] at h ⊢
    rw [h, hname]
  · exact .advance (by simp) fun _ _ _ => tail (congrArg (Expr.unary .erased .postIncrement) h)
  · exact .advance (by simp) fun _ _ _ => tail (congrArg (Expr.unary .erased .postDecrement) h)
  · exact (pure h).at_

theorem sync_postfixed : Sync K guarded postfixed postfixed (Alike Expr.erase) true :=
  sync_primary.behind fun _ _ h => sync_postfixTail h

/-! ## Unary expressions -/

/-- Where a mark is gone back to, no token counts as taken. -/
theorem sync_parenthesizedType? :
    SyncIf K parenthesizedType? parenthesizedType? (Alike (Option.map CType.erase))
      Option.isSome := by
  intro x hsaved
  refine .nextIs ?_ fun _ => .done ⟨rfl, hsaved, fun hx => hx.elim id nofun⟩
  refine .mark hsaved fun m => .advance ?_
  rintro ⟨kind, p⟩ token' htoken hopen
  obtain rfl : kind = .punctuator .openParen := hopen _ rfl
  refine .peek ?_
  rintro ⟨found, p₁⟩ ⟨found', p₁'⟩ ⟨hsame, -, -⟩
  obtain rfl : found = found' := hsame.symm
  dsimp only [Script.bind]
  split
  · -- The parenthesis is behind both parsers, so the type name may be called.
    refine .release ?_
    have htype : Sync K true
        (Script.rule .typeName >>= fun type => Script.expectMark .closeParen >>= fun _ =>
          Pure.pure (some type))
        (Script.rule .typeName >>= fun type => Script.expectMark .closeParen >>= fun _ =>
          Pure.pure (some type)) (Alike (Option.map CType.erase)) false :=
      (rule .typeName).bind fun type type' h => expectMark.behind fun _ _ _ =>
        pure (congrArg some h)
    refine (htype _ rfl fun _ => by simp [Stand.take, Stand.face]).mono ?_
    rintro type type' y ⟨h, hy, hbehind⟩
    exact ⟨h, hy, fun _ => hbehind (Or.inl (by simp [Stand.take, Stand.face]))⟩
  · exact .reset rfl (.done ⟨rfl, rfl, fun hx => hx.elim id nofun⟩)

theorem sync_unary : Sync K guarded unary unary (Alike Expr.erase) true := by
  refine peek ?_
  intro kind p p' hp _
  dsimp only
  split
  · refine .advance (by simp) fun _ _ _ => sync_parenthesizedType?.weaken.bind fun type type' h => ?_
    rcases type with _ | type <;> rcases type' with _ | type' <;> simp at h
    · refine (rule (.expression _)).bind fun e e' he => .pure ?_
      simp only [Alike, Expr.erase] at he ⊢
      rw [he]
    · refine .pure ?_
      simp only [Alike, Expr.erase] at h ⊢
      rw [h]
  · refine (sync_parenthesizedType?.bind ?_ ?_).at_
    · rintro (_ | type) (_ | type') h htaken <;> simp at h htaken
      refine (rule (.expression _)).bind fun e e' he => .pure ?_
      simp only [Alike, Expr.erase] at h he ⊢
      rw [h, he]
    · rintro (_ | type) (_ | type') h htaken <;> simp at h htaken
      exact sync_postfixed
  · split
    · refine .advance (by simp) fun _ _ _ => (rule (.expression _)).bind fun e e' he => .pure ?_
      simp only [Alike, Expr.erase] at he ⊢
      rw [he]
    · exact (refuse hp _).at_
  · exact sync_postfixed.at_

/-! ## Infix operators -/

theorem sync_operation (operator : InfixOperator) {left left' : Expr}
    (h : Alike Expr.erase left left') :
    Sync K true (operation operator left) (operation operator left') (Alike Expr.erase) false := by
  cases operator with
  | binary op =>
      refine (rule (.expression _)).bind fun e e' he => .pure ?_
      simp only [Alike, Expr.erase] at h he ⊢
      rw [h, he]
  | assign op =>
      refine (rule (.expression _)).bind fun e e' he => .pure ?_
      simp only [Alike, Expr.erase] at h he ⊢
      rw [h, he]
  | conditional =>
      refine (rule (.expression _)).bind fun e e' he => expectMark.behind fun _ _ _ =>
        (rule (.expression _)).bind fun f f' hf => .pure ?_
      simp only [Alike, Expr.erase] at h he hf ⊢
      rw [h, he, hf]

theorem ne_endOfFile_of_infixOperator? {limit : Precedence} {kind : TokenKind}
    {operator : InfixOperator} (h : infixOperator? limit kind = some operator) :
    kind ≠ .endOfFile := by
  rintro rfl
  cases h

theorem sync_infixTail (limit : Precedence) {left left' : Expr} (h : Alike Expr.erase left left') :
    Sync K guarded (infixTail limit left) (infixTail limit left') (Alike Expr.erase) false := by
  rw [infixTail_eq, infixTail_eq]
  refine peek ?_
  intro kind p p' _ _
  dsimp only
  split
  · rename_i operator hoperator
    exact .advance (ne_endOfFile_of_infixOperator? hoperator) fun _ _ _ =>
      (sync_operation operator h).bind fun _ _ hvalue => rule (.infixTail limit hvalue)
  · exact (pure h).at_

theorem sync_expression (limit : Precedence) :
    Sync K guarded (expression limit) (expression limit) (Alike Expr.erase) true :=
  sync_unary.behind fun _ _ h => sync_infixTail limit h

theorem sync_arguments :
    Sync K guarded arguments arguments (Alike (List.map Expr.erase)) true := by
  refine (sync_expression _).behind fun first first' hfirst => acceptMark ?_ ?_
  · refine (rule .arguments).bind fun others others' hothers => .pure ?_
    simp only [Alike, List.map_cons] at hfirst hothers ⊢
    rw [hfirst, hothers]
  · refine .pure ?_
    simp only [Alike, List.map_cons] at hfirst ⊢
    rw [hfirst]

end Grammar
end CSyntax
