import CSyntax.Proofs.Run.Parts

/-!
# Chronicle — contracts over what has happened

The abstract states of a contract need not be functions of the parser's state.  They may also depend
on what has happened before: whether the end of the text has been taken, how far the rules have come
since a certain place.  This file defines:

* `Chronicle` — when an abstract state tells what has happened and where a run stands;
* `Contract.Follows` — what requests of a trace do is what the contract says of abstract states;

and shows that a run along which this is so keeps a valid contract (`Contract.along`), and that all
parts that it comes to do (`Contract.tells_of_reaches`).
-/

namespace CSyntax

variable {α β σ : Type}

/-! ## Traces of parts -/

namespace Script

theorem events_bind (callee : Callee) (within : Nonterminal → ParserState → List Event)
    (prog : Script α) (next : α → Script β) (s : ParserState) :
    (prog >>= next).events callee within s = prog.events callee within s ++
      match prog.run callee s with
      | (.ok value, t) => (next value).events callee within t
      | (.error _, _) => [] := by
  change (prog.bind next).events callee within s = _
  induction prog generalizing s with
  | done value => rfl
  | fail error => rfl
  | request r _ ih =>
      simp only [bind, events, run]
      rcases r.perform s with ⟨error | answer, t⟩
      · rfl
      · exact congrArg _ (ih answer t)
  | call f _ ih =>
      simp only [bind, events, run]
      rcases callee f s with ⟨error | result, t⟩
      · exact (List.append_nil _).symm
      · rw [List.append_assoc]
        exact congrArg _ (ih result t)

/-- What happens in a rule happens where it is called. -/
theorem events_subset_rule (depth : Nat) (f : Nonterminal) (s : ParserState) :
    (Grammar.script f).events (Parser.runAt depth) (Parser.eventsAt depth) s ⊆
      (rule f).events (Parser.runAt (depth + 1)) (Parser.eventsAt (depth + 1)) s := by
  intro event hmem
  simp only [rule, events, Parser.eventsAt]
  exact List.mem_append_left _ (List.mem_append_left _ hmem)

/-- What happens in a part happens in the whole. -/
theorem Reaches.events_subset {depth depth' : Nat} {prog : Script α} {part : Script β}
    {s t : ParserState} (h : Reaches depth prog s depth' part t) :
    part.events (Parser.runAt depth') (Parser.eventsAt depth') t ⊆
      prog.events (Parser.runAt depth) (Parser.eventsAt depth) s := by
  induction h with
  | self => exact fun _ hmem => hmem
  | front _ ih =>
      rw [events_bind]
      exact fun _ hmem => List.mem_append_left _ (ih hmem)
  | rest hrun _ ih =>
      rw [events_bind, hrun]
      exact fun _ hmem => List.mem_append_right _ (ih hmem)
  | call _ ih => exact fun _ hmem => events_subset_rule _ _ _ (ih hmem)

end Script

/-! ## Abstract states along a run -/

/-- Which abstract states tell what has happened and where a run stands.  That a rule has given a
result adds nothing to what the requests have done. -/
structure Chronicle (σ : Type) where
  Tells : List Event → ParserState → σ → Prop
  returned : ∀ {es : List Event} {s : ParserState} {x : σ} (f : Nonterminal) (result : f.Result),
    Tells es s x → Tells (es ++ [.returned f result]) s x

namespace Contract

variable {C : Contract σ} {H : Chronicle σ}

/-- Requests of the trace do what the contract says, whatever has happened before. -/
def Follows (C : Contract σ) (H : Chronicle σ) (trace : List Event) : Prop :=
  ∀ r s, .requested r s ∈ trace → ∀ es x, H.Tells es s x → C.may r x →
    ∀ answer t, r.perform s = (.ok answer, t) →
      ∃ y, C.step r x answer y ∧ H.Tells (es ++ [.requested r s]) t y

/-- Requests of the trace are made on the contract's conditions. -/
def Heeds (C : Contract σ) (H : Chronicle σ) (trace : List Event) : Prop :=
  ∀ r s, .requested r s ∈ trace → ∃ es x, H.Tells es s x ∧ C.may r x

theorem Follows.mono {es fs : List Event} (h : C.Follows H fs) (hsub : es ⊆ fs) :
    C.Follows H es :=
  fun r s hmem => h r s (hsub hmem)

theorem Heeds.append {es fs : List Event} (he : C.Heeds H es) (hf : C.Heeds H fs) :
    C.Heeds H (es ++ fs) :=
  fun r s hmem => (List.mem_append.1 hmem).elim (he r s) (hf r s)

theorem heeds_nil : C.Heeds H [] :=
  nofun

/-- A run of a script keeps the contract if the runs of the rules that it calls do. -/
theorem along_run {callee : Script.Callee} {within : Nonterminal → ParserState → List Event}
    (hcall : ∀ f s es x, H.Tells es s x → C.pre f x → C.Follows H (within f s) →
      C.Heeds H (within f s) ∧ ∀ result t, callee f s = (.ok result, t) →
        ∃ y R, H.Tells (es ++ within f s) t y ∧ C.post f x result y R)
    (prog : Script α) {Q : α → σ → List Returned → Prop} {s : ParserState} {es : List Event} {x : σ}
    (tells : H.Tells es s x) (follows : C.Follows H (prog.events callee within s))
    (meets : prog.Meets C x Q) :
    C.Heeds H (prog.events callee within s) ∧ ∀ value t, prog.run callee s = (.ok value, t) →
      ∃ y R, H.Tells (es ++ prog.events callee within s) t y ∧ Q value y R := by
  -- Along the script.  What has happened so far grows with each step, so it is general.
  induction prog generalizing s es x Q with
  | done value =>
      refine ⟨heeds_nil, ?_⟩
      intro value' t hrun
      cases hrun
      exact ⟨x, [], by simpa [Script.events] using tells, meets⟩
  | fail error => exact ⟨heeds_nil, fun _ _ hrun => by cases hrun⟩
  | request r next ih =>
      simp only [Script.events] at follows ⊢
      have hhead : C.Heeds H [.requested r s] := by
        intro r' s' hmem
        cases List.mem_singleton.1 hmem
        exact ⟨es, x, tells, meets.1⟩
      rcases hperform : r.perform s with ⟨error | answer, t⟩
      · refine ⟨hhead, ?_⟩
        intro value u hrun
        simp [Script.run, hperform] at hrun
      · simp only [hperform] at follows ⊢
        obtain ⟨y, hstep, htells⟩ :=
          follows r s List.mem_cons_self es x tells meets.1 answer t hperform
        obtain ⟨hheeds, hresult⟩ := ih answer htells
          (follows.mono (List.subset_cons_self _ _)) (meets.2 answer y hstep)
        refine ⟨hhead.append hheeds, ?_⟩
        intro value u hrun
        obtain ⟨z, R, hz, hQ⟩ := hresult value u (by simpa [Script.run, hperform] using hrun)
        exact ⟨z, R, by simpa using hz, hQ⟩
  | call f next ih =>
      simp only [Script.events] at follows ⊢
      obtain ⟨hinside, hpost⟩ :=
        hcall f s es x tells meets.1 (follows.mono (List.subset_append_left _ _))
      rcases hcallee : callee f s with ⟨error | result, t⟩
      · refine ⟨by simpa using hinside, ?_⟩
        intro value u hrun
        simp [Script.run, hcallee] at hrun
      · simp only [hcallee] at follows ⊢
        obtain ⟨y, R, htells, hstep⟩ := hpost result t hcallee
        obtain ⟨hheeds, hresult⟩ := ih result htells
          (follows.mono (List.subset_append_right _ _)) (meets.2 result y R hstep)
        refine ⟨hinside.append hheeds, ?_⟩
        intro value u hrun
        obtain ⟨z, S, hz, hQ⟩ := hresult value u (by simpa [Script.run, hcallee] using hrun)
        exact ⟨z, R ++ S, by simpa using hz, hQ⟩

/-- Runs of all rules keep a valid contract. -/
theorem along (valid : C.Valid) {depth : Nat} {f : Nonterminal} {s : ParserState}
    {es : List Event} {x : σ} (tells : H.Tells es s x) (pre : C.pre f x)
    (follows : C.Follows H (Parser.eventsAt depth f s)) :
    C.Heeds H (Parser.eventsAt depth f s) ∧ ∀ result t, Parser.runAt depth f s = (.ok result, t) →
      ∃ y R, H.Tells (es ++ Parser.eventsAt depth f s) t y ∧ C.post f x result y R := by
  induction depth generalizing f s es x with
  | zero => exact ⟨heeds_nil, nofun⟩
  | succ depth ih =>
      obtain ⟨hheeds, hresult⟩ := along_run (fun f s es x tells pre follows => ih tells pre follows)
        (Grammar.script f) tells (follows.mono (List.subset_append_left _ _)) (valid f x pre)
      refine ⟨hheeds.append ?_, ?_⟩
      · intro r u hmem
        split at hmem <;> simp at hmem
      · intro result t hrun
        obtain ⟨y, R, htells, hpost⟩ := hresult result t hrun
        refine ⟨y, _, ?_, hpost⟩
        simp only [Parser.eventsAt, hrun, ← List.append_assoc]
        exact H.returned f result htells

/-- The same of a script. -/
theorem along_script (valid : C.Valid) {depth : Nat} {prog : Script α} {s : ParserState}
    {es : List Event} {x : σ} {Q : α → σ → List Returned → Prop} (tells : H.Tells es s x)
    (follows : C.Follows H (prog.events (Parser.runAt depth) (Parser.eventsAt depth) s))
    (meets : prog.Meets C x Q) :
    C.Heeds H (prog.events (Parser.runAt depth) (Parser.eventsAt depth) s) ∧
      ∀ value t, prog.run (Parser.runAt depth) s = (.ok value, t) → ∃ y R,
        H.Tells (es ++ prog.events (Parser.runAt depth) (Parser.eventsAt depth) s) t y ∧
          Q value y R :=
  along_run (fun _ _ _ _ tells pre follows => along valid tells pre follows) prog tells follows meets

/-- A part that a run comes to is begun at a state of which some abstract state tells, and meets the
contract from there. -/
theorem tells_of_reaches (valid : C.Valid) {depth depth' : Nat} {prog : Script α} {part : Script β}
    {s t : ParserState} {es : List Event} {x : σ} {Q : α → σ → List Returned → Prop}
    (h : Script.Reaches depth prog s depth' part t) (tells : H.Tells es s x)
    (follows : C.Follows H (prog.events (Parser.runAt depth) (Parser.eventsAt depth) s))
    (meets : prog.Meets C x Q) : ∃ fs y Q', H.Tells fs t y ∧ part.Meets C y Q' := by
  induction h generalizing es x with
  | self => exact ⟨es, x, Q, tells, meets⟩
  | front _ ih =>
      rw [Script.events_bind] at follows
      exact ih tells (follows.mono (List.subset_append_left _ _)) ((Script.meets_bind ..).1 meets)
  | rest hrun _ ih =>
      rw [Script.events_bind, hrun] at follows
      obtain ⟨y, R, htells, hnext⟩ := (along_script valid tells
        (follows.mono (List.subset_append_left _ _)) ((Script.meets_bind ..).1 meets)).2 _ _ hrun
      exact ih htells (follows.mono (List.subset_append_right _ _)) hnext
  | call _ ih =>
      -- A rule that is called is begun where its promise may be counted on.
      exact ih tells (follows.mono (Script.events_subset_rule _ _ _)) (valid _ _ meets.1)

end Contract

end CSyntax
