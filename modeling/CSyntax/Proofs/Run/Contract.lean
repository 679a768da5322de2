import CSyntax.Proofs.Run.Trace

/-!
# Contract — promises about rules, and why runs keep them

A fact about every run of the grammar is stated as a contract: over an abstraction of the parser
state it says what a request does, what a rule may count on and what it promises.  A script meets a
contract if its result follows from what the requests and the rules that it calls promise.

* `Script.Meets` is the condition on a script, computed along its course;
* `Contract.Valid` says that the script of every rule keeps the rule's promise;
* `Contract.sound` concludes from this that every run does, however deeply calls nest.

A contract is about runs that succeed; of a run that fails it says only what requests are made.
-/

namespace CSyntax

variable {σ : Type}

/-- What is said of requests and rules over abstract states. -/
structure Contract (σ : Type) where
  /-- The condition on which a request is made. -/
  may : Request → σ → Prop
  /-- How a request that succeeds answers, and the state that it leaves. -/
  step : (r : Request) → σ → r.Answer → σ → Prop
  /-- What a rule counts on when it is called. -/
  pre : Nonterminal → σ → Prop
  /-- What a rule promises, with the results of all rules carried out in between. -/
  post : (f : Nonterminal) → σ → f.Result → σ → List Returned → Prop

/-- Nothing is asked of a script itself: the contract is about results alone. -/
structure Contract.Free (C : Contract σ) : Prop where
  may : ∀ r x, C.may r x
  pre : ∀ f x, C.pre f x

/-- The first contract asks no more than the second and says at least as much of results. -/
structure Contract.Refines (D C : Contract σ) : Prop where
  may : ∀ {r x}, C.may r x → D.may r x
  step : ∀ {r x answer y}, D.step r x answer y → C.step r x answer y
  pre : ∀ {f x}, C.pre f x → D.pre f x
  post : ∀ {f x result y R}, D.post f x result y R → C.post f x result y R

namespace Script

variable {α β : Type} {C D : Contract σ}

/-- Whether a script, begun at a state, makes its requests and calls on the contract's conditions
and ends as `Q` says. -/
def Meets (C : Contract σ) : Script α → σ → (α → σ → List Returned → Prop) → Prop
  | .done value, x, Q => Q value x []
  | .fail _, _, _ => True
  | .request r next, x, Q =>
      C.may r x ∧ ∀ answer y, C.step r x answer y → (next answer).Meets C y Q
  | .call f next, x, Q =>
      C.pre f x ∧ ∀ result y R, C.post f x result y R →
        (next result).Meets C y fun value z S => Q value z (R ++ S)

theorem Meets.mono {prog : Script α} {x : σ} {P Q : α → σ → List Returned → Prop}
    (h : prog.Meets C x P) (hPQ : ∀ value y R, P value y R → Q value y R) :
    prog.Meets C x Q := by
  induction prog generalizing x P Q with
  | done value => exact hPQ _ _ _ h
  | fail _ => trivial
  | request r next ih =>
      exact ⟨h.1, fun answer y hstep => ih answer (h.2 answer y hstep) hPQ⟩
  | call f next ih =>
      refine ⟨h.1, fun result y R hpost => ih result (h.2 result y R hpost) ?_⟩
      intro value z S hP
      exact hPQ _ _ _ hP

theorem meets_bind (prog : Script α) (next : α → Script β) (x : σ)
    (Q : β → σ → List Returned → Prop) :
    (prog >>= next).Meets C x Q ↔
      prog.Meets C x fun value y R => (next value).Meets C y fun b z S => Q b z (R ++ S) := by
  change (prog.bind next).Meets C x Q ↔ _
  induction prog generalizing x Q with
  | done value => rfl
  | fail _ => rfl
  | request r _ ih =>
      simp only [bind, Meets, ih]
  | call f _ ih =>
      simp only [bind, Meets, ih, List.append_assoc]

/-- A script after another one, when the first is known by what it meets. -/
theorem Meets.bind {prog : Script α} {next : α → Script β} {x : σ}
    {P : α → σ → List Returned → Prop} {Q : β → σ → List Returned → Prop}
    (h : prog.Meets C x P)
    (hnext : ∀ value y R, P value y R → (next value).Meets C y fun b z S => Q b z (R ++ S)) :
    (prog >>= next).Meets C x Q :=
  (meets_bind prog next x Q).2 (h.mono hnext)

/-- Under a contract about results alone a script gives what all results are. -/
theorem Meets.of_forall (hfree : C.Free) {prog : Script α} {x : σ}
    {Q : α → σ → List Returned → Prop} (h : ∀ value y R, Q value y R) : prog.Meets C x Q := by
  induction prog generalizing x Q with
  | done value => exact h value x []
  | fail error => trivial
  | request r next ih => exact ⟨hfree.may r x, fun answer y _ => ih answer h⟩
  | call f next ih =>
      exact ⟨hfree.pre f x, fun result y R _ => ih result fun value z S => h value z (R ++ S)⟩

/-- What a script meets it meets under a contract that says more. -/
theorem Meets.refine (hrefines : D.Refines C) {prog : Script α} {x : σ}
    {Q : α → σ → List Returned → Prop} (h : prog.Meets C x Q) : prog.Meets D x Q := by
  induction prog generalizing x Q with
  | done value => exact h
  | fail error => trivial
  | request r next ih =>
      exact ⟨hrefines.may h.1, fun answer y hstep => ih answer (h.2 answer y (hrefines.step hstep))⟩
  | call f next ih =>
      exact ⟨hrefines.pre h.1, fun result y R hpost =>
        ih result (h.2 result y R (hrefines.post hpost))⟩

theorem Meets.and {prog : Script α} {x : σ} {P Q : α → σ → List Returned → Prop}
    (hP : prog.Meets C x P) (hQ : prog.Meets C x Q) :
    prog.Meets C x fun value y R => P value y R ∧ Q value y R := by
  induction prog generalizing x P Q with
  | done value => exact ⟨hP, hQ⟩
  | fail error => trivial
  | request r next ih =>
      exact ⟨hP.1, fun answer y hstep => ih answer (hP.2 answer y hstep) (hQ.2 answer y hstep)⟩
  | call f next ih =>
      exact ⟨hP.1, fun result y R hpost =>
        ih result (hP.2 result y R hpost) (hQ.2 result y R hpost)⟩

/-- Under a contract about results alone a script meets many things at once. -/
theorem Meets.all {ι : Sort _} (hfree : C.Free) {prog : Script α} {x : σ}
    {Q : ι → α → σ → List Returned → Prop} (h : ∀ i, prog.Meets C x (Q i)) :
    prog.Meets C x fun value y R => ∀ i, Q i value y R := by
  induction prog generalizing x Q with
  | done value => exact h
  | fail error => trivial
  | request r next ih =>
      exact ⟨hfree.may r x, fun answer y hstep => ih answer fun i => (h i).2 answer y hstep⟩
  | call f next ih =>
      exact ⟨hfree.pre f x, fun result y R hpost => ih result fun i => (h i).2 result y R hpost⟩

end Script

namespace Contract

/-- The script of every rule keeps the promise of the rule. -/
def Valid (C : Contract σ) : Prop :=
  ∀ f x, C.pre f x →
    (Grammar.script f).Meets C x fun result y R => C.post f x result y (R ++ [⟨f, result⟩])

/-- Requests in the trace do to good states what the contract says of their abstractions. -/
def Models (C : Contract σ) (abs : ParserState → σ) (Good : ParserState → Prop)
    (trace : List Event) : Prop :=
  ∀ r s, .requested r s ∈ trace → Good s → C.may r (abs s) →
    ∀ answer t, r.perform s = (.ok answer, t) → Good t ∧ C.step r (abs s) answer (abs t)

/-- All requests in the trace are made at good states and on the contract's conditions. -/
def Admits (C : Contract σ) (abs : ParserState → σ) (Good : ParserState → Prop)
    (trace : List Event) : Prop :=
  ∀ r s, .requested r s ∈ trace → Good s ∧ C.may r (abs s)

variable {C : Contract σ} {abs : ParserState → σ} {Good : ParserState → Prop}

theorem Models.mono {es fs : List Event} (h : C.Models abs Good fs) (hsub : es ⊆ fs) :
    C.Models abs Good es :=
  fun r s hmem => h r s (hsub hmem)

theorem Admits.append {es fs : List Event} (he : C.Admits abs Good es)
    (hf : C.Admits abs Good fs) : C.Admits abs Good (es ++ fs) := by
  intro r s hmem
  rcases List.mem_append.1 hmem with h | h
  · exact he r s h
  · exact hf r s h

theorem admits_nil : C.Admits abs Good [] := by
  intro r s hmem
  cases hmem

namespace Admits

variable {α : Type} {callee : Script.Callee} {within : Nonterminal → ParserState → List Event}
  {s : ParserState}

theorem mono {es fs : List Event} (h : C.Admits abs Good fs) (hsub : es ⊆ fs) :
    C.Admits abs Good es :=
  fun r s hmem => h r s (hsub hmem)

theorem request {r : Request} {next : r.Answer → Script α}
    (h : C.Admits abs Good ((Script.request r next).events callee within s)) :
    (Good s ∧ C.may r (abs s)) ∧ ∀ answer t, r.perform s = (.ok answer, t) →
      C.Admits abs Good ((next answer).events callee within t) :=
  ⟨h r s Script.requested_mem_events,
    fun _ _ hperform => h.mono (Script.events_answer_subset hperform)⟩

theorem call {f : Nonterminal} {next : f.Result → Script α}
    (h : C.Admits abs Good ((Script.call f next).events callee within s)) :
    C.Admits abs Good (within f s) ∧ ∀ result t, callee f s = (.ok result, t) →
      C.Admits abs Good ((next result).events callee within t) :=
  ⟨h.mono Script.within_subset_events,
    fun _ _ hcall => h.mono (Script.events_result_subset hcall)⟩

end Admits

/-- A run of a script keeps the contract if the runs of the rules that it calls do. -/
theorem sound_run {α : Type} {callee : Script.Callee}
    {within : Nonterminal → ParserState → List Event}
    (hcall : ∀ f s, Good s → C.pre f (abs s) → C.Models abs Good (within f s) →
      C.Admits abs Good (within f s) ∧ ∀ result t, callee f s = (.ok result, t) →
        Good t ∧ C.post f (abs s) result (abs t) ((within f s).filterMap Event.returned?))
    (prog : Script α) {Q : α → σ → List Returned → Prop} {s : ParserState} (good : Good s)
    (models : C.Models abs Good (prog.events callee within s)) (meets : prog.Meets C (abs s) Q) :
    C.Admits abs Good (prog.events callee within s) ∧
      ∀ value t, prog.run callee s = (.ok value, t) →
        Good t ∧ Q value (abs t) ((prog.events callee within s).filterMap Event.returned?) := by
  -- Along the script.  The postcondition is general, since each step leaves what is to hold behind
  -- it.
  induction prog generalizing s Q with
  | done value =>
      refine ⟨admits_nil, ?_⟩
      intro value' t hrun
      obtain ⟨rfl, rfl⟩ : value = value' ∧ s = t := by simpa [Script.run] using hrun
      exact ⟨good, meets⟩
  | fail error =>
      refine ⟨admits_nil, ?_⟩
      intro value t hrun
      cases hrun
  | request r next ih =>
      simp only [Script.events] at models ⊢
      have hhead : C.Admits abs Good [.requested r s] := by
        intro r' s' hmem
        cases List.mem_singleton.1 hmem
        exact ⟨good, meets.1⟩
      rcases hperform : r.perform s with ⟨error | answer, t⟩
      · refine ⟨hhead, ?_⟩
        intro value u hrun
        simp [Script.run, hperform] at hrun
      · simp only [hperform] at models ⊢
        obtain ⟨hgood, hstep⟩ := models r s List.mem_cons_self good meets.1 answer t hperform
        obtain ⟨hadmits, hresult⟩ := ih answer hgood
          (models.mono (List.subset_cons_self _ _)) (meets.2 answer _ hstep)
        refine ⟨hhead.append hadmits, ?_⟩
        intro value u hrun
        exact hresult value u (by simpa [Script.run, hperform] using hrun)
  | call f next ih =>
      simp only [Script.events] at models ⊢
      obtain ⟨hinside, hpost⟩ := hcall f s good meets.1 (models.mono (List.subset_append_left _ _))
      rcases hcallee : callee f s with ⟨error | result, t⟩
      · simp only [List.append_nil]
        refine ⟨hinside, ?_⟩
        intro value u hrun
        simp [Script.run, hcallee] at hrun
      · simp only [hcallee] at models ⊢
        obtain ⟨hgood, hstep⟩ := hpost result t hcallee
        obtain ⟨hadmits, hresult⟩ := ih result hgood
          (models.mono (List.subset_append_right _ _)) (meets.2 result _ _ hstep)
        refine ⟨hinside.append hadmits, ?_⟩
        intro value u hrun
        rw [List.filterMap_append]
        exact hresult value u (by simpa [Script.run, hcallee] using hrun)

/-- Runs of all rules keep a valid contract. -/
theorem sound (valid : C.Valid) {depth : Nat} {f : Nonterminal} {s : ParserState} (good : Good s)
    (pre : C.pre f (abs s)) (models : C.Models abs Good (Parser.eventsAt depth f s)) :
    C.Admits abs Good (Parser.eventsAt depth f s) ∧
      ∀ result t, Parser.runAt depth f s = (.ok result, t) →
        Good t ∧ C.post f (abs s) result (abs t) (Parser.returnsAt depth f s) := by
  induction depth generalizing f s with
  | zero =>
      refine ⟨admits_nil, ?_⟩
      intro result t hrun
      cases hrun
  | succ depth ih =>
      have hscript := sound_run (fun f s => ih (f := f) (s := s)) (Grammar.script f) good
        (models.mono (List.subset_append_left _ _)) (valid f (abs s) pre)
      refine ⟨hscript.1.append ?_, ?_⟩
      · intro r u hmem
        split at hmem <;> simp at hmem
      · intro result t hrun
        have := hscript.2 result t hrun
        simpa [Parser.returnsAt, Parser.eventsAt, hrun, Event.returned?] using this

end Contract

end CSyntax
