import CSyntax.Proofs.Run.Takes

/-!
# Observance — what holds wherever a token is taken

A property of views is observed by a script if each token that it takes, itself or in a rule that it
calls, is taken off a view with the property.  `Script.Observes` is computed along the course of the
script over views, as `Script.read` is; `Parser.observesAt_iff` says the same of the events of a run.
-/

namespace CSyntax

variable {C : View → Prop}

namespace Script

variable {α β : Type} {reader : Reader} {within : Nonterminal → View → Prop} {v : View}

/-- Each token is taken off a view with the property.  What is taken by rules that are called is left
to `within`. -/
def Observes (C : View → Prop) (reader : Reader) (within : Nonterminal → View → Prop) :
    Script α → View → Prop
  | .done _, _ => True
  | .fail _, _ => True
  | .request r next, v =>
      (r = .advance → C v) ∧
        ∀ answer w, v.perform r = some (answer, w) → (next answer).Observes C reader within w
  | .call f next, v =>
      within f v ∧
        ∀ result w, reader f v = some (result, w) → (next result).Observes C reader within w

theorem observes_bind (prog : Script α) (next : α → Script β) (v : View) :
    (prog >>= next).Observes C reader within v ↔
      prog.Observes C reader within v ∧
        ∀ a w, prog.read reader v = some (a, w) → (next a).Observes C reader within w := by
  change (prog.bind next).Observes C reader within v ↔ _
  induction prog generalizing v with
  | done value =>
      simp only [bind, Observes, read, Option.some.injEq, Prod.mk.injEq, true_and]
      exact ⟨fun h a w heq => heq.1 ▸ heq.2 ▸ h, fun h => h value v ⟨rfl, rfl⟩⟩
  | fail error => simp [bind, Observes, read]
  | request r next ih =>
      simp only [bind, Observes, read, ih, Option.bind_eq_some_iff, Prod.exists]
      constructor
      · rintro ⟨hC, hnext⟩
        refine ⟨⟨hC, fun answer u hperform => (hnext answer u hperform).1⟩, ?_⟩
        rintro a w ⟨answer, u, hperform, hread⟩
        exact (hnext answer u hperform).2 a w hread
      · rintro ⟨⟨hC, hnext⟩, hrest⟩
        exact ⟨hC, fun answer u hperform =>
          ⟨hnext answer u hperform, fun a w hread => hrest a w ⟨answer, u, hperform, hread⟩⟩⟩
  | call f next ih =>
      simp only [bind, Observes, read, ih, Option.bind_eq_some_iff, Prod.exists]
      constructor
      · rintro ⟨hC, hnext⟩
        refine ⟨⟨hC, fun result u hresult => (hnext result u hresult).1⟩, ?_⟩
        rintro a w ⟨result, u, hresult, hread⟩
        exact (hnext result u hresult).2 a w hread
      · rintro ⟨⟨hC, hnext⟩, hrest⟩
        exact ⟨hC, fun result u hresult =>
          ⟨hnext result u hresult, fun a w hread => hrest a w ⟨result, u, hresult, hread⟩⟩⟩

end Script

namespace Parser

/-- The same of a rule with calls nested to a given depth. -/
def observesAt (C : View → Prop) : (depth : Nat) → Nonterminal → View → Prop
  | 0, _, _ => True
  | depth + 1, f, v => (Grammar.script f).Observes C (readAt depth) (observesAt C depth) v

variable {origin : Source}

/-- A run that keeps the discipline observes what its view does. -/
theorem observes_iff {α : Type} {depth : Nat}
    (hcall : ∀ f s, discipline.Admits ParserState.isMarked (ParserState.Sound origin)
      (eventsAt depth f s) →
      (observesAt C depth f s.view ↔ ∀ t, .requested .advance t ∈ eventsAt depth f s → C t.view))
    (prog : Script α) (s : ParserState)
    (h : discipline.Admits ParserState.isMarked (ParserState.Sound origin)
      (prog.events (runAt depth) (eventsAt depth) s)) :
    prog.Observes C (readAt depth) (observesAt C depth) s.view ↔
      ∀ t, .requested .advance t ∈ prog.events (runAt depth) (eventsAt depth) s → C t.view := by
  -- A request that fails has been made all the same, but nothing comes behind it.
  induction prog generalizing s with
  | done value => simp [Script.Observes, Script.events]
  | fail error => simp [Script.Observes, Script.events]
  | request r next ih =>
      obtain ⟨⟨hsound, may⟩, hrest⟩ := h.request
      have hperform := Request.view_perform hsound may
      rcases hr : r.perform s with ⟨error | answer, t⟩
      · rw [hr] at hperform
        simp only [Script.Observes, Script.events, hr, ← hperform]
        simp [ParserState.outcome, and_comm, eq_comm]
      · rw [hr] at hperform
        have hnext := ih answer t (hrest answer t hr)
        simp only [Script.Observes, Script.events, hr, ← hperform]
        simp [ParserState.outcome, hnext, or_imp, forall_and, eq_comm, and_comm]
  | call f next ih =>
      obtain ⟨hinside, hrest⟩ := h.call
      have hread := outcome_runAt hinside
      rcases hf : runAt depth f s with ⟨error | result, t⟩
      · rw [hf] at hread
        simp only [Script.Observes, Script.events, hf, ← hread, hcall f s hinside]
        simp [ParserState.outcome]
      · rw [hf] at hread
        have hnext := ih result t (hrest result t hf)
        simp only [Script.Observes, Script.events, hf, ← hread, hcall f s hinside]
        simp [ParserState.outcome, hnext, or_imp, forall_and]

theorem observesAt_iff {depth : Nat} {f : Nonterminal} {s : ParserState}
    (h : discipline.Admits ParserState.isMarked (ParserState.Sound origin) (eventsAt depth f s)) :
    observesAt C depth f s.view ↔
      ∀ t, .requested .advance t ∈ eventsAt depth f s → C t.view := by
  induction depth generalizing f s with
  | zero => simp [observesAt, eventsAt]
  | succ depth ih =>
      have hscript := observes_iff (C := C) (fun f s => ih) (Grammar.script f) s
        (h.mono events_script_subset)
      simp only [observesAt, hscript, eventsAt, List.mem_append]
      rcases runAt (depth + 1) f s with ⟨error | result, t⟩ <;> simp

end Parser

end CSyntax
