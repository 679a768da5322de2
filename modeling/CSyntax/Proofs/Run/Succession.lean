import CSyntax.Proofs.Run.Parts

/-!
# Succession — a trace goes from state to state

The trace of a run names for each request the state at which it is made.  These states are not
arbitrary: each is the one that the request before has left.

* `Parser.Linked` — a trace that goes from one state to another in this way;
* `Parser.linked_eventsAt` — the traces of rules do, whether they are carried out or fail;
* `Linked.invariant` — what every request keeps, a trace keeps, also with a view to what has been
  requested so far.
-/

namespace CSyntax

variable {α : Type} {s t u : ParserState} {es fs trace : List Event}

namespace Parser

/-- Each request of the trace is made at the state that the one before it has left. -/
inductive Linked : ParserState → List Event → ParserState → Prop
  | nil (s : ParserState) : Linked s [] s
  | requested {s t : ParserState} {es : List Event} (r : Request) :
      Linked (r.perform s).2 es t → Linked s (.requested r s :: es) t
  | returned {s t : ParserState} {es : List Event} (f : Nonterminal) (result : f.Result) :
      Linked s es t → Linked s (.returned f result :: es) t

namespace Linked

theorem append (h : Linked s es t) (h' : Linked t fs u) : Linked s (es ++ fs) u := by
  induction h with
  | nil => exact h'
  | requested r _ ih => exact .requested r (ih h')
  | returned f result _ ih => exact .returned f result (ih h')

/-- What happens up to a request leads to the state at which it is made. -/
theorem before {front back : List Event} {r : Request} {x : ParserState}
    (h : Linked s (front ++ .requested r x :: back) t) : Linked s front x := by
  induction front generalizing s with
  | nil =>
      cases h
      exact .nil _
  | cons event front ih =>
      cases h with
      | requested r' h => exact .requested r' (ih h)
      | returned f result h => exact .returned f result (ih h)

/-- What has happened before the trace may be spoken of as well. -/
theorem extend {motive : List Event → ParserState → Prop} (h : Linked s trace t)
    (hrequested : ∀ es r x, .requested r x ∈ trace → motive es x →
      motive (es ++ [.requested r x]) (r.perform x).2)
    (hreturned : ∀ es x f result, motive es x → motive (es ++ [.returned f result]) x)
    (hs : motive es s) : motive (es ++ trace) t := by
  induction h generalizing es with
  | nil => simpa using hs
  | @requested x _ trace r _ ih =>
      have hfirst := hrequested es r x List.mem_cons_self hs
      have hrest := ih (fun es r' x' hmem => hrequested es r' x' (List.mem_cons_of_mem _ hmem)) hfirst
      simpa using hrest
  | returned f result _ ih =>
      have hrest := ih (fun es r' x' hmem => hrequested es r' x' (List.mem_cons_of_mem _ hmem))
        (hreturned es _ f result hs)
      simpa using hrest

/-- An invariant may speak of what has happened so far. -/
theorem invariant {motive : List Event → ParserState → Prop} (h : Linked s trace t)
    (hrequested : ∀ es r x, .requested r x ∈ trace → motive es x →
      motive (es ++ [.requested r x]) (r.perform x).2)
    (hreturned : ∀ es x f result, motive es x → motive (es ++ [.returned f result]) x)
    (hs : motive [] s) : motive trace t :=
  h.extend hrequested hreturned hs

end Linked
end Parser

/-- The trace of a script is linked if those of the rules are that it calls. -/
theorem Script.linked_run {callee : Callee} {within : Nonterminal → ParserState → List Event}
    (hcall : ∀ f s, Parser.Linked s (within f s) (callee f s).2) (prog : Script α)
    (s : ParserState) : Parser.Linked s (prog.events callee within s) (prog.run callee s).2 := by
  induction prog generalizing s with
  | done value => exact .nil s
  | fail error => exact .nil s
  | request r next ih =>
      simp only [events, run]
      rcases hperform : r.perform s with ⟨error | answer, t⟩
      · refine .requested r ?_
        rw [hperform]
        exact .nil t
      · refine .requested r ?_
        rw [hperform]
        exact ih answer t
  | call f next ih =>
      simp only [events, run]
      have hinside := hcall f s
      rcases hcallee : callee f s with ⟨error | result, t⟩ <;> rw [hcallee] at hinside
      · exact hinside.append (.nil t)
      · exact hinside.append (ih result t)

theorem Parser.linked_eventsAt (depth : Nat) (f : Nonterminal) (s : ParserState) :
    Linked s (eventsAt depth f s) (runAt depth f s).2 := by
  induction depth generalizing f s with
  | zero => exact .nil s
  | succ depth ih =>
      refine (Script.linked_run ih (Grammar.script f) s).append ?_
      split
      · exact .returned f _ (.nil _)
      · exact .nil _

end CSyntax
