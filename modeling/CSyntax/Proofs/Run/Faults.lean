import CSyntax.Proofs.Run.Takes
import CSyntax.Proofs.Scope.Restoration

/-!
# Faults — how a request fails

In a run over a text a request fails in one way only: a token was asked for, and the text has a
lexical fault where the lexemes end.  The fault is then the one that the view shows as its ending.
The file scope is never left.

* `Parser.Lawful` — a trace all of whose requests are made as the disciplines of marks and scopes
  ask for, which all runs over texts are (`Parser.lawful_events`);
* `Request.outcome_of_lawful` — what such a request does, to the state and to its view.
-/

namespace CSyntax

/-! ## Tokens that cannot be had -/

namespace Cursor.Sound

variable {origin : Source} {table : SymbolTable} {c d : Cursor} {error : ParseError}

theorem ending_of_pull (hpull : c.pull table = (.error error, d)) :
    (c.view table).ending = .error error := by
  unfold Cursor.pull Source.nextToken at hpull
  rcases hnext : c.source.nextLexeme with ⟨fault | ⟨w, p⟩, t⟩
  · simp only [hnext, Prod.mk.injEq, Except.error.injEq] at hpull
    rw [view, Source.outlook_of_error hnext, hpull.1]
  · simp only [hnext] at hpull
    cases hpull

theorem ending_of_pullNth {k : Nat} (h : c.Sound origin table)
    (hpull : Cursor.pullNth table k c = (.error error, d)) :
    (c.view table).ending = .error error := by
  induction k generalizing c with
  | zero => exact ending_of_pull hpull
  | succ k ih =>
      rw [Cursor.pullNth] at hpull
      rcases hfirst : c.pull table with ⟨fault | first, e⟩
      · simp only [hfirst] at hpull
        cases hpull
        exact ending_of_pull hfirst
      · simp only [hfirst] at hpull
        rw [← h.view_pull hfirst]
        exact ih (h.pull hfirst).1 hpull

theorem ending_of_peekNth {n : Nat} (h : c.Sound origin table)
    (hpeek : c.peekNth table n = (.error error, d)) : (c.view table).ending = .error error := by
  unfold Cursor.peekNth at hpeek
  split at hpeek
  · cases hpeek
  · exact h.ending_of_pullNth hpeek

theorem ending_of_advance (h : c.Sound origin table)
    (hadvance : c.advance table = (.error error, d)) : (c.view table).ending = .error error := by
  unfold Cursor.advance Cursor.peek at hadvance
  rcases hpeek : c.peekNth table 0 with ⟨fault | token, e⟩
  · simp only [hpeek] at hadvance
    cases hadvance
    exact h.ending_of_peekNth hpeek
  · simp only [hpeek] at hadvance
    cases hadvance

end Cursor.Sound

/-! ## Lawful traces -/

/-- The request is made at a sound state, as the disciplines of marks and of scopes ask for. -/
structure Request.Lawful (origin : Source) (r : Request) (s : ParserState) : Prop where
  sound : s.Sound origin
  marks : discipline.may r s.isMarked
  scopes : (nesting true).may r s.table

/-- A lawful request succeeds on the state and on its view alike, or fails on both with the fault
that ends the lexemes. -/
theorem Request.outcome_of_lawful {origin : Source} {r : Request} {s : ParserState}
    (h : r.Lawful origin s) :
    (∃ answer t, r.perform s = (.ok answer, t) ∧ s.view.perform r = some (answer, t.view)) ∨
      ∃ error t, r.perform s = (.error error, t) ∧ s.view.perform r = none ∧
        s.view.ending = .error error := by
  have hview := Request.view_perform h.sound h.marks
  rcases hperform : r.perform s with ⟨error | answer, t⟩
  · rw [hperform] at hview
    refine Or.inr ⟨error, t, rfl, hview.symm, ?_⟩
    cases r with
    | peek n =>
        have hpeek : (s.cursor.peekNth s.table n).1 = .error error := congrArg Prod.fst hperform
        exact h.sound.cursor.ending_of_peekNth (Prod.ext hpeek rfl)
    | advance =>
        have hadvance : (s.cursor.advance s.table).1 = .error error := congrArg Prod.fst hperform
        exact h.sound.cursor.ending_of_advance (Prod.ext hadvance rfl)
    | leave position =>
        -- A scope other than the file scope is open.
        have hopen : s.table.leave? ≠ none := h.scopes
        cases hleave : s.table.leave? with
        | none => exact absurd hleave hopen
        | some outer => simp [perform, hleave] at hperform
    | _ => cases hperform
  · rw [hperform] at hview
    exact Or.inl ⟨answer, t, rfl, hview.symm⟩

namespace Parser

/-- All requests of the trace are lawful. -/
def Lawful (origin : Source) (trace : List Event) : Prop :=
  ∀ r s, .requested r s ∈ trace → r.Lawful origin s

/-- However deeply calls may nest. -/
theorem lawful_eventsAt (depth : Nat) (source : Source) :
    Lawful source (eventsAt depth .externalDeclarations (.ofSource source)) := by
  have hstart : Tidy (.ofSource source) := SymbolTable.recordsEmpty_empty
  have hplace : (nesting true).pre .externalDeclarations (ParserState.ofSource source).table :=
    fun _ => rfl
  have hnesting : (nesting true).Admits ParserState.table Tidy
      (eventsAt depth .externalDeclarations (.ofSource source)) :=
    (Contract.sound (valid_nesting true) hstart hplace (models_nesting _)).1
  intro r s hmem
  obtain ⟨hsound, hmarks⟩ := admits_eventsAt (ParserState.sound_ofSource _) rfl r s hmem
  exact ⟨hsound, hmarks, (hnesting r s hmem).2⟩

theorem lawful_events (text : String) (file : Option String) :
    Lawful (.ofString text file) (events text file) :=
  lawful_eventsAt _ _

namespace Lawful

variable {α : Type} {origin : Source} {callee : Script.Callee}
  {within : Nonterminal → ParserState → List Event} {s : ParserState}

theorem request {r : Request} {next : r.Answer → Script α}
    (h : Lawful origin ((Script.request r next).events callee within s)) :
    r.Lawful origin s ∧ ∀ answer t, r.perform s = (.ok answer, t) →
      Lawful origin ((next answer).events callee within t) := by
  refine ⟨h r s Script.requested_mem_events, ?_⟩
  intro answer t hperform r' s' hmem
  exact h r' s' (Script.events_answer_subset hperform hmem)

theorem call {f : Nonterminal} {next : f.Result → Script α}
    (h : Lawful origin ((Script.call f next).events callee within s)) :
    Lawful origin (within f s) ∧ ∀ result t, callee f s = (.ok result, t) →
      Lawful origin ((next result).events callee within t) := by
  refine ⟨fun r' s' hmem => h r' s' (Script.within_subset_events hmem), ?_⟩
  intro result t hcall r' s' hmem
  exact h r' s' (Script.events_result_subset hcall hmem)

theorem rule {depth : Nat} {f : Nonterminal} (h : Lawful origin (eventsAt (depth + 1) f s)) :
    Lawful origin ((Grammar.script f).events (runAt depth) (eventsAt depth) s) :=
  fun r' s' hmem => h r' s' (events_script_subset hmem)

end Lawful

end Parser
end CSyntax
