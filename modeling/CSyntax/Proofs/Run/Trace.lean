import CSyntax.Parser.Basic

/-!
# Trace — what happens in the course of a run

`Script.run` tells how a run ends.  The trace tells what it does on the way: which requests are made
at which states, and what the rules that are called give back.

* `Script.events` is the trace of a script, `Parser.eventsAt` that of a rule;
* `Parser.events` is the trace of the reading of a whole text.

A run that fails has a trace too, up to the request that fails.
-/

namespace CSyntax

/-- Something that happens while a rule is carried out. -/
inductive Event
  /-- The request is made at the state. -/
  | requested (r : Request) (s : ParserState)
  /-- The rule has been carried out and gives the result. -/
  | returned (f : Nonterminal) (result : f.Result)

namespace Script

variable {α β : Type}

/-- What happens while a script is carried out, with `callee` for the rules that it calls and
`within` for what happens inside them. -/
def events (callee : Callee) (within : Nonterminal → ParserState → List Event) :
    Script α → ParserState → List Event
  | .done _, _ => []
  | .fail _, _ => []
  | .request r next, s =>
      .requested r s ::
        match r.perform s with
        | (.ok answer, t) => (next answer).events callee within t
        | (.error _, _) => []
  | .call f next, s =>
      within f s ++
        match callee f s with
        | (.ok result, t) => (next result).events callee within t
        | (.error _, _) => []

/-! ### Parts of a trace -/

section

variable {callee : Callee} {within : Nonterminal → ParserState → List Event} {s t : ParserState}
  {r : Request} {answer : r.Answer} {f : Nonterminal} {result : f.Result}

theorem requested_mem_events {next : r.Answer → Script α} :
    .requested r s ∈ (Script.request r next).events callee within s := by
  rw [events]
  exact List.mem_cons_self

theorem events_answer_subset {next : r.Answer → Script α} (h : r.perform s = (.ok answer, t)) :
    (next answer).events callee within t ⊆ (Script.request r next).events callee within s := by
  rw [events, h]
  exact List.subset_cons_self _ _

theorem within_subset_events {next : f.Result → Script α} :
    within f s ⊆ (Script.call f next).events callee within s := by
  rw [events]
  exact List.subset_append_left _ _

theorem events_result_subset {next : f.Result → Script α} (h : callee f s = (.ok result, t)) :
    (next result).events callee within t ⊆ (Script.call f next).events callee within s := by
  rw [events, h]
  exact List.subset_append_right _ _

end

end Script

namespace Parser

/-- What happens while a rule is carried out with calls nested to a depth. -/
def eventsAt : (depth : Nat) → Nonterminal → ParserState → List Event
  | 0, _, _ => []
  | depth + 1, f, s =>
      (Grammar.script f).events (runAt depth) (eventsAt depth) s ++
        match runAt (depth + 1) f s with
        | (.ok result, _) => [.returned f result]
        | (.error _, _) => []

theorem events_script_subset {depth : Nat} {f : Nonterminal} {s : ParserState} :
    (Grammar.script f).events (runAt depth) (eventsAt depth) s ⊆ eventsAt (depth + 1) f s :=
  List.subset_append_left _ _

/-- What happens while a text is read. -/
def events (text : String) (file : Option String) : List Event :=
  let source := Source.ofString text file
  eventsAt (source.rest.length + 1) .externalDeclarations (.ofSource source)

theorem runUnit_of_parse {text : String} {file : Option String} {unit : TranslationUnit}
    (h : parse text file = .ok unit) : ∃ t, runUnit text file = (.ok unit.declarations, t) := by
  unfold parse at h
  rcases hrun : runUnit text file with ⟨error | list, t⟩
  · rw [hrun] at h
    cases h
  · rw [hrun] at h
    cases h
    exact ⟨t, rfl⟩

end Parser

/-! ## Results of rules -/

/-- A rule that was carried out, with its result. -/
abbrev Returned := (f : Nonterminal) × f.Result

namespace Event

def returned? : Event → Option Returned
  | .returned f result => some ⟨f, result⟩
  | .requested _ _ => none

end Event

namespace Parser

/-- The results of the rules that are carried out within a rule, and its own. -/
def returnsAt (depth : Nat) (f : Nonterminal) (s : ParserState) : List Returned :=
  (eventsAt depth f s).filterMap Event.returned?

/-- The results of all rules while a text is read. -/
def returns (text : String) (file : Option String) : List Returned :=
  (events text file).filterMap Event.returned?

end Parser

end CSyntax
