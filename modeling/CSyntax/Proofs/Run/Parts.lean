import CSyntax.Proofs.Run.Contract

/-!
# Parts — what is carried out on the way

A run of a script carries out the scripts that it is put together from, and those of the rules that
it calls.  `Script.Reaches` says that a run comes to such a part, and at which state; a run that
fails later has come to it all the same.

A part that a run comes to meets the contract that the whole meets, from the state at which it
begins (`Contract.meets_of_reaches`).
-/

namespace CSyntax

variable {α β γ : Type}

/-- If a script has been carried out, then so have its parts. -/
theorem Script.run_of_bind {callee : Callee} {prog : Script α} {next : α → Script β}
    {s t : ParserState} {b : β} (h : (prog >>= next).run callee s = (.ok b, t)) :
    ∃ a u, prog.run callee s = (.ok a, u) ∧ (next a).run callee u = (.ok b, t) := by
  change (prog.bind next).run callee s = _ at h
  rw [run_bind] at h
  rcases hprog : prog.run callee s with ⟨error | a, u⟩
  · rw [hprog] at h
    cases h
  · rw [hprog] at h
    exact ⟨a, u, rfl, h⟩

theorem Script.run_rule (callee : Callee) (f : Nonterminal) (s : ParserState) :
    (rule f).run callee s = callee f s := by
  simp only [rule, run]
  rcases callee f s with ⟨error | result, t⟩ <;> rfl

/-- Carrying the first script out, with calls nested to a depth, comes to the second: it is begun at
the second state, and calls within it may nest to the second depth. -/
inductive Script.Reaches : {α β : Type} → Nat → Script α → ParserState → Nat → Script β →
    ParserState → Prop
  | self {α : Type} {depth : Nat} {prog : Script α} {s : ParserState} :
      Reaches depth prog s depth prog s
  /-- The part lies in the script that comes first. -/
  | front {α β γ : Type} {depth depth' : Nat} {prog : Script α} {next : α → Script β}
      {part : Script γ} {s t : ParserState} :
      Reaches depth prog s depth' part t → Reaches depth (prog >>= next) s depth' part t
  /-- The first script gives a value, and the part lies in what comes behind it. -/
  | rest {α β γ : Type} {depth depth' : Nat} {prog : Script α} {next : α → Script β}
      {part : Script γ} {s t u : ParserState} {value : α} :
      prog.run (Parser.runAt depth) s = (.ok value, u) →
      Reaches depth (next value) u depth' part t → Reaches depth (prog >>= next) s depth' part t
  /-- The part lies in a rule that is called. -/
  | call {α : Type} {depth depth' : Nat} {f : Nonterminal} {part : Script α} {s t : ParserState} :
      Reaches depth (Grammar.script f) s depth' part t →
      Reaches (depth + 1) (.rule f) s depth' part t

theorem Script.Reaches.trans {depth depth' depth'' : Nat} {prog : Script α} {part : Script β}
    {piece : Script γ} {s t u : ParserState} (h : Reaches depth prog s depth' part t)
    (h' : Reaches depth' part t depth'' piece u) : Reaches depth prog s depth'' piece u := by
  induction h with
  | self => exact h'
  | front _ ih => exact .front (ih h')
  | rest hrun _ ih => exact .rest hrun (ih h')
  | call _ ih => exact .call (ih h')

/-- The reading of the text comes to the script at the state. -/
def Parser.Reaches (text : String) (file : Option String) (depth : Nat) (part : Script α)
    (s : ParserState) : Prop :=
  let source := Source.ofString text file
  Script.Reaches (source.rest.length + 1) (.rule .externalDeclarations) (.ofSource source) depth part s

namespace Contract

variable {σ : Type} {C : Contract σ} {abs : ParserState → σ} {Good : ParserState → Prop}
  {depth depth' : Nat} {prog : Script α} {part : Script β} {s t : ParserState}
  {Q : α → σ → List Returned → Prop}

/-- A script that meets a valid contract keeps it when it is carried out. -/
theorem sound_script (valid : C.Valid) (models : ∀ trace, C.Models abs Good trace) (good : Good s)
    (meets : prog.Meets C (abs s) Q) :
    C.Admits abs Good (prog.events (Parser.runAt depth) (Parser.eventsAt depth) s) ∧
      ∀ value t, prog.run (Parser.runAt depth) s = (.ok value, t) →
        Good t ∧ ∃ R, Q value (abs t) R := by
  obtain ⟨hadmits, hresult⟩ := sound_run
    (fun f u hgood hpre hmodels => sound valid hgood hpre hmodels) prog good (models _) meets
  exact ⟨hadmits, fun value t hrun => (hresult value t hrun).imp_right fun hQ => ⟨_, hQ⟩⟩

theorem meets_of_reaches (valid : C.Valid) (models : ∀ trace, C.Models abs Good trace)
    (h : Script.Reaches depth prog s depth' part t) (good : Good s)
    (meets : prog.Meets C (abs s) Q) : Good t ∧ ∃ Q', part.Meets C (abs t) Q' := by
  induction h with
  | self => exact ⟨good, Q, meets⟩
  | front _ ih => exact ih good ((Script.meets_bind ..).1 meets)
  | rest hrun _ ih =>
      obtain ⟨hgood, R, hnext⟩ :=
        (sound_script valid models good ((Script.meets_bind ..).1 meets)).2 _ _ hrun
      exact ih hgood hnext
  | call _ ih =>
      -- A rule that is called is begun where its promise may be counted on.
      exact ih good (valid _ _ meets.1)

end Contract

end CSyntax
