import CSyntax.Proofs.Lockstep.Statements
import CSyntax.Proofs.Lockstep.Views
import CSyntax.Proofs.Run.Faults

/-!
# Runs — parsers of corresponding texts go on side by side

Scripts that agree go abreast on states with corresponding views (`Script.Abreast`), and in the end
both runs have a value, or both have refused corresponding tokens, or both have come to the faults
that end the lexemes.

Calls nest less deeply than the lexemes are many: a rule that is called finds fewer of them ahead
than the rule that calls it did.  So the depth to which calls may nest, which differs from text to
text, makes no difference (`Parser.lockstep`).
-/

namespace CSyntax

/-! ## How two runs end -/

/-- Both runs have values as `P` says, or both refuse corresponding tokens, or both come to the
faults in the texts. -/
inductive Correspondence.Outcomes (K : Correspondence) {α β : Type} (P : α → β → View → Prop) :
    Except ParseError α × ParserState → Except ParseError β × ParserState → Prop
  | value {a : α} {a' : β} {s s' : ParserState} : P a a' s.view → K.Views s.view s'.view →
      Outcomes K P (.ok a, s) (.ok a', s')
  | refusal {e e' : ParseError} {s s' : ParserState} : K.Refusals e e' →
      Outcomes K P (.error e, s) (.error e', s')
  | fault {e e' : ParseError} {s s' : ParserState} : K.faults e e' →
      Outcomes K P (.error e, s) (.error e', s')

theorem Correspondence.Outcomes.mono {K : Correspondence} {α β : Type} {P P' : α → β → View → Prop}
    {x : Except ParseError α × ParserState} {x' : Except ParseError β × ParserState}
    (h : K.Outcomes P x x') (hP : ∀ a a' w, P a a' w → P' a a' w) : K.Outcomes P' x x' := by
  cases h with
  | value ha hviews => exact .value (hP _ _ _ ha) hviews
  | refusal hrefusals => exact .refusal hrefusals
  | fault hfaults => exact .fault hfaults

namespace Script

variable {K : Correspondence} {α β : Type} {origin origin' : Source} {callee callee' : Callee}
  {within within' : Nonterminal → ParserState → List Event} {s s' : ParserState}
  {P : α → β → View → Prop}

/-- Two requests that do corresponding things to the views are made, and the runs go on. -/
theorem outcomes_request {r r' : Request} {next : r.Answer → Script α}
    {next' : r'.Answer → Script β} {A : r.Answer → r'.Answer → Prop}
    (hlawful : Parser.Lawful origin ((Script.request r next).events callee within s))
    (hlawful' : Parser.Lawful origin' ((Script.request r' next').events callee' within' s'))
    (hviews : K.Views s.view s'.view)
    (hresponds : K.Responds A (s.view.perform r) (s'.view.perform r'))
    (hnext : ∀ answer answer' t t', Parser.Lawful origin ((next answer).events callee within t) →
      Parser.Lawful origin' ((next' answer').events callee' within' t') →
      s.view.perform r = some (answer, t.view) → A answer answer' → K.Views t.view t'.view →
      K.Outcomes P ((next answer).run callee t) ((next' answer').run callee' t')) :
    K.Outcomes P ((Script.request r next).run callee s)
      ((Script.request r' next').run callee' s') := by
  obtain ⟨hr, hrest⟩ := hlawful.request
  obtain ⟨hr', hrest'⟩ := hlawful'.request
  rcases Request.outcome_of_lawful hr with ⟨answer, t, hrun, hview⟩ | ⟨e, t, hrun, hview, hend⟩ <;>
    rcases Request.outcome_of_lawful hr' with
      ⟨answer', t', hrun', hview'⟩ | ⟨e', t', hrun', hview', hend'⟩ <;>
    rw [hview, hview'] at hresponds
  · cases hresponds with
    | some hanswer =>
        simp only [run, hrun, hrun']
        exact hnext answer answer' t t' (hrest _ _ hrun) (hrest' _ _ hrun') hview hanswer.1 hanswer.2
  · cases hresponds
  · cases hresponds
  · -- Neither token can be had, since both texts have a fault there.
    simp only [run, hrun, hrun']
    have hendings := hviews.ending
    rw [hend, hend'] at hendings
    cases hendings with
    | error hfaults => exact .fault hfaults

/-- Scripts that go abreast have corresponding outcomes if the rules that they call have.  Those are
called with fewer than `N` lexemes ahead. -/
theorem Abreast.outcomes {N : Nat}
    (hcalls : ∀ {f f' : Nonterminal} {R : f.Result → f'.Result → Prop}, f.Paired K f' R →
      ∀ {t t' : ParserState}, Parser.Lawful origin (within f t) →
      Parser.Lawful origin' (within' f' t') → K.Views t.view t'.view → t.view.taken = none →
      t.view.ahead.length < N →
      K.Outcomes (fun a a' w => R a a' ∧ w.taken = none ∧ w.ahead.length ≤ t.view.ahead.length)
        (callee f t) (callee' f' t'))
    {prog : Script α} {prog' : Script β} (h : Abreast K N P prog prog' s.view s'.view)
    (hlawful : Parser.Lawful origin (prog.events callee within s))
    (hlawful' : Parser.Lawful origin' (prog'.events callee' within' s')) :
    K.Outcomes P (prog.run callee s) (prog'.run callee' s') := by
  -- The induction goes from view to view, and the states follow.
  generalize hv : s.view = v, hv' : s'.view = v' at h
  induction h generalizing s s' with subst hv hv'
  | done ha hviews => exact .value ha hviews
  | fail hrefusals => exact .refusal hrefusals
  | request _ hviews hresponds _ ih =>
      refine outcomes_request hlawful hlawful' hviews hresponds ?_
      intro answer answer' t t' hrest hrest' hperform hanswer hviews
      exact ih answer answer' _ _ hperform hanswer hviews hrest hrest' rfl rfl
  | @call f f' R _ _ _ _ hpaired hviews htaken hlength _ ih =>
      obtain ⟨hinside, hrest⟩ := hlawful.call
      obtain ⟨hinside', hrest'⟩ := hlawful'.call
      have hcall := hcalls hpaired hinside hinside' hviews htaken hlength
      simp only [run]
      -- Either both rules give values, or both fail.
      rcases hrun : callee f s with ⟨e | a, t⟩ <;>
        rcases hrun' : callee' f' s' with ⟨e' | a', t'⟩ <;>
        rw [hrun, hrun'] at hcall
      · cases hcall with
        | refusal hrefusals => exact .refusal hrefusals
        | fault hfaults => exact .fault hfaults
      · cases hcall
      · cases hcall
      · cases hcall with
        | value hpost hviews =>
            obtain ⟨ha, htaken, hlength⟩ := hpost
            exact ih a a' _ _ ha hviews htaken hlength (hrest _ _ hrun) (hrest' _ _ hrun') rfl rfl

end Script

namespace Parser

variable {K : Correspondence} {origin origin' : Source}

/-- Rules that answer each other have corresponding outcomes, whatever the depths to which calls may
nest, if only they exceed the number of lexemes ahead. -/
theorem lockstep {depth depth' : Nat} {f f' : Nonterminal} {R : f.Result → f'.Result → Prop}
    (h : f.Paired K f' R) {s s' : ParserState} (hlawful : Lawful origin (eventsAt depth f s))
    (hlawful' : Lawful origin' (eventsAt depth' f' s')) (hviews : K.Views s.view s'.view)
    (htaken : s.view.taken = none) (hdepth : s.view.ahead.length < depth)
    (hdepth' : s.view.ahead.length < depth') :
    K.Outcomes (fun a a' w => R a a' ∧ w.taken = none ∧ w.ahead.length ≤ s.view.ahead.length)
      (runAt depth f s) (runAt depth' f' s') := by
  -- In front of each call a lexeme has been used up, so both depths go on to exceed what is ahead.
  induction depth generalizing depth' f f' s s' with
  | zero => exact absurd hdepth (Nat.not_lt_zero _)
  | succ depth ih =>
      cases depth' with
      | zero => exact absurd hdepth' (Nat.not_lt_zero _)
      | succ depth' =>
          have habreast := (h.sync Stand.start rfl nofun).abreast hviews
            (.start htaken (Nat.le_refl s.view.ahead.length))
          have houtcome := habreast.outcomes
            (fun {_ _ _} hpaired _ _ hinside hinside' hviews htaken hlength =>
              ih hpaired hinside hinside' hviews htaken (by omega) (by omega))
            hlawful.rule hlawful'.rule
          refine houtcome.mono ?_
          rintro a a' w ⟨y, ⟨ha, hsaved, -⟩, hfits⟩
          exact ⟨ha, by simpa [Stand.Recalls, hsaved] using hfits.saved, hfits.within⟩

end Parser
end CSyntax
