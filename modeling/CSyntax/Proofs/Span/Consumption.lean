import CSyntax.Proofs.Run.Consistency
import CSyntax.Proofs.Span.Units

/-!
# Consumption — how much of the text a run takes

A rule is never called again before some lexeme has been taken, so calls nest no deeper than the text
has lexemes, and with more depth nothing changes (`Parser.runAt_of_length_lt`).  A unit takes every
lexeme of its text once, if the parentheses that are given back are not counted
(`Parser.consumes_once`).
-/

namespace CSyntax

/-! ## Enough depth -/

/-- The run failed because calls nested too deeply. -/
def Parser.Sinks {α : Type} (x : Except ParseError α × ParserState) : Prop :=
  ∃ e, x.1 = .error e ∧ e.cause = .internal .tooDeep

/-- Where the rules that are called do the same unless they sink, so does a script. -/
theorem Script.run_of_not_sinks {α : Type} {callee callee' : Callee}
    (hcall : ∀ f s, ¬ Parser.Sinks (callee f s) → callee' f s = callee f s) (prog : Script α)
    {s : ParserState} (h : ¬ Parser.Sinks (prog.run callee s)) :
    prog.run callee' s = prog.run callee s := by
  induction prog generalizing s with
  | done value => rfl
  | fail error => rfl
  | request r next ih =>
      simp only [run] at h ⊢
      rcases hperform : r.perform s with ⟨error | answer, t⟩
      · rfl
      · simp only [hperform] at h ⊢
        exact ih answer h
  | call f next ih =>
      simp only [run] at h ⊢
      -- If the rule sank, so would the script.
      have hsame : callee' f s = callee f s := by
        refine hcall f s fun hsinks => h ?_
        obtain ⟨e, he, hcause⟩ := hsinks
        rcases hcallee : callee f s with ⟨error | result, t⟩
        · rw [hcallee] at he
          obtain rfl := Except.error.inj he
          exact ⟨error, rfl, hcause⟩
        · rw [hcallee] at he
          cases he
      rw [hsame]
      rcases hcallee : callee f s with ⟨error | result, t⟩
      · rfl
      · simp only [hcallee] at h ⊢
        exact ih result h

namespace Parser

variable {text : String} {file : Option String}

/-- A run that does not sink is the same with more depth. -/
theorem runAt_of_not_sinks {depth depth' : Nat} (hle : depth ≤ depth') {f : Nonterminal}
    {s : ParserState} (h : ¬ Sinks (runAt depth f s)) : runAt depth' f s = runAt depth f s := by
  induction depth generalizing depth' f s with
  | zero => exact absurd ⟨_, rfl, rfl⟩ h
  | succ depth ih =>
      obtain ⟨d, rfl⟩ : ∃ d, depth' = d + 1 := ⟨depth' - 1, by omega⟩
      exact Script.run_of_not_sinks (fun f s hnot => ih (by omega) hnot) _ h

/-- Calls nest no deeper than the text has lexemes. -/
theorem not_sinks_of_length_lt {source : Source} {depth : Nat}
    (hdepth : source.outlook.pieces.length < depth) :
    ¬ Sinks (runAt depth .externalDeclarations (.ofSource source)) := by
  -- A text agrees with itself: it is refused by the grammar, or for its lexical fault, or read.
  let K : Correspondence :=
    { positions := fun _ _ => True, faults := fun e _ => ∃ fault, e.cause = .lexical fault }
  have hpieces : List.Forall₂ K.Pieces source.outlook.pieces source.outlook.pieces :=
    List.forall₂_same.2 fun piece hpiece => ⟨rfl, trivial, Source.readable_of_mem_outlook hpiece⟩
  have hending : K.Endings source.outlook.ending source.outlook.ending := by
    cases hend : source.outlook.ending with
    | ok p => exact .ok trivial
    | error e => exact .error (lexical_of_ending hend)
  have hviews : K.Views (ParserState.ofSource source).view (ParserState.ofSource source).view :=
    { ahead := hpieces, ending := hending, table := rfl, taken := .none }
  have houtcome := lockstep .externalDeclarations (lawful_eventsAt depth source)
    (lawful_eventsAt depth source) hviews rfl hdepth hdepth
  rintro ⟨e, he, hcause⟩
  generalize runAt depth .externalDeclarations (.ofSource source) = x at he houtcome
  cases houtcome with
  | value _ _ => cases he
  | refusal hrefusals =>
      obtain rfl := Except.error.inj he
      obtain ⟨fault, hfault⟩ := hrefusals.grammatical
      rw [hfault] at hcause
      cases hcause
  | fault hfaults =>
      obtain rfl := Except.error.inj he
      obtain ⟨fault, hfault⟩ := hfaults
      rw [hfault] at hcause
      cases hcause

/-- With more depth than the text has lexemes nothing changes. -/
theorem runAt_of_length_lt {depth : Nat}
    (hdepth : (Source.ofString text file).outlook.pieces.length < depth) :
    runAt depth .externalDeclarations (.ofSource (.ofString text file)) = runUnit text file := by
  have hlength := Nat.lt_succ_of_le (Source.length_pieces_le (.ofString text file))
  rcases Nat.le_total depth ((Source.ofString text file).rest.length + 1) with hle | hle
  · exact (runAt_of_not_sinks hle (not_sinks_of_length_lt hdepth)).symm
  · exact runAt_of_not_sinks hle (not_sinks_of_length_lt hlength)

/-! ## Progress -/

theorem events_rule_subset (depth : Nat) (f : Nonterminal) (s : ParserState) :
    (Script.rule f).events (runAt depth) (eventsAt depth) s ⊆ eventsAt depth f s := by
  intro event hmem
  simp only [Script.rule, Script.events] at hmem
  rcases List.mem_append.1 hmem with hmem | hmem
  · exact hmem
  · split at hmem <;> cases hmem

/-- A rule that is called in the course of another one finds fewer lexemes ahead. -/
theorem length_ahead_lt_of_reaches {depth depth' : Nat} {f g : Nonterminal} {s t : ParserState}
    (houter : Reaches text file (depth + 1) (.rule f) s)
    (hinner : Script.Reaches depth (Grammar.script f) s depth' (.rule g) t) :
    t.view.ahead.length < s.view.ahead.length := by
  have hlawful : Lawful (.ofString text file) ((Script.rule f).events (runAt (depth + 1))
      (eventsAt (depth + 1)) s) :=
    fun r u hmem => lawful_events text file r u
      (events_rule_subset _ _ _ (houter.events_subset hmem))
  obtain ⟨es, x, _, htells, ⟨hrests, -, hstop, hstarts⟩, -⟩ :=
    Contract.tells_of_reaches (valid_spanning _ 0) (Q := fun _ _ _ => True) houter
      (Site.tells_start (.ofString text file))
      (Site.follows_spanning 0 fun r u hmem => lawful_events text file r u (events_rule_subset _ _ _ hmem))
      ⟨Site.pre_start _, fun _ _ _ _ => trivial⟩
  -- Seen from the first rule, others are begun behind the place where it stands.
  obtain ⟨fs, y, _, htells', ⟨-, hbehind, -, -⟩, -⟩ :=
    Contract.tells_of_reaches (valid_spanning _ (x.here + 1)) hinner htells
      (Site.follows_spanning _ fun r u hmem =>
        hlawful r u (Script.events_subset_rule _ _ _ hmem))
      (Grammar.spans_script f (Nat.le_refl _) hstarts x hrests rfl hstop)
  refine htells.behind.here_lt htells'.behind ?_
  rw [← htells.here, ← htells'.here]
  exact hbehind

/-- What is given back to the text is one parenthesis, which was taken last. -/
theorem taken_of_reset {m : Mark} {s : ParserState}
    (h : .requested (.reset m) s ∈ events text file) :
    ∃ piece, s.view.taken = some [piece] ∧ piece.lexeme = .punctuator .openParen := by
  have hheeds := (Contract.along (valid_spanning _ 0)
    (Site.tells_start (.ofString text file)) (Site.pre_start _)
    (Site.follows_spanning 0 (lawful_events text file))).1
  obtain ⟨es, x, htells, hmay⟩ := hheeds _ _ h
  obtain ⟨kept, hkept, hkinds⟩ := Option.map_eq_some_iff.1 hmay
  have hsaved := htells.saved
  rw [hkept] at hsaved
  obtain ⟨before, since, -, -, htaken, hsame, -⟩ := hsaved
  rw [hkinds, List.map_eq_singleton_iff] at hsame
  obtain ⟨token, rfl, hkind⟩ := hsame
  refine ⟨token.piece, ?_, by rw [Token.piece, hkind]; rfl⟩
  rw [htaken, Token.pieces, List.filter_cons_of_pos (by simp [hkind])]
  rfl

/-! ## Consumption -/

/-- What a unit has taken is what its text is lexed into, and nothing is left. -/
theorem consumed_of_runUnit {list : List ExternalDeclaration} {t : ParserState}
    (h : runUnit text file = (.ok list, t)) : ∃ tokens, tokenize text none = .ok tokens ∧
      (consumed (events text file)).map (fun token => { token with kind := token.kind.plain }) =
        tokens.map (fun token => { token with position := token.position.relabel file }) ∧
      ∃ token, t.view.token? 0 = some token ∧ token.kind = .endOfFile := by
  obtain ⟨tokens, htokens, hpieces⟩ := tokenize_of_runUnit h
  obtain ⟨x, hrests, htells, -⟩ := covers_of_runUnit h
  obtain ⟨last, hlast, hend⟩ : ∃ token, t.view.token? 0 = some token ∧ token.kind = .endOfFile := by
    have houtcome := outcome_eq (ParserState.sound_ofSource (.ofString text file)) rfl
      ((Source.ofString text file).rest.length + 1) .externalDeclarations
    unfold runUnit at h
    simp only [h, ParserState.outcome] at houtcome
    exact token?_of_readAt houtcome.symm
  refine ⟨tokens, htokens, ?_, last, hlast, hend⟩
  -- No lexeme is ahead where the end of the text is next, so that all are among those taken.
  have hahead : t.view.ahead = [] := by
    cases hcons : t.view.ahead with
    | nil => rfl
    | cons piece others =>
        obtain rfl : t.view.next piece = last := by simpa [View.token?, hcons] using hlast
        have hlexeme : piece.lexeme = .endOfFile := by simpa [View.kind] using hend
        exact absurd hlexeme (ParserState.lexeme_ne_endOfFile (hcons ▸ List.mem_cons_self))
  have hbehind := htells.behind.ahead
  have hlexemes : (consumed (events text file)).filter (fun token => token.kind ≠ .endOfFile) =
      consumed (events text file) :=
    List.filter_eq_self.2 fun token htoken =>
      decide_eq_true (htells.ended hrests.ended token htoken)
  rw [hahead, List.append_nil, Token.pieces, hlexemes] at hbehind
  rw [hpieces, ← hbehind, List.map_map]
  refine List.map_congr_left fun token htoken => ?_
  rw [htells.plain token htoken]
  rfl

/-- Parsing comes to an end and takes the text once.

* Between the beginning of a rule and that of any rule called in its course, or called again in a
  round of its own, some lexeme is taken and not given back.
* So calls nest no deeper than the text has lexemes, and more depth makes no difference; depth is
  never what a text is refused for.
* What is given back to the text is a single parenthesis.
* If a unit is read, all tokens of the text have been taken in order, each once, as lexing at once
  gives them, apart from type names and labels, and the next token is the end of the text. -/
theorem consumes_once (text : String) (file : Option String) :
    (∀ (depth depth' : Nat) (f g : Nonterminal) (s t : ParserState),
      Reaches text file (depth + 1) (.rule f) s →
      Script.Reaches depth (Grammar.script f) s depth' (.rule g) t →
      t.view.ahead.length < s.view.ahead.length) ∧
    (∀ depth, (Source.ofString text file).outlook.pieces.length < depth →
      runAt depth .externalDeclarations (.ofSource (.ofString text file)) = runUnit text file) ∧
    (∀ e, parse text file = .error e → e.cause ≠ .internal .tooDeep) ∧
    (∀ m s, .requested (.reset m) s ∈ events text file →
      ∃ piece, s.view.taken = some [piece] ∧ piece.lexeme = .punctuator .openParen) ∧
    (∀ list t, runUnit text file = (.ok list, t) → ∃ tokens, tokenize text none = .ok tokens ∧
      (consumed (events text file)).map (fun token => { token with kind := token.kind.plain }) =
        tokens.map (fun token => { token with position := token.position.relabel file }) ∧
      ∃ token, t.view.token? 0 = some token ∧ token.kind = .endOfFile) := by
  refine ⟨?_, ?_, ?_, ?_, ?_⟩
  · exact fun depth depth' f g s t houter hinner => length_ahead_lt_of_reaches houter hinner
  · exact fun depth hdepth => runAt_of_length_lt hdepth
  · intro e herror hcause
    refine not_sinks_of_length_lt
      (Nat.lt_succ_of_le (Source.length_pieces_le (.ofString text file))) ⟨e, ?_, hcause⟩
    unfold parse runUnit at herror
    rcases hrun : runAt ((Source.ofString text file).rest.length + 1) .externalDeclarations
      (.ofSource (.ofString text file)) with ⟨e' | list, t⟩
    · rw [hrun] at herror
      exact congrArg Except.error (Except.error.inj herror)
    · rw [hrun] at herror
      cases herror
  · exact fun m s hmem => taken_of_reset hmem
  · exact fun list t hrun => consumed_of_runUnit hrun

/-- Both parentheses are taken and given back before they are taken for good. -/
theorem consumes_once_parentheses :
    ∃ list t, runUnit "int x = ((1));" none = (.ok list, t) ∧
      ∃ tokens, tokenize "int x = ((1));" none = .ok tokens ∧
        (consumed (events "int x = ((1));" none)).map
            (fun token => { token with kind := token.kind.plain }) =
          tokens.map (fun token => { token with position := token.position.relabel none }) ∧
        ∃ token, t.view.token? 0 = some token ∧ token.kind = .endOfFile := by
  have hparses : (runUnit "int x = ((1));" none).1.toOption.isSome = true := by decide +kernel
  rcases hrun : runUnit "int x = ((1));" none with ⟨e | list, t⟩
  · rw [hrun] at hparses
    cases hparses
  · exact ⟨list, t, rfl, (consumes_once _ _).2.2.2.2 list t hrun⟩

end Parser
end CSyntax
