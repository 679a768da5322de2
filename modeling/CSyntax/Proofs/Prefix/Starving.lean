import CSyntax.Proofs.Lockstep.Batch
import CSyntax.Proofs.Run.Inversion
import CSyntax.Proofs.Run.Reads

/-!
# Starving — scripts that run out of tokens

The lexemes up to the token at which a text is refused cannot be refused themselves.  Alone, with
nothing behind them that could be read, they leave the parser with a request for a token that is not
there.  This file defines:

* `Script.Starves` — carried out on a view, the script comes to such a request;
* `Parser.StarvesAt` — the same of a rule, with calls nested to a given depth;

and shows that a text refused at a token starves the parser when it is cut off in front of that token
(`Parser.starves_of_parse`).  The run on the whole text and the reading of the part are followed side
by side, as in `Lockstep`; here the second of the two shows fewer lexemes than the first.
-/

namespace CSyntax

/-! ## Requests for tokens that are not there -/

namespace Script

variable {α β : Type}

/-- The script asks for a token that is not there, or calls a rule that does so. -/
def Starves (inside : Nonterminal → View → Prop) : Script α → View → Prop
  | .done _, _ => False
  | .fail _, _ => False
  | .request r next, v =>
      match v.perform r with
      | some (answer, w) => (next answer).Starves inside w
      | none => r.isTabular = false
  | .call f next, v =>
      inside f v ∨
        ∃ result w, (Grammar.script f).Takes v result w ∧ (next result).Starves inside w

variable {inside : Nonterminal → View → Prop} {v w : View}

theorem starves_request {r : Request} {next : r.Answer → Script α} {answer : r.Answer}
    (hperform : v.perform r = some (answer, w)) :
    (Script.request r next).Starves inside v ↔ (next answer).Starves inside w := by
  rw [Starves, hperform]

/-- The first script starves, or it gives a value and what comes behind it starves. -/
theorem Starves.bind {prog : Script α} {next : α → Script β}
    (h : (prog >>= next).Starves inside v) :
    prog.Starves inside v ∨ ∃ a w, prog.Takes v a w ∧ (next a).Starves inside w := by
  change (prog.bind next).Starves inside v at h
  induction prog generalizing v with
  | done value => exact Or.inr ⟨value, v, Takes.pure, h⟩
  | fail error => exact h.elim
  | request r after ih =>
      rcases hperform : v.perform r with _ | ⟨answer, u⟩
      · simp only [Script.bind, Starves, hperform] at h
        left
        rwa [Starves, hperform]
      · rw [Script.bind, starves_request hperform] at h
        rcases ih answer h with hstarves | ⟨a, w, htakes, hstarves⟩
        · exact Or.inl ((starves_request hperform).2 hstarves)
        · exact Or.inr ⟨a, w, htakes.request hperform, hstarves⟩
  | call f after ih =>
      rcases h with hinside | ⟨result, u, hresult, h⟩
      · exact Or.inl (Or.inl hinside)
      · rcases ih result h with hstarves | ⟨a, w, htakes, hstarves⟩
        · exact Or.inl (Or.inr ⟨result, u, hresult, hstarves⟩)
        · exact Or.inr ⟨a, w, Takes.bind (Takes.rule hresult) htakes, hstarves⟩

theorem starves_rule {f : Nonterminal} : (rule f).Starves inside v ↔ inside f v := by
  refine ⟨?_, Or.inl⟩
  rintro (hinside | ⟨_, _, -, hdone⟩)
  · exact hinside
  · exact hdone.elim

end Script

/-- The rule asks for a token that is not there, in calls nested to a given depth. -/
def Parser.StarvesAt : (depth : Nat) → Nonterminal → View → Prop
  | 0, _, _ => False
  | depth + 1, f, v => (Grammar.script f).Starves (StarvesAt depth) v

namespace Script

variable {α β : Type} {prog : Script α} {v w : View} {a : α}

theorem Takes.not_starves_of {inside : Nonterminal → View → Prop}
    (hinside : ∀ {f v result w}, (Grammar.script f).Takes v result w → ¬ inside f v)
    (h : prog.Takes v a w) : ¬ prog.Starves inside v := by
  obtain ⟨depth, hread⟩ := h
  induction prog generalizing v with
  | done _ => exact id
  | fail _ => exact id
  | request r next ih =>
      obtain ⟨⟨answer, u⟩, hperform, hnext⟩ := Option.bind_eq_some_iff.1 hread
      rw [starves_request hperform]
      exact ih answer hnext
  | call f next ih =>
      obtain ⟨⟨result, u⟩, hresult, hnext⟩ := Option.bind_eq_some_iff.1 hread
      have hrule : (Script.rule f).Takes v result u :=
        ⟨depth, Option.bind_eq_some_iff.2 ⟨_, hresult, rfl⟩⟩
      rintro (hstarves | ⟨result', u', hresult', hstarves⟩)
      · exact hinside hrule.of_rule hstarves
      · obtain ⟨rfl, rfl⟩ := hrule.of_rule.unique hresult'
        exact ih result hnext hstarves

/-- A script that gives a value has not run out of tokens. -/
theorem Takes.not_starves (h : prog.Takes v a w) (depth : Nat) :
    ¬ prog.Starves (Parser.StarvesAt depth) v := by
  induction depth generalizing α prog v w a with
  | zero => exact h.not_starves_of fun _ => id
  | succ depth ih => exact h.not_starves_of ih

/-- What is taken first has not starved, so what comes behind it has. -/
theorem Starves.past {depth : Nat} {next : α → Script β}
    (h : (prog >>= next).Starves (Parser.StarvesAt depth) v) (htakes : prog.Takes v a w) :
    (next a).Starves (Parser.StarvesAt depth) w := by
  rcases h.bind with hfirst | ⟨b, u, hprog, hnext⟩
  · exact absurd hfirst (htakes.not_starves depth)
  · obtain ⟨rfl, rfl⟩ := htakes.unique hprog
    exact hnext

end Script

/-! ## A run on more than is shown -/

namespace Correspondence

variable (K : Correspondence)

/-- How a run on a state ends whose view shows lexemes behind those of another view.  The script on
the other view starves, or both give values, or the run refuses a token that both have come to. -/
inductive Cut {α β : Type} (after : List Piece) (ending : Except ParseError Position)
    (inside : Nonterminal → View → Prop) (prog' : Script β) (v' : View) (P : α → β → View → Prop) :
    Except ParseError α × ParserState → Prop
  | starves {x : Except ParseError α × ParserState} : prog'.Starves inside v' →
      Cut after ending inside prog' v' P x
  | value {a : α} {a' : β} {t : ParserState} {u w' : View} : prog'.Takes v' a' w' →
      t.view = u.extend after ending → u.ending.toOption = none → K.Views u w' → P a a' u →
      Cut after ending inside prog' v' P (.ok a, t)
  | refusal {e e' : ParseError} {t : ParserState} : K.Refusals e e' →
      Cut after ending inside prog' v' P (.error e, t)

variable {K} in
/-- What is said of the script that comes next is said of the whole. -/
theorem Cut.behind {α β γ : Type} {after : List Piece} {ending : Except ParseError Position}
    {inside inside' : Nonterminal → View → Prop} {prog : Script β} {v : View} {next : Script γ}
    {w : View} {P : α → β → View → Prop} {P' : α → γ → View → Prop}
    {x : Except ParseError α × ParserState} (h : K.Cut after ending inside' next w P' x)
    (hstarves : next.Starves inside' w → prog.Starves inside v)
    (htakes : ∀ a' w', next.Takes w a' w' → ∃ b, prog.Takes v b w' ∧ ∀ a u, P' a a' u → P a b u) :
    K.Cut after ending inside prog v P x := by
  cases h with
  | starves h => exact .starves (hstarves h)
  | value htaken hview hend hviews hP =>
      obtain ⟨b, hprog, himp⟩ := htakes _ _ htaken
      exact .value hprog hview hend hviews (himp _ _ hP)
  | refusal hrefusals => exact .refusal hrefusals

end Correspondence

namespace Script

variable {K : Correspondence} {α β : Type} {origin : Source} {callee : Callee}
  {within : Nonterminal → ParserState → List Event} {inside : Nonterminal → View → Prop}
  {after : List Piece} {ending : Except ParseError Position} {s : ParserState} {u v' : View}
  {P : α → β → View → Prop}

/-- What can be asked of the view that shows less can be asked of the state, and what cannot is a
token. -/
theorem cut_request {r r' : Request} {next : r.Answer → Script α} {next' : r'.Answer → Script β}
    {A : r.Answer → r'.Answer → Prop} (hkind : r'.isTabular = r.isTabular)
    (hlawful : Parser.Lawful origin ((Script.request r next).events callee within s))
    (hview : s.view = u.extend after ending) (hend : u.ending.toOption = none)
    (hresponds : K.Responds A (u.perform r) (v'.perform r'))
    (hnext : ∀ answer answer' t u₁ w', Parser.Lawful origin ((next answer).events callee within t) →
      t.view = u₁.extend after ending → u₁.ending.toOption = none →
      u.perform r = some (answer, u₁) → A answer answer' → K.Views u₁ w' →
      K.Cut after ending inside (next' answer') w' P ((next answer).run callee t)) :
    K.Cut after ending inside (Script.request r' next') v' P
      ((Script.request r next).run callee s) := by
  obtain ⟨hr, hrest⟩ := hlawful.request
  generalize hfewer : v'.perform r' = x' at hresponds
  generalize hmore : u.perform r = x at hresponds
  cases hresponds with
  | @some y y' hrelated =>
      obtain ⟨answer, u₁⟩ := y
      obtain ⟨answer', w'⟩ := y'
      have hextend : s.view.perform r = some (answer, u₁.extend after ending) :=
        hview ▸ View.perform_extend hend hmore
      have hend₁ : u₁.ending.toOption = none := View.ending_perform hmore ▸ hend
      rcases Request.outcome_of_lawful hr with ⟨answer₁, t, hrun, hperform⟩ | ⟨e, t, -, hfails, -⟩
      · rw [hextend] at hperform
        obtain ⟨rfl, hviews⟩ := Prod.mk.inj (Option.some_inj.1 hperform)
        simp only [run, hrun]
        exact (hnext _ _ t u₁ w' (hrest _ _ hrun) hviews.symm hend₁ hmore hrelated.1
          hrelated.2).behind (starves_request hfewer).2 fun a' w' htakes =>
            ⟨a', htakes.request hfewer, fun _ _ => id⟩
      · rw [hextend] at hfails
        cases hfails
  | none =>
      refine .starves ?_
      rw [Starves, hfewer]
      -- The one request about the table that can fail is to leave the file scope.
      cases r with
      | leave position =>
          have hopen : s.view.table.leave? ≠ none := hr.scopes
          rw [hview] at hopen
          exact absurd (Option.map_eq_none_iff.1 hmore) hopen
      | enter | declare | declareEnumerator => cases hmore
      | _ => exact hkind

/-- A script that goes abreast with itself refuses no token that it has not come to, if the rules
that it calls do not.  Those are called with fewer than `N` lexemes shown. -/
theorem Abreast.cut {N : Nat}
    (hcalls : ∀ {f f' : Nonterminal} {R : f.Result → f'.Result → Prop}, f.Paired K f' R →
      ∀ {t : ParserState} {u v' : View}, Parser.Lawful origin (within f t) →
      t.view = u.extend after ending → u.ending.toOption = none → K.Views u v' →
      u.taken = none → u.ahead.length < N →
      K.Cut after ending inside (Script.rule f') v'
        (fun a a' w => R a a' ∧ w.taken = none ∧ w.ahead.length ≤ u.ahead.length) (callee f t))
    {prog : Script α} {prog' : Script β} (h : Abreast K N P prog prog' u v')
    (hlawful : Parser.Lawful origin (prog.events callee within s))
    (hview : s.view = u.extend after ending) (hend : u.ending.toOption = none) :
    K.Cut after ending inside prog' v' P (prog.run callee s) := by
  induction h generalizing s with
  | done ha hviews => exact .value Takes.pure hview hend hviews ha
  | fail hrefusals => exact .refusal hrefusals
  | request hkind _ hresponds _ ih =>
      refine cut_request hkind hlawful hview hend hresponds ?_
      intro answer answer' t u₁ w' hrest hview hend hperform hanswer hviews
      exact ih answer answer' u₁ w' hperform hanswer hviews hrest hview hend
  | @call f f' R _ _ _ _ hpaired hviews htaken hlength _ ih =>
      obtain ⟨hinside, hrest⟩ := hlawful.call
      have hcall := hcalls hpaired hinside hview hend hviews htaken hlength
      simp only [run]
      rcases hrun : callee f s with ⟨e | a, t⟩ <;> rw [hrun] at hcall
      · cases hcall with
        | starves hstarves => exact .starves (Or.inl (starves_rule.1 hstarves))
        | refusal hrefusals => exact .refusal hrefusals
      · cases hcall with
        -- With all of the text the rule gives a value, and with what is shown of it none yet.
        | starves hstarves => exact .starves (Or.inl (starves_rule.1 hstarves))
        | value htakes hview hend hviews hpost =>
            obtain ⟨ha, htaken, hlength⟩ := hpost
            exact (ih _ _ _ _ ha hviews htaken hlength (hrest _ _ hrun) hview hend).behind
              (fun hstarves => Or.inr ⟨_, _, htakes.of_rule, hstarves⟩) fun b w hnext =>
                ⟨b, htakes.bind hnext, fun _ _ => id⟩

end Script

namespace Parser

variable {K : Correspondence} {origin : Source}

/-- A rule that answers itself refuses no token behind those that are shown, if calls may nest more
deeply than those are many. -/
theorem cut_runAt {depth : Nat} {after : List Piece} {ending : Except ParseError Position}
    {f f' : Nonterminal} {R : f.Result → f'.Result → Prop} (h : f.Paired K f' R)
    {s : ParserState} {u v' : View} (hlawful : Lawful origin (eventsAt depth f s))
    (hview : s.view = u.extend after ending) (hend : u.ending.toOption = none)
    (hviews : K.Views u v') (htaken : u.taken = none) (hdepth : u.ahead.length < depth) :
    K.Cut after ending (StarvesAt depth) (Script.rule f') v'
      (fun a a' w => R a a' ∧ w.taken = none ∧ w.ahead.length ≤ u.ahead.length)
      (runAt depth f s) := by
  induction depth generalizing f f' s u v' with
  | zero => exact absurd hdepth (Nat.not_lt_zero _)
  | succ depth ih =>
      have habreast := (h.sync Stand.start rfl nofun).abreast hviews
        (.start htaken (Nat.le_refl u.ahead.length))
      have hcut := habreast.cut
        (fun {_ _ _} hpaired _ _ _ hinside hview hend hviews htaken hlength =>
          ih hpaired hinside hview hend hviews htaken (by omega))
        hlawful.rule hview hend
      refine hcut.behind (fun h => Script.starves_rule.2 h) fun a' w' htakes =>
        ⟨a', htakes.rule, ?_⟩
      rintro a w ⟨y, ⟨ha, hsaved, -⟩, hfits⟩
      exact ⟨ha, by simpa [Stand.Recalls, hsaved] using hfits.saved, hfits.within⟩

/-- What stands before the refused token has the parser ask for more. -/
theorem starves_of_parse {text : String} {file : Option String} {e : ParseError} {n : Nat}
    (h : parse text file = .error e)
    (hn : (Source.ofString text file).outlook.positions[n]? = some e.start) (fault : ParseError) :
    ∃ depth, StarvesAt depth .externalDeclarations
      (.alone .empty ((Source.ofString text file).outlook.pieces.take n) fault) := by
  let o := (Source.ofString text file).outlook
  let K : Correspondence :=
    { positions := fun p _ => p ∈ (o.pieces.take n).map (·.position), faults := fun _ _ => True }
  let u : View := .alone .empty (o.pieces.take n) fault
  have hpieces : List.Forall₂ K.Pieces (o.pieces.take n) (o.pieces.take n) := by
    refine List.forall₂_same.2 fun piece hpiece => ⟨rfl, List.mem_map_of_mem hpiece, ?_⟩
    exact Source.readable_of_mem_outlook (List.mem_of_mem_take hpiece)
  have hviews : K.Views u u :=
    { ahead := hpieces, ending := .error trivial, table := rfl, taken := .none }
  have hview : (ParserState.ofSource (.ofString text file)).view =
      u.extend (o.pieces.drop n) o.ending := by
    simp [ParserState.view, ParserState.ofSource, Cursor.view, Cursor.ahead, View.extend, u, o,
      View.alone, Cursor.ofSource, Token.pieces]
  have hdepth : u.ahead.length < (Source.ofString text file).rest.length + 1 := by
    have hlength := Source.length_pieces_le (.ofString text file)
    have htake := List.length_take_le' n o.pieces
    exact Nat.lt_succ_of_le (htake.trans hlength)
  have hcut := cut_runAt (K := K) .externalDeclarations (lawful_events text file) hview rfl hviews
    rfl hdepth
  refine ⟨(Source.ofString text file).rest.length + 1, Script.starves_rule.1 ?_⟩
  change ((runAt ((Source.ofString text file).rest.length + 1) .externalDeclarations
    (.ofSource (.ofString text file))).1.map _) = _ at h
  generalize runAt _ _ _ = x at h hcut
  cases hcut with
  | starves hstarves => exact hstarves
  | value _ _ _ _ _ => cases h
  | @refusal e₁ e' t hrefusals =>
      -- The token that was refused is none of those shown, since it stands behind them.
      obtain rfl : e₁ = e := Except.error.inj h
      have hpairwise := (Source.pairwise_outlook (.ofString text file)).1
      rw [← List.take_append_drop n (Source.ofString text file).outlook.positions] at hpairwise
      have hshown : e₁.start ∈ (Source.ofString text file).outlook.positions.take n := by
        have hmem : e₁.start ∈ (o.pieces.take n).map (·.position) := hrefusals.start
        rw [Outlook.positions, List.take_append, ← List.map_take]
        exact List.mem_append_left _ hmem
      have hbehind : e₁.start ∈ (Source.ofString text file).outlook.positions.drop n := by
        refine List.mem_of_getElem? (i := 0) ?_
        rwa [List.getElem?_drop, Nat.add_zero]
      exact absurd ((List.pairwise_append.1 hpairwise).2.2 _ hshown _ hbehind) (Nat.lt_irrefl _)

end Parser
end CSyntax
