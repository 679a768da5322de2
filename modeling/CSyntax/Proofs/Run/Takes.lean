import CSyntax.Proofs.Run.View

/-!
# Takes — what rules take off a view

Scripts can be carried out on views as they are on parser states, and with less to keep in mind.
This file defines:

* `Script.Takes` — a script gives a value and leaves a view, if calls may nest deeply enough;
* `Parser.Yields` — the same of a rule and of parser states;

and shows that the two are one (`Parser.yields_of_takes`, `Parser.takes_of_runAt`).  The lemmas on
`Takes` are the rules by which scripts are carried out in proofs.  `Takes.induct` goes along what is
taken, through the rules that are called, and `Contract.sound_takes` brings contracts over from runs.
-/

namespace CSyntax

/-! ## Scripts on views -/

namespace Script

variable {α β : Type}

/-- What a rule does to a view when it is called. -/
abbrev Reader := (f : Nonterminal) → View → Option (f.Result × View)

/-- Carries a script out on a view, with `reader` for the rules that it calls. -/
def read (reader : Reader) : Script α → View → Option (α × View)
  | .done value, v => some (value, v)
  | .fail _, _ => none
  | .request r next, v => (v.perform r).bind fun (answer, w) => (next answer).read reader w
  | .call f next, v => (reader f v).bind fun (result, w) => (next result).read reader w

theorem read_bind (reader : Reader) (prog : Script α) (next : α → Script β) (v : View) :
    (prog >>= next).read reader v =
      (prog.read reader v).bind fun (value, w) => (next value).read reader w := by
  change (prog.bind next).read reader v = _
  induction prog generalizing v with
  | done value => rfl
  | fail error => rfl
  | request r _ ih => simp only [bind, read, ih, Option.bind_assoc]
  | call f _ ih => simp only [bind, read, ih, Option.bind_assoc]

theorem read_mono {reader other : Reader}
    (h : ∀ f v x, reader f v = some x → other f v = some x) {prog : Script α} {v : View}
    {x : α × View} (hread : prog.read reader v = some x) : prog.read other v = some x := by
  induction prog generalizing v with
  | done value => exact hread
  | fail error => exact hread
  | request r next ih =>
      obtain ⟨⟨answer, w⟩, hperform, hnext⟩ := Option.bind_eq_some_iff.1 hread
      exact Option.bind_eq_some_iff.2 ⟨_, hperform, ih answer hnext⟩
  | call f next ih =>
      obtain ⟨⟨result, w⟩, hcall, hnext⟩ := Option.bind_eq_some_iff.1 hread
      exact Option.bind_eq_some_iff.2 ⟨_, h f v _ hcall, ih result hnext⟩

theorem run_mono {callee other : Callee}
    (h : ∀ f s result t, callee f s = (.ok result, t) → other f s = (.ok result, t))
    {prog : Script α} {s t : ParserState} {value : α}
    (hrun : prog.run callee s = (.ok value, t)) : prog.run other s = (.ok value, t) := by
  induction prog generalizing s with
  | done _ => exact hrun
  | fail _ => exact hrun
  | request r next ih =>
      rcases hperform : r.perform s with ⟨error | answer, u⟩
      · simp [run, hperform] at hrun
      · simp only [run, hperform] at hrun ⊢
        exact ih answer hrun
  | call f next ih =>
      rcases hcall : callee f s with ⟨error | result, u⟩
      · simp [run, hcall] at hrun
      · simp only [run, hcall] at hrun
        simp only [run, h f s result u hcall]
        exact ih result hrun

end Script

namespace Parser

/-- Carries a rule out on a view with calls nested to a given depth. -/
def readAt : (depth : Nat) → Script.Reader
  | 0, _, _ => none
  | depth + 1, f, v => (Grammar.script f).read (readAt depth) v

theorem readAt_mono {depth depth' : Nat} (hle : depth ≤ depth') {f : Nonterminal} {v : View}
    {x : f.Result × View} (h : readAt depth f v = some x) : readAt depth' f v = some x := by
  induction depth generalizing depth' f v with
  | zero => cases h
  | succ depth ih =>
      obtain ⟨d, rfl⟩ : ∃ d, depth' = d + 1 := ⟨depth' - 1, by omega⟩
      exact Script.read_mono (fun f v x hx => ih (by omega) hx) h

theorem runAt_mono {depth depth' : Nat} (hle : depth ≤ depth') {f : Nonterminal}
    {s t : ParserState} {result : f.Result} (h : runAt depth f s = (.ok result, t)) :
    runAt depth' f s = (.ok result, t) := by
  induction depth generalizing depth' f s t with
  | zero => cases h
  | succ depth ih =>
      obtain ⟨d, rfl⟩ : ∃ d, depth' = d + 1 := ⟨depth' - 1, by omega⟩
      exact Script.run_mono (fun f s result t hx => ih (by omega) hx) h

/-- The rule gives the result and leaves the second state, whenever calls may nest deeply enough. -/
def Yields (f : Nonterminal) (s : ParserState) (result : f.Result) (t : ParserState) : Prop :=
  ∃ enough, ∀ depth, enough ≤ depth → runAt depth f s = (.ok result, t)

theorem yields_of_runAt {depth : Nat} {f : Nonterminal} {s t : ParserState} {result : f.Result}
    (h : runAt depth f s = (.ok result, t)) : Yields f s result t :=
  ⟨depth, fun _ hle => runAt_mono hle h⟩

end Parser

/-! ## Runs and their views -/

namespace Parser

variable {origin : Source}

/-- A run that keeps the discipline has the outcome that its view has. -/
theorem outcome_run {α : Type} {depth : Nat}
    (hcall : ∀ f s, discipline.Admits ParserState.isMarked (ParserState.Sound origin)
      (eventsAt depth f s) → ParserState.outcome (runAt depth f s) = readAt depth f s.view)
    (prog : Script α) (s : ParserState)
    (h : discipline.Admits ParserState.isMarked (ParserState.Sound origin)
      (prog.events (runAt depth) (eventsAt depth) s)) :
    ParserState.outcome (prog.run (runAt depth) s) = prog.read (readAt depth) s.view := by
  -- The trace admits each request, and on that condition the state answers as its view does.
  induction prog generalizing s with
  | done value => rfl
  | fail error => rfl
  | request r next ih =>
      obtain ⟨⟨hsound, may⟩, hrest⟩ := h.request
      have hperform := Request.view_perform hsound may
      rcases hr : r.perform s with ⟨error | answer, t⟩
      · rw [hr] at hperform
        simp only [Script.run, Script.read, hr, ← hperform]
        rfl
      · rw [hr] at hperform
        simp only [Script.run, Script.read, hr, ← hperform]
        exact ih answer t (hrest answer t hr)
  | call f next ih =>
      obtain ⟨hinside, hrest⟩ := h.call
      have hread := hcall f s hinside
      rcases hf : runAt depth f s with ⟨error | result, t⟩
      · rw [hf] at hread
        simp only [Script.run, Script.read, hf, ← hread]
        rfl
      · rw [hf] at hread
        simp only [Script.run, Script.read, hf, ← hread]
        exact ih result t (hrest result t hf)

theorem outcome_runAt {depth : Nat} {f : Nonterminal} {s : ParserState}
    (h : discipline.Admits ParserState.isMarked (ParserState.Sound origin) (eventsAt depth f s)) :
    ParserState.outcome (runAt depth f s) = readAt depth f s.view := by
  induction depth generalizing f s with
  | zero => rfl
  | succ depth ih =>
      exact outcome_run (fun f s => ih) (Grammar.script f) s (h.mono events_script_subset)

end Parser

/-! ## Rules for carrying scripts out -/

namespace Script

variable {α β : Type}

/-- The script gives the value and leaves the second view. -/
def Takes (prog : Script α) (v : View) (value : α) (w : View) : Prop :=
  ∃ depth, prog.read (Parser.readAt depth) v = some (value, w)

namespace Takes

variable {v w u : View}

theorem pure {value : α} : (Pure.pure value : Script α).Takes v value v :=
  ⟨0, rfl⟩

theorem bind {prog : Script α} {next : α → Script β} {a : α} {b : β} (h : prog.Takes v a w)
    (hnext : (next a).Takes w b u) : (prog >>= next).Takes v b u := by
  obtain ⟨depth, hread⟩ := h
  obtain ⟨depth', hread'⟩ := hnext
  refine ⟨max depth depth', ?_⟩
  rw [read_bind, read_mono (fun f v x => Parser.readAt_mono (Nat.le_max_left _ _)) hread]
  exact read_mono (fun f v x => Parser.readAt_mono (Nat.le_max_right _ _)) hread'

theorem rule {f : Nonterminal} {result : f.Result} (h : (Grammar.script f).Takes v result w) :
    (Script.rule f).Takes v result w := by
  obtain ⟨depth, hread⟩ := h
  refine ⟨depth + 1, ?_⟩
  change ((Grammar.script f).read (Parser.readAt depth) v).bind _ = _
  rw [hread]
  rfl

theorem request {r : Request} {next : r.Answer → Script α} {answer : r.Answer} {value : α}
    (h : v.perform r = some (answer, w)) (hnext : (next answer).Takes w value u) :
    (Script.request r next).Takes v value u := by
  obtain ⟨depth, hread⟩ := hnext
  exact ⟨depth, Option.bind_eq_some_iff.2 ⟨_, h, hread⟩⟩

/-! ### Single tokens -/

variable {piece second : Piece} {others : List Piece} {kind : TokenKind}

theorem peek : Script.peek.Takes (v.facing (piece :: others)) (v.next piece)
    (v.facing (piece :: others)) :=
  request rfl pure

theorem peekNth_one : (Script.peekNth 1).Takes (v.facing (piece :: second :: others))
    (v.next second) (v.facing (piece :: second :: others)) :=
  request rfl pure

theorem advance (hv : v.taken = none) :
    Script.advance.Takes (v.facing (piece :: others)) (v.next piece) (v.facing others) := by
  refine request (w := v.facing others) ?_ pure
  simp [View.perform, View.token?, View.facing, View.next, View.kind, hv]

theorem nextIs : (Script.nextIs kind).Takes (v.facing (piece :: others))
    (decide (v.kind piece = kind)) (v.facing (piece :: others)) :=
  peek.bind pure

theorem accept (hv : v.taken = none) (h : v.kind piece = kind) :
    (Script.accept kind).Takes (v.facing (piece :: others)) true (v.facing others) := by
  refine nextIs.bind ?_
  rw [if_pos (by simpa using h)]
  exact (advance hv).bind pure

theorem accept_not (h : v.kind piece ≠ kind) :
    (Script.accept kind).Takes (v.facing (piece :: others)) false
      (v.facing (piece :: others)) := by
  refine nextIs.bind ?_
  rw [if_neg (by simpa using h)]
  exact pure

theorem expect (hv : v.taken = none) (h : v.kind piece = kind) :
    (Script.expect kind).Takes (v.facing (piece :: others)) (v.next piece) (v.facing others) := by
  refine peek.bind ?_
  rw [View.kind_next, if_pos h]
  exact advance hv

theorem expectWord (hv : v.taken = none) {name : String}
    (h : v.kind piece = .identifier name ∨ v.kind piece = .typeName name) :
    Script.expectWord.Takes (v.facing (piece :: others)) name (v.facing others) := by
  refine (advance hv).bind ?_
  rcases h with h | h <;> simp only [View.kind_next, h] <;> exact pure

theorem acceptWord (hv : v.taken = none) {name : String}
    (h : v.kind piece = .identifier name ∨ v.kind piece = .typeName name) :
    Script.acceptWord.Takes (v.facing (piece :: others)) (some name) (v.facing others) := by
  refine peek.bind ?_
  rcases h with h | h
  · rw [View.kind_next, h]
    exact (expectWord hv (Or.inl h)).bind pure
  · rw [View.kind_next, h]
    exact (expectWord hv (Or.inr h)).bind pure

theorem here : Script.here.Takes (v.facing (piece :: others)) piece.position
    (v.facing (piece :: others)) :=
  peek.bind pure

/-! ### Scopes and declarations -/

variable {T : SymbolTable}

theorem enter {kind : ScopeKind} :
    (Script.enter kind).Takes v () { v with table := v.table.enter kind } :=
  request rfl pure

theorem leave {position : Position} (h : v.table.leave? = some T) :
    (Script.leave position).Takes v () { v with table := T } := by
  refine request (w := { v with table := T }) ?_ pure
  simp [View.perform, h]

theorem declare {name : String} {meaning : Meaning} :
    (Script.declare name meaning).Takes v () { v with table := v.table.declare name meaning } :=
  request rfl pure

end Takes

/-- Induction along what is taken, with a case for each thing that a script can do.  Of a call the
statement is known for the script of the rule. -/
@[elab_as_elim]
theorem Takes.induct {motive : ∀ {α : Type}, Script α → View → α → View → Prop}
    (done : ∀ {α : Type} (value : α) (v : View), motive (.done value) v value v)
    (request : ∀ {α : Type} {r : Request} {next : r.Answer → Script α} {v u w : View}
      {answer : r.Answer} {value : α}, v.perform r = some (answer, u) →
      (next answer).Takes u value w → motive (next answer) u value w →
      motive (.request r next) v value w)
    (call : ∀ {α : Type} {f : Nonterminal} {next : f.Result → Script α} {v u w : View}
      {result : f.Result} {value : α}, (Grammar.script f).Takes v result u →
      motive (Grammar.script f) v result u → (next result).Takes u value w →
      motive (next result) u value w → motive (.call f next) v value w)
    {prog : Script α} {v w : View} {value : α} (h : prog.Takes v value w) :
    motive prog v value w := by
  obtain ⟨depth, hread⟩ := h
  -- Along the script, and for the rules that it calls on the depth that is left to them.
  induction depth using Nat.strongRecOn generalizing α prog v w value with
  | ind depth ihd =>
      induction prog generalizing v with
      | done a =>
          obtain ⟨rfl, rfl⟩ := Prod.mk.inj (Option.some_inj.1 hread)
          exact done _ _
      | fail error => cases hread
      | request r next ih =>
          obtain ⟨⟨answer, u⟩, hperform, hnext⟩ := Option.bind_eq_some_iff.1 hread
          exact request hperform ⟨depth, hnext⟩ (ih answer hnext)
      | call f next ih =>
          obtain ⟨⟨result, u⟩, hresult, hnext⟩ := Option.bind_eq_some_iff.1 hread
          cases depth with
          | zero => cases hresult
          | succ depth =>
              exact call ⟨depth, hresult⟩ (ihd depth (Nat.lt_succ_self depth) hresult)
                ⟨depth + 1, hnext⟩ (ih result hnext)

/-- A script takes the same off a view however deeply its calls may nest. -/
theorem Takes.unique {prog : Script α} {v w u : View} {a b : α} (h : prog.Takes v a w)
    (h' : prog.Takes v b u) : a = b ∧ w = u := by
  obtain ⟨depth, hread⟩ := h
  obtain ⟨depth', hread'⟩ := h'
  have hmax := read_mono (fun f v x => Parser.readAt_mono (Nat.le_max_left depth depth')) hread
  have hmax' := read_mono (fun f v x => Parser.readAt_mono (Nat.le_max_right depth depth')) hread'
  rw [hmax] at hmax'
  exact Prod.mk.inj (Option.some_inj.1 hmax')

end Script

/-! ## From views to runs and back -/

namespace Parser

variable {origin : Source} {f : Nonterminal} {s t : ParserState} {result : f.Result}

theorem outcome_eq (h : s.Sound origin) (hm : s.isMarked = false) (depth : Nat) (f : Nonterminal) :
    ParserState.outcome (runAt depth f s) = readAt depth f s.view :=
  outcome_runAt (admits_eventsAt h hm)

/-- What a rule takes off the view of a state it yields in a run. -/
theorem yields_of_takes {w : View} (h : s.Sound origin) (hm : s.isMarked = false)
    (htakes : (Grammar.script f).Takes s.view result w) :
    ∃ t, Yields f s result t ∧ t.view = w := by
  obtain ⟨depth, hread⟩ := htakes
  have houtcome := outcome_eq h hm (depth + 1) f
  rw [show readAt (depth + 1) f s.view = some (result, w) from hread] at houtcome
  rcases hrun : runAt (depth + 1) f s with ⟨error | value, t⟩
  · rw [hrun] at houtcome
    cases houtcome
  · rw [hrun] at houtcome
    obtain ⟨rfl, rfl⟩ : value = result ∧ t.view = w := by
      simpa [ParserState.outcome] using houtcome
    exact ⟨t, yields_of_runAt hrun, rfl⟩

/-- What a rule yields in a run it takes off the view of the state. -/
theorem takes_of_runAt {depth : Nat} (h : s.Sound origin) (hm : s.isMarked = false)
    (hrun : runAt depth f s = (.ok result, t)) :
    (Grammar.script f).Takes s.view result t.view := by
  cases depth with
  | zero => cases hrun
  | succ depth =>
      have houtcome := outcome_eq h hm (depth + 1) f
      rw [hrun] at houtcome
      exact ⟨depth, houtcome.symm⟩

end Parser

namespace Script

variable {α : Type} {origin : Source} {s : ParserState} {P : α → Prop} {value : α}

/-- The script gives the value and leaves the second state, whenever calls may nest deeply enough. -/
def Yields (prog : Script α) (s : ParserState) (value : α) (t : ParserState) : Prop :=
  ∃ enough, ∀ depth, enough ≤ depth → prog.run (Parser.runAt depth) s = (.ok value, t)

/-- A script that keeps the discipline has the outcome that its view has. -/
theorem outcome_of_orderly {prog : Script α} (horderly : prog.Orderly P) (h : s.Sound origin)
    (hm : s.isMarked = false) (depth : Nat) :
    ParserState.outcome (prog.run (Parser.runAt depth) s) =
      prog.read (Parser.readAt depth) s.view := by
  have hmeets : prog.Meets discipline s.isMarked fun value after _ => after = false ∧ P value := by
    rw [hm]
    exact horderly
  have hadmits : discipline.Admits ParserState.isMarked (ParserState.Sound origin)
      (prog.events (Parser.runAt depth) (Parser.eventsAt depth) s) :=
    (Contract.sound_run (fun _ _ good pre models =>
      Contract.sound valid_discipline good pre models) prog h (Parser.models_discipline _) hmeets).1
  exact Parser.outcome_run (fun _ _ => Parser.outcome_runAt) prog s hadmits

/-- What such a script yields in a run it takes off the view. -/
theorem takes_of_run {prog : Script α} {t : ParserState} {depth : Nat} (horderly : prog.Orderly P)
    (h : s.Sound origin) (hm : s.isMarked = false)
    (hrun : prog.run (Parser.runAt depth) s = (.ok value, t)) : prog.Takes s.view value t.view := by
  have houtcome := outcome_of_orderly horderly h hm depth
  rw [hrun] at houtcome
  exact ⟨depth, houtcome.symm⟩

/-- A script that keeps the discipline yields in a run what it takes off the view. -/
theorem yields_of_takes {prog : Script α} {w : View} (horderly : prog.Orderly P)
    (h : s.Sound origin) (hm : s.isMarked = false) (htakes : prog.Takes s.view value w) :
    ∃ t, prog.Yields s value t ∧ t.view = w := by
  obtain ⟨depth, hread⟩ := htakes
  have houtcome := outcome_of_orderly horderly h hm depth
  rw [hread] at houtcome
  rcases hrun : prog.run (Parser.runAt depth) s with ⟨error | result, t⟩
  · rw [hrun] at houtcome
    cases houtcome
  · rw [hrun] at houtcome
    obtain ⟨rfl, rfl⟩ : result = value ∧ t.view = w := by
      simpa [ParserState.outcome] using houtcome
    refine ⟨t, ⟨depth, fun depth' hle => ?_⟩, rfl⟩
    exact run_mono (fun f s result t hx => Parser.runAt_mono hle hx) hrun

end Script

/-! ## Contracts on views -/

namespace Contract

variable {σ : Type} {C : Contract σ}

/-- A script that meets a valid contract keeps it on views, if requests do to good views what the
contract says. -/
theorem sound_reads (abs : View → σ) (Good : View → Prop) (valid : C.Valid)
    (hstep : ∀ r v answer w, Good v → C.may r (abs v) → v.perform r = some (answer, w) →
      Good w ∧ C.step r (abs v) answer (abs w))
    {α : Type} {prog : Script α} {Q : α → σ → List Returned → Prop} {v w : View} {value : α}
    (good : Good v) (meets : prog.Meets C (abs v) Q) (h : prog.Takes v value w) :
    Good w ∧ ∃ R, Q value (abs w) R := by
  suffices hall : ∀ Q : α → σ → List Returned → Prop, Good v → prog.Meets C (abs v) Q →
      Good w ∧ ∃ R, Q value (abs w) R from hall Q good meets
  refine h.induct ?done ?request ?call
  case done => exact fun _ _ _ good meets => ⟨good, [], meets⟩
  case request =>
    intro _ r _ v u _ answer _ hperform _ ih Q good meets
    obtain ⟨good', hanswer⟩ := hstep r v answer u good meets.1 hperform
    exact ih _ good' (meets.2 answer _ hanswer)
  case call =>
    intro _ f _ v u _ result _ _ hrule _ ih Q good meets
    obtain ⟨good', R, hpost⟩ := hrule _ good (valid f _ meets.1)
    obtain ⟨good'', S, hQ⟩ := ih _ good' (meets.2 result _ _ hpost)
    exact ⟨good'', _, hQ⟩

/-- The same of a rule. -/
theorem sound_takes (abs : View → σ) (Good : View → Prop) (valid : C.Valid)
    (hstep : ∀ r v answer w, Good v → C.may r (abs v) → v.perform r = some (answer, w) →
      Good w ∧ C.step r (abs v) answer (abs w))
    {f : Nonterminal} {v w : View} {result : f.Result} (good : Good v) (pre : C.pre f (abs v))
    (h : (Grammar.script f).Takes v result w) :
    Good w ∧ ∃ R, C.post f (abs v) result (abs w) R := by
  obtain ⟨good', R, hpost⟩ := sound_reads abs Good valid hstep good (valid f _ pre) h
  exact ⟨good', _, hpost⟩

end Contract

/-! ## What rules leave alone -/

namespace View

variable {v w : View}

theorem token?_eq_some {n : Nat} {token : Token} (h : v.token? n = some token) :
    (∃ piece ∈ v.ahead, token = v.next piece) ∨ token.kind = .endOfFile := by
  unfold token? at h
  split at h
  · rename_i piece hpiece
    exact Or.inl ⟨piece, List.mem_of_getElem? hpiece, (Option.some_inj.1 h).symm⟩
  · obtain ⟨position, -, rfl⟩ := Option.map_eq_some_iff.1 h
    exact Or.inr rfl

theorem allUnreserved_of_token? {n : Nat} {token : Token} (hfree : v.table.KeywordFree)
    (h : v.token? n = some token) : AllUnreserved token.kind.words := by
  intro name hname
  rcases token?_eq_some h with ⟨piece, -, rfl⟩ | hkind
  · cases hkind : v.table.classify piece.lexeme with
    | identifier other =>
        obtain rfl : name = other := by simpa [kind, hkind, TokenKind.words] using hname
        exact (SymbolTable.classify_eq_identifier.1 hkind).2.2
    | typeName other =>
        obtain rfl : name = other := by simpa [kind, hkind, TokenKind.words] using hname
        exact hfree.unreserved_of_isTypeName (SymbolTable.classify_eq_typeName.1 hkind).2
    | _ => simp [kind, hkind, TokenKind.words] at hname
  · simp [hkind, TokenKind.words] at hname

theorem ending_perform {r : Request} {answer : r.Answer} (h : v.perform r = some (answer, w)) :
    w.ending = v.ending := by
  cases r with
  | peek n =>
      obtain ⟨token, -, heq⟩ := Option.map_eq_some_iff.1 h
      cases heq
      rfl
  | advance =>
      obtain ⟨token, -, heq⟩ := Option.map_eq_some_iff.1 h
      cases heq
      rfl
  | leave position =>
      obtain ⟨outer, -, heq⟩ := Option.map_eq_some_iff.1 h
      cases heq
      rfl
  | _ => cases h; rfl

/-- On the conditions of the discipline, requests do to views what the discipline says. -/
theorem discipline_perform {r : Request} {answer : r.Answer} (hfree : v.table.KeywordFree)
    (may : discipline.may r v.taken.isSome) (h : v.perform r = some (answer, w)) :
    w.table.KeywordFree ∧ discipline.step r v.taken.isSome answer w.taken.isSome := by
  cases r with
  | peek n =>
      obtain ⟨token, htoken, heq⟩ := Option.map_eq_some_iff.1 h
      cases heq
      exact ⟨hfree, rfl, allUnreserved_of_token? hfree htoken⟩
  | advance =>
      obtain ⟨token, htoken, heq⟩ := Option.map_eq_some_iff.1 h
      cases heq
      exact ⟨hfree, by simp, allUnreserved_of_token? hfree htoken⟩
  | mark => cases h; exact ⟨hfree, rfl, rfl⟩
  | reset m => cases h; exact ⟨hfree, rfl⟩
  | release m => cases h; exact ⟨hfree, rfl⟩
  | enter kind => cases h; exact ⟨hfree.enter kind, rfl⟩
  | leave position =>
      obtain ⟨outer, houter, heq⟩ := Option.map_eq_some_iff.1 h
      cases heq
      exact ⟨hfree.leave houter, rfl⟩
  | declare name meaning => cases h; exact ⟨hfree.declare may.2 meaning, rfl⟩
  | declareEnumerator name => cases h; exact ⟨hfree.declareEnumerator may.2, rfl⟩

end View

namespace Script.Takes

variable {f : Nonterminal} {v w : View} {result : f.Result}

/-- Scripts that keep the discipline use up the marks that they set, and declare no reserved
words. -/
theorem disciplined_of_orderly {α : Type} {prog : Script α} {value : α} {P : α → Prop}
    (h : prog.Takes v value w) (horderly : prog.Orderly P) (hv : v.taken = none)
    (hfree : v.table.KeywordFree) : w.taken = none ∧ w.table.KeywordFree := by
  have hmeets : prog.Meets discipline v.taken.isSome fun value after _ => after = false ∧ P value := by
    rw [hv]
    exact horderly
  obtain ⟨hfree', R, hpost⟩ := Contract.sound_reads (fun v => v.taken.isSome)
    (fun v => v.table.KeywordFree) valid_discipline
    (fun r v answer w hfree may hperform => View.discipline_perform hfree may hperform)
    hfree hmeets h
  exact ⟨by simpa using hpost.1, hfree'⟩

theorem disciplined (h : (Grammar.script f).Takes v result w) (hv : v.taken = none)
    (hfree : v.table.KeywordFree) : w.taken = none ∧ w.table.KeywordFree := by
  obtain ⟨hfree', R, hpost⟩ := Contract.sound_takes (fun v => v.taken.isSome)
    (fun v => v.table.KeywordFree) valid_discipline
    (fun r v answer w hfree may hperform => View.discipline_perform hfree may hperform)
    hfree (by simp [discipline, hv]) h
  exact ⟨by simpa using hpost.1, hfree'⟩

theorem ending_eq {α : Type} {prog : Script α} {value : α} (h : prog.Takes v value w) :
    w.ending = v.ending := by
  refine h.induct ?done ?request ?call
  case done => exact fun _ _ => rfl
  case request => exact fun hperform _ ih => ih.trans (View.ending_perform hperform)
  case call => exact fun _ hrule _ ih => ih.trans hrule

end Script.Takes

namespace View

variable {v w : View}

/-- No mark is outstanding, and no reserved word is bound. -/
structure Regular (v : View) : Prop where
  unmarked : v.taken = none
  keywordFree : v.table.KeywordFree

namespace Regular

theorem rule {f : Nonterminal} {result : f.Result} (h : v.Regular)
    (htakes : (Grammar.script f).Takes v result w) : w.Regular :=
  have hw := htakes.disciplined h.unmarked h.keywordFree
  ⟨hw.1, hw.2⟩

theorem orderly {α : Type} {P : α → Prop} {prog : Script α} {value : α} (h : v.Regular)
    (horderly : prog.Orderly P) (htakes : prog.Takes v value w) : w.Regular :=
  have hw := htakes.disciplined_of_orderly horderly h.unmarked h.keywordFree
  ⟨hw.1, hw.2⟩

end Regular

end View

/-- A script that keeps the discipline gives a value with the property. -/
theorem Script.Takes.property_of_orderly {α : Type} {prog : Script α} {value : α} {P : α → Prop}
    {v w : View} (h : prog.Takes v value w) (horderly : prog.Orderly P) (hv : v.Regular) :
    P value := by
  have hmeets : prog.Meets discipline v.taken.isSome fun value after _ => after = false ∧ P value := by
    rw [hv.unmarked]
    exact horderly
  obtain ⟨-, R, hpost⟩ := Contract.sound_reads (fun v => v.taken.isSome)
    (fun v => v.table.KeywordFree) valid_discipline
    (fun r v answer w hfree may hperform => View.discipline_perform hfree may hperform)
    hv.keywordFree hmeets h
  exact hpost.2

end CSyntax
