import CSyntax.Proofs.Lockstep.Units
import CSyntax.Proofs.Run.Chronicle

/-!
# Ledger — which tokens have been taken

The trace of a run tells which tokens have been taken, apart from those that a reset has given back.
This file keeps the books:

* `Parser.consumed` — the tokens that have been taken and not given back;
* `Site` — how far a run has come, as an offset in the text, with the tokens ahead and what a mark
  would bring back;
* `Site.chronicle` — when a site tells of a trace: what has been taken and what lies ahead are the
  lexemes of the text;

and shows that requests move a site as `Site.Step` says (`Site.follows_of_lawful`).
-/

namespace CSyntax

/-! ## Tokens taken -/

/-- The tokens taken, and those that had been taken at the marks that are outstanding. -/
structure Ledger where
  taken : List Token
  saved : List (List Token)

namespace Ledger

def empty : Ledger :=
  { taken := [], saved := [] }

/-- A request is entered.  To go back to a mark is to forget what has been taken since. -/
def record (L : Ledger) : Event → Ledger
  | .requested .advance s =>
      match Request.perform .advance s with
      | (.ok token, _) => { L with taken := L.taken ++ [token] }
      | (.error _, _) => L
  | .requested .mark _ => { L with saved := L.taken :: L.saved }
  | .requested (.reset _) _ => { taken := L.saved.headD [], saved := L.saved.tail }
  | .requested (.release _) _ => { L with saved := L.saved.tail }
  | _ => L

def ofTrace (trace : List Event) : Ledger :=
  trace.foldl record empty

@[simp] theorem ofTrace_append_singleton (trace : List Event) (event : Event) :
    ofTrace (trace ++ [event]) = (ofTrace trace).record event := by
  simp [ofTrace]

end Ledger

/-- The tokens that have been taken in the course of the trace and not given back. -/
def Parser.consumed (trace : List Event) : List Token :=
  (Ledger.ofTrace trace).taken

/-- The kind that a token has where nothing is declared. -/
def TokenKind.plain : TokenKind → TokenKind
  | .typeName name => .identifier name
  | kind => kind

theorem SymbolTable.plain_classify {table : SymbolTable} (h : table.KeywordFree) (w : Lexeme) :
    (table.classify w).plain = SymbolTable.empty.classify w := by
  rw [← refresh_classify h keywordFree_empty w]
  cases table.classify w <;> rfl

/-! ## Sites -/

/-- The place that a mark remembers, and the kinds of the tokens taken since. -/
structure Saved where
  here : Nat
  kinds : List TokenKind

/-- How far a run has come. -/
structure Site where
  /-- The offset of the next token, or of the fault in its place. -/
  here : Nat
  /-- The tokens ahead, by their place after the next one. -/
  ahead : Nat → Option Token
  saved : Option Saved
  /-- Whether the end of the text has been taken like a token. -/
  ended : Bool

/-- The position is that of a lexeme. -/
def Outlook.Real (o : Outlook) (p : Position) : Prop :=
  p ∈ o.pieces.map (·.position)

namespace Site

/-- The condition on which a request is made at a site.  What is given back is one parenthesis. -/
def May : Request → Site → Prop
  | .mark, x => x.saved = none
  | .reset _, x => x.saved.map (·.kinds) = some [.punctuator .openParen]
  | .release _, x => x.saved.isSome = true
  | _, _ => True

/-- How requests move a site.  The end of the text can be taken for ever without getting on. -/
def Step (o : Outlook) : (r : Request) → Site → r.Answer → Site → Prop
  | .peek n, x, token, y => y = x ∧ x.ahead n = some token ∧ (n = 0 →
      token.position.offset = x.here ∧ (x.here < o.stop.offset → o.Real token.position))
  | .advance, x, token, y => x.ahead 0 = some token ∧ (∀ n, y.ahead n = x.ahead (n + 1)) ∧
      y.here ≤ o.stop.offset ∧
      y.saved = x.saved.map (fun m => { m with kinds := m.kinds ++ [token.kind] }) ∧
      (token.kind = .endOfFile → y.here = x.here ∧ y.ended = true) ∧
      (token.kind ≠ .endOfFile → x.here < y.here ∧ y.ended = x.ended)
  | .mark, x, _, y => y = { x with saved := some { here := x.here, kinds := [] } }
  | .reset _, x, _, y => x.saved.map (·.here) = some y.here ∧ y.saved = none ∧ y.ended = x.ended
  | .release _, x, _, y => y = { x with saved := none }
  | _, x, _, y => y.here = x.here ∧ y.saved = x.saved ∧ y.ended = x.ended

end Site

/-! ## Views of a text -/

namespace View

/-- Where the lexemes end. -/
def stop (v : View) : Position :=
  match v.ending with
  | .ok p => p
  | .error e => e.start

/-- The offset of the next token, or of the fault in its place. -/
def here (v : View) : Nat :=
  ((v.ahead.map (·.position)).headD v.stop).offset

/-- The view is of the text behind the lexemes. -/
structure Behind (o : Outlook) (before : List Piece) (v : View) : Prop where
  ahead : before ++ v.ahead = o.pieces
  ending : v.ending = o.ending

namespace Behind

variable {source : Source} {before : List Piece} {v w : View} {token : Token}

theorem stop_eq {o : Outlook} (h : v.Behind o before) : v.stop = o.stop := by
  rw [stop, h.ending]
  rfl

theorem pairwise (h : v.Behind source.outlook before) :
    (v.ahead.map (·.position) ++ [v.stop]).Pairwise fun p q => p.offset < q.offset := by
  have hall := source.pairwise_outlook.1
  rw [Outlook.positions, ← h.ahead, ← h.stop_eq, List.map_append, List.append_assoc] at hall
  exact (List.pairwise_append.1 hall).2.1

theorem here_le (h : v.Behind source.outlook before) : v.here ≤ source.outlook.stop.offset := by
  have hpairwise := h.pairwise
  rw [here, ← h.stop_eq]
  cases hahead : v.ahead with
  | nil => exact Nat.le_refl _
  | cons piece others =>
      rw [hahead] at hpairwise
      exact Nat.le_of_lt ((List.pairwise_cons.1 hpairwise).1 _ (by simp))

/-- The next token stands here, and it is a lexeme unless the text has come to its end. -/
theorem token_here (h : v.Behind source.outlook before) (htoken : v.token? 0 = some token) :
    token.position.offset = v.here ∧
      (v.here < source.outlook.stop.offset → source.outlook.Real token.position) := by
  cases hahead : v.ahead with
  | nil =>
      simp only [token?, hahead, List.getElem?_nil, Option.map_eq_some_iff] at htoken
      obtain ⟨position, hposition, rfl⟩ := htoken
      have hstop : v.stop = position := by
        rw [stop]
        split
        · rename_i p hp
          simpa [hp, Except.toOption] using hposition
        · rename_i e he
          simp [he, Except.toOption] at hposition
      have hhere : v.here = position.offset := by simp [here, hahead, hstop]
      refine ⟨hhere.symm, fun hlt => ?_⟩
      rw [hhere, ← hstop, h.stop_eq] at hlt
      exact absurd hlt (Nat.lt_irrefl _)
  | cons piece others =>
      obtain rfl : v.next piece = token := by simpa [token?, hahead] using htoken
      refine ⟨by simp [here, hahead, next], fun _ => ?_⟩
      rw [Outlook.Real, ← h.ahead, hahead]
      exact List.mem_map.2 ⟨piece, by simp, rfl⟩

/-- Where fewer lexemes are ahead, the run has come further. -/
theorem here_lt {before' : List Piece} (h : v.Behind source.outlook before)
    (h' : w.Behind source.outlook before') (hhere : v.here < w.here) :
    w.ahead.length < v.ahead.length := by
  refine Nat.lt_of_not_le fun hle => ?_
  -- Otherwise the first view would be a later part of the text than the second.
  have hlength : before.length + v.ahead.length = before'.length + w.ahead.length := by
    rw [← List.length_append, ← List.length_append, h.ahead, h'.ahead]
  obtain ⟨between, hbetween⟩ : ∃ between, w.ahead = between ++ v.ahead := by
    refine ⟨w.ahead.take (before.length - before'.length), ?_⟩
    have hdrop : w.ahead.drop (before.length - before'.length) = v.ahead := by
      have hw : w.ahead = source.outlook.pieces.drop before'.length := by simp [← h'.ahead]
      have hv : v.ahead = source.outlook.pieces.drop before.length := by simp [← h.ahead]
      rw [hw, hv, List.drop_drop]
      congr 1
      omega
    rw [← hdrop, List.take_append_drop]
  have hpairwise := h'.pairwise
  have hstop : w.stop = v.stop := h'.stop_eq.trans h.stop_eq.symm
  rw [hbetween, List.map_append, List.append_assoc, hstop] at hpairwise
  have hcross := (List.pairwise_append.1 hpairwise).2.2
  cases between with
  | nil => simp [here, hbetween, hstop] at hhere
  | cons piece others =>
      have hv : (v.ahead.map (·.position)).headD v.stop ∈ v.ahead.map (·.position) ++ [v.stop] := by
        cases v.ahead <;> simp
      have := hcross piece.position (by simp) _ hv
      simp only [here, hbetween, List.cons_append, List.map_cons, List.headD_cons] at hhere
      exact absurd hhere (Nat.not_lt.2 (Nat.le_of_lt this))

end Behind

theorem here_congr {v w : View} (hahead : w.ahead = v.ahead) (hending : w.ending = v.ending) :
    w.here = v.here := by
  simp only [here, stop, hahead, hending]

/-! ### A token is taken -/

namespace Behind

variable {source : Source} {before : List Piece} {v w : View} {token : Token}

/-- A token that is taken leaves what is ahead, unless it is the end of the text. -/
theorem pieces_of_token? (h : v.Behind source.outlook before) (htoken : v.token? 0 = some token) :
    Token.pieces [token] ++ v.ahead.tail = v.ahead ∧ v.ahead.take 1 = Token.pieces [token] ∧
      (token.kind ≠ .endOfFile → v.ahead ≠ []) := by
  by_cases hkind : token.kind = .endOfFile
  · have hnil : v.ahead = [] := by
      cases hahead : v.ahead with
      | nil => rfl
      | cons piece others =>
          obtain rfl : v.next piece = token := by simpa [View.token?, hahead] using htoken
          have hmem : piece ∈ source.outlook.pieces := by
            rw [← h.ahead, hahead]
            exact List.mem_append_right _ List.mem_cons_self
          exact absurd (by simpa [View.kind] using hkind) (Source.scan_of_mem_outlook hmem).1
    simp [hnil, Token.pieces, hkind]
  · obtain ⟨piece, others, hahead, rfl⟩ :=
      @View.lexeme_of_token? v v.ahead token htoken hkind
    have hpiece : Token.pieces [v.next piece] = [piece] := by
      have hkeep : [v.next piece].filter (fun token => token.kind ≠ .endOfFile) = [v.next piece] :=
        List.filter_cons_of_pos (decide_eq_true hkind)
      rw [Token.pieces, hkeep]
      simp [Token.piece, View.next, View.kind]
    simp [hahead, hpiece]

theorem advance (h : v.Behind source.outlook before)
    (hview : v.perform .advance = some (token, w)) :
    w.Behind source.outlook (before ++ Token.pieces [token]) := by
  obtain ⟨htoken, rfl⟩ := View.token?_of_advance hview
  refine ⟨?_, h.ending⟩
  rw [List.append_assoc, (h.pieces_of_token? htoken).1, h.ahead]

/-- Nothing is ahead before and behind the end of the text. -/
theorem here_eq_of_end (h : v.Behind source.outlook before)
    (hview : v.perform .advance = some (token, w)) (hkind : token.kind = .endOfFile) :
    w.here = v.here := by
  obtain ⟨htoken, rfl⟩ := View.token?_of_advance hview
  have hsame : v.ahead.tail = v.ahead := by
    simpa [Token.pieces, hkind] using (h.pieces_of_token? htoken).1
  exact here_congr hsame rfl

theorem here_lt_of_advance (h : v.Behind source.outlook before)
    (hview : v.perform .advance = some (token, w)) (hkind : token.kind ≠ .endOfFile) :
    v.here < w.here := by
  have hstop : w.stop = v.stop := (h.advance hview).stop_eq.trans h.stop_eq.symm
  obtain ⟨htoken, hafter⟩ := View.token?_of_advance hview
  obtain ⟨piece, others, hcons⟩ :=
    List.exists_cons_of_ne_nil ((h.pieces_of_token? htoken).2.2 hkind)
  have hrest : w.ahead = others := by rw [← hafter, hcons, List.tail_cons]
  have hpairwise := h.pairwise
  rw [hcons, List.map_cons, List.cons_append] at hpairwise
  rw [here, here, hcons, hrest, hstop]
  refine (List.pairwise_cons.1 hpairwise).1 _ ?_
  cases others <;> simp

end Behind

/-- A lexeme is plain if it is classified by no declaration, and the end of the text is. -/
theorem plain_of_token? {v : View} {token : Token} (hfree : v.table.KeywordFree)
    (htoken : v.token? 0 = some token) :
    token.kind.plain = SymbolTable.empty.classify token.kind.lexeme := by
  rcases View.token?_eq_some htoken with ⟨piece, -, rfl⟩ | hkind
  · simp only [View.kind_next, View.kind, SymbolTable.lexeme_classify]
    exact SymbolTable.plain_classify hfree _
  · rw [hkind]
    rfl

end View

/-! ## What a site tells -/

namespace Site

/-- What the books and the view have of the mark that is outstanding, if one is. -/
def Recalls (es : List Event) (v : View) : Option Saved → Prop
  | none => v.taken = none ∧ (Ledger.ofTrace es).saved = []
  | some m => ∃ before since, (Ledger.ofTrace es).saved = [before] ∧
      Parser.consumed es = before ++ since ∧ v.taken = some (Token.pieces since) ∧
      since.map (·.kind) = m.kinds ∧ m.here = (v.facing (Token.pieces since ++ v.ahead)).here

/-- The site tells what has been taken of the text, and what the view shows of the rest. -/
structure Tells (source : Source) (es : List Event) (v : View) (x : Site) : Prop where
  behind : v.Behind source.outlook (Token.pieces (Parser.consumed es))
  here : x.here = v.here
  ahead : x.ahead = v.token?
  saved : Recalls es v x.saved
  ended : x.ended = false → ∀ token ∈ Parser.consumed es, token.kind ≠ .endOfFile
  plain : ∀ token ∈ Parser.consumed es,
    token.kind.plain = SymbolTable.empty.classify token.kind.lexeme

def chronicle (source : Source) : Chronicle Site where
  Tells es s x := Tells source es s.view x
  returned f result h := by
    refine { behind := ?_, here := h.here, ahead := h.ahead, saved := ?_, ended := ?_, plain := ?_ }
    · simpa [Parser.consumed, Ledger.record] using h.behind
    · simpa [Recalls, Parser.consumed, Ledger.record] using h.saved
    · simpa [Parser.consumed, Ledger.record] using h.ended
    · simpa [Parser.consumed, Ledger.record] using h.plain

variable {source : Source} {es : List Event} {v w : View} {x : Site} {token : Token}
  {s : ParserState} {before : List Piece}

/-- Where the tokens taken stay as they are and the view shows the same lexemes, what is left to show
is that the site tells of the mark. -/
theorem Tells.keep {es' : List Event} {saved : Option Saved} (h : Tells source es v x)
    (hconsumed : Parser.consumed es' = Parser.consumed es) (hahead : w.ahead = v.ahead)
    (hending : w.ending = v.ending) (hsaved : Recalls es' w saved) :
    Tells source es' w { x with ahead := w.token?, saved := saved } where
  behind := by
    rw [hconsumed]
    exact ⟨hahead ▸ h.behind.ahead, hending.trans h.behind.ending⟩
  here := h.here.trans (View.here_congr hahead hending).symm
  ahead := rfl
  saved := hsaved
  ended := hconsumed ▸ h.ended
  plain := hconsumed ▸ h.plain

/-- Where the books stay as they are too, the site is the same but for the tokens ahead. -/
theorem Tells.stay {event : Event} (h : Tells source es v x)
    (hrecord : (Ledger.ofTrace es).record event = Ledger.ofTrace es) (hahead : w.ahead = v.ahead)
    (hending : w.ending = v.ending) (htaken : w.taken = v.taken) :
    Tells source (es ++ [event]) w { x with ahead := w.token? } := by
  have hbooks : Ledger.ofTrace (es ++ [event]) = Ledger.ofTrace es := by
    rw [Ledger.ofTrace_append_singleton, hrecord]
  have hconsumed : Parser.consumed (es ++ [event]) = Parser.consumed es := by
    rw [Parser.consumed, hbooks, ← Parser.consumed]
  refine h.keep hconsumed hahead hending ?_
  have hsaved := h.saved
  cases hx : x.saved with
  | none =>
      rw [hx] at hsaved
      exact ⟨htaken.trans hsaved.1, hbooks ▸ hsaved.2⟩
  | some m =>
      rw [hx] at hsaved
      obtain ⟨before, since, hbefore, hsplit, hpieces, hkinds, hm⟩ := hsaved
      refine ⟨before, since, hbooks ▸ hbefore, hconsumed ▸ hsplit, htaken.trans hpieces, hkinds, ?_⟩
      rw [hm, hahead]
      exact View.here_congr rfl hending.symm

/-- A token that is taken while a mark is outstanding is one more to be given back. -/
theorem Recalls.advance {t : ParserState} {saved : Option Saved}
    (h : Recalls es s.view saved) (hbehind : s.view.Behind source.outlook before)
    (hperform : Request.perform .advance s = (.ok token, t))
    (hview : s.view.perform .advance = some (token, t.view)) :
    Recalls (es ++ [.requested .advance s]) t.view
      (saved.map fun m => { m with kinds := m.kinds ++ [token.kind] }) := by
  obtain ⟨htoken, hafter⟩ := View.token?_of_advance hview
  obtain ⟨hahead, hfirst, -⟩ := hbehind.pieces_of_token? htoken
  have htaken : t.view.taken = s.view.taken.map fun pieces => pieces ++ s.view.ahead.take 1 := by
    rw [← hafter]
  have hbooks : Ledger.ofTrace (es ++ [.requested .advance s]) =
      { Ledger.ofTrace es with taken := (Ledger.ofTrace es).taken ++ [token] } := by
    rw [Ledger.ofTrace_append_singleton, Ledger.record, hperform]
  cases saved with
  | none => exact ⟨by rw [htaken, h.1]; rfl, by rw [hbooks]; exact h.2⟩
  | some m =>
      obtain ⟨before, since, hbefore, hsplit, hpieces, hkinds, hm⟩ := h
      refine ⟨before, since ++ [token], by rw [hbooks]; exact hbefore, ?_, ?_, ?_, ?_⟩
      · rw [Parser.consumed, hbooks, ← List.append_assoc, ← hsplit, Parser.consumed]
      · rw [htaken, hpieces, Option.map_some, hfirst, Token.pieces_append]
      · simp [hkinds]
      · rw [hm]
        refine View.here_congr ?_ (by rw [View.facing, View.facing, ← hafter])
        rw [View.facing, View.facing, Token.pieces_append, ← hafter]
        simp only [List.append_assoc, hahead]

theorem Tells.advance {t : ParserState} (h : Tells source es s.view x)
    (hfree : s.table.KeywordFree) (hperform : Request.perform .advance s = (.ok token, t))
    (hview : s.view.perform .advance = some (token, t.view)) :
    ∃ y, Step source.outlook .advance x token y ∧
      Tells source (es ++ [.requested .advance s]) t.view y := by
  obtain ⟨htoken, hafter⟩ := View.token?_of_advance hview
  have hconsumed : Parser.consumed (es ++ [.requested .advance s]) = Parser.consumed es ++ [token] := by
    rw [Parser.consumed, Ledger.ofTrace_append_singleton, Ledger.record, hperform]
    rfl
  have hbehind := h.behind.advance hview
  let y : Site :=
    { here := t.view.here
      ahead := t.view.token?
      saved := x.saved.map fun m => { m with kinds := m.kinds ++ [token.kind] }
      ended := x.ended || token.kind = .endOfFile }
  have hstep : Step source.outlook .advance x token y := by
    refine ⟨(congrFun h.ahead 0).trans htoken, fun n => ?_, hbehind.here_le, rfl, fun hkind => ?_,
      fun hkind => ?_⟩
    · rw [h.ahead]
      change t.view.token? n = _
      rw [← hafter]
      cases hcons : s.view.ahead <;> simp [View.token?, View.next, View.kind, hcons]
    · exact ⟨(h.behind.here_eq_of_end hview hkind).trans h.here.symm, by simp [y, hkind]⟩
    · exact ⟨h.here ▸ h.behind.here_lt_of_advance hview hkind, by simp [y, hkind]⟩
  -- The books have one more token, and the end of the text may be it.
  refine ⟨y, hstep, { behind := ?_, here := rfl, ahead := rfl, saved := ?_, ended := ?_, plain := ?_ }⟩
  · rwa [hconsumed, Token.pieces_append]
  · exact Recalls.advance h.saved h.behind hperform hview
  · intro hended other hother
    obtain ⟨hbefore, hkind⟩ : x.ended = false ∧ token.kind ≠ .endOfFile := by
      simpa [y] using hended
    rcases List.mem_append.1 (hconsumed ▸ hother) with hother | hother
    · exact h.ended hbefore other hother
    · rwa [List.mem_singleton.1 hother]
  · intro other hother
    rcases List.mem_append.1 (hconsumed ▸ hother) with hother | hother
    · exact h.plain other hother
    · obtain rfl := List.mem_singleton.1 hother
      exact View.plain_of_token? (v := s.view) hfree htoken

theorem Tells.mark {m : Mark} (h : Tells source es v x) (may : x.saved = none)
    (hview : v.perform .mark = some (m, w)) :
    Tells source (es ++ [.requested .mark s]) w
      { x with saved := some { here := x.here, kinds := [] } } := by
  obtain rfl : { v with taken := some [] } = w := congrArg Prod.snd (Option.some.inj hview)
  have hsaved := h.saved
  rw [may] at hsaved
  have hbooks : Ledger.ofTrace (es ++ [.requested .mark s]) =
      { taken := Parser.consumed es, saved := [Parser.consumed es] } := by
    rw [Ledger.ofTrace_append_singleton, Ledger.record, hsaved.2]
    rfl
  have hconsumed : Parser.consumed (es ++ [.requested .mark s]) = Parser.consumed es := by
    rw [Parser.consumed, hbooks]
  rw [h.ahead]
  refine h.keep (w := { v with taken := some [] }) hconsumed rfl rfl ?_
  exact ⟨Parser.consumed es, [], by rw [hbooks], by rw [hconsumed, List.append_nil], rfl, rfl, h.here⟩

/-- To go back to a mark is to forget what has been taken since. -/
theorem Tells.reset {m : Mark} {answer : Unit} {kept : Saved} (h : Tells source es v x)
    (hkept : x.saved = some kept) (hview : v.perform (.reset m) = some (answer, w)) :
    Tells source (es ++ [.requested (.reset m) s]) w
      { here := kept.here, ahead := w.token?, saved := none, ended := x.ended } := by
  obtain rfl : { v with ahead := v.taken.getD [] ++ v.ahead, taken := none } = w :=
    congrArg Prod.snd (Option.some.inj hview)
  have hsaved := h.saved
  rw [hkept] at hsaved
  obtain ⟨before, since, hbefore, hsplit, htaken, -, hhere⟩ := hsaved
  -- The books go back to what had been taken when the mark was set.
  have hbooks : Ledger.ofTrace (es ++ [.requested (.reset m) s]) = { taken := before, saved := [] } := by
    rw [Ledger.ofTrace_append_singleton, Ledger.record, hbefore]
    rfl
  have hconsumed : Parser.consumed (es ++ [.requested (.reset m) s]) = before := by
    rw [Parser.consumed, hbooks]
  refine { behind := ⟨?_, h.behind.ending⟩, here := ?_, ahead := rfl, saved := ?_, ended := ?_,
           plain := ?_ }
  · have hahead := h.behind.ahead
    rw [hsplit, Token.pieces_append, List.append_assoc] at hahead
    rw [hconsumed, htaken]
    exact hahead
  · rw [hhere, htaken]
    rfl
  · exact ⟨rfl, by rw [hbooks]⟩
  · rw [hconsumed]
    intro hended token htoken
    exact h.ended hended token (hsplit ▸ List.mem_append_left _ htoken)
  · rw [hconsumed]
    intro token htoken
    exact h.plain token (hsplit ▸ List.mem_append_left _ htoken)

theorem Tells.release {m : Mark} {answer : Unit} {kept : Saved} (h : Tells source es v x)
    (hkept : x.saved = some kept) (hview : v.perform (.release m) = some (answer, w)) :
    Tells source (es ++ [.requested (.release m) s]) w { x with saved := none } := by
  obtain rfl : { v with taken := none } = w := congrArg Prod.snd (Option.some.inj hview)
  have hsaved := h.saved
  rw [hkept] at hsaved
  obtain ⟨before, since, hbefore, -⟩ := hsaved
  have hbooks : Ledger.ofTrace (es ++ [.requested (.release m) s]) =
      { taken := Parser.consumed es, saved := [] } := by
    rw [Ledger.ofTrace_append_singleton, Ledger.record, hbefore]
    rfl
  have hconsumed : Parser.consumed (es ++ [.requested (.release m) s]) = Parser.consumed es := by
    rw [Parser.consumed, hbooks]
  rw [h.ahead]
  exact h.keep (w := { v with taken := none }) hconsumed rfl rfl ⟨rfl, by rw [hbooks]⟩

/-- A lawful request moves a site as it may. -/
theorem Tells.perform {r : Request} {answer : r.Answer} {t : ParserState}
    (h : Tells source es s.view x) (hlawful : r.Lawful source s) (may : May r x)
    (hperform : r.perform s = (.ok answer, t)) :
    ∃ y, Step source.outlook r x answer y ∧ Tells source (es ++ [.requested r s]) t.view y := by
  have hview : s.view.perform r = some (answer, t.view) := by
    rcases Request.outcome_of_lawful hlawful with ⟨answer', t', hsame, hview⟩ | ⟨e, t', hsame, -⟩
    · rw [hsame] at hperform
      cases hperform
      exact hview
    · rw [hsame] at hperform
      cases hperform
  -- Requests on the table take nothing, so the site stays and only tokens are classified anew.
  have htabular : r.isTabular = true → (Ledger.ofTrace es).record (.requested r s) =
      Ledger.ofTrace es → Tells source (es ++ [.requested r s]) t.view
        { x with ahead := t.view.token? } := by
    intro hr hrecord
    obtain ⟨hahead, htaken⟩ := View.perform_of_isTabular hr hview
    exact h.stay hrecord hahead (View.ending_perform hview) htaken
  cases r with
  | peek n =>
      obtain ⟨htoken, hsame⟩ := View.token?_of_peek hview
      have hstay : Tells source (es ++ [.requested (.peek n) s]) t.view
          { x with ahead := t.view.token? } :=
        h.stay rfl (by rw [hsame]) (by rw [hsame]) (by rw [hsame])
      rw [← hsame, ← h.ahead] at hstay
      refine ⟨x, ⟨rfl, (congrFun h.ahead n).trans htoken, ?_⟩, by rwa [← hsame]⟩
      rintro rfl
      rw [h.here]
      exact h.behind.token_here htoken
  | advance => exact h.advance hlawful.sound.table hperform hview
  | mark => exact ⟨_, rfl, h.mark may hview⟩
  | reset m =>
      obtain ⟨kept, hkept, -⟩ := Option.map_eq_some_iff.1 may
      have hstep : Step source.outlook (.reset m) x answer
          { here := kept.here, ahead := t.view.token?, saved := none, ended := x.ended } :=
        ⟨by rw [hkept]; rfl, rfl, rfl⟩
      exact ⟨_, hstep, h.reset hkept hview⟩
  | release m =>
      obtain ⟨kept, hkept⟩ := Option.isSome_iff_exists.1 may
      exact ⟨_, rfl, h.release hkept hview⟩
  | enter kind => exact ⟨{ x with ahead := t.view.token? }, ⟨rfl, rfl, rfl⟩, htabular rfl rfl⟩
  | leave position => exact ⟨{ x with ahead := t.view.token? }, ⟨rfl, rfl, rfl⟩, htabular rfl rfl⟩
  | declare name meaning =>
      exact ⟨{ x with ahead := t.view.token? }, ⟨rfl, rfl, rfl⟩, htabular rfl rfl⟩
  | declareEnumerator name =>
      exact ⟨{ x with ahead := t.view.token? }, ⟨rfl, rfl, rfl⟩, htabular rfl rfl⟩

/-- Along a lawful trace sites move as a contract with these steps says. -/
theorem follows_of_lawful {C : Contract Site} {trace : List Event}
    (hmay : ∀ r x, C.may r x → May r x) (hstep : C.step = Step source.outlook)
    (hlawful : Parser.Lawful source trace) : C.Follows (chronicle source) trace := by
  intro r s hmem es x htells may answer t hperform
  rw [hstep]
  exact Tells.perform htells (hlawful r s hmem) (hmay r x may) hperform

end Site

end CSyntax
