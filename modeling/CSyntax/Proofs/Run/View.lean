import CSyntax.Proofs.Run.Freshness

/-!
# View — a parser state without its bookkeeping

How many tokens wait in a cursor makes no difference to the rules.  What matters is which lexemes lie
ahead and what is declared.  This file defines:

* `View` — the lexemes ahead, how they end, the table, and what a mark would bring back;
* `View.perform` — the requests over views, where looking ahead changes nothing;
* `ParserState.view` — the view of a parser state;

and shows that requests commute with it (`Request.view_perform`) where the discipline is kept.
-/

namespace CSyntax

/-! ## Views -/

structure View where
  ahead : List Piece
  ending : Except ParseError Position
  table : SymbolTable
  /-- The lexemes taken since the mark that is outstanding, if one is. -/
  taken : Option (List Piece)

namespace View

/-- The view with other lexemes ahead. -/
def facing (v : View) (ahead : List Piece) : View :=
  { v with ahead := ahead }

/-- The kind of a lexeme where the view's table is in force. -/
def kind (v : View) (piece : Piece) : TokenKind :=
  v.table.classify piece.lexeme

/-- A lexeme as a token. -/
def next (v : View) (piece : Piece) : Token :=
  { kind := v.kind piece, position := piece.position }

@[simp] theorem kind_next (v : View) (piece : Piece) : (v.next piece).kind = v.kind piece := rfl

/-- The token after the next `n` ones, unless a fault comes first. -/
def token? (v : View) (n : Nat) : Option Token :=
  match v.ahead[n]? with
  | some piece => some (v.next piece)
  | none => v.ending.toOption.map fun position => { kind := .endOfFile, position := position }

/-- What a request does to a view, if it succeeds. -/
def perform : (r : Request) → View → Option (r.Answer × View)
  | .peek n, v => (v.token? n).map fun token => (token, v)
  | .advance, v => (v.token? 0).map fun token =>
      (token, { v with
        ahead := v.ahead.tail
        taken := v.taken.map fun pieces => pieces ++ v.ahead.take 1 })
  | .mark, v => some ({ place := 0 }, { v with taken := some [] })
  | .reset _, v => some ((), { v with ahead := v.taken.getD [] ++ v.ahead, taken := none })
  | .release _, v => some ((), { v with taken := none })
  | .enter kind, v => some ((), { v with table := v.table.enter kind })
  | .leave _, v => v.table.leave?.map fun outer => ((), { v with table := outer })
  | .declare name meaning, v => some ((), { v with table := v.table.declare name meaning })
  | .declareEnumerator name, v => some ((), { v with table := v.table.declareEnumerator name })

end View

/-! ## Views of cursors -/

def Token.piece (token : Token) : Piece :=
  { lexeme := token.kind.lexeme, position := token.position }

/-- The lexemes of tokens, without the end of the text. -/
def Token.pieces (tokens : List Token) : List Piece :=
  (tokens.filter fun token => token.kind ≠ .endOfFile).map Token.piece

@[simp] theorem Token.pieces_append (tokens others : List Token) :
    Token.pieces (tokens ++ others) = Token.pieces tokens ++ Token.pieces others := by
  simp [pieces]

theorem Token.length_pieces_le (tokens : List Token) :
    (Token.pieces tokens).length ≤ tokens.length := by
  simpa [pieces] using List.length_filter_le _ tokens

/-- The end of the text has no lexeme, and behind it there is nothing but the end of the text. -/
theorem Token.pieces_of_endOfFile {token : Token} {others : List Token}
    (h : (token :: others).Pairwise fun first second =>
      first.kind = .endOfFile → second.kind = .endOfFile)
    (hkind : token.kind = .endOfFile) : Token.pieces (token :: others) = [] := by
  simp only [pieces, List.map_eq_nil_iff, List.filter_eq_nil_iff]
  intro t ht
  rcases List.mem_cons.1 ht with rfl | ht
  · simp [hkind]
  · simp [(List.pairwise_cons.1 h).1 t ht hkind]

theorem Token.pieces_singleton {token : Token} (hkind : token.kind ≠ .endOfFile) :
    Token.pieces [token] = [token.piece] := by
  simp [pieces, hkind]

namespace Cursor

/-- The lexemes ahead, those of waiting tokens first. -/
def ahead (c : Cursor) : List Piece :=
  Token.pieces c.pending ++ c.source.outlook.pieces

/-- What a cursor shows where the table is in force. -/
def view (c : Cursor) (table : SymbolTable) : View :=
  { ahead := c.ahead
    ending := c.source.outlook.ending
    table := table
    taken := if c.marks = 0 then none else some (Token.pieces c.kept) }

namespace Sound

variable {origin : Source} {table : SymbolTable} {c d : Cursor} {token : Token}

/-- The kind of a token at hand is that of its lexeme. -/
theorem classify_lexeme (h : c.Sound origin table) (htoken : token ∈ c.tokens) :
    table.classify token.kind.lexeme = token.kind := by
  obtain ⟨w, -, hkind⟩ := Token.fresh_iff.1 (h.fresh token htoken)
  rw [hkind, SymbolTable.lexeme_classify]

/-- Where the end of the text waits, the text is at its end. -/
theorem outlook_of_ended (h : c.Sound origin table) (htoken : token ∈ c.tokens)
    (hkind : token.kind = .endOfFile) :
    c.source.outlook = { pieces := [], ending := .ok token.position } := by
  obtain ⟨hrest, hposition⟩ := h.ended token htoken hkind
  have := Source.nextLexeme_of_rest_eq_nil hrest
  rw [hposition] at this
  exact Source.outlook_of_endOfFile this

/-- A waiting token is the one that the view shows at its place. -/
theorem token?_of_pending {n : Nat} (h : c.Sound origin table)
    (hn : c.pending[n]? = some token) : (c.view table).token? n = some token := by
  have hmem : token ∈ c.tokens := List.mem_append_right _ (List.mem_of_getElem? hn)
  have hlast := (List.pairwise_append.1 h.last).2.1
  obtain ⟨before, after, hpending, hlength⟩ :
      ∃ before after, c.pending = before ++ token :: after ∧ before.length = n := by
    obtain ⟨hlt, hget⟩ := List.getElem?_eq_some_iff.1 hn
    refine ⟨c.pending.take n, c.pending.drop (n + 1), ?_, ?_⟩
    · rw [← hget, ← List.drop_eq_getElem_cons hlt, List.take_append_drop]
    · rw [List.length_take]
      omega
  rw [hpending] at hlast
  -- The lexemes ahead are those of the waiting tokens, but the end of the text is none of them.
  by_cases hkind : token.kind = .endOfFile
  · -- The end of the text takes no place ahead, and nothing is behind it.
    have hafter : Token.pieces (token :: after) = [] :=
      Token.pieces_of_endOfFile (List.pairwise_append.1 hlast).2.1 hkind
    have hahead : c.ahead = Token.pieces before := by
      rw [ahead, hpending, Token.pieces_append, hafter, h.outlook_of_ended hmem hkind]
      simp
    have hnone : c.ahead[n]? = none := by
      rw [hahead, List.getElem?_eq_none_iff, ← hlength]
      exact Token.length_pieces_le before
    simp only [View.token?, view, hnone, h.outlook_of_ended hmem hkind]
    rw [← hkind]
    rfl
  · have hbefore : ∀ t ∈ before, t.kind ≠ .endOfFile := by
      intro t ht hend
      exact hkind ((List.pairwise_append.1 hlast).2.2 t ht token List.mem_cons_self hend)
    have hwords : Token.pieces before = before.map Token.piece := by
      rw [Token.pieces, List.filter_eq_self.2]
      simpa using hbefore
    have hget : c.ahead[n]? = some token.piece := by
      rw [ahead, hpending, Token.pieces_append, hwords, List.append_assoc,
        List.getElem?_append_right (by simp [hlength])]
      simp [hlength, Token.pieces, hkind]
    simp only [View.token?, View.next, View.kind, view, hget, Token.piece, h.classify_lexeme hmem]

theorem view_pull (h : c.Sound origin table) (hpull : c.pull table = (.ok token, d)) :
    d.view table = c.view table := by
  have hsame := h.pull hpull
  obtain ⟨hsound, hpending, hkept, hmarks⟩ := hsame
  have hmem : token ∈ d.tokens := by simp [tokens, hpending]
  -- What the source loses the waiting tokens gain.
  have houtlook : c.source.outlook =
      { d.source.outlook with pieces := Token.pieces [token] ++ d.source.outlook.pieces } := by
    obtain ⟨w, t, hnext, hclass, rfl⟩ := pull_eq_ok hpull
    by_cases hw : w = .endOfFile
    · have hkind : token.kind = .endOfFile :=
        hclass.trans ((SymbolTable.classify_eq_endOfFile table w).2 hw)
      rw [hw] at hnext
      rw [Source.outlook_of_endOfFile hnext, hsound.outlook_of_ended hmem hkind,
        Token.pieces_of_endOfFile (List.pairwise_singleton _ _) hkind]
      rfl
    · have hkind : token.kind ≠ .endOfFile := by simpa [hclass] using hw
      rw [Source.outlook_of_ok hnext hw, Token.pieces_singleton hkind]
      simp [Token.piece, hclass]
  simp only [view, ahead, hpending, hkept, hmarks, houtlook, Token.pieces_append,
    List.append_assoc]

theorem view_pullNth {k : Nat} (h : c.Sound origin table)
    (hpull : Cursor.pullNth table k c = (.ok token, d)) : d.view table = c.view table := by
  induction k generalizing c with
  | zero => exact h.view_pull hpull
  | succ k ih =>
      rw [Cursor.pullNth] at hpull
      rcases hfirst : c.pull table with ⟨error | first, e⟩
      · simp only [hfirst] at hpull
        cases hpull
      · simp only [hfirst] at hpull
        exact (ih (h.pull hfirst).1 hpull).trans (h.view_pull hfirst)

/-- Where a fault ends what can be read, the view shows no token from there on. -/
theorem token?_of_error {error : ParseError} {n : Nat} (hlength : c.pending.length ≤ n)
    (hpull : c.pull table = (.error error, d)) : (c.view table).token? n = none := by
  have houtlook : c.source.outlook = { pieces := [], ending := .error error } := by
    unfold Cursor.pull Source.nextToken at hpull
    rcases hnext : c.source.nextLexeme with ⟨fault | ⟨w, p⟩, t⟩
    · simp only [hnext, Prod.mk.injEq, Except.error.injEq] at hpull
      obtain ⟨rfl, -⟩ := hpull
      exact Source.outlook_of_error hnext
    · simp only [hnext] at hpull
      cases hpull
  have hnone : c.ahead[n]? = none := by
    have := Token.length_pieces_le c.pending
    rw [List.getElem?_eq_none_iff, ahead, houtlook, List.append_nil]
    omega
  simp only [View.token?, view, hnone, houtlook]
  rfl

theorem token?_of_pullNth_error {error : ParseError} {k : Nat} (h : c.Sound origin table)
    (hpull : Cursor.pullNth table k c = (.error error, d)) :
    (c.view table).token? (c.pending.length + k) = none := by
  induction k generalizing c with
  | zero => exact token?_of_error (Nat.le_refl _) hpull
  | succ k ih =>
      rw [Cursor.pullNth] at hpull
      rcases hfirst : c.pull table with ⟨fault | first, e⟩
      · exact token?_of_error (by omega) hfirst
      · simp only [hfirst] at hpull
        obtain ⟨hsound, hpending, -, -⟩ := h.pull hfirst
        have := ih hsound hpull
        rw [h.view_pull hfirst, hpending, List.length_append] at this
        rw [← this]
        congr 1
        simp only [List.length_cons, List.length_nil]
        omega

/-- Looking ahead shows what the view has, and changes nothing in it. -/
theorem view_peekNth (h : c.Sound origin table) (n : Nat) :
    match c.peekNth table n with
    | (.ok token, d) => (c.view table).token? n = some token ∧ d.view table = c.view table
    | (.error _, _) => (c.view table).token? n = none := by
  rcases hpeek : c.peekNth table n with ⟨error | token, d⟩
  · unfold Cursor.peekNth at hpeek
    split at hpeek
    · cases hpeek
    · rename_i hnone
      have hlength : c.pending.length ≤ n := List.getElem?_eq_none_iff.1 hnone
      have := h.token?_of_pullNth_error hpeek
      rwa [Nat.add_sub_cancel' hlength] at this
  · obtain ⟨hsound, hpending, -, -⟩ := h.peekNth hpeek
    have hview : d.view table = c.view table := by
      unfold Cursor.peekNth at hpeek
      split at hpeek
      · cases hpeek
        rfl
      · exact h.view_pullNth hpeek
    exact ⟨hview ▸ hsound.token?_of_pending hpending, hview⟩

/-- The first token that waits is the first lexeme ahead, unless it is the end of the text: then
nothing is ahead. -/
theorem pieces_of_pending {others : List Token} (h : c.Sound origin table)
    (hpending : c.pending = token :: others) :
    Token.pieces [token] = c.ahead.take 1 ∧
      Token.pieces others ++ c.source.outlook.pieces = c.ahead.tail := by
  have hahead : c.ahead = Token.pieces [token] ++
      (Token.pieces others ++ c.source.outlook.pieces) := by
    rw [ahead, hpending, ← List.singleton_append, Token.pieces_append, List.append_assoc]
  by_cases hkind : token.kind = .endOfFile
  · have hlast := (List.pairwise_append.1 h.last).2.1
    have hmem : token ∈ c.tokens := by simp [tokens, hpending]
    have hnil : c.ahead = [] := by
      rw [hpending] at hlast
      rw [ahead, hpending, Token.pieces_of_endOfFile hlast hkind, h.outlook_of_ended hmem hkind]
      rfl
    rw [hnil] at hahead ⊢
    obtain ⟨hfirst, hothers⟩ := List.append_eq_nil_iff.1 hahead.symm
    exact ⟨hfirst, hothers⟩
  · rw [hahead, Token.pieces_singleton hkind]
    exact ⟨rfl, rfl⟩

theorem view_advance (h : c.Sound origin table) :
    match c.advance table with
    | (.ok token, d) => (c.view table).token? 0 = some token ∧
        d.view table = { c.view table with
          ahead := c.ahead.tail
          taken := (c.view table).taken.map fun pieces => pieces ++ c.ahead.take 1 }
    | (.error _, _) => (c.view table).token? 0 = none := by
  have hview := h.view_peekNth 0
  unfold Cursor.advance Cursor.peek
  rcases hpeek : c.peekNth table 0 with ⟨error | token, d⟩
  · simpa [hpeek] using hview
  · simp only [hpeek] at hview ⊢
    obtain ⟨htoken, hview⟩ := hview
    obtain ⟨hsound, hpending, -, -⟩ := h.peekNth hpeek
    obtain ⟨others, hothers⟩ : ∃ others, d.pending = token :: others := by
      cases hp : d.pending with
      | nil => simp [hp] at hpending
      | cons head others => exact ⟨others, by simpa [hp] using hpending⟩
    obtain ⟨hfirst, hrest⟩ := hsound.pieces_of_pending hothers
    refine ⟨htoken, ?_⟩
    have hviews : d.ahead = c.ahead ∧ (d.view table).taken = (c.view table).taken ∧
        d.source.outlook.ending = c.source.outlook.ending :=
      ⟨congrArg View.ahead hview, congrArg View.taken hview, congrArg View.ending hview⟩
    rw [← hviews.1, ← hviews.2.1]
    simp only [view, hviews.2.2]
    refine View.mk.injEq .. ▸ ⟨?_, rfl, rfl, ?_⟩
    · simpa [ahead, hothers] using hrest
    · by_cases hm : d.marks = 0
      · simp [hm]
      · simp [hm, hfirst]

end Sound

end Cursor

/-! ## Views of states -/

namespace ParserState

def view (s : ParserState) : View :=
  s.cursor.view s.table

theorem taken_view {s : ParserState} (hm : s.isMarked = false) : s.view.taken = none := by
  have hmarks : s.cursor.marks = 0 := by simpa [isMarked, Cursor.isMarked] using hm
  simp [view, Cursor.view, hmarks]

theorem view_ofSource (source : Source) :
    (ofSource source).view =
      { ahead := source.outlook.pieces, ending := source.outlook.ending, table := .empty
        taken := none } := by
  simp [view, ofSource, Cursor.view, Cursor.ahead, Cursor.ofSource, Token.pieces]

/-- How a run ended, as far as views tell. -/
def outcome {α : Type} : Except ParseError α × ParserState → Option (α × View)
  | (.ok value, s) => some (value, s.view)
  | (.error _, _) => none

theorem view_withTable (s : ParserState) (table : SymbolTable) (hkept : s.cursor.kept = []) :
    (s.withTable table).view = { s.view with table := table } := by
  have hpieces : Token.pieces (s.cursor.reclassify table).pending =
      Token.pieces s.cursor.pending := by
    simp only [Token.pieces, Cursor.reclassify, List.filter_map, List.map_map]
    congr 1
    · funext token
      simp [Token.piece]
    · congr 1
      funext token
      simp [Cursor.Sound.refresh_eq_endOfFile]
  simp only [view, Cursor.view, Cursor.ahead, withTable]
  rw [hpieces]
  simp [Cursor.reclassify, hkept]

end ParserState

theorem ParserState.Sound.marks_eq_one {origin : Source} {s : ParserState} (h : s.Sound origin)
    (hm : s.isMarked = true) : s.cursor.marks = 1 := by
  have hle := h.cursor.marks
  have hpos : 0 < s.cursor.marks := by simpa [isMarked, Cursor.isMarked] using hm
  omega

/-- On the conditions of the discipline, a request does to the view what it does to the state. -/
theorem Request.view_perform {origin : Source} {s : ParserState} {r : Request}
    (h : s.Sound origin) (may : discipline.may r s.isMarked) :
    ParserState.outcome (r.perform s) = s.view.perform r := by
  -- Tables change only while no mark is set, and then no tokens are kept.
  have hkept : s.isMarked = false → s.cursor.kept = [] := by
    intro hm
    exact h.cursor.kept (by simpa [ParserState.isMarked, Cursor.isMarked] using hm)
  cases r with
  | peek n =>
      have hpeek := h.cursor.view_peekNth n
      rcases hcursor : s.cursor.peekNth s.table n with ⟨error | token, d⟩
      · rw [hcursor] at hpeek
        simp only [perform, hcursor, ParserState.outcome, View.perform]
        rw [show s.view.token? n = none from hpeek]
        rfl
      · rw [hcursor] at hpeek
        simp only [perform, hcursor, ParserState.outcome, View.perform]
        rw [show s.view.token? n = some token from hpeek.1, Option.map_some]
        exact congrArg (fun v => some (token, v)) hpeek.2
  | advance =>
      have hadvance := h.cursor.view_advance
      rcases hcursor : s.cursor.advance s.table with ⟨error | token, d⟩
      · rw [hcursor] at hadvance
        simp only [perform, hcursor, ParserState.outcome, View.perform]
        rw [show s.view.token? 0 = none from hadvance]
        rfl
      · rw [hcursor] at hadvance
        simp only [perform, hcursor, ParserState.outcome, View.perform]
        rw [show s.view.token? 0 = some token from hadvance.1, Option.map_some]
        exact congrArg (fun v => some (token, v)) hadvance.2
  | mark =>
      simp only [perform, Cursor.mark, ParserState.outcome, View.perform, hkept may]
      simp [ParserState.view, Cursor.view, Cursor.ahead, hkept may, Token.pieces]
  | reset m =>
      obtain ⟨hm, rfl⟩ := may
      simp [perform, ParserState.outcome, View.perform, ParserState.view, Cursor.view, Cursor.ahead,
        Cursor.reset, Cursor.unmark, h.marks_eq_one hm]
  | release m =>
      simp [perform, ParserState.outcome, View.perform, ParserState.view, Cursor.view, Cursor.ahead,
        Cursor.release, Cursor.unmark, h.marks_eq_one may]
  | enter kind => rfl
  | leave position =>
      rcases hleave : s.table.leave? with _ | outer
      · simp [perform, ParserState.outcome, View.perform, ParserState.view, Cursor.view, hleave]
      · simp only [perform, hleave, ParserState.outcome, View.perform]
        rw [show s.view.table.leave? = some outer from hleave, Option.map_some,
          s.view_withTable outer (hkept may)]
  | declare name meaning =>
      simp only [perform, ParserState.outcome, View.perform]
      rw [s.view_withTable _ (hkept may.1)]
      rfl
  | declareEnumerator name =>
      simp only [perform, ParserState.outcome, View.perform]
      rw [s.view_withTable _ (hkept may.1)]
      rfl

end CSyntax
