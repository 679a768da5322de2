import CSyntax.Proofs.Run.Discipline
import CSyntax.Proofs.Stream.Pieces

/-!
# Freshness — waiting tokens are what lexing anew would give

A token may wait while a scope is left or a word is declared, and words are classified when they are
looked at first.  This file shows that a rule never sees the difference:

* `Token.Fresh` — lexing that begins where the token begins gives the token again;
* `ParserState.Sound` — the invariant of all runs, which holds of every token at hand;
* `handed_fresh` — what a rule is handed is fresh, waiting words are classified by what is declared
  now, and nothing is declared while a mark is outstanding.

The invariant is carried by `Contract.sound`, where the contract is `discipline`: tokens behind a
mark are not brought up to date, so the table has to stay as it is until the mark is used up.
-/

namespace CSyntax

/-! ## Fresh tokens -/

namespace Token

/-- Lexing that begins where the token begins gives the token, if `table` tells what is
declared. -/
def Fresh (origin : Source) (table : SymbolTable) (token : Token) : Prop :=
  ∃ n, (origin.drop n).position = token.position ∧
    ((origin.drop n).nextToken table).1 = .ok token

theorem fresh_iff {origin : Source} {table : SymbolTable} {token : Token} :
    token.Fresh origin table ↔
      ∃ w, origin.Cuts { lexeme := w, position := token.position } ∧
        token.kind = table.classify w := by
  constructor
  · rintro ⟨n, hposition, hnext⟩
    unfold Source.nextToken at hnext
    split at hnext
    · rename_i w p t hlexeme
      cases hnext
      exact ⟨w, ⟨n, t, hposition, hlexeme⟩, rfl⟩
    · cases hnext
  · rintro ⟨w, ⟨n, t, hposition, hlexeme⟩, hkind⟩
    refine ⟨n, hposition, ?_⟩
    simp only [Source.nextToken, hlexeme]
    rw [← hkind]

/-- Bringing the kind up to date makes a token fresh again. -/
theorem Fresh.refresh {origin : Source} {old new : SymbolTable} {token : Token}
    (h : token.Fresh origin old) (hold : old.KeywordFree) (hnew : new.KeywordFree) :
    { token with kind := Cursor.reclassify.refresh new token.kind }.Fresh origin new := by
  obtain ⟨w, hcuts, hkind⟩ := fresh_iff.1 h
  refine fresh_iff.2 ⟨w, hcuts, ?_⟩
  rw [hkind]
  exact SymbolTable.refresh_classify hold hnew w

/-- A fresh word is a type name just if it is declared as one. -/
theorem Fresh.isTypeName {origin : Source} {table : SymbolTable} {token : Token} {name : String}
    (h : token.Fresh origin table) (hname : name ∈ token.kind.words) :
    token.kind = .typeName name ↔ table.isTypeName name = true := by
  obtain ⟨w, -, hkind⟩ := fresh_iff.1 h
  cases hk : token.kind with
  | identifier other =>
      obtain rfl : name = other := by simpa [hk, TokenKind.words] using hname
      have := SymbolTable.classify_eq_identifier.1 (hkind.symm.trans hk)
      simp [this.2.1]
  | typeName other =>
      obtain rfl : name = other := by simpa [hk, TokenKind.words] using hname
      have := SymbolTable.classify_eq_typeName.1 (hkind.symm.trans hk)
      simp [this.2]
  | _ => simp [hk, TokenKind.words] at hname

/-- The words of a fresh token may be declared. -/
theorem Fresh.allUnreserved {origin : Source} {table : SymbolTable} {token : Token}
    (h : token.Fresh origin table) (hfree : table.KeywordFree) :
    AllUnreserved token.kind.words := by
  intro name hname
  obtain ⟨w, -, hkind⟩ := fresh_iff.1 h
  cases hk : token.kind with
  | identifier other =>
      obtain rfl : name = other := by simpa [hk, TokenKind.words] using hname
      exact (SymbolTable.classify_eq_identifier.1 (hkind.symm.trans hk)).2.2
  | typeName other =>
      obtain rfl : name = other := by simpa [hk, TokenKind.words] using hname
      exact hfree.unreserved_of_isTypeName
        (SymbolTable.classify_eq_typeName.1 (hkind.symm.trans hk)).2
  | _ => simp [hk, TokenKind.words] at hname

end Token

/-! ## Sound cursors -/

namespace Cursor

/-- The tokens at hand, those kept for a mark first. -/
def tokens (c : Cursor) : List Token :=
  c.kept ++ c.pending

/-- What holds of a cursor in a run: its source is a rest of the text, its tokens are fresh, the end
of the text comes last, and tokens are kept for one mark at most. -/
structure Sound (origin : Source) (table : SymbolTable) (c : Cursor) : Prop where
  source : ∃ n, c.source = origin.drop n
  fresh : ∀ token ∈ c.tokens, token.Fresh origin table
  ended : ∀ token ∈ c.tokens, token.kind = .endOfFile →
    c.source.rest = [] ∧ c.source.position = token.position
  last : c.tokens.Pairwise fun first second => first.kind = .endOfFile → second.kind = .endOfFile
  kept : c.marks = 0 → c.kept = []
  marks : c.marks ≤ 1

theorem pull_eq_ok {table : SymbolTable} {c d : Cursor} {token : Token}
    (h : c.pull table = (.ok token, d)) :
    ∃ w t, c.source.nextLexeme = (.ok (w, token.position), t) ∧ token.kind = table.classify w ∧
      d = { c with source := t, pending := c.pending ++ [token] } := by
  unfold Cursor.pull Source.nextToken at h
  rcases hnext : c.source.nextLexeme with ⟨error | ⟨w, p⟩, t⟩
  · simp only [hnext] at h
    cases h
  · simp only [hnext, Prod.mk.injEq, Except.ok.injEq] at h
    obtain ⟨rfl, rfl⟩ := h
    exact ⟨w, t, rfl, rfl, rfl⟩

namespace Sound

variable {origin : Source} {table : SymbolTable} {c d : Cursor} {token : Token}

theorem pull (h : c.Sound origin table) (hpull : c.pull table = (.ok token, d)) :
    d.Sound origin table ∧ d.pending = c.pending ++ [token] ∧ d.kept = c.kept ∧
      d.marks = c.marks := by
  obtain ⟨k, hk⟩ := h.source
  obtain ⟨w, t, hnext, hkind, rfl⟩ := pull_eq_ok hpull
  obtain ⟨hcuts, hsource⟩ := Source.cuts_of_drop (hk ▸ hnext)
  have hfresh : token.Fresh origin table := Token.fresh_iff.2 ⟨w, hcuts, hkind⟩
  -- Behind the end of the text there is nothing but the end of the text.
  have hend : ∀ first ∈ c.tokens, first.kind = .endOfFile →
      w = .endOfFile ∧ token.position = first.position ∧ t = c.source := by
    intro first hfirst hkind
    obtain ⟨hrest, hposition⟩ := h.ended first hfirst hkind
    rw [Source.nextLexeme_of_rest_eq_nil hrest] at hnext
    simp only [Prod.mk.injEq, Except.ok.injEq] at hnext
    exact ⟨hnext.1.1.symm, hnext.1.2 ▸ hposition, hnext.2.symm⟩
  refine ⟨?_, rfl, rfl, rfl⟩
  refine { source := hsource, fresh := ?_, ended := ?_, last := ?_, kept := h.kept,
           marks := h.marks }
  · intro other hother
    simp only [tokens, ← List.append_assoc, List.mem_append, List.mem_singleton] at hother
    rcases hother with hother | rfl
    · exact h.fresh other (List.mem_append.2 hother)
    · exact hfresh
  · intro other hother hend'
    simp only [tokens, ← List.append_assoc, List.mem_append, List.mem_singleton] at hother
    rcases hother with hother | rfl
    · obtain ⟨-, -, rfl⟩ := hend other (List.mem_append.2 hother) hend'
      exact h.ended other (List.mem_append.2 hother) hend'
    · obtain rfl := (SymbolTable.classify_eq_endOfFile table w).1 (hkind.symm.trans hend')
      exact Source.rest_eq_nil_of_nextLexeme hnext
  · simp only [tokens, ← List.append_assoc]
    refine List.pairwise_append.2 ⟨h.last, List.pairwise_singleton _ _, ?_⟩
    intro first hfirst second hsecond hended
    obtain rfl := List.mem_singleton.1 hsecond
    exact hkind.trans ((SymbolTable.classify_eq_endOfFile table w).2 (hend first hfirst hended).1)

theorem pullNth {k : Nat} (h : c.Sound origin table)
    (hpull : pullNth table k c = (.ok token, d)) :
    d.Sound origin table ∧ d.pending[c.pending.length + k]? = some token ∧ d.kept = c.kept ∧
      d.marks = c.marks := by
  induction k generalizing c with
  | zero =>
      obtain ⟨hsound, hpending, hkept, hmarks⟩ := h.pull hpull
      exact ⟨hsound, by simp [hpending], hkept, hmarks⟩
  | succ k ih =>
      rw [Cursor.pullNth] at hpull
      rcases hfirst : c.pull table with ⟨error | first, e⟩
      · simp only [hfirst] at hpull
        cases hpull
      · simp only [hfirst] at hpull
        obtain ⟨hsound, hpending, hkept, hmarks⟩ := h.pull hfirst
        obtain ⟨hsound', hpending', hkept', hmarks'⟩ := ih hsound hpull
        -- The place is counted from the end of the waiting tokens, and there is one more of them by
        -- now.
        refine ⟨hsound', ?_, hkept'.trans hkept, hmarks'.trans hmarks⟩
        rw [← hpending', hpending, List.length_append]
        congr 1
        simp only [List.length_cons, List.length_nil]
        omega

theorem peekNth {n : Nat} (h : c.Sound origin table)
    (hpeek : c.peekNth table n = (.ok token, d)) :
    d.Sound origin table ∧ d.pending[n]? = some token ∧ d.kept = c.kept ∧ d.marks = c.marks := by
  unfold Cursor.peekNth at hpeek
  split at hpeek
  · rename_i found hfound
    cases hpeek
    exact ⟨h, hfound, rfl, rfl⟩
  · rename_i hnone
    have hlength : c.pending.length ≤ n := List.getElem?_eq_none_iff.1 hnone
    obtain ⟨hsound, hpending, hkept, hmarks⟩ := h.pullNth hpeek
    rw [Nat.add_sub_cancel' hlength] at hpending
    exact ⟨hsound, hpending, hkept, hmarks⟩

theorem advance (h : c.Sound origin table) (hadvance : c.advance table = (.ok token, d)) :
    d.Sound origin table ∧ token.Fresh origin table ∧ d.marks = c.marks := by
  unfold Cursor.advance Cursor.peek at hadvance
  rcases hpeek : c.peekNth table 0 with ⟨error | first, e⟩
  · simp only [hpeek] at hadvance
    cases hadvance
  · simp only [hpeek, Prod.mk.injEq, Except.ok.injEq] at hadvance
    obtain ⟨rfl, rfl⟩ := hadvance
    obtain ⟨hsound, hpending, -, hmarks⟩ := h.peekNth hpeek
    obtain ⟨others, hothers⟩ : ∃ others, e.pending = first :: others := by
      cases hp : e.pending with
      | nil => simp [hp] at hpending
      | cons head others => exact ⟨others, by simpa [hp] using hpending⟩
    have hfresh : first.Fresh origin table :=
      hsound.fresh first (by simp [tokens, hothers])
    refine ⟨?_, hfresh, hmarks⟩
    -- Without a mark the token is dropped, and what was known of all tokens is known of the others.
    by_cases hm : e.marks = 0
    · have hkept := hsound.kept hm
      have htokens : e.tokens = first :: others := by simp [tokens, hkept, hothers]
      have hlast := hsound.last
      rw [htokens] at hlast
      refine { source := hsound.source, fresh := ?_, ended := ?_, last := ?_, kept := ?_,
               marks := hsound.marks }
      · intro token htoken
        refine hsound.fresh token ?_
        rw [htokens]
        exact List.mem_cons_of_mem _ (by simpa [tokens, hm, hothers] using htoken)
      · intro token htoken
        refine hsound.ended token ?_
        rw [htokens]
        exact List.mem_cons_of_mem _ (by simpa [tokens, hm, hothers] using htoken)
      · simpa [tokens, hm, hothers] using (List.pairwise_cons.1 hlast).2
      · simp [hm]
    · -- The token goes from the waiting ones to the kept ones, and all are still at hand.
      have htokens : (e.kept ++ [first]) ++ others = e.tokens := by simp [tokens, hothers]
      refine { source := hsound.source, fresh := ?_, ended := ?_, last := ?_,
               kept := fun h0 => absurd h0 hm, marks := hsound.marks }
      · simpa only [tokens, hm, if_false, hothers, List.tail_cons, htokens] using hsound.fresh
      · simpa only [tokens, hm, if_false, hothers, List.tail_cons, htokens] using hsound.ended
      · simpa only [tokens, hm, if_false, hothers, List.tail_cons, htokens] using hsound.last

theorem mark (h : c.Sound origin table) (hm : c.isMarked = false) :
    c.mark.1 = { place := 0 } ∧ c.mark.2.Sound origin table := by
  have hzero : c.marks = 0 := by simpa [isMarked] using hm
  refine ⟨by simp [Cursor.mark, h.kept hzero], ?_⟩
  exact { source := h.source, fresh := h.fresh, ended := h.ended, last := h.last,
          kept := by simp [Cursor.mark], marks := by simp [Cursor.mark, hzero] }

/-- Going back to the one mark that is outstanding loses no token. -/
theorem reset (h : c.Sound origin table) : (c.reset { place := 0 }).Sound origin table := by
  have hmarks := h.marks
  have hzero : c.marks - 1 = 0 := by omega
  refine { source := h.source, fresh := ?_, ended := ?_, last := ?_, kept := ?_, marks := ?_ }
  · simpa [Cursor.reset, unmark, tokens, hzero] using h.fresh
  · simpa [Cursor.reset, unmark, tokens, hzero] using h.ended
  · simpa [Cursor.reset, unmark, tokens, hzero] using h.last
  · simp [Cursor.reset, unmark]
  · simp [Cursor.reset, unmark, hzero]

theorem release (h : c.Sound origin table) (m : Mark) : (c.release m).Sound origin table := by
  have hmarks := h.marks
  have hzero : c.marks - 1 = 0 := by omega
  have hpending : ∀ token ∈ c.pending, token ∈ c.tokens :=
    fun token htoken => List.mem_append_right _ htoken
  refine { source := h.source, fresh := ?_, ended := ?_, last := ?_, kept := ?_, marks := ?_ }
  · intro token htoken
    have hmem : token ∈ c.pending := by simpa [Cursor.release, unmark, tokens, hzero] using htoken
    exact h.fresh token (hpending token hmem)
  · intro token htoken
    have hmem : token ∈ c.pending := by simpa [Cursor.release, unmark, tokens, hzero] using htoken
    exact h.ended token (hpending token hmem)
  · simpa [Cursor.release, unmark, tokens, hzero] using (List.pairwise_append.1 h.last).2.1
  · simp [Cursor.release, unmark, hzero]
  · simp [Cursor.release, unmark, hzero]

theorem refresh_eq_endOfFile {kind : TokenKind} :
    reclassify.refresh table kind = .endOfFile ↔ kind = .endOfFile := by
  unfold reclassify.refresh
  split
  · split <;> simp
  · split <;> simp
  · rfl

/-- Without a mark, reclassifying reaches every token at hand. -/
theorem reclassify {new : SymbolTable} (h : c.Sound origin table) (hm : c.isMarked = false)
    (hold : table.KeywordFree) (hnew : new.KeywordFree) :
    (c.reclassify new).Sound origin new := by
  have hkept : c.kept = [] := h.kept (by simpa [isMarked] using hm)
  have htokens : (c.reclassify new).tokens =
      c.tokens.map fun token => { token with kind := reclassify.refresh new token.kind } := by
    simp [tokens, Cursor.reclassify, hkept]
  refine { source := h.source, fresh := ?_, ended := ?_, last := ?_, kept := fun _ => hkept,
           marks := h.marks }
  · rw [htokens, List.forall_mem_map]
    exact fun token htoken => (h.fresh token htoken).refresh hold hnew
  · rw [htokens, List.forall_mem_map]
    exact fun token htoken hkind => h.ended token htoken (refresh_eq_endOfFile.1 hkind)
  · rw [htokens, List.pairwise_map]
    simpa only [refresh_eq_endOfFile] using h.last

/-- An opened scope declares nothing, so the tokens stay fresh as they are. -/
theorem enter (h : c.Sound origin table) (kind : ScopeKind) :
    c.Sound origin (table.enter kind) := by
  refine { source := h.source, fresh := ?_, ended := h.ended, last := h.last, kept := h.kept,
           marks := h.marks }
  intro token htoken
  obtain ⟨w, hcuts, hkind⟩ := Token.fresh_iff.1 (h.fresh token htoken)
  refine Token.fresh_iff.2 ⟨w, hcuts, ?_⟩
  rw [hkind]
  exact (SymbolTable.classify_enter table kind w).symm

end Sound

end Cursor

/-! ## Sound states -/

namespace ParserState

/-- What holds of the parser state in a run over `origin`. -/
structure Sound (origin : Source) (s : ParserState) : Prop where
  table : s.table.KeywordFree
  cursor : s.cursor.Sound origin s.table

/-- Whether a mark is outstanding. -/
def isMarked (s : ParserState) : Bool :=
  s.cursor.isMarked

/-- At the start of a text any table may be in force. -/
theorem sound_of_keywordFree (source : Source) {table : SymbolTable} (h : table.KeywordFree) :
    ParserState.Sound source { cursor := .ofSource source, table := table } where
  table := h
  cursor :=
    { source := ⟨0, rfl⟩
      fresh := by simp [Cursor.ofSource, Cursor.tokens]
      ended := by simp [Cursor.ofSource, Cursor.tokens]
      last := by simp [Cursor.ofSource, Cursor.tokens]
      kept := fun _ => rfl
      marks := by simp [Cursor.ofSource] }

theorem sound_ofSource (source : Source) : (ofSource source).Sound source :=
  sound_of_keywordFree source SymbolTable.keywordFree_empty

theorem Sound.withTable {origin : Source} {s : ParserState} (h : s.Sound origin)
    (hm : s.isMarked = false) {table : SymbolTable} (htable : table.KeywordFree) :
    (s.withTable table).Sound origin where
  table := htable
  cursor := h.cursor.reclassify hm h.table htable

end ParserState

namespace Request

/-- The token that an answer hands to a rule. -/
def handed? : (r : Request) → r.Answer → Option Token
  | .peek _, token => some token
  | .advance, token => some token
  | _, _ => none

variable {origin : Source} {s : ParserState}

/-- A request on the conditions of the discipline leaves a sound state, and answers as the
discipline says with a fresh token. -/
theorem sound_perform {r : Request} (h : s.Sound origin) (may : discipline.may r s.isMarked)
    {answer : r.Answer} {t : ParserState} (hperform : r.perform s = (.ok answer, t)) :
    t.Sound origin ∧ discipline.step r s.isMarked answer t.isMarked ∧
      ∀ token, r.handed? answer = some token → token.Fresh origin s.table := by
  cases r with
  | peek n =>
      rcases hpeek : s.cursor.peekNth s.table n with ⟨outcome, c⟩
      simp only [perform, hpeek, Prod.mk.injEq] at hperform
      obtain ⟨rfl, rfl⟩ := hperform
      obtain ⟨hsound, hpending, -, hmarks⟩ := h.cursor.peekNth hpeek
      have hfresh : Token.Fresh origin s.table answer :=
        hsound.fresh _ (List.mem_append_right _ (List.mem_of_getElem? hpending))
      refine ⟨⟨h.table, hsound⟩, ⟨?_, hfresh.allUnreserved h.table⟩, ?_⟩
      · simp [ParserState.isMarked, Cursor.isMarked, hmarks]
      · rintro token ⟨⟩
        exact hfresh
  | advance =>
      rcases hadvance : s.cursor.advance s.table with ⟨outcome, c⟩
      simp only [perform, hadvance, Prod.mk.injEq] at hperform
      obtain ⟨rfl, rfl⟩ := hperform
      obtain ⟨hsound, hfresh, hmarks⟩ := h.cursor.advance hadvance
      refine ⟨⟨h.table, hsound⟩, ⟨?_, hfresh.allUnreserved h.table⟩, ?_⟩
      · simp [ParserState.isMarked, Cursor.isMarked, hmarks]
      · rintro token ⟨⟩
        exact hfresh
  | mark =>
      simp only [perform, Prod.mk.injEq, Except.ok.injEq] at hperform
      obtain ⟨rfl, rfl⟩ := hperform
      obtain ⟨hplace, hsound⟩ := h.cursor.mark may
      refine ⟨⟨h.table, hsound⟩, ⟨?_, hplace⟩, nofun⟩
      simp [ParserState.isMarked, Cursor.isMarked, Cursor.mark]
  | reset m =>
      simp only [perform, Prod.mk.injEq] at hperform
      obtain ⟨-, rfl⟩ := hperform
      obtain ⟨-, rfl⟩ := may
      have hmarks := h.cursor.marks
      refine ⟨⟨h.table, h.cursor.reset⟩, ?_, nofun⟩
      simp only [discipline, ParserState.isMarked, Cursor.isMarked, Cursor.reset, Cursor.unmark]
      simp [show s.cursor.marks - 1 = 0 by omega]
  | release m =>
      simp only [perform, Prod.mk.injEq] at hperform
      obtain ⟨-, rfl⟩ := hperform
      have hmarks := h.cursor.marks
      refine ⟨⟨h.table, h.cursor.release m⟩, ?_, nofun⟩
      simp only [discipline, ParserState.isMarked, Cursor.isMarked, Cursor.release, Cursor.unmark]
      simp [show s.cursor.marks - 1 = 0 by omega]
  | enter kind =>
      simp only [perform, Prod.mk.injEq] at hperform
      obtain ⟨-, rfl⟩ := hperform
      exact ⟨⟨h.table.enter kind, h.cursor.enter kind⟩, rfl, nofun⟩
  | leave position =>
      rcases hleave : s.table.leave? with _ | outer
      · simp only [perform, hleave, Prod.mk.injEq] at hperform
        cases hperform.1
      · simp only [perform, hleave, Prod.mk.injEq] at hperform
        obtain ⟨-, rfl⟩ := hperform
        exact ⟨h.withTable may (h.table.leave hleave), rfl, nofun⟩
  | declare name meaning =>
      simp only [perform, Prod.mk.injEq] at hperform
      obtain ⟨-, rfl⟩ := hperform
      exact ⟨h.withTable may.1 (h.table.declare may.2 meaning), rfl, nofun⟩
  | declareEnumerator name =>
      simp only [perform, Prod.mk.injEq] at hperform
      obtain ⟨-, rfl⟩ := hperform
      exact ⟨h.withTable may.1 (h.table.declareEnumerator may.2), rfl, nofun⟩

/-- Where a mark is outstanding the discipline lets no request touch the table. -/
theorem table_perform_of_isMarked {r : Request} (may : discipline.may r s.isMarked)
    (hm : s.isMarked = true) : (r.perform s).2.table = s.table := by
  cases r with
  | peek n => rfl
  | advance => rfl
  | mark => rfl
  | reset m => rfl
  | release m => rfl
  | enter kind => exact absurd (hm.symm.trans may) (by decide)
  | leave position => exact absurd (hm.symm.trans may) (by decide)
  | declare name meaning => exact absurd (hm.symm.trans may.1) (by decide)
  | declareEnumerator name => exact absurd (hm.symm.trans may.1) (by decide)

end Request

/-! ## Runs -/

namespace Parser

variable {origin : Source}

theorem models_discipline (trace : List Event) :
    discipline.Models ParserState.isMarked (ParserState.Sound origin) trace := by
  intro r s _ hsound may answer t hperform
  have := Request.sound_perform hsound may hperform
  exact ⟨this.1, this.2.1⟩

/-- Runs that begin at a sound state without a mark make all requests at sound states and keep the
discipline. -/
theorem admits_eventsAt {depth : Nat} {f : Nonterminal} {s : ParserState} (h : s.Sound origin)
    (hm : s.isMarked = false) :
    discipline.Admits ParserState.isMarked (ParserState.Sound origin) (eventsAt depth f s) :=
  (Contract.sound valid_discipline h hm (models_discipline _)).1

/-- In a run over any text, a token that is handed out is the one that lexing afresh from its start
gives where the table stands; a waiting word is a type name just if it is declared as one; and the
table stays as it is while a mark is outstanding. -/
theorem handed_fresh {text : String} {file : Option String} {r : Request} {s : ParserState}
    (h : .requested r s ∈ events text file) :
    (∀ answer t token, r.perform s = (.ok answer, t) → r.handed? answer = some token →
      token.Fresh (Source.ofString text file) s.table) ∧
    (∀ token ∈ s.cursor.pending, ∀ name,
      token.kind = .identifier name ∨ token.kind = .typeName name →
        (token.kind = .typeName name ↔ s.table.isTypeName name = true)) ∧
    (s.cursor.isMarked = true → (r.perform s).2.table = s.table) := by
  obtain ⟨hsound, may⟩ := admits_eventsAt (ParserState.sound_ofSource _) rfl r s h
  refine ⟨?_, ?_, Request.table_perform_of_isMarked may⟩
  · intro answer t token hperform
    exact (Request.sound_perform hsound may hperform).2.2 token
  · intro token htoken name hname
    refine (hsound.cursor.fresh token (List.mem_append_right _ htoken)).isTypeName ?_
    rcases hname with hname | hname <;> simp [hname, TokenKind.words]

/-- Whether the event is a look at the next token, where only one of the kind waits. -/
def looksAtWaiting (kind : TokenKind) : Event → Bool
  | .requested (.peek 0) s => s.cursor.pending.map (·.kind) = [kind]
  | _ => false

/-- The word after a loop is looked at for an `else`, where the loop still hides its meaning.  It
waits as the type name that it is again behind the loop. -/
theorem handed_fresh_behind_loop :
    ∃ s, .requested (.peek 0) s ∈
        events "typedef int t; int f(void) { for (int t; ; ) if (1) ; t x; }" none ∧
      s.cursor.pending.map (·.kind) = [.typeName "t"] ∧ s.table.isTypeName "t" = true := by
  have hany : (events "typedef int t; int f(void) { for (int t; ; ) if (1) ; t x; }" none).any
      (looksAtWaiting (.typeName "t")) = true := by decide +kernel
  obtain ⟨event, hmem, hlooks⟩ := List.any_eq_true.1 hany
  unfold looksAtWaiting at hlooks
  split at hlooks
  · rename_i s
    have hpending : s.cursor.pending.map (·.kind) = [.typeName "t"] := by simpa using hlooks
    obtain ⟨token, htoken, hkind⟩ : ∃ token ∈ s.cursor.pending, token.kind = .typeName "t" := by
      have : TokenKind.typeName "t" ∈ s.cursor.pending.map (·.kind) := by simp [hpending]
      simpa using this
    refine ⟨s, hmem, hpending, ?_⟩
    exact ((handed_fresh hmem).2.1 token htoken "t" (Or.inr hkind)).1 hkind
  · cases hlooks

end Parser

end CSyntax
