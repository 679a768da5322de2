import CSyntax.Cursor
import Mathlib.Data.List.Basic

/-!
# Replay — a cursor as an index into a stream of tokens

While the table stays as it is, lexing a source again and again gives a fixed row of results: tokens,
and faults in between.  A cursor keeps some of the tokens at hand and drops them when no mark is
outstanding any more, and marks may be used up in any order.  None of this can be seen from outside.
This file defines:

* `Source.result`, `Source.tokensBefore`, `Source.faultsBefore` — the row of results, with the tokens
  and the faults at its front;
* `Session.run` — any operations on a cursor, one after the other, where every mark is used up once;
* `Index.Runs` — the same operations on a number that tells the place in the stream;

and shows that the cursor answers as the number does (`Session.runs_as_index`), reports every fault
once and in order, and always finds what it looks up among the tokens at hand.
-/

namespace CSyntax

/-! ## The stream -/

namespace Source

/-- The source after `k` calls of the lexer, failing ones included. -/
def behind (s : Source) (table : SymbolTable) : Nat → Source
  | 0 => s
  | k + 1 => ((s.behind table k).nextToken table).2

/-- What the lexer gives after `k` calls. -/
def result (s : Source) (table : SymbolTable) (k : Nat) : Except ParseError Token :=
  ((s.behind table k).nextToken table).1

end Source

/-- The fault in a result of the lexer, if it is one. -/
def fault? : Except ParseError Token → Option ParseError
  | .ok _ => none
  | .error fault => some fault

namespace Source

/-- The tokens among the first `k` results. -/
def tokensBefore (s : Source) (table : SymbolTable) (k : Nat) : List Token :=
  (List.range k).filterMap fun i => (s.result table i).toOption

/-- The faults among the first `k` results. -/
def faultsBefore (s : Source) (table : SymbolTable) (k : Nat) : List ParseError :=
  (List.range k).filterMap fun i => fault? (s.result table i)

variable {s : Source} {table : SymbolTable} {k : Nat} {token : Token} {fault : ParseError}

theorem before_of_ok (h : s.result table k = .ok token) :
    s.tokensBefore table (k + 1) = s.tokensBefore table k ++ [token] ∧
      s.faultsBefore table (k + 1) = s.faultsBefore table k := by
  simp [tokensBefore, faultsBefore, List.range_succ, h, fault?, Except.toOption]

theorem before_of_error (h : s.result table k = .error fault) :
    s.tokensBefore table (k + 1) = s.tokensBefore table k ∧
      s.faultsBefore table (k + 1) = s.faultsBefore table k ++ [fault] := by
  simp [tokensBefore, faultsBefore, List.range_succ, h, fault?, Except.toOption]

end Source

/-! ## Operations on a cursor -/

/-- What can be done with a cursor.  Marks go by their number, in the order in which they were
set. -/
inductive Operation
  | peek
  | peekNth (n : Nat)
  | advance
  | mark
  | reset (k : Nat)
  | release (k : Nat)

/-- What an operation hands out: a token or a fault, or nothing at all. -/
abbrev Reply := Option (Except ParseError Token)

/-- A cursor with the marks set on it, of which those used up are gone. -/
structure Session where
  cursor : Cursor
  marks : List (Option Mark)

namespace Session

def start (source : Source) : Session :=
  { cursor := .ofSource source, marks := [] }

/-- Carries an operation out.  A mark is used up by it, and cannot be used again. -/
def perform (table : SymbolTable) : Operation → Session → Reply × Session
  | .peek, s =>
      let (outcome, cursor) := s.cursor.peek table
      (some outcome, { s with cursor := cursor })
  | .peekNth n, s =>
      let (outcome, cursor) := s.cursor.peekNth table n
      (some outcome, { s with cursor := cursor })
  | .advance, s =>
      let (outcome, cursor) := s.cursor.advance table
      (some outcome, { s with cursor := cursor })
  | .mark, s =>
      let (m, cursor) := s.cursor.mark
      (none, { cursor := cursor, marks := s.marks ++ [some m] })
  | .reset k, s =>
      match s.marks[k]?.join with
      | some m => (none, { cursor := s.cursor.reset m, marks := s.marks.set k none })
      | none => (none, s)
  | .release k, s =>
      match s.marks[k]?.join with
      | some m => (none, { cursor := s.cursor.release m, marks := s.marks.set k none })
      | none => (none, s)

/-- Carries operations out, one after the other. -/
def run (table : SymbolTable) : List Operation → Session → List Reply × Session
  | [], s => ([], s)
  | operation :: operations, s =>
      let (reply, s) := s.perform table operation
      let (replies, s) := run table operations s
      (reply :: replies, s)

/-- What the operation looks up is where it is looked for: among the tokens at hand, those that have
been taken first, the next token stands behind those, and the place of a mark lies among them.  A
token that is moved out for good stands in front of all the others.  A mark that is used up lets
tokens go up to where the cursor then stands, which is the place of the mark or the next token. -/
def InRange (table : SymbolTable) (s : Session) : Operation → Prop
  | .peek => ∀ token c, s.cursor.peek table = (.ok token, c) →
      (c.kept ++ c.pending)[c.kept.length]? = some token
  | .peekNth n => ∀ token c, s.cursor.peekNth table n = (.ok token, c) →
      (c.kept ++ c.pending)[c.kept.length + n]? = some token
  | .advance => ∀ token c, s.cursor.peek table = (.ok token, c) →
      (c.kept ++ c.pending)[if c.marks = 0 then 0 else c.kept.length]? = some token
  | .reset k => ∀ m, s.marks[k]?.join = some m →
      m.place ≤ (s.cursor.kept ++ s.cursor.pending).length
  | .release k => ∀ m, s.marks[k]?.join = some m →
      m.place ≤ (s.cursor.kept ++ s.cursor.pending).length ∧
        s.cursor.kept.length ≤ (s.cursor.kept ++ s.cursor.pending).length
  | .mark => True

end Session

/-! ## Operations on a number -/

/-- A place in the stream. -/
structure Index where
  /-- The number of the next token. -/
  place : Nat
  /-- How many results the lexer has given. -/
  seen : Nat
  /-- The places that marks remember, without those that are used up. -/
  marks : List (Option Nat)

namespace Index

def start : Index :=
  { place := 0, seen := 0, marks := [] }

/-- Where `seen` results have been given, the token with a number is asked for, and the lexer goes on
until `n` results have been given.  It goes no further than it has to. -/
inductive Finds (source : Source) (table : SymbolTable) (seen number : Nat) :
    Except ParseError Token → Nat → Prop
  /-- There is the token, and no fault on the way to it. -/
  | token {token : Token} {n : Nat} : seen ≤ n →
      source.faultsBefore table n = source.faultsBefore table seen →
      (source.tokensBefore table n)[number]? = some token →
      (n = seen ∨ (source.tokensBefore table n).length = number + 1) →
      Finds source table seen number (.ok token) n
  /-- The next fault stands in front of the token. -/
  | fault {fault : ParseError} {n : Nat} : seen ≤ n →
      source.faultsBefore table n = source.faultsBefore table seen →
      (source.tokensBefore table n).length ≤ number →
      source.result table n = .error fault →
      Finds source table seen number (.error fault) (n + 1)

/-- What an operation answers at a place, and the place behind it. -/
inductive Step (source : Source) (table : SymbolTable) (x : Index) :
    Operation → Reply → Index → Prop
  | peek {outcome : Except ParseError Token} {n : Nat} :
      Finds source table x.seen x.place outcome n →
      Step source table x .peek (some outcome) { x with seen := n }
  | peekNth {k : Nat} {outcome : Except ParseError Token} {n : Nat} :
      Finds source table x.seen (x.place + k) outcome n →
      Step source table x (.peekNth k) (some outcome) { x with seen := n }
  | advance {token : Token} {n : Nat} :
      Finds source table x.seen x.place (.ok token) n →
      Step source table x .advance (some (.ok token)) { x with place := x.place + 1, seen := n }
  | stay {fault : ParseError} {n : Nat} :
      Finds source table x.seen x.place (.error fault) n →
      Step source table x .advance (some (.error fault)) { x with seen := n }
  | mark : Step source table x .mark none { x with marks := x.marks ++ [some x.place] }
  | reset {k place : Nat} : x.marks[k]?.join = some place →
      Step source table x (.reset k) none { x with place := place, marks := x.marks.set k none }
  | release {k place : Nat} : x.marks[k]?.join = some place →
      Step source table x (.release k) none { x with marks := x.marks.set k none }
  /-- There is no such mark, or it is used up. -/
  | spentReset {k : Nat} : x.marks[k]?.join = none → Step source table x (.reset k) none x
  | spentRelease {k : Nat} : x.marks[k]?.join = none → Step source table x (.release k) none x

/-- Operations, one after the other, with their replies. -/
inductive Runs (source : Source) (table : SymbolTable) :
    Index → List Operation → List Reply → Index → Prop
  | nil {x : Index} : Runs source table x [] [] x
  | cons {x y z : Index} {operation : Operation} {reply : Reply} {operations : List Operation}
      {replies : List Reply} : Step source table x operation reply y →
      Runs source table y operations replies z →
      Runs source table x (operation :: operations) (reply :: replies) z

variable {source : Source} {table : SymbolTable} {x y : Index}

theorem Step.faults {operation : Operation} {reply : Reply}
    (h : Step source table x operation reply y) :
    source.faultsBefore table y.seen =
      source.faultsBefore table x.seen ++ ([reply].filterMap fun reply => reply.bind fault?) := by
  -- A token that is found leaves the faults as they were, and a fault joins them.
  have found : ∀ {number : Nat} {outcome : Except ParseError Token} {n : Nat},
      Finds source table x.seen number outcome n → source.faultsBefore table n =
        source.faultsBefore table x.seen ++ (fault? outcome).toList := by
    intro number outcome n hfinds
    cases hfinds with
    | token _ hsame _ _ => simpa [fault?] using hsame
    | fault _ hsame _ hresult => simp [(Source.before_of_error hresult).2, hsame, fault?]
  have reported : ∀ outcome : Except ParseError Token,
      ([some outcome].filterMap fun reply : Reply => reply.bind fault?) =
        (fault? outcome).toList := by
    rintro (_ | _) <;> rfl
  cases h with
  | peek hfinds => rw [reported]; exact found hfinds
  | peekNth hfinds => rw [reported]; exact found hfinds
  | advance hfinds => rw [reported]; exact found hfinds
  | stay hfinds => rw [reported]; exact found hfinds
  | _ => simp

/-- Every fault that the lexer has come to has been reported, once and in order. -/
theorem Runs.faults {operations : List Operation} {replies : List Reply}
    (h : Runs source table x operations replies y) :
    source.faultsBefore table y.seen =
      source.faultsBefore table x.seen ++ replies.filterMap fun reply => reply.bind fault? := by
  induction h with
  | nil => simp
  | cons hstep _ ih => rw [ih, hstep.faults, List.append_assoc, ← List.filterMap_append]; rfl

namespace Finds

variable {source : Source} {table : SymbolTable} {seen number n : Nat}
  {outcome : Except ParseError Token} {token : Token}

/-- A token that is not among those given is found where the lexer gives it. -/
theorem next (hresult : source.result table seen = .ok token)
    (hnumber : (source.tokensBefore table seen).length = number) :
    Finds source table seen number (.ok token) (seen + 1) := by
  obtain ⟨htokens, hfaults⟩ := Source.before_of_ok hresult
  refine .token (Nat.le_succ seen) hfaults ?_ (.inr ?_)
  · simp [htokens, ← hnumber]
  · simp [htokens, hnumber]

/-- The lexer goes on behind a token that is not the one asked for. -/
theorem behind (hresult : source.result table seen = .ok token)
    (hnumber : (source.tokensBefore table seen).length ≤ number)
    (h : Finds source table (seen + 1) number outcome n) :
    Finds source table seen number outcome n := by
  obtain ⟨htokens, hfaults⟩ := Source.before_of_ok hresult
  cases h with
  | token hle hsame hget hlast =>
      refine .token (Nat.le_of_succ_le hle) (hsame.trans hfaults) hget (.inr ?_)
      rcases hlast with rfl | hlast
      · have hlength := congrArg List.length htokens
        have hlt := (List.getElem?_eq_some_iff.1 hget).1
        rw [List.length_append, List.length_singleton] at hlength
        omega
      · exact hlast
  | fault hle hsame hfew hfault =>
      exact .fault (Nat.le_of_succ_le hle) (hsame.trans hfaults) hfew hfault

end Finds

end Index

/-! ## Tokens at hand -/

namespace Cursor

/-- So many results have been read off the source, and the tokens at hand are those among them from
the number `base` on. -/
structure Holds (source : Source) (table : SymbolTable) (seen base : Nat) (c : Cursor) : Prop where
  rest : c.source = source.behind table seen
  bound : base ≤ (source.tokensBefore table seen).length
  tokens : c.kept ++ c.pending = (source.tokensBefore table seen).drop base

/-- The second cursor is the first one after a look ahead. -/
structure Ahead (c d : Cursor) : Prop where
  kept : d.kept = c.kept
  marks : d.marks = c.marks
  pending : c.pending <+: d.pending

theorem Ahead.trans {c d e : Cursor} (h : c.Ahead d) (h' : d.Ahead e) : c.Ahead e :=
  ⟨h'.kept.trans h.kept, h'.marks.trans h.marks, h.pending.trans h'.pending⟩

namespace Holds

variable {source : Source} {table : SymbolTable} {seen base : Nat} {c d : Cursor} {token : Token}
  {fault : ParseError} {outcome : Except ParseError Token}

/-- The tokens that have been given were dropped, or are at hand. -/
theorem length_eq (h : c.Holds source table seen base) :
    (source.tokensBefore table seen).length = base + c.kept.length + c.pending.length := by
  have hlength := congrArg List.length h.tokens
  have hbase := h.bound
  rw [List.length_append, List.length_drop] at hlength
  omega

/-- The waiting tokens are those given from the number of the next one on. -/
theorem getElem?_pending (h : c.Holds source table seen base) (n : Nat) :
    c.pending[n]? = (source.tokensBefore table seen)[base + c.kept.length + n]? := by
  have hget := congrArg (·[c.kept.length + n]?) h.tokens
  simpa [List.getElem?_append_right, List.getElem?_drop, Nat.add_assoc] using hget

theorem pull_ok (h : c.Holds source table seen base) (hpull : c.pull table = (.ok token, d)) :
    source.result table seen = .ok token ∧ d.Holds source table (seen + 1) base ∧
      d.pending = c.pending ++ [token] ∧ c.Ahead d := by
  unfold Cursor.pull at hpull
  rcases hnext : c.source.nextToken table with ⟨fault | given, t⟩
  · simp [hnext] at hpull
  · simp only [hnext, Prod.mk.injEq, Except.ok.injEq] at hpull
    obtain ⟨rfl, rfl⟩ := hpull
    rw [h.rest] at hnext
    have hresult : source.result table seen = .ok given := by rw [Source.result, hnext]
    have hbefore := (Source.before_of_ok hresult).1
    refine ⟨hresult, ?_, rfl, ⟨rfl, rfl, List.prefix_append _ _⟩⟩
    refine { rest := ?_, bound := ?_, tokens := ?_ }
    · rw [Source.behind, hnext]
    · rw [hbefore, List.length_append]
      exact Nat.le_add_right_of_le h.bound
    · rw [hbefore, List.drop_append_of_le_length h.bound, ← h.tokens, List.append_assoc]

theorem pull_error (h : c.Holds source table seen base)
    (hpull : c.pull table = (.error fault, d)) :
    source.result table seen = .error fault ∧ d.Holds source table (seen + 1) base ∧
      c.Ahead d := by
  unfold Cursor.pull at hpull
  rcases hnext : c.source.nextToken table with ⟨met | token, t⟩
  · simp only [hnext, Prod.mk.injEq, Except.error.injEq] at hpull
    obtain ⟨rfl, rfl⟩ := hpull
    rw [h.rest] at hnext
    have hresult : source.result table seen = .error met := by rw [Source.result, hnext]
    have hbefore := (Source.before_of_error hresult).1
    refine ⟨hresult, ?_, ⟨rfl, rfl, List.prefix_refl _⟩⟩
    refine { rest := ?_, bound := ?_, tokens := ?_ }
    · rw [Source.behind, hnext]
    · rw [hbefore]
      exact h.bound
    · rw [hbefore]
      exact h.tokens
  · simp [hnext] at hpull

/-- Tokens that do not wait yet are read off the source, up to the one asked for or to a fault. -/
theorem pullNth {k : Nat} (h : c.Holds source table seen base)
    (hpull : Cursor.pullNth table k c = (outcome, d)) :
    ∃ n, Index.Finds source table seen (base + c.kept.length + (c.pending.length + k)) outcome n ∧
      d.Holds source table n base ∧ c.Ahead d := by
  have hlength := h.length_eq
  -- The number of the token stays the same while the waiting tokens become more.
  induction k generalizing c seen with
  | zero =>
      rw [Cursor.pullNth] at hpull
      cases outcome with
      | ok token =>
          obtain ⟨hresult, hd, -, hahead⟩ := h.pull_ok hpull
          exact ⟨seen + 1, .next hresult (by omega), hd, hahead⟩
      | error fault =>
          obtain ⟨hresult, hd, hahead⟩ := h.pull_error hpull
          exact ⟨seen + 1, .fault (Nat.le_refl _) rfl (by omega) hresult, hd, hahead⟩
  | succ k ih =>
      rw [Cursor.pullNth] at hpull
      rcases hfirst : c.pull table with ⟨fault | first, e⟩
      · simp only [hfirst, Prod.mk.injEq] at hpull
        obtain ⟨rfl, rfl⟩ := hpull
        obtain ⟨hresult, hd, hahead⟩ := h.pull_error hfirst
        exact ⟨seen + 1, .fault (Nat.le_refl _) rfl (by omega) hresult, hd, hahead⟩
      · simp only [hfirst] at hpull
        obtain ⟨hresult, he, hpending, hahead⟩ := h.pull_ok hfirst
        obtain ⟨n, hfinds, hd, hmore⟩ := ih he hpull he.length_eq
        have hnumber : base + e.kept.length + (e.pending.length + k) =
            base + c.kept.length + (c.pending.length + (k + 1)) := by
          rw [hahead.kept, hpending, List.length_append, List.length_singleton]
          omega
        rw [hnumber] at hfinds
        exact ⟨n, hfinds.behind hresult (by omega), hd, hahead.trans hmore⟩

/-- A look ahead finds the token behind the next `n` ones, wherever it comes from. -/
theorem peekNth {n : Nat} (h : c.Holds source table seen base)
    (hpeek : c.peekNth table n = (outcome, d)) :
    ∃ m, Index.Finds source table seen (base + c.kept.length + n) outcome m ∧
      d.Holds source table m base ∧ c.Ahead d := by
  unfold Cursor.peekNth at hpeek
  split at hpeek
  · rename_i token hwaits
    cases hpeek
    have hget := (h.getElem?_pending n).symm.trans hwaits
    exact ⟨seen, .token (Nat.le_refl _) rfl hget (.inl rfl), h, ⟨rfl, rfl, List.prefix_refl _⟩⟩
  · rename_i hnone
    have hfew := List.getElem?_eq_none_iff.1 hnone
    obtain ⟨m, hfinds, hd, hahead⟩ := h.pullNth hpeek
    rw [Nat.add_sub_cancel' hfew] at hfinds
    exact ⟨m, hfinds, hd, hahead⟩

/-- What has been found waits at its place. -/
theorem getElem?_of_finds {n m : Nat} (h : d.Holds source table m base)
    (hfinds : Index.Finds source table seen (base + d.kept.length + n) (.ok token) m) :
    d.pending[n]? = some token := by
  rw [h.getElem?_pending]
  cases hfinds with
  | token _ _ hget _ => exact hget

/-- With its last mark a cursor drops what it has taken; it stays where it is. -/
theorem unmark (h : c.Holds source table seen base) :
    ∃ base', c.unmark.Holds source table seen base' ∧
      base' + c.unmark.kept.length = base + c.kept.length ∧
      (c.unmark.marks = 0 → c.unmark.kept = []) ∧ (c.unmark.marks ≠ 0 → base' = base) := by
  by_cases hlast : c.marks - 1 = 0
  · have hunmark : c.unmark = { c with marks := 0, kept := [] } := by simp [Cursor.unmark, hlast]
    rw [hunmark]
    refine ⟨base + c.kept.length, { rest := h.rest, bound := ?_, tokens := ?_ }, rfl,
      fun _ => rfl, fun hmarks => absurd rfl hmarks⟩
    · rw [h.length_eq]
      exact Nat.le_add_right _ _
    · rw [← List.drop_drop, ← h.tokens, List.drop_left, List.nil_append]
  · have hunmark : c.unmark = { c with marks := c.marks - 1 } := by simp [Cursor.unmark, hlast]
    rw [hunmark]
    exact ⟨base, ⟨h.rest, h.bound, h.tokens⟩, rfl, fun hmarks => absurd hmarks hlast, fun _ => rfl⟩

end Holds
end Cursor

/-! ## A session and its number -/

/-- A session stands where the number says, and each of its marks at the place that is remembered for
it.  The tokens before the number `base` have been dropped. -/
structure Session.Stands (source : Source) (table : SymbolTable) (base : Nat) (s : Session)
    (x : Index) : Prop where
  holds : s.cursor.Holds source table x.seen base
  place : x.place = base + s.cursor.kept.length
  marks : x.marks = s.marks.map (Option.map fun m => base + m.place)
  within : ∀ m, some m ∈ s.marks → base + m.place ≤ (source.tokensBefore table x.seen).length
  count : s.cursor.marks = s.marks.countP Option.isSome
  dropped : s.cursor.marks = 0 → s.cursor.kept = []

namespace Session

variable {source : Source} {table : SymbolTable} {base k : Nat} {s : Session} {x : Index}

theorem stands_start (source : Source) (table : SymbolTable) :
    (start source).Stands source table 0 .start where
  holds := { rest := rfl, bound := Nat.zero_le _, tokens := rfl }
  place := rfl
  marks := rfl
  within := by simp [start]
  count := rfl
  dropped _ := rfl

namespace Stands

theorem mark_of_unused (h : s.Stands source table base x) {m : Mark}
    (hmark : s.marks[k]?.join = some m) :
    some m ∈ s.marks ∧ x.marks[k]?.join = some (base + m.place) := by
  rw [Option.join_eq_some_iff] at hmark
  refine ⟨List.mem_of_getElem? hmark, ?_⟩
  rw [h.marks, List.getElem?_map, hmark]
  rfl

theorem no_mark_of_used (h : s.Stands source table base x) (hmark : s.marks[k]?.join = none) :
    x.marks[k]?.join = none := by
  rw [h.marks, List.getElem?_map]
  cases hget : s.marks[k]? with
  | none => rfl
  | some slot =>
      rw [hget] at hmark
      cases slot with
      | none => rfl
      | some m => simp at hmark

/-- A look ahead changes neither the place nor the marks. -/
theorem look (h : s.Stands source table base x) {c : Cursor} {n : Nat}
    (hholds : c.Holds source table n base) (hahead : s.cursor.Ahead c) :
    Stands source table base { s with cursor := c } { x with seen := n } where
  holds := hholds
  place := by rw [hahead.kept]; exact h.place
  marks := h.marks
  within := by
    intro m hm
    have hgiven := h.within m hm
    have hmore := hahead.pending.length_le
    rw [h.holds.length_eq] at hgiven
    rw [hholds.length_eq, hahead.kept]
    omega
  count := hahead.marks.trans h.count
  dropped := by rw [hahead.marks, hahead.kept]; exact h.dropped

/-- Marks that are all used up may be counted from anywhere. -/
theorem marks_of_count_eq_zero {marks : List (Option Mark)}
    (hcount : marks.countP Option.isSome = 0) (f g : Mark → Nat) :
    marks.map (Option.map f) = marks.map (Option.map g) := by
  refine List.map_congr_left fun slot hslot => ?_
  cases slot with
  | none => rfl
  | some m => exact absurd rfl (List.countP_eq_zero.1 hcount (some m) hslot)

/-- The next token is taken. -/
theorem take (h : s.Stands source table base x) {token : Token}
    (hnext : s.cursor.pending[0]? = some token) :
    ∃ base', Stands source table base'
      { s with cursor := { s.cursor with
          kept := if s.cursor.marks = 0 then [] else s.cursor.kept ++ [token]
          pending := s.cursor.pending.tail } }
      { x with place := x.place + 1 } := by
  obtain ⟨waiting, hpending⟩ : ∃ waiting, s.cursor.pending = token :: waiting := by
    cases hp : s.cursor.pending with
    | nil => simp [hp] at hnext
    | cons first waiting =>
        rw [hp] at hnext
        cases hnext
        exact ⟨waiting, rfl⟩
  have htokens := h.holds.tokens
  have hlength := h.holds.length_eq
  rw [hpending] at htokens hlength
  rw [List.length_cons] at hlength
  -- Without a mark the token is dropped, and the numbers at hand begin one later.
  by_cases hmarks : s.cursor.marks = 0
  · have hkept := h.dropped hmarks
    have hcount := h.count.symm.trans hmarks
    rw [hkept] at htokens hlength
    refine ⟨base + 1, ?_⟩
    simp only [hmarks, if_true, hpending, List.tail_cons]
    refine { holds := { rest := h.holds.rest, bound := ?_, tokens := ?_ }, place := ?_, marks := ?_,
             within := ?_, count := hcount.symm, dropped := fun _ => rfl }
    · rw [hlength, List.length_nil]
      omega
    · rw [← List.drop_drop, ← htokens]
      rfl
    · rw [h.place, hkept]
      rfl
    · exact h.marks.trans (marks_of_count_eq_zero hcount _ _)
    · intro m hm
      exact absurd rfl (List.countP_eq_zero.1 hcount (some m) hm)
  · refine ⟨base, ?_⟩
    simp only [hmarks, if_false, hpending, List.tail_cons]
    refine { holds := { rest := h.holds.rest, bound := h.holds.bound, tokens := ?_ }, place := ?_,
             marks := h.marks, within := h.within, count := h.count,
             dropped := fun hnone => absurd hnone hmarks }
    · rw [← htokens, List.append_assoc]
      rfl
    · rw [List.length_append, List.length_singleton, ← Nat.add_assoc, ← h.place]

/-- A mark is used up where the cursor stands. -/
theorem use (h : s.Stands source table base x) {m : Mark} (hmark : s.marks[k]?.join = some m) :
    ∃ base', Stands source table base'
      { cursor := s.cursor.unmark, marks := s.marks.set k none }
      { x with marks := x.marks.set k none } := by
  obtain ⟨base', hholds, hplace, hdropped, hbase⟩ := h.holds.unmark
  have hcount : s.cursor.unmark.marks = (s.marks.set k none).countP Option.isSome := by
    rw [Option.join_eq_some_iff] at hmark
    obtain ⟨hlt, hslot⟩ := List.getElem?_eq_some_iff.1 hmark
    rw [List.countP_set hlt, hslot, ← h.count]
    rfl
  have hset : x.marks.set k none =
      (s.marks.set k none).map (Option.map fun m => base + m.place) := by
    rw [h.marks, List.map_set]
    rfl
  -- If this was the last mark, kept tokens are dropped, and there is no mark left to be counted
  -- anew.
  refine ⟨base', { holds := hholds, place := h.place.trans hplace.symm, marks := hset.trans ?_,
                   within := ?_, count := hcount, dropped := hdropped }⟩
  · by_cases hlast : s.cursor.unmark.marks = 0
    · exact marks_of_count_eq_zero (hcount.symm.trans hlast) _ _
    · rw [hbase hlast]
  · intro left hleft
    have hsome : s.cursor.unmark.marks ≠ 0 := by
      intro hlast
      exact absurd rfl (List.countP_eq_zero.1 (hcount.symm.trans hlast) (some left) hleft)
    rw [hbase hsome]
    rcases List.mem_or_eq_of_mem_set hleft with hold | hnone
    · exact h.within left hold
    · exact absurd hnone (Option.some_ne_none left)

/-- A cursor goes back, or forth, to the place of a mark. -/
theorem moved (h : s.Stands source table base x) {m : Mark} (hm : some m ∈ s.marks) :
    Stands source table base
      { s with cursor := { s.cursor with
          kept := (s.cursor.kept ++ s.cursor.pending).take m.place
          pending := (s.cursor.kept ++ s.cursor.pending).drop m.place } }
      { x with place := base + m.place } where
  holds := { rest := h.holds.rest, bound := h.holds.bound,
             tokens := (List.take_append_drop _ _).trans h.holds.tokens }
  place := by
    have hwithin := h.within m hm
    rw [h.holds.length_eq] at hwithin
    rw [List.length_take, List.length_append, Nat.min_eq_left (by omega)]
  marks := h.marks
  within := h.within
  count := h.count
  dropped hnone :=
    absurd rfl (List.countP_eq_zero.1 (h.count.symm.trans hnone) (some m) hm)

/-- Every operation does to the cursor what it does to the number. -/
theorem step (h : s.Stands source table base x) (operation : Operation) :
    ∃ base' y, Index.Step source table x operation (s.perform table operation).1 y ∧
      (s.perform table operation).2.Stands source table base' y := by
  cases operation with
  | peek =>
      rcases hpeek : s.cursor.peek table with ⟨outcome, c⟩
      obtain ⟨n, hfinds, hholds, hahead⟩ := h.holds.peekNth hpeek
      rw [← h.place] at hfinds
      simp only [perform, hpeek]
      exact ⟨base, _, .peek hfinds, h.look hholds hahead⟩
  | peekNth n =>
      rcases hpeek : s.cursor.peekNth table n with ⟨outcome, c⟩
      obtain ⟨m, hfinds, hholds, hahead⟩ := h.holds.peekNth hpeek
      rw [← h.place] at hfinds
      simp only [perform, hpeek]
      exact ⟨base, _, .peekNth hfinds, h.look hholds hahead⟩
  | advance =>
      rcases hpeek : s.cursor.peek table with ⟨fault | token, c⟩
      · obtain ⟨n, hfinds, hholds, hahead⟩ := h.holds.peekNth hpeek
        rw [← h.place] at hfinds
        simp only [perform, Cursor.advance, hpeek]
        exact ⟨base, _, .stay hfinds, h.look hholds hahead⟩
      · obtain ⟨n, hfinds, hholds, hahead⟩ := h.holds.peekNth hpeek
        have hnext : c.pending[0]? = some token := by
          rw [← hahead.kept] at hfinds
          exact hholds.getElem?_of_finds hfinds
        rw [← h.place] at hfinds
        obtain ⟨base', htaken⟩ := (h.look hholds hahead).take hnext
        simp only [perform, Cursor.advance, hpeek]
        exact ⟨base', _, .advance hfinds, htaken⟩
  | mark =>
      refine ⟨base, _, .mark, { holds := ⟨h.holds.rest, h.holds.bound, h.holds.tokens⟩,
                                place := h.place, marks := ?_, within := ?_, count := ?_,
                                dropped := ?_ }⟩
      · simp [perform, Cursor.mark, h.marks, h.place]
      · intro m hm
        rcases List.mem_append.1 hm with hold | hnew
        · exact h.within m hold
        · cases List.mem_singleton.1 hnew
          rw [h.holds.length_eq]
          exact Nat.le_add_right _ _
      · simp [perform, Cursor.mark, h.count]
      · intro hnone
        exact absurd hnone (Nat.succ_ne_zero _)
  | reset k =>
      cases hmark : s.marks[k]?.join with
      | none =>
          simp only [perform, hmark]
          exact ⟨base, x, .spentReset (h.no_mark_of_used hmark), h⟩
      | some m =>
          obtain ⟨hm, hplace⟩ := h.mark_of_unused hmark
          obtain ⟨base', hused⟩ := (h.moved hm).use hmark
          simp only [perform, hmark, Cursor.reset]
          exact ⟨base', _, .reset hplace, hused⟩
  | release k =>
      cases hmark : s.marks[k]?.join with
      | none =>
          simp only [perform, hmark]
          exact ⟨base, x, .spentRelease (h.no_mark_of_used hmark), h⟩
      | some m =>
          obtain ⟨base', hused⟩ := h.use hmark
          simp only [perform, hmark, Cursor.release]
          exact ⟨base', _, .release (h.mark_of_unused hmark).2, hused⟩

theorem run (h : s.Stands source table base x) (operations : List Operation) :
    ∃ base' y, Index.Runs source table x operations (s.run table operations).1 y ∧
      (s.run table operations).2.Stands source table base' y := by
  induction operations generalizing s base x with
  | nil => exact ⟨base, x, .nil, h⟩
  | cons operation operations ih =>
      obtain ⟨_, y, hstep, hy⟩ := h.step operation
      obtain ⟨base', z, hruns, hz⟩ := ih hy
      exact ⟨base', z, .cons hstep hruns, hz⟩

theorem isMarked_iff (h : s.Stands source table base x) :
    s.cursor.isMarked = true ↔ ∃ place, some place ∈ x.marks := by
  simp only [Cursor.isMarked, decide_eq_true_eq, h.count, List.countP_pos_iff, h.marks,
    List.mem_map]
  constructor
  · rintro ⟨slot, hslot, hsome⟩
    obtain ⟨m, rfl⟩ := Option.isSome_iff_exists.1 hsome
    exact ⟨_, some m, hslot, rfl⟩
  · rintro ⟨place, slot, hslot, hplace⟩
    refine ⟨slot, hslot, ?_⟩
    rw [Option.map_eq_some_iff] at hplace
    obtain ⟨m, rfl, -⟩ := hplace
    rfl

/-- What is looked up stands among the tokens at hand. -/
theorem getElem?_of_peekNth (h : s.Stands source table base x) {n : Nat} {token : Token}
    {c : Cursor} (hpeek : s.cursor.peekNth table n = (.ok token, c)) :
    (c.kept ++ c.pending)[c.kept.length + n]? = some token := by
  obtain ⟨m, hfinds, hholds, hahead⟩ := h.holds.peekNth hpeek
  rw [← hahead.kept] at hfinds
  rw [List.getElem?_append_right (Nat.le_add_right _ _), Nat.add_sub_cancel_left]
  exact hholds.getElem?_of_finds hfinds

theorem inRange (h : s.Stands source table base x) (operation : Operation) :
    s.InRange table operation := by
  have marked : ∀ {k : Nat} {m : Mark}, s.marks[k]?.join = some m →
      m.place ≤ (s.cursor.kept ++ s.cursor.pending).length := by
    intro k m hmark
    have hwithin := h.within m (h.mark_of_unused hmark).1
    rw [h.holds.length_eq] at hwithin
    rw [List.length_append]
    omega
  cases operation with
  | peek => exact fun token c hpeek => h.getElem?_of_peekNth hpeek
  | peekNth n => exact fun token c hpeek => h.getElem?_of_peekNth hpeek
  | advance =>
      intro token c hpeek
      have hget := h.getElem?_of_peekNth hpeek
      split
      · rename_i hmarks
        obtain ⟨_, _, _, hahead⟩ := h.holds.peekNth hpeek
        have hkept := h.dropped (hahead.marks.symm.trans hmarks)
        rwa [hahead.kept, hkept] at hget ⊢
      · exact hget
  | mark => trivial
  | reset k => exact fun m hmark => marked hmark
  | release k =>
      refine fun m hmark => ⟨marked hmark, ?_⟩
      rw [List.length_append]
      exact Nat.le_add_right _ _

end Stands

/-- A cursor answers as a number does that tells the place in the stream of tokens.  The faults that
it has reported are the first ones of the stream, it is marked while a mark is left, and whatever is
done next finds what it looks up. -/
theorem runs_as_index (source : Source) (table : SymbolTable) (operations : List Operation) :
    ∃ x, Index.Runs source table .start operations ((start source).run table operations).1 x ∧
      (((start source).run table operations).1.filterMap fun reply => reply.bind fault?) =
        source.faultsBefore table x.seen ∧
      (((start source).run table operations).2.cursor.isMarked = true ↔
        ∃ place, some place ∈ x.marks) ∧
      ∀ operation, ((start source).run table operations).2.InRange table operation := by
  obtain ⟨base, x, hruns, hstands⟩ := (stands_start source table).run operations
  exact ⟨x, hruns, hruns.faults.symm, hstands.isMarked_iff, hstands.inRange⟩

end Session

end CSyntax
