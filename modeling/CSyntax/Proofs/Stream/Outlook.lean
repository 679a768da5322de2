import CSyntax.Proofs.Stream.Classification
import CSyntax.Proofs.Stream.Pieces

/-!
# Outlook — where the lexemes of a text stand

The outlook of a source lists the lexemes ahead and tells how they end.  This file shows that

* the lexemes stand one behind the other, and all of them before the place where they end
  (`Source.pairwise_outlook`);
* that place, if there is no fault, is behind the whole text (`Source.eq_advanceBy_of_outlook`);
* the label of the text makes no other difference than to appear in positions
  (`Source.outlook_relabel`);
* reading all tokens at once gives the lexemes ahead, each classified by the one table
  (`Source.tokens_eq`).
-/

namespace CSyntax

/-! ## Labels -/

/-- The position in a text with another label. -/
def Position.relabel (file : Option String) (p : Position) : Position :=
  { p with file := file }

namespace Position

variable (file : Option String)

theorem relabel_advance (p : Position) (c : Char) :
    (p.advance c).relabel file = (p.relabel file).advance c := by
  unfold advance
  split <;> rfl

theorem relabel_advanceBy (p : Position) (cs : List Char) :
    (p.advanceBy cs).relabel file = (p.relabel file).advanceBy cs := by
  induction cs generalizing p with
  | nil => rfl
  | cons c cs ih => rw [advanceBy_cons, ih, relabel_advance, advanceBy_cons]

end Position

/-- The failure in a text with another label. -/
def ParseError.relabel (file : Option String) (e : ParseError) : ParseError :=
  { e with start := e.start.relabel file, stop := e.stop.relabel file }

theorem ParseError.relabel_between (file : Option String) (start stop : Position) (cause : Cause) :
    (between start stop cause).relabel file =
      between (start.relabel file) (stop.relabel file) cause := by
  have hoffset (p : Position) : (p.relabel file).offset = p.offset := rfl
  unfold between
  rw [hoffset, hoffset]
  split <;> rfl

def Piece.relabel (file : Option String) (piece : Piece) : Piece :=
  { piece with position := piece.position.relabel file }

namespace Outlook

def relabel (file : Option String) (o : Outlook) : Outlook :=
  { pieces := o.pieces.map (Piece.relabel file)
    ending := (o.ending.map (Position.relabel file)).mapError (ParseError.relabel file) }

/-- Where the lexemes end: behind the text, or where the fault is. -/
def stop (o : Outlook) : Position :=
  match o.ending with
  | .ok p => p
  | .error e => e.start

/-- The places of the lexemes and the place where they end. -/
def positions (o : Outlook) : List Position :=
  o.pieces.map (·.position) ++ [o.stop]

end Outlook

namespace Source

def relabel (file : Option String) (s : Source) : Source :=
  { s with position := s.position.relabel file }

variable (file : Option String) {s t : Source} {w : Lexeme} {p : Position} {e : ParseError}

theorem relabel_drop (s : Source) (n : Nat) : (s.drop n).relabel file = (s.relabel file).drop n := by
  simp [drop, relabel, Position.relabel_advanceBy]

/-- The next lexeme, or the fault in its place, behind the trivia. -/
theorem nextLexeme_eq (s : Source) :
    s.nextLexeme =
      if (Trivia.measure s.rest).closed then
        let u := s.drop (Trivia.measure s.rest).length
        match Lexeme.scan u.rest with
        | (.ok w, n) => (.ok (w, u.position), u.drop n)
        | (.error cause, n) => (.error (.between u.position (u.drop n).position cause), u.drop n)
      else
        let u := s.drop (Trivia.measure s.rest).length
        (.error
          { start := u.position
            stop := u.position.shift 2
            cause := .lexical .unterminatedComment }, u.drop u.rest.length) := by
  unfold nextLexeme skipTrivia
  by_cases hclosed : (Trivia.measure s.rest).closed = true
  · simp only [hclosed, if_true]
    rcases Lexeme.scan (s.drop (Trivia.measure s.rest).length).rest with ⟨_ | _, n⟩ <;> rfl
  · simp [hclosed]

theorem nextLexeme_relabel (s : Source) :
    (s.relabel file).nextLexeme =
      ((s.nextLexeme.1.map fun x => (x.1, x.2.relabel file)).mapError (ParseError.relabel file),
        s.nextLexeme.2.relabel file) := by
  have hrest : (s.relabel file).rest = s.rest := rfl
  simp only [nextLexeme_eq, hrest, ← relabel_drop]
  by_cases hclosed : (Trivia.measure s.rest).closed = true
  · simp only [hclosed, if_true]
    change (match Lexeme.scan (s.drop (Trivia.measure s.rest).length).rest with
      | (.ok w, n) => _
      | (.error cause, n) => _) = _
    rcases Lexeme.scan (s.drop (Trivia.measure s.rest).length).rest with ⟨cause | w, n⟩
    · refine Prod.ext (congrArg Except.error ?_) rfl
      exact (ParseError.relabel_between file _ _ cause).symm
    · rfl
  · simp only [hclosed]
    rfl

theorem outlook_relabel (s : Source) : (s.relabel file).outlook = s.outlook.relabel file := by
  induction s using induction_on_lexemes with
  | @fault s _ _ hread =>
      have hnext := nextLexeme_relabel file s
      rw [hread] at hnext
      rw [outlook_of_error hread, outlook_of_error hnext]
      rfl
  | @ended s _ _ hread =>
      have hnext := nextLexeme_relabel file s
      rw [hread] at hnext
      rw [outlook_of_endOfFile hread, outlook_of_endOfFile hnext]
      rfl
  | @lexeme s _ _ _ hread hw ih =>
      have hnext := nextLexeme_relabel file s
      rw [hread] at hnext
      rw [outlook_of_ok hread hw, outlook_of_ok hnext hw, ih]
      rfl

/-! ## What lexemes are -/

/-- The lexemes ahead are cut off, and none of them is the end of the text. -/
theorem scan_of_mem_outlook {piece : Piece} (h : piece ∈ s.outlook.pieces) :
    piece.lexeme ≠ .endOfFile ∧ ∃ cs n, Lexeme.scan cs = (.ok piece.lexeme, n) := by
  induction s using induction_on_lexemes with
  | fault hread =>
      rw [outlook_of_error hread] at h
      cases h
  | ended hread =>
      rw [outlook_of_endOfFile hread] at h
      cases h
  | lexeme hread hw ih =>
      rw [outlook_of_ok hread hw] at h
      rcases List.mem_cons.1 h with rfl | h
      · obtain ⟨m, n, -, -, hscan, -⟩ := nextLexeme_eq_ok hread
        exact ⟨hw, _, _, hscan⟩
      · exact ih h

/-! ## Where lexemes stand -/

theorem offset_le_drop (s : Source) (n : Nat) :
    s.position.offset + (s.rest.take n).length ≤ (s.drop n).position.offset := by
  have hadvance : ∀ (cs : List Char) (p : Position),
      p.offset + cs.length ≤ (p.advanceBy cs).offset := by
    intro cs
    induction cs with
    | nil => exact fun p => Nat.le_refl _
    | cons c cs ih =>
        intro p
        have hlater := ih (p.advance c)
        have hpos := c.utf8Size_pos
        rw [Position.offset_advance] at hlater
        rw [List.length_cons, Position.advanceBy_cons]
        omega
  exact hadvance _ _

/-- A failure spans what is refused, if anything is. -/
theorem between_drop {n : Nat} (hrest : s.rest ≠ []) (hn : 0 < n) (cause : Cause) :
    ParseError.between s.position (s.drop n).position cause =
      { start := s.position, stop := (s.drop n).position, cause := cause } := by
  have hdrop := s.offset_le_drop n
  have hpos := List.length_pos_iff.2 hrest
  rw [List.length_take] at hdrop
  have hlt : s.position.offset < (s.drop n).position.offset := by omega
  simp only [ParseError.between, hlt, if_true]

theorem offset_le_of_error (h : s.nextLexeme = (.error e, t)) :
    s.position.offset ≤ e.start.offset := by
  have hskip := s.offset_le_drop (Trivia.measure s.rest).length
  rw [nextLexeme_eq] at h
  split at h
  · rcases hscan : Lexeme.scan (s.drop (Trivia.measure s.rest).length).rest with ⟨cause | w, n⟩
    · simp only [hscan, Prod.mk.injEq, Except.error.injEq] at h
      rw [← h.1]
      exact Nat.le_trans (Nat.le_add_right _ _) hskip
    · simp only [hscan] at h
      cases h
  · simp only [Prod.mk.injEq, Except.error.injEq] at h
    rw [← h.1]
    exact Nat.le_trans (Nat.le_add_right _ _) hskip

theorem offset_le_of_ok (h : s.nextLexeme = (.ok (w, p), t)) :
    s.position.offset ≤ p.offset ∧ (w ≠ .endOfFile → p.offset < t.position.offset) := by
  obtain ⟨m, n, -, rfl, hscan, rfl⟩ := nextLexeme_eq_ok h
  refine ⟨Nat.le_trans (Nat.le_add_right _ _) (s.offset_le_drop m), fun hw => ?_⟩
  rcases Lexeme.scan_eq_ok hscan with ⟨-, hend, -⟩ | ⟨hrest, -, hn⟩
  · exact absurd hend hw
  · have htake := (s.drop m).offset_le_drop n
    have hpos := List.length_pos_iff.2 hrest
    rw [List.length_take] at htake
    omega

/-- Lexemes stand one behind the other, before the place where they end. -/
theorem pairwise_outlook (s : Source) :
    s.outlook.positions.Pairwise (fun p q => p.offset < q.offset) ∧
      ∀ q ∈ s.outlook.positions, s.position.offset ≤ q.offset := by
  induction s using induction_on_lexemes with
  | fault hread =>
      rw [outlook_of_error hread]
      simpa [Outlook.positions, Outlook.stop] using offset_le_of_error hread
  | ended hread =>
      rw [outlook_of_endOfFile hread]
      simpa [Outlook.positions, Outlook.stop] using (offset_le_of_ok hread).1
  | @lexeme s t w p hread hw ih =>
      obtain ⟨hp, ht⟩ := offset_le_of_ok hread
      obtain ⟨hpairwise, hbehind⟩ := ih
      rw [outlook_of_ok hread hw]
      change (p :: t.outlook.positions).Pairwise _ ∧ ∀ q ∈ p :: t.outlook.positions, _
      refine ⟨List.pairwise_cons.2 ⟨fun q hq => ?_, hpairwise⟩, ?_⟩
      · exact Nat.lt_of_lt_of_le (ht hw) (hbehind q hq)
      · intro q hq
        rcases List.mem_cons.1 hq with rfl | hq
        · exact hp
        · have := hbehind q hq
          have := ht hw
          omega

theorem advanceBy_drop (s : Source) (n : Nat) :
    (s.drop n).position.advanceBy (s.drop n).rest = s.position.advanceBy s.rest := by
  rw [drop, ← Position.advanceBy_append, List.take_append_drop]

/-- A text without a fault ends where all its characters have been read. -/
theorem eq_advanceBy_of_outlook (h : s.outlook.ending = .ok p) :
    p = s.position.advanceBy s.rest := by
  induction s using induction_on_lexemes with
  | fault hread =>
      rw [outlook_of_error hread] at h
      cases h
  | @ended s t q hread =>
      obtain ⟨m, n, -, -, -, ht⟩ := nextLexeme_eq_ok hread
      rw [drop_drop] at ht
      obtain ⟨hrest, hp⟩ := rest_eq_nil_of_nextLexeme hread
      rw [outlook_of_endOfFile hread] at h
      cases h
      rw [← advanceBy_drop s (m + n), ← ht, hrest, hp, Position.advanceBy_nil]
  | lexeme hread hw ih =>
      obtain ⟨m, n, -, -, -, ht⟩ := nextLexeme_eq_ok hread
      rw [drop_drop] at ht
      rw [outlook_of_ok hread hw] at h
      rw [ih h, ht, advanceBy_drop]

theorem length_pieces_le (s : Source) : s.outlook.pieces.length ≤ s.rest.length := by
  induction s using induction_on_lexemes with
  | fault hread =>
      rw [outlook_of_error hread]
      exact Nat.zero_le _
  | ended hread =>
      rw [outlook_of_endOfFile hread]
      exact Nat.zero_le _
  | lexeme hread hw ih =>
      have hlt := length_rest_lt_of_nextLexeme hread hw
      rw [outlook_of_ok hread hw, List.length_cons]
      omega

/-! ## Tokens read at once -/

/-- Reading all tokens by one table gives the lexemes ahead, or the fault in which they end. -/
theorem tokens_eq (table : SymbolTable) {n : Nat} (h : s.rest.length < n) :
    s.tokens table n = s.outlook.ending.map fun _ => s.outlook.pieces.map fun piece =>
      { kind := table.classify piece.lexeme, position := piece.position } := by
  induction n generalizing s with
  | zero => exact absurd h (Nat.not_lt_zero _)
  | succ n ih =>
      rw [tokens, nextToken]
      rcases hread : s.nextLexeme with ⟨e | ⟨w, p⟩, t⟩
      · rw [outlook_of_error hread]
        rfl
      · by_cases hw : w = .endOfFile
        · subst hw
          rw [outlook_of_endOfFile hread]
          rfl
        · have hlt := length_rest_lt_of_nextLexeme hread hw
          have hkind : table.classify w ≠ .endOfFile := by simpa using hw
          rw [outlook_of_ok hread hw]
          simp only [Token.isEndOfFile, hkind, ih (s := t) (by omega)]
          cases t.outlook.ending <;> rfl

end Source

end CSyntax
