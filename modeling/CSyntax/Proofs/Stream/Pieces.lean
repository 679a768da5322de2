import CSyntax.Lexer.Basic

/-!
# Pieces — a text cut into lexemes

Where a text is cut does not depend on what is declared, so the lexemes that lie ahead are known
before any of their words is classified.  This file defines:

* `Source.outlook` — the lexemes of a source with their positions, up to the end of the text or to
  the first fault, and which of the two it is;
* `Source.Cuts` — a lexeme that is read where it stands when lexing begins at its own first
  character;

and shows that every lexeme that is read is cut from the text in this sense (`Source.cuts_of_drop`)
and that all but the end of the text take characters (`Source.length_rest_lt_of_nextLexeme`).
-/

namespace CSyntax

/-! ## Trivia is skipped to its end -/

namespace Trivia

/-- After trivia of this extent no further trivia follows. -/
def Extent.Settles (e : Extent) (cs : List Char) : Prop :=
  e.closed = true → measure (cs.drop e.length) = { length := 0, closed := true }

theorem Extent.settles_after {e : Extent} {n : Nat} {cs : List Char} :
    (e.after n).Settles cs ↔ e.Settles (cs.drop n) := by
  simp [Extent.Settles, Extent.after, List.drop_drop]

theorem measure_settles (cs : List Char) : (measure cs).Settles cs := by
  -- The three scanners call each other, so the fact is carried through all of them at once.
  refine measure.induct (fun cs => (measure cs).Settles cs)
    (fun cs => ∀ e, measureBlock? cs = some e → e.Settles cs)
    (fun cs => (measureLine cs).Settles cs) ?_ ?_ ?_ ?_ ?_ ?_ ?_ ?_ ?_ ?_ ?_ ?_ cs
  · intro cs ih
    rw [measure, Extent.settles_after]
    exact ih
  · intro cs e he ih
    rw [measure, he, Extent.settles_after]
    exact ih e he
  · intro cs he _
    rw [measure, he]
    intro h
    cases h
  · intro c cs h₁ h₂ hw ih
    rw [measure.eq_3 c cs h₁ h₂, if_pos hw, Extent.settles_after]
    exact ih
  · intro c cs h₁ h₂ hw _
    simp only [measure.eq_3 c cs h₁ h₂, if_neg hw, List.drop_zero]
  · intro _
    rfl
  · intro cs ih e he
    have he' : e = (measure cs).after 2 := by simpa [measureBlock?] using he.symm
    rw [he', Extent.settles_after]
    exact ih
  · intro c cs h ih e he
    rw [measureBlock?.eq_2 c cs h, Option.map_eq_some_iff] at he
    obtain ⟨e', he', rfl⟩ := he
    rw [Extent.settles_after]
    exact ih e' he'
  · intro e he
    cases he
  · intro cs ih
    rw [measureLine, if_pos rfl, Extent.settles_after]
    exact ih
  · intro c cs hc ih
    rw [measureLine, if_neg hc, Extent.settles_after]
    exact ih
  · intro _
    rfl

end Trivia

/-! ## Lexemes take characters -/

namespace Number

/-- A floating constant has all of its digits and its fraction behind it when it is read. -/
theorem scanFloating_eq_ok {digits rest : List Char} {w : Lexeme} {n : Nat}
    (h : scanFloating digits rest = (.ok w, n)) :
    (∃ text, w = .floating text) ∧ digits.length + (fraction rest).length ≤ n := by
  unfold scanFloating malformed at h
  grind

theorem scan_eq_ok {cs : List Char} {w : Lexeme} {n : Nat} (h : scan cs = (.ok w, n)) :
    (∃ value, w = .integer value ∧ 0 < n) ∨
      scanFloating (cs.takeWhile (isDigitOf 10)) (cs.dropWhile (isDigitOf 10)) = (.ok w, n) := by
  unfold scan malformed at h
  by_cases hm : radixMark cs = []
  · simp only [hm, List.length_nil, List.drop_zero, List.nil_eq, reduceCtorEq, if_false] at h
    grind [List.length_pos_iff]
  · grind [List.length_pos_iff]

theorem length_pos_of_scan {cs : List Char} {w : Lexeme} {n : Nat}
    (h : scan cs = (.ok w, n)) (hs : Lexeme.startsNumber cs = true) : 0 < n := by
  rcases scan_eq_ok h with ⟨_, _, hn⟩ | hf
  · exact hn
  · have hn := (scanFloating_eq_ok hf).2
    cases cs with
    | nil => simp [Lexeme.startsNumber] at hs
    | cons c cs =>
        by_cases hc : isDigitOf 10 c = true
        · simp only [List.takeWhile_cons_of_pos hc, List.length_cons] at hn
          omega
        · -- Without a digit in front, the text begins with the point that made it a number.
          have hpoint : c = '.' := by
            refine Decidable.byContradiction fun hp => ?_
            rw [Lexeme.startsNumber.eq_2 c cs fun _ _ h => absurd h hp] at hs
            exact hc hs
          subst hpoint
          simp only [List.dropWhile_cons_of_neg hc, fraction, List.length_cons] at hn
          omega

end Number

namespace Lexeme

/-- Only the end of the text is a lexeme without characters. -/
theorem scan_eq_ok {cs : List Char} {w : Lexeme} {n : Nat} (h : scan cs = (.ok w, n)) :
    cs = [] ∧ w = .endOfFile ∧ n = 0 ∨ cs ≠ [] ∧ w ≠ .endOfFile ∧ 0 < n := by
  cases cs with
  | nil =>
      left
      simpa [scan, eq_comm] using h
  | cons c cs =>
      right
      refine ⟨List.cons_ne_nil _ _, ?_⟩
      by_cases hc : isWordStart c = true
      · have hpart : isWordPart c = true := by simp [isWordPart, hc]
        simp only [scan, if_pos hc, List.takeWhile_cons_of_pos hpart, Prod.mk.injEq,
          Except.ok.injEq] at h
        rw [← h.1, ← h.2]
        simp
      · by_cases hs : startsNumber (c :: cs) = true
        · simp only [scan, if_neg hc, if_pos hs, ofScanner_eq_ok] at h
          refine ⟨?_, Number.length_pos_of_scan h hs⟩
          rcases Number.scan_eq_ok h with ⟨_, rfl, _⟩ | hf
          · simp
          · obtain ⟨_, rfl⟩ := (Number.scanFloating_eq_ok hf).1
            simp
        · simp only [scan, if_neg hc, if_neg hs] at h
          split at h
          · rw [ofScanner_eq_ok, Quoted.scanString] at h
            split at h <;> cases h
            exact ⟨by simp, Nat.succ_pos _⟩
          · split at h
            · rw [ofScanner_eq_ok, Quoted.scanCharacter] at h
              split at h <;> cases h
              exact ⟨by simp, Nat.succ_pos _⟩
            · rw [scanPunctuator] at h
              split at h
              · rename_i mark length hread
                cases h
                have hlength := (Punctuator.characters_of_read? hread).2
                exact ⟨by simp, hlength ▸ mark.length_characters.1⟩
              · cases h

end Lexeme

/-! ## Reading at the start of a lexeme -/

/-- A lexeme and the position of its first character. -/
structure Piece where
  lexeme : Lexeme
  position : Position
  deriving DecidableEq

namespace Source

variable {s t : Source} {w : Lexeme} {p : Position}

theorem nextLexeme_eq_ok (h : s.nextLexeme = (.ok (w, p), t)) :
    ∃ m n, (Trivia.measure (s.drop m).rest) = { length := 0, closed := true } ∧
      (s.drop m).position = p ∧ Lexeme.scan (s.drop m).rest = (.ok w, n) ∧
        t = (s.drop m).drop n := by
  unfold nextLexeme skipTrivia at h
  by_cases hc : (Trivia.measure s.rest).closed = true
  · simp only [hc, if_true] at h
    have hm := Trivia.measure_settles s.rest hc
    rcases hscan : Lexeme.scan (s.drop (Trivia.measure s.rest).length).rest with ⟨_ | w', n⟩
    · simp only [hscan] at h
      cases h
    · simp only [hscan, Prod.mk.injEq, Except.ok.injEq] at h
      obtain ⟨⟨rfl, rfl⟩, rfl⟩ := h
      exact ⟨(Trivia.measure s.rest).length, n, hm, rfl, hscan, rfl⟩
  · simp only [hc] at h
    cases h

theorem nextLexeme_of_settled {n : Nat}
    (hm : Trivia.measure s.rest = { length := 0, closed := true })
    (hscan : Lexeme.scan s.rest = (.ok w, n)) :
    s.nextLexeme = (.ok (w, s.position), s.drop n) := by
  simp [nextLexeme, skipTrivia, hm, hscan]

/-- At the end of a text nothing is read, now or later. -/
theorem nextLexeme_of_rest_eq_nil (h : s.rest = []) :
    s.nextLexeme = (.ok (.endOfFile, s.position), s) := by
  have hscan : Lexeme.scan s.rest = (.ok .endOfFile, 0) := by rw [h, Lexeme.scan]
  simpa using nextLexeme_of_settled (by rw [h, Trivia.measure]) hscan

theorem rest_eq_nil_of_nextLexeme (h : s.nextLexeme = (.ok (.endOfFile, p), t)) :
    t.rest = [] ∧ t.position = p := by
  obtain ⟨m, n, -, hp, hscan, rfl⟩ := nextLexeme_eq_ok h
  rcases Lexeme.scan_eq_ok hscan with ⟨hrest, -, rfl⟩ | ⟨-, hw, -⟩
  · exact ⟨hrest, hp⟩
  · exact absurd rfl hw

theorem length_rest_lt_of_nextLexeme (h : s.nextLexeme = (.ok (w, p), t))
    (hw : w ≠ .endOfFile) : t.rest.length < s.rest.length := by
  obtain ⟨m, n, -, -, hscan, rfl⟩ := nextLexeme_eq_ok h
  rcases Lexeme.scan_eq_ok hscan with ⟨-, hend, -⟩ | ⟨hrest, -, hn⟩
  · exact absurd hend hw
  · have hpos := List.length_pos_iff.2 hrest
    simp only [drop, List.length_drop] at hpos ⊢
    omega

/-- Lexing that begins at the piece's own first character gives the piece. -/
def Cuts (s : Source) (piece : Piece) : Prop :=
  ∃ n t, (s.drop n).position = piece.position ∧
    (s.drop n).nextLexeme = (.ok (piece.lexeme, piece.position), t)

/-- What is read after some characters is also read at its own start, and leaves the source
further on in the same text. -/
theorem cuts_of_drop {k : Nat} (h : (s.drop k).nextLexeme = (.ok (w, p), t)) :
    s.Cuts { lexeme := w, position := p } ∧ ∃ n, t = s.drop n := by
  obtain ⟨m, n, hm, hp, hscan, rfl⟩ := nextLexeme_eq_ok h
  rw [drop_drop] at hm hp hscan
  have hread : (s.drop (k + m)).nextLexeme = (.ok (w, p), (s.drop (k + m)).drop n) := by
    rw [← hp]
    exact nextLexeme_of_settled hm hscan
  exact ⟨⟨k + m, _, hp, hread⟩, k + m + n, by simp only [drop_drop, Nat.add_assoc]⟩

end Source

/-! ## All the lexemes ahead -/

/-- What lies ahead: lexemes in order, then the end of the text or a fault at which cutting
stops. -/
structure Outlook where
  pieces : List Piece
  ending : Except ParseError Position

namespace Source

variable {s t : Source} {w : Lexeme} {p : Position}

/-- The lexemes from here on. -/
def outlook (s : Source) : Outlook :=
  match h : s.nextLexeme with
  | (.error error, _) => { pieces := [], ending := .error error }
  | (.ok (w, p), t) =>
      if hw : w = .endOfFile then { pieces := [], ending := .ok p }
      else
        have : t.rest.length < s.rest.length := length_rest_lt_of_nextLexeme h hw
        { t.outlook with pieces := { lexeme := w, position := p } :: t.outlook.pieces }
termination_by s.rest.length

theorem outlook_of_error {error : ParseError} (h : s.nextLexeme = (.error error, t)) :
    s.outlook = { pieces := [], ending := .error error } := by
  rw [outlook]
  split <;> simp_all

theorem outlook_of_endOfFile (h : s.nextLexeme = (.ok (.endOfFile, p), t)) :
    s.outlook = { pieces := [], ending := .ok p } := by
  rw [outlook]
  split <;> simp_all

theorem outlook_of_ok (h : s.nextLexeme = (.ok (w, p), t)) (hw : w ≠ .endOfFile) :
    s.outlook =
      { t.outlook with pieces := { lexeme := w, position := p } :: t.outlook.pieces } := by
  rw [outlook]
  split <;> simp_all

/-- Induction along the lexemes ahead.  Something is taken of the text with each of them, so they come
to an end. -/
@[elab_as_elim]
theorem induction_on_lexemes {motive : Source → Prop} (s : Source)
    (fault : ∀ {s t : Source} {error : ParseError}, s.nextLexeme = (.error error, t) → motive s)
    (ended : ∀ {s t : Source} {p : Position}, s.nextLexeme = (.ok (.endOfFile, p), t) → motive s)
    (lexeme : ∀ {s t : Source} {w : Lexeme} {p : Position}, s.nextLexeme = (.ok (w, p), t) →
      w ≠ .endOfFile → motive t → motive s) : motive s := by
  induction hlength : s.rest.length using Nat.strongRecOn generalizing s with
  | ind length ih =>
      rcases hread : s.nextLexeme with ⟨error | ⟨w, p⟩, t⟩
      · exact fault hread
      · by_cases hw : w = .endOfFile
        · subst hw
          exact ended hread
        · exact lexeme hread hw (ih _ (hlength ▸ length_rest_lt_of_nextLexeme hread hw) t rfl)

end Source

end CSyntax
