import CSyntax.Proofs.Lexical.Lossless
import CSyntax.Proofs.Lockstep.Batch
import CSyntax.Proofs.Run.Findings

/-!
# Locations — where a parse fails

The place of a failure is counted along with the text, kept with tokens and handed on through all
rules of the grammar.  It is a true position still: its line, column and offset are those of one and
the same character.  This file shows

* which reading a lexeme ahead or the fault behind all of them comes from
  (`Source.exists_read_of_outlook`);
* that a call that fails does so at a lexeme or a comment, and tells where what it refuses ends
  (`Source.StandsIn.exists_refused`);
* that a failed parse points at a token, at the end, or at what cannot be read
  (`Parser.located_of_parse`).
-/

namespace CSyntax

/-! ## Readings behind an outlook -/

namespace Source

variable {text : List Char} {file : Option String} {s t : Source} {w : Lexeme} {p : Position}
  {e : ParseError}

/-- The fault that ends the lexemes is met by a call that begins in the text. -/
theorem exists_read_of_outlook {k : Nat} (h : (s.drop k).outlook.ending = .error e) :
    ∃ n t, (s.drop n).nextLexeme = (.error e, t) := by
  generalize hu : s.drop k = u at h
  induction u using induction_on_lexemes generalizing k with
  | @fault _ t _ hread =>
      rw [outlook_of_error hread] at h
      cases h
      exact ⟨k, t, hu ▸ hread⟩
  | ended hread =>
      rw [outlook_of_endOfFile hread] at h
      cases h
  | lexeme hread hw ih =>
      subst hu
      obtain ⟨-, n, ht⟩ := cuts_of_drop hread
      rw [outlook_of_ok hread hw] at h
      exact ih ht.symm h

/-- What is read begins at a true position. -/
theorem StandsIn.exists_lexeme (h : s.StandsIn text file) (hread : s.nextLexeme = (.ok (w, p), t)) :
    ∃ front lexeme rest, text = front ++ (lexeme ++ rest) ∧ p = .behind file front ∧
      w.Spelled lexeme ∧ w.EndsAt rest := by
  obtain ⟨before, htext, hposition⟩ := h
  obtain ⟨trivia, lexeme, hrest, -, hp, -, hspelled, hends⟩ := exists_text_of_nextLexeme hread
  refine ⟨before ++ trivia, lexeme, t.rest, ?_, ?_, hspelled, hends⟩
  · rw [htext, hrest, List.append_assoc]
  · rw [hp, hposition, Position.advanceBy_behind]

/-- A call fails at a lexeme that is refused and spans all that was taken of it, or it fails at a
comment without an end and spans the opening mark alone. -/
theorem StandsIn.exists_fault (h : s.StandsIn text file) (hread : s.nextLexeme = (.error e, t)) :
    ∃ front back fault, text = front ++ back ∧ e.cause = .lexical fault ∧
      e.start = .behind file front ∧
      ((∃ n, Lexeme.scan back = (.error (.lexical fault), n) ∧
          e.stop = .behind file (front ++ back.take n)) ∨
        ∃ body, back = '/' :: '*' :: body ∧ ¬ ['*', '/'] <:+: body ∧
          fault = .unterminatedComment ∧ e.stop = .behind file (front ++ ['/', '*'])) := by
  obtain ⟨before, htext, hposition⟩ := h
  rw [nextLexeme_eq] at hread
  -- A lexeme behind closed trivia is refused, or the trivia end in an open comment.
  rcases Trivia.measure_eq s.rest with ⟨trivia, back, hrest, -, -, hmeasure⟩ |
    ⟨gap, back, hrest, -, hdangling, hmeasure⟩
  · simp only [hmeasure, if_true, drop_append hrest] at hread
    rcases hscan : Lexeme.scan back with ⟨cause | w, n⟩
    · obtain ⟨fault, rfl, hne, hn⟩ := Lexeme.refused_of_error hscan
      have hbetween (p : Position) := between_drop (s := ⟨p, back⟩) hne hn (.lexical fault)
      simp only [hscan, hbetween, Prod.mk.injEq, Except.error.injEq] at hread
      obtain ⟨rfl, -⟩ := hread
      refine ⟨before ++ trivia, back, fault, ?_, rfl, ?_, .inl ⟨n, hscan, ?_⟩⟩
      · rw [htext, hrest, List.append_assoc]
      · rw [hposition, Position.advanceBy_behind]
      · rw [Source.drop, hposition, Position.advanceBy_behind, Position.advanceBy_behind]
    · simp [hscan] at hread
  · simp only [hmeasure, drop_append hrest, Bool.false_eq_true, if_false, Prod.mk.injEq,
      Except.error.injEq] at hread
    obtain ⟨rfl, -⟩ := hread
    cases hdangling with
    | @block body hbody =>
        refine ⟨before ++ gap, '/' :: '*' :: body, _, ?_, rfl, ?_,
          .inr ⟨body, rfl, hbody, rfl, ?_⟩⟩
        · rw [htext, hrest, List.append_assoc]
        · rw [hposition, Position.advanceBy_behind]
        · -- The opening mark is two characters of one byte each, and ends no line.
          rw [← Position.advanceBy_behind, ← Position.advanceBy_behind, ← hposition]
          rfl

/-- A call fails at a lexeme that is refused, or at a comment without an end, whose opening mark it
then names.  Both ends of the failure are true positions, and there is something between them. -/
theorem StandsIn.exists_refused (h : s.StandsIn text file)
    (hread : s.nextLexeme = (.error e, t)) : ∃ front refused rest fault,
      text = front ++ (refused ++ rest) ∧ refused ≠ [] ∧ e.cause = .lexical fault ∧
        e.start = .behind file front ∧ e.stop = .behind file (front ++ refused) ∧
        ((∃ n, Lexeme.scan (refused ++ rest) = (.error (.lexical fault), n)) ∨
          refused = ['/', '*'] ∧ ¬ ['*', '/'] <:+: rest ∧ fault = .unterminatedComment) := by
  obtain ⟨front, back, fault, htext, hcause, hstart, ⟨n, hscan, hstop⟩ |
    ⟨body, rfl, hbody, rfl, hstop⟩⟩ := h.exists_fault hread
  · obtain ⟨-, -, hne, hn⟩ := Lexeme.refused_of_error hscan
    rw [← List.take_append_drop n back] at htext hscan
    exact ⟨front, back.take n, back.drop n, fault, htext, by simp [hne, Nat.ne_of_gt hn], hcause,
      hstart, hstop, .inl ⟨n, hscan⟩⟩
  · exact ⟨front, ['/', '*'], body, _, htext, List.cons_ne_nil _ _, hcause, hstart, hstop,
      .inr ⟨rfl, hbody, rfl⟩⟩

end Source

/-! ## Failures -/

/-- What a failed parse points at, where the text goes on with `back`: a token, the end of the text,
a lexeme that is refused, or a comment that is never closed. -/
inductive ParseError.PointsAt (o : Outlook) : List Char → ParseError → Prop
  | token {e : ParseError} {fault : GrammarFault} {piece : Piece} {lexeme rest : List Char} :
      e.cause = .grammatical fault → piece ∈ o.pieces → piece.position = e.start →
      lexeme ≠ [] → piece.lexeme.Spelled lexeme → piece.lexeme.EndsAt rest →
      PointsAt o (lexeme ++ rest) e
  | finish {e : ParseError} {fault : GrammarFault} : e.cause = .grammatical fault → PointsAt o [] e
  | lexeme {e : ParseError} {fault : LexicalFault} {back : List Char} {n : Nat} :
      e.cause = .lexical fault → Lexeme.scan back = (.error (.lexical fault), n) → PointsAt o back e
  | comment {e : ParseError} {rest : List Char} :
      e.cause = .lexical .unterminatedComment → ¬ ['*', '/'] <:+: rest →
      PointsAt o ('/' :: '*' :: rest) e

namespace Parser

variable {text : String} {file : Option String} {e : ParseError}

/-- A failed parse points at a true position of the text, with the label of the text.  A token, the
end, a lexeme that is refused or an open comment begins there.  If the text cannot be read, the
failure ends at a true position, too, and has characters in it. -/
theorem located_of_parse (h : parse text file = .error e) : ∃ front back,
    text.toList = front ++ back ∧ e.start = .behind file front ∧
      e.PointsAt (Source.ofString text file).outlook back ∧
      ∀ fault, e.cause = .lexical fault → ∃ refused rest, back = refused ++ rest ∧ refused ≠ [] ∧
        e.stop = .behind file (front ++ refused) := by
  have hstands := Source.standsIn_ofString text file
  obtain ⟨hpieces, hfinish⟩ := Source.cuts_of_outlook (s := .ofString text file) (k := 0)
  rw [Source.drop_zero] at hpieces hfinish
  rcases error_of_parse h with ⟨⟨fault, hcause⟩, hstart⟩ | hending
  · -- The grammar refuses a token, or the end of the text in the place of one.
    have hnone : ∀ fault', e.cause ≠ .lexical fault' := by
      rw [hcause]
      nofun
    rcases hstart with hmem | hend
    · obtain ⟨piece, hpiece, hposition⟩ := List.mem_map.1 hmem
      obtain ⟨n, t, -, hread⟩ := hpieces piece hpiece
      obtain ⟨front, lexeme, rest, htext, hp, hspelled, hends⟩ :=
        (hstands.drop n).exists_lexeme hread
      have hne := hspelled.ne_nil (Source.scan_of_mem_outlook hpiece).1
      exact ⟨front, lexeme ++ rest, htext, hposition ▸ hp,
        .token hcause hpiece hposition hne hspelled hends, fun fault' h => (hnone fault' h).elim⟩
    · obtain ⟨n, t, -, hread⟩ := hfinish _ hend
      obtain ⟨front, lexeme, rest, htext, hp, hspelled, hends⟩ :=
        (hstands.drop n).exists_lexeme hread
      obtain rfl : rest = [] := hends
      obtain rfl : lexeme = [] := by
        cases hspelled with
        | endOfFile => rfl
        | number hnumber => cases hnumber
      exact ⟨front, [], htext, hp, .finish hcause, fun fault' h => (hnone fault' h).elim⟩
  · rw [← Source.drop_zero (.ofString text file)] at hending
    obtain ⟨n, t, hread⟩ := Source.exists_read_of_outlook hending
    obtain ⟨front, refused, rest, fault, htext, hne, hcause, hstart, hstop, hplace⟩ :=
      (hstands.drop n).exists_refused hread
    refine ⟨front, refused ++ rest, htext, hstart, ?_, fun _ _ => ⟨refused, rest, rfl, hne, hstop⟩⟩
    rcases hplace with ⟨n, hscan⟩ | ⟨rfl, hopen, rfl⟩
    · exact .lexeme hcause hscan
    · exact .comment hcause hopen

/-- A number that runs into a letter of two bytes, on the second line. -/
theorem located_of_parse_gluedNumber : ∃ e,
    parse "char *s = \"é\";\nint n = 0x1é+;" (some "m.c") = .error e ∧
      e.cause = .lexical (.malformedNumber "0x1é") ∧
      ∃ front back, "char *s = \"é\";\nint n = 0x1é+;".toList = front ++ back ∧
        e.start = .behind (some "m.c") front ∧
        e.PointsAt (Source.ofString "char *s = \"é\";\nint n = 0x1é+;" (some "m.c")).outlook back ∧
        ∀ fault, e.cause = .lexical fault → ∃ refused rest, back = refused ++ rest ∧ refused ≠ [] ∧
          e.stop = .behind (some "m.c") (front ++ refused) := by
  have hfails : (refusal? "char *s = \"é\";\nint n = 0x1é+;" (some "m.c")).any (fun e =>
      e.cause = .lexical (.malformedNumber "0x1é")) = true := by
    decide +kernel
  obtain ⟨e, hparse, hcause⟩ := exists_error_of_any hfails
  exact ⟨e, hparse, of_decide_eq_true hcause, located_of_parse hparse⟩

end Parser
end CSyntax
