import CSyntax.Proofs.Lexical.Spelling
import CSyntax.Proofs.Lexical.Trivia
import CSyntax.Proofs.Stream.Classification
import Mathlib.Data.List.DropRight

/-!
# Lossless — nothing of a text is lost between tokens

Tokens are cut off one call after the other, and what is declared may change in between.  Whatever
calls came before, the next one finds its token behind trivia alone, at the true position of its
first character, takes exactly its text, which is as long as can be, and stands behind it afterwards
(`Source.nextToken_lossless`).

* `Position.behind` — the position behind a piece of text, counted from the text alone;
* `Source.after` — a source after some calls;
* `TokenKind.Shows` — the texts of a token: what messages show of it, unless it is a number.
-/

namespace CSyntax

/-! ## True positions -/

namespace Position

/-- The position of the character behind the text: its line is the number of line feeds and one,
its column the number of characters behind the last line feed and one, its offset the number of
bytes. -/
def behind (file : Option String) (before : List Char) : Position :=
  { line := before.count '\n' + 1
    column := (before.rtakeWhile (· ≠ '\n')).length + 1
    offset := (String.ofList before).utf8ByteSize
    file := file }

theorem behind_concat (file : Option String) (before : List Char) (c : Char) :
    behind file (before ++ [c]) = (behind file before).advance c := by
  unfold behind advance
  by_cases hc : c = '\n'
  · subst hc
    have hbyte : "\n".utf8ByteSize = '\n'.utf8Size := rfl
    simp [hbyte]
  · simp [hc]

theorem utf8ByteSize_cons (c : Char) (cs : List Char) :
    (String.ofList (c :: cs)).utf8ByteSize = c.utf8Size + (String.ofList cs).utf8ByteSize := by
  rw [String.ofList_cons, String.utf8ByteSize_append, String.utf8ByteSize_singleton]

/-- Stepping over text counts it. -/
theorem advanceBy_behind (file : Option String) (before cs : List Char) :
    (behind file before).advanceBy cs = behind file (before ++ cs) := by
  induction cs generalizing before with
  | nil => simp
  | cons c cs ih =>
      rw [advanceBy_cons, ← behind_concat, ih, List.append_assoc, List.singleton_append]

end Position

/-! ## Calls one after the other -/

namespace Source

/-- The source after calls that are made with the tables, one after the other. -/
def after (tables : List SymbolTable) (s : Source) : Source :=
  tables.foldl (fun s table => (s.nextToken table).2) s

/-- The source stands in the text where it says that it does. -/
def StandsIn (text : List Char) (file : Option String) (s : Source) : Prop :=
  ∃ before, text = before ++ s.rest ∧ s.position = .behind file before

variable {text front behind : List Char} {file : Option String} {s t : Source} {w : Lexeme}
  {p : Position} {e : ParseError}

theorem drop_append (h : s.rest = front ++ behind) :
    s.drop front.length = { position := s.position.advanceBy front, rest := behind } := by
  rw [drop, h, List.take_left, List.drop_left]

theorem StandsIn.drop (h : s.StandsIn text file) (n : Nat) : (s.drop n).StandsIn text file := by
  obtain ⟨before, htext, hposition⟩ := h
  refine ⟨before ++ s.rest.take n, ?_, ?_⟩
  · rw [htext, List.append_assoc, Source.drop, List.take_append_drop]
  · rw [Source.drop, hposition, Position.advanceBy_behind]

theorem standsIn_ofString (text : String) (file : Option String) :
    (ofString text file).StandsIn text.toList file :=
  ⟨[], rfl, rfl⟩

/-- A call moves on in the text, whatever becomes of it. -/
theorem exists_drop_of_nextLexeme (s : Source) : ∃ n, s.nextLexeme.2 = s.drop n := by
  rw [nextLexeme_eq]
  split
  · rcases hscan : Lexeme.scan (s.drop (Trivia.measure s.rest).length).rest with ⟨_ | _, n⟩ <;>
      exact ⟨(Trivia.measure s.rest).length + n, by simp only [hscan, drop_drop]⟩
  · exact ⟨_, s.drop_drop _ _⟩

theorem nextToken_snd (s : Source) (table : SymbolTable) :
    (s.nextToken table).2 = s.nextLexeme.2 := by
  unfold nextToken
  rcases s.nextLexeme with ⟨_ | ⟨_, _⟩, _⟩ <;> rfl

theorem StandsIn.after (h : s.StandsIn text file) (tables : List SymbolTable) :
    (s.after tables).StandsIn text file := by
  induction tables generalizing s with
  | nil => exact h
  | cons table tables ih =>
      obtain ⟨n, hn⟩ := s.exists_drop_of_nextLexeme
      refine ih (s := (s.nextToken table).2) ?_
      rw [nextToken_snd, hn]
      exact h.drop n

/-! ## One call -/

/-- A lexeme that is read stands behind trivia alone; it is one of its texts and not continued. -/
theorem exists_text_of_nextLexeme (h : s.nextLexeme = (.ok (w, p), t)) :
    ∃ trivia text, s.rest = trivia ++ (text ++ t.rest) ∧ Trivia.Before trivia (text ++ t.rest) ∧
      p = s.position.advanceBy trivia ∧ t.position = p.advanceBy text ∧ w.Spelled text ∧
        w.EndsAt t.rest := by
  rw [nextLexeme_eq] at h
  rcases Trivia.measure_eq s.rest with ⟨trivia, rest, hrest, hbefore, -, hmeasure⟩ |
    ⟨gap, rest, -, -, -, hmeasure⟩
  · simp only [hmeasure, if_true, drop_append hrest] at h
    rcases hscan : Lexeme.scan rest with ⟨_ | w', n⟩
    · simp [hscan] at h
    · obtain ⟨text, behind, rfl, hspelled, hends, rfl⟩ := Lexeme.scan_eq_ok_iff.1 hscan
      simp only [hscan, Prod.mk.injEq, Except.ok.injEq] at h
      obtain ⟨⟨rfl, rfl⟩, rfl⟩ := h
      rw [drop_append rfl]
      exact ⟨trivia, text, hrest, hbefore, rfl, rfl, hspelled, hends⟩
  · simp [hmeasure] at h

/-- A call that fails takes something, too. -/
theorem length_rest_lt_of_error (h : s.nextLexeme = (.error e, t)) :
    t.rest.length < s.rest.length := by
  rw [nextLexeme_eq] at h
  rcases Trivia.measure_eq s.rest with ⟨trivia, rest, hrest, -, -, hmeasure⟩ |
    ⟨gap, rest, hrest, -, hdangling, hmeasure⟩
  · simp only [hmeasure, if_true, drop_append hrest] at h
    rcases hscan : Lexeme.scan rest with ⟨cause | w', n⟩
    · obtain ⟨_, -, hne, hn⟩ := Lexeme.refused_of_error hscan
      have hpos := List.length_pos_iff.2 hne
      simp only [hscan, Prod.mk.injEq] at h
      simp only [← h.2, hrest, Source.drop, List.length_drop, List.length_append]
      omega
    · simp [hscan] at h
  · -- An open comment takes all that is left, its own mark at least.
    simp only [hmeasure, drop_append hrest] at h
    have hpos : 0 < rest.length := by
      cases hdangling
      exact Nat.succ_pos _
    simp only [Bool.false_eq_true, if_false, Prod.mk.injEq] at h
    simp only [← h.2, hrest, Source.drop, List.length_drop, List.length_append]
    omega

end Source

/-! ## Texts of tokens -/

namespace TokenKind

/-- The texts of a token: a number is any constant of its value, and all else is spelled as messages
show it.  The end of the text has none. -/
def Shows : TokenKind → List Char → Prop
  | .integer value, text => Number.Spelled (.integer value) text
  | .floating constant, text => Number.Spelled (.floating constant) text
  | .endOfFile, text => text = []
  | kind, text => text = kind.spelling.toList

theorem eq_toList_of_spelled {name : String} {text : List Char}
    (h : (Lexeme.word name).Spelled text) : text = name.toList := by
  cases h with
  | word _ _ => exact String.toList_ofList.symm
  | number hnumber => cases hnumber

theorem shows_of_spelled {kind : TokenKind} {text : List Char} (h : kind.lexeme.Spelled text) :
    kind.Shows text := by
  cases kind with
  | identifier name => exact eq_toList_of_spelled h
  | typeName name => exact eq_toList_of_spelled h
  | keyword word => exact eq_toList_of_spelled h
  | punctuator mark =>
      cases h with
      | punctuator _ => exact String.toList_ofList.symm
      | number hnumber => cases hnumber
  | string body =>
      cases h with
      | string _ =>
          change _ = (TokenKind.string _).spelling.toList
          simp [spelling]
      | number hnumber => cases hnumber
  | character body =>
      cases h with
      | character _ _ =>
          change _ = (TokenKind.character _).spelling.toList
          simp [spelling]
      | number hnumber => cases hnumber
  | integer value =>
      cases h with
      | number hnumber => exact hnumber
  | floating constant =>
      cases h with
      | number hnumber => exact hnumber
  | endOfFile =>
      cases h with
      | endOfFile => rfl
      | number hnumber => cases hnumber

end TokenKind

/-! ## Nothing is lost -/

namespace Source

/-- At the end of a text further calls move nowhere. -/
theorem after_of_rest_eq_nil {s : Source} (h : s.rest = []) (tables : List SymbolTable) :
    s.after tables = s := by
  induction tables with
  | nil => rfl
  | cons table tables ih =>
      have hstay : (s.nextToken table).2 = s := by
        rw [nextToken_snd, nextLexeme_of_rest_eq_nil h]
      rw [after, List.foldl_cons, hstay]
      exact ih

/-- Whatever calls came before, the next one stands in the text where the last one stopped.  A token
that it gives has trivia alone in front of it and is at its true position; the text from there to
where the call stops is a text of the token, and it is not continued.  Only the end of the text has
no characters, and it is given again by all later calls.  A call that fails has characters, too. -/
theorem nextToken_lossless (text : String) (file : Option String) (tables : List SymbolTable)
    (table : SymbolTable) :
    let s := (ofString text file).after tables
    ∃ before, text.toList = before ++ s.rest ∧ s.position = .behind file before ∧
      match s.nextToken table with
      | (.ok token, t) => ∃ trivia lexeme, s.rest = trivia ++ (lexeme ++ t.rest) ∧
          Trivia.Before trivia (lexeme ++ t.rest) ∧
          token.position = .behind file (before ++ trivia) ∧
          t.position = .behind file (before ++ trivia ++ lexeme) ∧
          token.kind.Shows lexeme ∧ token.kind.lexeme.EndsAt t.rest ∧
          (token.kind ≠ .endOfFile → lexeme ≠ []) ∧
          (token.kind = .endOfFile → t.rest = [] ∧ ∀ more other,
            (t.after more).nextToken other = (.ok { kind := .endOfFile, position := t.position }, t))
      | (.error _, t) => ∃ refused, refused ≠ [] ∧ s.rest = refused ++ t.rest ∧
          t.position = .behind file (before ++ refused) := by
  intro s
  obtain ⟨before, htext, hposition⟩ := (standsIn_ofString text file).after tables
  refine ⟨before, htext, hposition, ?_⟩
  rcases hread : s.nextLexeme with ⟨e | ⟨w, p⟩, t⟩
  · have hnext : s.nextToken table = (.error e, t) := by simp [nextToken, hread]
    simp only [hnext]
    -- Trivia in front of the fault belong to what is refused.
    obtain ⟨n, hn⟩ := s.exists_drop_of_nextLexeme
    have hlt := length_rest_lt_of_error hread
    rw [hread] at hn
    obtain rfl : t = s.drop n := hn
    refine ⟨s.rest.take n, fun hempty => ?_, ?_, ?_⟩
    · have hsame := List.take_append_drop n s.rest
      rw [hempty, List.nil_append] at hsame
      exact absurd (congrArg List.length hsame) (Nat.ne_of_lt hlt)
    · rw [Source.drop, List.take_append_drop]
    · rw [Source.drop, hposition, Position.advanceBy_behind]
  · have hnext : s.nextToken table = (.ok { kind := table.classify w, position := p }, t) := by
      simp [nextToken, hread]
    simp only [hnext]
    obtain ⟨trivia, lexeme, hrest, hbefore, rfl, ht, hspelled, hends⟩ :=
      exists_text_of_nextLexeme hread
    refine ⟨trivia, lexeme, hrest, hbefore, ?_, ?_, ?_, ?_, ?_, ?_⟩
    · rw [hposition, Position.advanceBy_behind]
    · rw [ht, hposition, Position.advanceBy_behind, Position.advanceBy_behind]
    · exact TokenKind.shows_of_spelled (by rwa [SymbolTable.lexeme_classify])
    · rwa [SymbolTable.lexeme_classify]
    · intro hkind
      exact hspelled.ne_nil fun hw => hkind ((SymbolTable.classify_eq_endOfFile table w).2 hw)
    · intro hkind
      rw [SymbolTable.classify_eq_endOfFile] at hkind
      subst hkind
      have hend : t.rest = [] := hends
      refine ⟨hend, fun more other => ?_⟩
      rw [after_of_rest_eq_nil hend, nextToken, nextLexeme_of_rest_eq_nil hend]
      rfl

end Source

end CSyntax
