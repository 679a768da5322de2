import CSyntax.Proofs.Run.Refusals

/-!
# Findings — a refusal names the token that stands there

Most faults of the grammar say which kind of token was found.  Rules refuse tokens that they have
been handed, before anything is declared that could change their kinds; so what was found is what
stands in the text where the fault begins, classified by what is declared when the run ends.

* `Outlook.lexemeAt?` — the lexeme that begins at a position;
* `ParseError.Names` — what a failure says was found is the kind of a token where it begins;
* `Parser.found_of_parse` — the theorem, from which one fault is left out: a storage class among the
  specifiers of a member is reported as the word `typedef`, whatever stands there.
-/

namespace CSyntax

variable {origin : Source} {T : SymbolTable}

/-! ## Lexemes by position -/

namespace Source

variable {s : Source} {v w : Lexeme} {p : Position}

/-- Where no position is passed no character is. -/
theorem drop_eq_of_position_eq {m k : Nat}
    (h : (s.drop m).position = (s.drop (m + k)).position) : s.drop m = s.drop (m + k) := by
  have hroom := (s.drop m).offset_le_drop k
  rw [drop_drop, ← h] at hroom
  have htake : (s.drop m).rest.take k = [] := List.eq_nil_of_length_eq_zero (by omega)
  have hdrop : (s.drop m).drop k = s.drop m := by
    have hrest := List.take_append_drop k (s.drop m).rest
    rw [htake, List.nil_append] at hrest
    unfold drop at htake hrest ⊢
    rw [htake, hrest]
    rfl
  rw [← drop_drop, hdrop]

/-- A text is cut at a position in one way only. -/
theorem Cuts.unique (h : s.Cuts ⟨v, p⟩) (h' : s.Cuts ⟨w, p⟩) : v = w := by
  obtain ⟨m, t, hm, hread⟩ := h
  obtain ⟨n, u, hn, hread'⟩ := h'
  have hdrop : s.drop m = s.drop n := by
    rcases Nat.le_total m n with hle | hle
    · obtain ⟨k, rfl⟩ := Nat.exists_eq_add_of_le hle
      exact drop_eq_of_position_eq (hm.trans hn.symm)
    · obtain ⟨k, rfl⟩ := Nat.exists_eq_add_of_le hle
      exact (drop_eq_of_position_eq (hn.trans hm.symm)).symm
  rw [hdrop, hread'] at hread
  cases hread
  rfl

/-- The lexemes ahead and the end behind them are cut from the text. -/
theorem cuts_of_outlook {k : Nat} :
    (∀ piece ∈ (s.drop k).outlook.pieces, s.Cuts piece) ∧
      ∀ p, (s.drop k).outlook.ending = .ok p → s.Cuts ⟨.endOfFile, p⟩ := by
  generalize hu : s.drop k = u
  induction u using induction_on_lexemes generalizing k with
  | fault hread =>
      rw [outlook_of_error hread]
      exact ⟨nofun, nofun⟩
  | ended hread =>
      subst hu
      obtain ⟨hcuts, -⟩ := cuts_of_drop hread
      rw [outlook_of_endOfFile hread]
      refine ⟨nofun, ?_⟩
      rintro _ ⟨⟩
      exact hcuts
  | lexeme hread hw ih =>
      subst hu
      obtain ⟨hcuts, n, ht⟩ := cuts_of_drop hread
      obtain ⟨hpieces, hending⟩ := ih ht.symm
      rw [outlook_of_ok hread hw]
      exact ⟨List.forall_mem_cons.2 ⟨hcuts, hpieces⟩, hending⟩

end Source

/-- The lexeme that begins at a position.  The end of the text stands behind all others. -/
def Outlook.lexemeAt? (o : Outlook) (p : Position) : Option Lexeme :=
  match o.pieces.find? fun piece => piece.position = p, o.ending with
  | some piece, _ => some piece.lexeme
  | none, .ok stop => if stop = p then some .endOfFile else none
  | none, .error _ => none

/-- What is cut from the text at the position of a lexeme, or at the end, is that lexeme. -/
theorem Source.lexemeAt?_of_cuts {s : Source} {w : Lexeme} {p : Position} (h : s.Cuts ⟨w, p⟩)
    (hp : p ∈ s.outlook.pieces.map (·.position) ∨ s.outlook.ending = .ok p) :
    s.outlook.lexemeAt? p = some w := by
  obtain ⟨hpieces, hending⟩ := cuts_of_outlook (s := s) (k := 0)
  rw [drop_zero] at hpieces hending
  unfold Outlook.lexemeAt?
  cases hfind : s.outlook.pieces.find? fun piece => piece.position = p with
  | some piece =>
      obtain rfl : piece.position = p := by simpa using List.find?_some hfind
      exact congrArg some ((hpieces piece (List.mem_of_find?_eq_some hfind)).unique h)
  | none =>
      have hend : s.outlook.ending = .ok p := by
        refine hp.resolve_left fun hmem => ?_
        obtain ⟨piece, hpiece, hposition⟩ := List.mem_map.1 hmem
        exact List.find?_eq_none.1 hfind piece hpiece (by simpa using hposition)
      rw [hend, (hending p hend).unique h]
      exact if_pos rfl

/-! ## Faults that name a token -/

/-- What a failure says was found is the kind of a token where it begins, except for members with a
storage class. -/
def ParseError.Names (origin : Source) (T : SymbolTable) (e : ParseError) : Prop :=
  ∀ fault found, e.cause = .grammatical fault → fault.found? = some found →
    fault ≠ .storedMember →
      ∃ token : Token, token.Fresh origin T ∧ token.position = e.start ∧ token.kind = found

/-- The token that is refused is the one that was found. -/
theorem ParseError.Refused.names {e : ParseError} (h : e.Refused origin T) : e.Names origin T := by
  intro fault found hcause hfound hother
  cases h with
  | found hfresh hkind =>
      cases hcause
      exact ⟨_, hfresh, rfl, Option.some.inj (hkind.symm.trans hfound)⟩
  | silent _ hnone =>
      cases hcause
      cases hnone.symm.trans hfound
  | storedMember =>
      cases hcause
      exact absurd rfl hother
  | bodyRefused =>
      cases hcause
      cases hfound
  | contradicted hinternal => cases hcause.symm.trans hinternal

namespace Parser

theorem names_of_runAt {depth : Nat} {f : Nonterminal} {s t : ParserState} {e : ParseError}
    (hlawful : Lawful origin (eventsAt depth f s)) (hrun : runAt depth f s = (.error e, t)) :
    e.Names origin t.table := by
  rcases refused_of_runAt hlawful hrun with ⟨lexical, hlexical⟩ | hrefused
  · intro fault found hcause
    cases hcause.symm.trans hlexical
  · exact hrefused.names

/-- The kind of token that a refusal says was found is that of the token which begins in the text
where the fault begins, classified by what is declared at that point; at the end of the text it is
the end.  Storage classes among the specifiers of a member are left out. -/
theorem found_of_parse {text : String} {file : Option String} {e : ParseError}
    {fault : GrammarFault} {found : TokenKind} (h : parse text file = .error e)
    (hcause : e.cause = .grammatical fault) (hfound : fault.found? = some found)
    (hother : fault ≠ .storedMember) :
    ((Source.ofString text file).outlook.lexemeAt? e.start).map
      (runUnit text file).2.table.classify = some found := by
  have hstart := error_of_parse h
  unfold parse at h
  rcases hrun : runUnit text file with ⟨error | list, t⟩
  · rw [hrun] at h
    cases h
    obtain ⟨token, hfresh, hposition, hkind⟩ :=
      names_of_runAt (lawful_events text file) hrun fault found hcause hfound hother
    obtain ⟨w, hcuts, hclass⟩ := Token.fresh_iff.1 hfresh
    rw [hposition] at hcuts
    rcases hstart with ⟨-, hplace⟩ | hending
    · rw [Source.lexemeAt?_of_cuts hcuts hplace, Option.map_some, ← hclass, hkind]
    · obtain ⟨lexical, hlexical⟩ := lexical_of_ending hending
      cases hcause.symm.trans hlexical
  · rw [hrun] at h
    cases h

/-- The error of a text that is refused. -/
def refusal? (text : String) (file : Option String) : Option ParseError :=
  match parse text file with
  | .ok _ => none
  | .error e => some e

theorem exists_error_of_any {check : ParseError → Bool}
    (h : (refusal? text file).any check = true) :
    ∃ e, parse text file = .error e ∧ check e = true := by
  unfold refusal? at h
  rcases hparse : parse text file with e | unit
  · exact ⟨e, rfl, by simpa [hparse] using h⟩
  · simp [hparse] at h

/-- A word that stands where a comma or a semicolon would is named as the type that it is. -/
theorem found_of_parse_typeName : ∃ e, parse "typedef int t; int x t;" none = .error e ∧
    ((Source.ofString "typedef int t; int x t;" none).outlook.lexemeAt? e.start).map
      (runUnit "typedef int t; int x t;" none).2.table.classify = some (.typeName "t") := by
  have hfails : (refusal? "typedef int t; int x t;" none).any (fun e =>
      e.cause = .grammatical (.expected (.punctuator .semicolon) (.typeName "t"))) = true := by
    decide +kernel
  obtain ⟨e, hparse, hcause⟩ := exists_error_of_any hfails
  exact ⟨e, hparse, found_of_parse hparse (of_decide_eq_true hcause) rfl (by decide)⟩

/-- The storage class of a member is `static`, and is reported as `typedef`. -/
theorem storedMember_misnamed : ∃ e, parse "struct { static int x; };" none = .error e ∧
    e.cause = .grammatical (.expectedTypeSpecifier (.keyword .typedef)) ∧
    ((Source.ofString "struct { static int x; };" none).outlook.lexemeAt? e.start).map
      (runUnit "struct { static int x; };" none).2.table.classify = some (.keyword .static) := by
  let text := "struct { static int x; };"
  let start : Position := { file := none, line := 1, column := 10, offset := 9 }
  have hfails : (refusal? text none).any (fun e => e.start = start ∧
      e.cause = .grammatical (.expectedTypeSpecifier (.keyword .typedef))) = true := by
    decide +kernel
  obtain ⟨e, hparse, he⟩ := exists_error_of_any hfails
  obtain ⟨hstart, hcause⟩ := of_decide_eq_true he
  refine ⟨e, hparse, hcause, ?_⟩
  have hcuts : (Source.ofString text none).Cuts ⟨.word "static", start⟩ := by
    have hread : ((Source.ofString text none).drop 9).nextLexeme.1 =
        .ok (.word "static", start) := by decide +kernel
    exact ⟨9, _, by decide +kernel, Prod.ext hread rfl⟩
  have hplace := (error_of_parse hparse).resolve_right fun hending => by
    obtain ⟨lexical, hlexical⟩ := lexical_of_ending hending
    cases hcause.symm.trans hlexical
  rw [← hstart] at hcuts
  rw [Source.lexemeAt?_of_cuts hcuts hplace.2]
  decide +kernel

end Parser

end CSyntax
