import CSyntax.Proofs.Lockstep.Locations

/-!
# Malformed — what is shown of a malformed number

A number that runs into something else is refused together with what it runs into, so that the
message may show all of it.  The letters of a suffix, though, are taken before the fault is seen: the
failure spans them, and the message leaves them out.

* `Number.Broken` — a malformed number up to what it runs into: a mark, digits with what belongs to
  them, and a suffix;
* `Number.broken_of_scan` — what is refused as malformed is cut into these parts, and all of them but
  the suffix are shown;
* `Source.exists_read_of_failure` — a failure comes from a call that begins in the text;
* `Number.shown_of_failure` — the theorem: just the numbers without a suffix are shown whole.
-/

namespace CSyntax
namespace Number

variable {cs mark body digits suffix glue rest : List Char} {shown : String} {n : Nat}

/-! ## Parts of malformed numbers -/

/-- A malformed number in front of what it runs into.  A suffix is taken as far as it goes; behind an
exponent without digits there is none. -/
inductive Broken : (mark body suffix glue : List Char) → Prop
  | integral {mark digits suffix glue : List Char} : mark ∈ marks →
      (∀ d ∈ digits, isDigitBehind mark d = true) → (∀ c ∈ suffix, isIntegerSuffix c = true) →
      (∀ c ∈ glue.head?, isIntegerSuffix c = false) → Broken mark digits suffix glue
  | floating {digits point introduction power suffix glue : List Char} :
      Decimal.Parts digits point introduction power →
      (suffix = [] ∧ (∀ c ∈ glue.head?, isFloatingSuffix c = false) ∨
        ∃ c, suffix = [c] ∧ isFloatingSuffix c = true) →
      Broken [] (digits ++ point ++ introduction ++ power) suffix glue
  | unfinished {digits point sign glue : List Char} {c : Char} :
      Decimal.Parts digits point [] [] → c = 'e' ∨ c = 'E' →
      (sign = [] ∨ sign = ['+'] ∨ sign = ['-']) → Broken [] (digits ++ point ++ c :: sign) [] glue

theorem Broken.marked (h : Broken mark body suffix glue) : mark ∈ marks := by
  cases h with
  | integral hmark _ _ _ => exact hmark
  | floating _ _ => decide
  | unfinished _ _ _ => decide

/-- What a malformed number runs into is taken as far as it goes, and shown. -/
theorem glue_of_malformed {text : List Char} {length : Nat}
    (h : malformed text length rest = (.error (.malformedNumber shown), n)) : ∃ glue after,
      rest = glue ++ after ∧ (∀ c ∈ glue, isGlue c = true) ∧ Ends after ∧
        shown = String.ofList (text ++ glue) ∧ n = length + glue.length := by
  unfold malformed at h
  cases h
  exact ⟨rest.takeWhile isGlue, rest.dropWhile isGlue, List.takeWhile_append_dropWhile.symm,
    fun _ hc => List.mem_takeWhile_imp hc, head_dropWhile, rfl, rfl⟩

theorem head_of_append {P : Char → Prop} {front behind : List Char}
    (h : ∀ c ∈ (front ++ behind).head?, P c) : ∀ c ∈ front.head?, P c := by
  cases front with
  | nil => exact nofun
  | cons d ds => exact h

/-- A floating constant is refused with all its parts, and all but the suffix are shown. -/
theorem broken_of_scanFloating (h : scanFloating digits rest = (.error (.malformedNumber shown), n))
    (hdigits : ∀ d ∈ digits, isDigitOf 10 d = true)
    (hsome : digits ≠ [] ∨ ∃ d ds, fraction rest = '.' :: d :: ds) :
    ∃ body suffix glue after, digits ++ rest = body ++ suffix ++ glue ++ after ∧
      Broken [] body suffix glue ∧ (∀ c ∈ glue, isGlue c = true) ∧ Ends after ∧
      shown = String.ofList (body ++ glue) ∧ n = (body ++ suffix ++ glue).length := by
  obtain ⟨point, introduction, power, suffix, later, rfl, hpoint, hexponent, hsuffix, hscan⟩ :=
    scanFloating_eq digits rest
  rw [hscan] at h
  have hfraction := fraction_eq (point ++ introduction ++ power ++ suffix ++ later)
  rw [hpoint] at hsome hfraction
  dsimp only at h
  split at h
  · -- The exponent has no digits, so nothing behind it is taken for a suffix.
    rename_i hunfinished
    obtain ⟨hne, rfl⟩ := hunfinished
    obtain ⟨c, sign, rfl, hc, hsign, -⟩ := hexponent.resolve_left fun hnone => hne hnone.1
    obtain ⟨glue, after, hlater, hglue, hends, rfl, rfl⟩ := glue_of_malformed h
    have hparts : Decimal.Parts digits point [] [] :=
      { whole := hdigits, point := hfraction, exponent := Or.inl ⟨rfl, rfl⟩, significant := hsome }
    refine ⟨_, [], glue, after, ?_, .unfinished hparts hc hsign, hglue, hends, ?_, ?_⟩
    · simp [hlater]
    · simp
    · simp only [List.append_nil, List.length_append]
  · rename_i hcomplete
    split at h
    · obtain ⟨glue, after, rfl, hglue, hends, rfl, rfl⟩ := glue_of_malformed h
      have hparts : Decimal.Parts digits point introduction power :=
        { whole := hdigits
          point := hfraction
          exponent := by
            rcases hexponent with hnone | ⟨c, sign, rfl, hc, hsign, hpower⟩
            · exact Or.inl hnone
            · exact Or.inr ⟨c, sign, rfl, hc, hsign, by simpa using hcomplete, hpower⟩
          significant := hsome }
      have hcut : suffix = [] ∧ (∀ c ∈ glue.head?, isFloatingSuffix c = false) ∨
          ∃ c, suffix = [c] ∧ isFloatingSuffix c = true :=
        hsuffix.imp_left fun hnone => ⟨hnone.1, head_of_append hnone.2⟩
      exact ⟨_, suffix, glue, after, by simp, .floating hparts hcut, hglue, hends, rfl,
        by simp only [List.length_append]⟩
    · cases h

/-- What is refused as malformed is a number with what it runs into, and all of it but the suffix is
shown.  The letter of the mark is shown in lower case. -/
theorem broken_of_scan (h : scan cs = (.error (.malformedNumber shown), n))
    (hs : Lexeme.startsNumber cs = true) :
    ∃ mark body suffix glue after, cs = mark ++ body ++ suffix ++ glue ++ after ∧
      radixMark cs = radixMark mark ∧ Broken mark body suffix glue ∧
      (∀ c ∈ glue, isGlue c = true) ∧ Ends after ∧
      shown = String.ofList (radixMark mark ++ body ++ glue) ∧
      n = (mark ++ body ++ suffix ++ glue).length := by
  obtain ⟨mark, digits, rest, hsplit⟩ := exists_split cs
  rw [hsplit.scan_eq] at h
  split at h
  · rename_i hfloating
    obtain rfl := hsplit.mark_eq_nil hfloating.1
    obtain ⟨body, suffix, glue, after, htext, hbroken, hglue, hends, hshown, hn⟩ :=
      broken_of_scanFloating h hsplit.within (hsplit.significant hfloating.1 hs)
    exact ⟨[], body, suffix, glue, after, hsplit.text.trans htext, hsplit.radix, hbroken, hglue,
      hends, hshown, hn⟩
  · dsimp only at h
    -- Refused for what follows or for its digits, the number is shown in the same way.
    have hmalformed : malformed (radixMark mark ++ digits)
        ((radixMark mark ++ digits).length + (rest.takeWhile isIntegerSuffix).length)
        (rest.dropWhile isIntegerSuffix) = (.error (.malformedNumber shown), n) := by
      split at h
      · exact h
      · split at h
        · cases h
        · exact h
        · cases h
    obtain ⟨glue, after, hlater, hglue, hends, rfl, rfl⟩ := glue_of_malformed hmalformed
    have hstops : ∀ c ∈ glue.head?, isIntegerSuffix c = false :=
      head_of_append (hlater ▸ head_dropWhile)
    refine ⟨mark, digits, rest.takeWhile isIntegerSuffix, glue, after, ?_, hsplit.radix,
      .integral hsplit.marked hsplit.within (fun c hc => List.mem_takeWhile_imp hc) hstops, hglue,
      hends, rfl, ?_⟩
    · have hrest := List.takeWhile_append_dropWhile (p := isIntegerSuffix) (l := rest)
      rw [hlater] at hrest
      rw [hsplit.text]
      nth_rewrite 1 [← hrest]
      simp
    · simp only [List.length_append, hsplit.length]

/-! ## Prefixes in lower case -/

/-- A number with the letter of its mark in lower case. -/
def lowered (text : List Char) : List Char :=
  radixMark text ++ text.drop (radixMark text).length

/-- Where a text has no mark, no beginning of it has one. -/
theorem radixMark_eq_nil_of_append {text : List Char} (h : radixMark (text ++ rest) = []) :
    radixMark text = [] := by
  obtain ⟨mark, body, rfl, hmark, hradix, -⟩ := exists_mark text
  by_cases hne : mark = []
  · rw [← hradix, hne]
    rfl
  · rw [List.append_assoc, radixMark_append hmark hne] at h
    rw [← hradix, h]

/-- Lower case is given to the mark that is recognised, and to nothing else. -/
theorem lowered_append (hmark : mark ∈ marks)
    (h : radixMark (mark ++ body ++ rest) = radixMark mark) :
    lowered (mark ++ body) = radixMark mark ++ body := by
  have hradix : radixMark (mark ++ body) = radixMark mark := by
    by_cases hne : mark = []
    · subst hne
      exact radixMark_eq_nil_of_append h
    · exact radixMark_append hmark hne body
  rw [lowered, hradix, ← length_of_mem_marks hmark, List.drop_left]

end Number

/-- Only numbers are refused as malformed. -/
theorem Lexeme.scan_malformed {cs : List Char} {shown : String} {n : Nat}
    (h : scan cs = (.error (.lexical (.malformedNumber shown)), n)) :
    startsNumber cs = true ∧ Number.scan cs = (.error (.malformedNumber shown), n) := by
  cases cs with
  | nil => cases h
  | cons c cs =>
      obtain ⟨fault, hfault, hrefused⟩ := scan_cons_eq_error h
      cases hfault
      rcases hrefused with hnumber | hscan | hscan | ⟨hinvalid, -⟩
      · exact hnumber
      · grind [Quoted.scanString]
      · grind [Quoted.scanCharacter]
      · cases hinvalid

/-! ## Failures to read -/

/-- Whether a text is cut into tokens, parsed, or read by calls with any tables: a failure of the
lexer comes from a call that begins in the text. -/
theorem Source.exists_read_of_failure {text : String} {file : Option String} {e : ParseError}
    {fault : LexicalFault} (h : tokenize text file = .error e ∨ parse text file = .error e ∨
      ∃ tables table, (((Source.ofString text file).after tables).nextToken table).1 = .error e)
    (hcause : e.cause = .lexical fault) :
    ∃ (s t : Source), s.StandsIn text.toList file ∧ s.nextLexeme = (.error e, t) := by
  have hstands := standsIn_ofString text file
  -- Lexing at once and parsing both fail as the lexemes end.
  have hending : (ofString text file).outlook.ending = .error e →
      ∃ (s t : Source), s.StandsIn text.toList file ∧ s.nextLexeme = (.error e, t) := by
    intro hending
    rw [← drop_zero (ofString text file)] at hending
    obtain ⟨n, t, hread⟩ := exists_read_of_outlook hending
    exact ⟨_, t, hstands.drop n, hread⟩
  rcases h with htokenize | hparse | ⟨tables, table, hcall⟩
  · refine hending ?_
    rw [tokenize_eq] at htokenize
    cases hend : (ofString text file).outlook.ending with
    | ok p =>
        rw [hend] at htokenize
        cases htokenize
    | error error =>
        rw [hend] at htokenize
        cases htokenize
        rfl
  · refine hending ((Parser.error_of_parse hparse).resolve_left ?_)
    rintro ⟨⟨grammatical, hgrammatical⟩, -⟩
    cases hcause.symm.trans hgrammatical
  · rcases hread : ((ofString text file).after tables).nextLexeme with ⟨error | ⟨w, p⟩, t⟩
    · simp only [nextToken, hread, Except.error.injEq] at hcall
      exact ⟨_, t, hstands.after tables, hcall ▸ hread⟩
    · simp [nextToken, hread] at hcall

namespace Number

/-- A malformed number is spanned from its first character up to where what it runs into stops.  Its
parts are shown, with the letter of the mark in lower case, except for the suffix; so all of it is
shown just if there is no suffix. -/
theorem shown_of_failure {text : String} {file : Option String} {e : ParseError} {shown : String}
    (h : tokenize text file = .error e ∨ parse text file = .error e ∨
      ∃ tables table, (((Source.ofString text file).after tables).nextToken table).1 = .error e)
    (hcause : e.cause = .lexical (.malformedNumber shown)) :
    ∃ front piece rest, text.toList = front ++ (piece ++ rest) ∧ e.start = .behind file front ∧
      e.stop = .behind file (front ++ piece) ∧ Ends rest ∧
      ∃ mark body suffix glue, piece = mark ++ body ++ suffix ++ glue ∧
        Broken mark body suffix glue ∧ (∀ c ∈ glue, isGlue c = true) ∧
        shown.toList = radixMark mark ++ body ++ glue ∧
        (shown.toList = lowered piece ↔ suffix = []) := by
  obtain ⟨s, t, hstands, hread⟩ := Source.exists_read_of_failure h hcause
  obtain ⟨front, back, fault, htext, hfault, hstart, ⟨n, hscan, hstop⟩ | ⟨_, -, -, rfl, -⟩⟩ :=
    hstands.exists_fault hread
  · cases hcause.symm.trans hfault
    obtain ⟨hnumber, hrefused⟩ := Lexeme.scan_malformed hscan
    obtain ⟨mark, body, suffix, glue, rest, rfl, hradix, hbroken, hglue, hends, rfl, rfl⟩ :=
      broken_of_scan hrefused hnumber
    rw [List.take_left] at hstop
    refine ⟨front, _, rest, htext, hstart, hstop, hends, mark, body, suffix, glue, rfl, hbroken,
      hglue, String.toList_ofList, ?_⟩
    have hlowered : lowered (mark ++ body ++ suffix ++ glue) =
        radixMark mark ++ (body ++ suffix ++ glue) := by
      rw [List.append_assoc, List.append_assoc, ← List.append_assoc body]
      exact lowered_append hbroken.marked (by simpa using hradix)
    rw [String.toList_ofList, hlowered, List.append_assoc, List.append_assoc,
      List.append_cancel_left_eq, List.append_cancel_left_eq, List.self_eq_append_left]
  · cases hcause.symm.trans hfault

/-- A hexadecimal number that runs into a letter of two bytes, an underscore and a point is shown
whole, with the letter of its mark in lower case. -/
theorem shown_of_failure_glued : ∃ e, tokenize "n = 0X1Fé_.;" none = .error e ∧
    e.cause = .lexical (.malformedNumber "0x1Fé_.") ∧
    ∃ front piece rest, "n = 0X1Fé_.;".toList = front ++ (piece ++ rest) ∧
      e.start = .behind none front ∧ e.stop = .behind none (front ++ piece) ∧ Ends rest ∧
      ∃ mark body suffix glue, piece = mark ++ body ++ suffix ++ glue ∧
        Broken mark body suffix glue ∧ (∀ c ∈ glue, isGlue c = true) ∧
        "0x1Fé_.".toList = radixMark mark ++ body ++ glue ∧
        ("0x1Fé_.".toList = lowered piece ↔ suffix = []) := by
  have hfails : tokenize "n = 0X1Fé_.;" none = .error
      { start := { line := 1, column := 5, offset := 4, file := none }
        stop := { line := 1, column := 12, offset := 12, file := none }
        cause := .lexical (.malformedNumber "0x1Fé_.") } := by
    decide +kernel
  exact ⟨_, hfails, rfl, shown_of_failure (.inl hfails) rfl⟩

/-- The failure spans four characters and shows three: the suffix is lost. -/
theorem suffix_not_shown : ∃ e, tokenize "12ux" none = .error e ∧
    e.cause = .lexical (.malformedNumber "12x") ∧ e.start = .behind none [] ∧
    e.stop = .behind none "12ux".toList ∧ "12x".toList ≠ lowered "12ux".toList := by
  have hfails : tokenize "12ux" none = .error
      { start := { line := 1, column := 1, offset := 0, file := none }
        stop := { line := 1, column := 5, offset := 4, file := none }
        cause := .lexical (.malformedNumber "12x") } := by
    decide +kernel
  exact ⟨_, hfails, rfl, rfl, by decide +kernel, by decide +kernel⟩

end Number
end CSyntax
