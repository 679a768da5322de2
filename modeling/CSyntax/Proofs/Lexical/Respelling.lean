import CSyntax.Proofs.Lexical.Lossless
import CSyntax.Proofs.Lockstep.Batch

/-!
# Respelling — texts written from their tokens

Tokens are shown in messages by a spelling of their own, which forgets how numbers were written.
For all that it says enough to read them back: the spellings of the tokens of a text, written one
after the other with white space in between, are cut into the same tokens
(`tokenize_respelled`).

* `Trivia.Separator` — white space with what trivia may follow it;
* `Respelled` — the texts that are written from kinds of tokens in this way;
* `Lexeme.Spelled.canonical` — the spelling of a lexeme is one of its texts;
* `Lexeme.endsAt_of_loose` — white space continues no lexeme.
-/

namespace CSyntax

/-! ## Separators -/

/-- White space, and behind it any gap. -/
def Trivia.Separator (sep : List Char) : Prop :=
  ∃ c gap, sep = c :: gap ∧ Unicode.isWhiteSpace c = true ∧ Trivia.Gap gap

/-- The texts in which kinds of tokens stand with separators between them. -/
inductive Respelled : List TokenKind → List Char → Prop
  | nil : Respelled [] []
  | last (kind : TokenKind) : Respelled [kind] kind.spelling.toList
  | cons {kind next : TokenKind} {kinds : List TokenKind} {sep text : List Char} :
      Trivia.Separator sep → Respelled (next :: kinds) text →
      Respelled (kind :: next :: kinds) (kind.spelling.toList ++ (sep ++ text))

/-- What follows is white space, or nothing. -/
def Loose (rest : List Char) : Prop :=
  ∀ c ∈ rest.head?, Unicode.isWhiteSpace c = true

theorem Trivia.Separator.gap {sep : List Char} (h : Separator sep) : Gap sep := by
  obtain ⟨c, gap, rfl, hc, hgap⟩ := h
  exact .space hc hgap

theorem Trivia.Separator.loose {sep : List Char} (h : Separator sep) (rest : List Char) :
    Loose (sep ++ rest) := by
  obtain ⟨c, gap, rfl, hc, -⟩ := h
  rintro _ ⟨⟩
  exact hc

/-- Behind the first token stands a gap that nothing but white space begins, and then the others. -/
theorem Respelled.exists_rest {kind : TokenKind} {kinds : List TokenKind} {text : List Char}
    (h : Respelled (kind :: kinds) text) :
    ∃ gap rest, text = kind.spelling.toList ++ (gap ++ rest) ∧ Trivia.Gap gap ∧
      Loose (gap ++ rest) ∧ Respelled kinds rest := by
  cases h with
  | last _ => exact ⟨[], [], by simp, .nil, nofun, .nil⟩
  | cons hsep hrest => exact ⟨_, _, rfl, hsep.gap, hsep.loose _, hrest⟩

/-! ## White space is apart from all else -/

namespace Unicode

variable {c : Char}

/-- White space is no letter or digit, and no visible character of the basic Latin block. -/
theorem apart_of_isWhiteSpace (h : isWhiteSpace c = true) :
    isAlphanumeric c = false ∧ (c.toNat < 33 ∨ 126 < c.toNat) := by
  -- There are few white space characters, so each is looked at.
  have hall : ∀ n ∈ whiteSpaceRanges.flatMap fun r => List.range' r.1 (r.2 + 1 - r.1),
      alphanumericRanges.contains n = false ∧ (n < 33 ∨ 126 < n) := by decide +kernel
  obtain ⟨r, hr, hfirst, hlast⟩ := Ranges.exists_of_contains h
  refine hall c.toNat (List.mem_flatMap.2 ⟨r, hr, List.mem_range'_1.2 ?_⟩)
  omega

theorem ne_of_isWhiteSpace {d : Char} (h : isWhiteSpace c = true)
    (hd : 33 ≤ d.toNat ∧ d.toNat ≤ 126) : c ≠ d := by
  rintro rfl
  have hapart := (apart_of_isWhiteSpace h).2
  omega

end Unicode

theorem Lexeme.visible_of_isWordPart {c : Char} (h : isWordPart c = true) :
    33 ≤ c.toNat ∧ c.toNat ≤ 126 := by
  have hle : ∀ d : Char, d ≤ c ↔ d.toNat ≤ c.toNat := fun d => Iff.rfl
  have hge : ∀ d : Char, c ≤ d ↔ c.toNat ≤ d.toNat := fun d => Iff.rfl
  by_cases hunderscore : c = '_'
  · subst hunderscore
    decide
  · simp [isWordPart, isWordStart, hle, hge, hunderscore] at h
    omega

theorem Lexeme.isWordPart_of_isWhiteSpace {c : Char} (h : Unicode.isWhiteSpace c = true) :
    isWordPart c = false := by
  have hapart := (Unicode.apart_of_isWhiteSpace h).2
  refine Bool.eq_false_iff.2 fun hpart => ?_
  have hvisible := visible_of_isWordPart hpart
  omega

theorem Loose.ends {rest : List Char} (h : Loose rest) : Number.Ends rest := by
  intro c hc
  have hspace := h c hc
  have hunderscore : c ≠ '_' := Unicode.ne_of_isWhiteSpace hspace (by decide)
  have hpoint : c ≠ '.' := Unicode.ne_of_isWhiteSpace hspace (by decide)
  simp [Number.isGlue, (Unicode.apart_of_isWhiteSpace hspace).1, hunderscore, hpoint]

/-! ## White space ends every lexeme -/

namespace Punctuator

variable {mark : Punctuator} {rest : List Char}

theorem visible (mark : Punctuator) : ∀ d ∈ mark.characters, 33 ≤ d.toNat ∧ d.toNat ≤ 126 := by
  have hall : mark.characters.all (fun d => 33 ≤ d.toNat ∧ d.toNat ≤ 126) = true := by
    cases mark <;> decide
  simpa using hall

/-- A longer punctuator in the same place would have white space in it. -/
theorem leads_of_loose (h : Loose rest) : mark.Leads (mark.characters ++ rest) := by
  refine ⟨List.prefix_append _ _, fun other hother => Nat.le_of_not_lt fun hlonger => ?_⟩
  obtain ⟨tail, htail⟩ := List.prefix_of_prefix_length_le (List.prefix_append mark.characters rest)
    hother (Nat.le_of_lt hlonger)
  rw [← htail, List.prefix_append_right_inj] at hother
  cases tail with
  | nil => simp [← htail] at hlonger
  | cons d ds =>
      obtain ⟨behind, rfl⟩ := hother
      have hspace : Unicode.isWhiteSpace d = true := h d rfl
      have hd : d ∈ other.characters := by simp [← htail]
      exact Unicode.ne_of_isWhiteSpace hspace (other.visible d hd) rfl

theorem startsNumber_of_loose (h : Loose rest) :
    Lexeme.startsNumber (mark.characters ++ rest) = false := by
  by_cases hpoint : mark = .point
  · subst hpoint
    cases rest with
    | nil => rfl
    | cons c cs =>
        have hglue := h.ends c rfl
        refine Bool.eq_false_iff.2 fun hdigit => ?_
        have hc : Number.isDigitOf 10 c = true := hdigit
        simp [Number.isGlue_of_isDigitOf (Number.isDigitOf_mono (by decide) hc)] at hglue
  · cases mark <;> first | rfl | exact absurd rfl hpoint

/-- Only a slash in front of another mark begins a comment, and white space is none. -/
theorem settled_of_loose (h : Loose rest) : Trivia.Settled (mark.characters ++ rest) := by
  have hmarks : ∀ c ∈ rest.head?, c ≠ '/' ∧ c ≠ '*' := fun c hc =>
    ⟨Unicode.ne_of_isWhiteSpace (h c hc) (by decide),
      Unicode.ne_of_isWhiteSpace (h c hc) (by decide)⟩
  by_cases hslash : mark = .slash
  · subst hslash
    cases rest with
    | nil => exact Trivia.settled_cons (by decide) (by decide) (by decide)
    | cons c cs =>
        obtain ⟨hline, hblock⟩ := hmarks c rfl
        exact Trivia.settled_cons (by decide) (by simp [hline.symm]) (by simp [hblock.symm])
  · by_cases hassign : mark = .slashAssign
    · subst hassign
      exact Trivia.settled_cons (by decide) (by simp) (by simp)
    · have hhead : ∃ c cs, mark.characters = c :: cs ∧ Unicode.isWhiteSpace c ≠ true ∧ c ≠ '/' := by
        cases mark <;> first
          | exact ⟨_, _, rfl, by decide, by decide⟩
          | exact absurd rfl hslash
          | exact absurd rfl hassign
      obtain ⟨c, cs, hhead, hspace, hc⟩ := hhead
      rw [hhead]
      exact Trivia.settled_of_ne hspace hc

end Punctuator

namespace Lexeme

variable {w : Lexeme} {text rest : List Char}

theorem endsAt_of_loose (h : Loose rest) (hw : w ≠ .endOfFile) : w.EndsAt rest := by
  cases w with
  | word name => exact fun c hc => isWordPart_of_isWhiteSpace (h c hc)
  | punctuator mark => exact ⟨Punctuator.leads_of_loose h, Punctuator.startsNumber_of_loose h⟩
  | string text => trivial
  | character text => trivial
  | integer value => exact h.ends
  | floating text => exact h.ends
  | endOfFile => exact absurd rfl hw

theorem settled_of_startsNumber (h : startsNumber text = true) : Trivia.Settled text := by
  cases text with
  | nil => cases h
  | cons c cs =>
      have hglue : Number.isGlue c = true := by
        by_cases hpoint : c = '.'
        · subst hpoint
          decide +kernel
        · rw [startsNumber.eq_2 c cs fun _ _ hc => absurd hc hpoint] at h
          exact Number.isGlue_of_isDigitOf (Number.isDigitOf_mono (by decide) h)
      refine Trivia.settled_of_ne (fun hspace => ?_) ?_
      · have hloose : Loose [c] := by simpa [Loose] using hspace
        simp [hloose.ends c rfl] at hglue
      · rintro rfl
        revert hglue
        decide +kernel

/-- A lexeme in front of white space is not taken for trivia. -/
theorem Spelled.settled (h : w.Spelled text) (hw : w ≠ .endOfFile) (hrest : Loose rest) :
    Trivia.Settled (text ++ rest) := by
  cases h with
  | @word c cs hc _ =>
      refine Trivia.settled_of_ne (fun hspace => ?_) ?_
      · have hpart := isWordPart_of_isWhiteSpace hspace
        simp [isWordPart, hc] at hpart
      · rintro rfl
        revert hc
        decide
  | number hnumber => exact settled_of_startsNumber (Number.startsNumber_of_spelled hnumber rest)
  | string _ => exact Trivia.settled_of_ne (by decide) (by decide)
  | character _ _ => exact Trivia.settled_of_ne (by decide) (by decide)
  | punctuator mark => exact Punctuator.settled_of_loose hrest
  | endOfFile => exact absurd rfl hw

/-! ## Spellings are texts -/

/-- The decimal digits of a number that is not zero do not begin with a zero. -/
theorem head_toDigits {n : Nat} (hn : 0 < n) : (Nat.toDigits 10 n).head? ≠ some '0' := by
  induction n using Nat.base_induction 10 (by decide) with
  | single m hm =>
      have hall : ∀ m < 10, 0 < m → Nat.digitChar m ≠ '0' := by decide
      simpa [Nat.toDigits_of_lt_base hm] using hall m hm hn
  | digit m k hk hm ih =>
      rw [← Nat.toDigits_append_toDigits (by decide) hm hk,
        List.head?_append_of_ne_nil _ Nat.toDigits_ne_nil]
      exact ih hm

theorem base_toDigits (n : Nat) : Number.base [] (Nat.toDigits 10 n) = 10 := by
  unfold Number.base Number.radix
  rcases Nat.eq_zero_or_pos n with rfl | hn
  · decide
  · simp [Number.radixMark, head_toDigits hn]

theorem range_of_mem_toDigits {n : Nat} {d : Char} (h : d ∈ Nat.toDigits 10 n) :
    '0' ≤ d ∧ d ≤ '9' := by
  have hdigit := Nat.isDigit_of_mem_toDigits (by decide) (by decide) h
  simpa [Char.isDigit, Char.le_def] using hdigit

theorem valueFrom_toDigits (n : Nat) : Number.valueFrom 10 0 (Nat.toDigits 10 n) = n := by
  calc Number.valueFrom 10 0 (Nat.toDigits 10 n)
      = Nat.ofDigitChars 10 (Nat.toDigits 10 n) 0 := by
        refine List.foldl_ext _ _ _ fun value d hd => ?_
        rw [Number.digitValue, if_pos (range_of_mem_toDigits hd), Nat.mul_comm]
    _ = n := Nat.ofDigitChars_ten_toDigits

/-- A number in decimal is one of its texts. -/
theorem spelled_toDigits (value : UInt64) :
    Number.Spelled (.integer value) (Nat.toDigits 10 value.toNat) := by
  have hintegral : Number.Integral [] (Nat.toDigits 10 value.toNat) [] :=
    { marked := by decide
      nonempty := Nat.toDigits_ne_nil
      within := by
        intro d hd
        rw [base_toDigits, Number.isDigitOf_ten]
        exact range_of_mem_toDigits hd
      letters := nofun
      bound := by
        rw [base_toDigits, valueFrom_toDigits]
        exact value.toNat_lt }
  have hspelled := Number.Spelled.integer hintegral
  rwa [base_toDigits, valueFrom_toDigits, UInt64.ofNat_toNat, List.nil_append, List.append_nil]
    at hspelled

theorem spelling_classifyWord (table : SymbolTable) (name : String) :
    (table.classifyWord name).spelling = name := by
  unfold SymbolTable.classifyWord
  split
  · rfl
  · split
    · rename_i word hword
      exact Keyword.ofSpelling?_eq_some hword
    · rfl

/-- Of the texts of a lexeme its spelling is one, whatever is declared. -/
theorem Spelled.canonical (h : w.Spelled text) (hw : w ≠ .endOfFile) (table : SymbolTable) :
    w.Spelled (table.classify w).spelling.toList := by
  have hshows : (table.classify w).Shows text :=
    TokenKind.shows_of_spelled (by rwa [SymbolTable.lexeme_classify])
  cases w with
  | word name =>
      obtain rfl := TokenKind.eq_toList_of_spelled h
      have hspelling := spelling_classifyWord table name
      rwa [SymbolTable.classify, hspelling]
  | punctuator mark => exact hshows ▸ h
  | string body => exact hshows ▸ h
  | character body => exact hshows ▸ h
  | integer value =>
      have hdigits : (toString value.toNat).toList = Nat.toDigits 10 value.toNat := by
        rw [Nat.toString_eq_ofList_toDigits, String.toList_ofList]
      change (Lexeme.integer value).Spelled (toString value.toNat).toList
      rw [hdigits]
      exact .number (spelled_toDigits value)
  | floating constant =>
      -- The constant is kept as it was written in front of its suffix, and needs none.
      cases h with
      | number hnumber =>
          cases hnumber with
          | @floating digits point introduction power suffix hparts hmarked _ =>
              have hplain := Number.Spelled.floating hparts hmarked (Or.inl rfl)
              rw [List.append_nil] at hplain
              simpa [SymbolTable.classify, TokenKind.spelling] using Spelled.number hplain
  | endOfFile => exact absurd rfl hw

end Lexeme

/-! ## Respelled texts are cut into the same lexemes -/

namespace Source

variable {s : Source} {w : Lexeme} {gap text rest : List Char}

/-- A text of a lexeme is read behind a gap if nothing continues it. -/
theorem nextLexeme_of_spelled (hrest : s.rest = gap ++ (text ++ rest)) (hgap : Trivia.Gap gap)
    (hsettled : Trivia.Settled (text ++ rest)) (hspelled : w.Spelled text) (hends : w.EndsAt rest) :
    ∃ p t, s.nextLexeme = (.ok (w, p), t) ∧ t.rest = rest := by
  have hmeasure : Trivia.measure s.rest = { length := gap.length, closed := true } := by
    rw [hrest, Trivia.measure_append hgap, hsettled]
    rfl
  rw [nextLexeme_eq, hmeasure, if_pos rfl]
  simp only [drop_append hrest, Lexeme.scan_of_spelled hspelled hends]
  exact ⟨_, _, rfl, by simp [drop]⟩

/-- Spellings with separators between them are cut into the lexemes that they spell. -/
theorem outlook_of_respelled {table : SymbolTable} {lexemes : List Lexeme}
    (hlexemes : ∀ w ∈ lexemes, w ≠ .endOfFile ∧ w.Spelled (table.classify w).spelling.toList)
    (h : Respelled (lexemes.map table.classify) text) (hgap : Trivia.Gap gap)
    (hrest : s.rest = gap ++ text) :
    s.outlook.pieces.map (·.lexeme) = lexemes ∧ ∃ p, s.outlook.ending = .ok p := by
  -- Each separator is the gap in front of the lexeme behind it, and the first gap is any.
  induction lexemes generalizing s gap text with
  | nil =>
      cases h
      have hend : Trivia.Settled ([] ++ []) := by
        rw [List.nil_append, Trivia.Settled, Trivia.measure]
      obtain ⟨p, t, hread, -⟩ := nextLexeme_of_spelled hrest hgap hend .endOfFile rfl
      rw [outlook_of_endOfFile hread]
      exact ⟨rfl, p, rfl⟩
  | cons w others ih =>
      obtain ⟨⟨hw, hspelled⟩, hothers⟩ := List.forall_mem_cons.1 hlexemes
      obtain ⟨behind, later, rfl, hbehind, hloose, hlater⟩ := h.exists_rest
      obtain ⟨p, t, hread, ht⟩ := nextLexeme_of_spelled hrest hgap (hspelled.settled hw hloose)
        hspelled (Lexeme.endsAt_of_loose hloose hw)
      obtain ⟨hpieces, hending⟩ := ih hothers hlater hbehind ht
      rw [outlook_of_ok hread hw]
      exact ⟨by rw [List.map_cons, hpieces], hending⟩

end Source

/-- Spelling the tokens of a text and lexing undo each other: whatever separators stand between the
spellings, they are cut into tokens of the same kinds. -/
theorem tokenize_respelled {text other : String} {file label : Option String} {tokens : List Token}
    (h : tokenize text file = .ok tokens)
    (hrespelled : Respelled (tokens.map (·.kind)) other.toList) :
    ∃ again, tokenize other label = .ok again ∧ again.map (·.kind) = tokens.map (·.kind) := by
  rw [tokenize_eq] at h
  cases hend : (Source.ofString text file).outlook.ending with
  | error e =>
      rw [hend] at h
      cases h
  | ok p =>
      rw [hend] at h
      obtain rfl := Except.ok.inj h
      have hkinds : ∀ s : Source, (s.outlook.pieces.map fun piece =>
          ({ kind := SymbolTable.empty.classify piece.lexeme, position := piece.position } :
            Token)).map (·.kind) =
          (s.outlook.pieces.map (·.lexeme)).map SymbolTable.empty.classify := by
        intro s
        simp
      rw [hkinds] at hrespelled
      -- All lexemes of a text have spellings, and so can be spelled again.
      have hlexemes : ∀ w ∈ (Source.ofString text file).outlook.pieces.map (·.lexeme),
          w ≠ .endOfFile ∧ w.Spelled (SymbolTable.empty.classify w).spelling.toList := by
        intro w hw
        obtain ⟨piece, hpiece, rfl⟩ := List.mem_map.1 hw
        obtain ⟨hne, cs, n, hscan⟩ := Source.scan_of_mem_outlook hpiece
        obtain ⟨spelled, -, -, hspelled, -⟩ := Lexeme.spelled_of_scan hscan
        exact ⟨hne, hspelled.canonical hne SymbolTable.empty⟩
      obtain ⟨hpieces, q, hq⟩ := Source.outlook_of_respelled (s := .ofString other label)
        hlexemes hrespelled .nil rfl
      refine ⟨_, by rw [tokenize_eq, hq]; rfl, ?_⟩
      rw [hkinds, hkinds, hpieces]

/-- Numbers are written anew in decimal and without suffixes, and a comment with a mark in it does
not join the mark behind it. -/
theorem tokenize_respelled_numbers :
    ∃ tokens again, tokenize "x+=0x10u-.5e+1F" none = .ok tokens ∧
      tokenize "x /*+*/+= //\n16\n- .5e+1" none = .ok again ∧
      again.map (·.kind) = tokens.map (·.kind) := by
  have hkinds : (tokenize "x+=0x10u-.5e+1F" none).toOption.map (·.map (·.kind)) =
      some [.identifier "x", .punctuator .plusAssign, .integer 16, .punctuator .minus,
        .floating ".5e+1"] := by decide +kernel
  have hrespelled : Respelled [.identifier "x", .punctuator .plusAssign, .integer 16,
      .punctuator .minus, .floating ".5e+1"] "x /*+*/+= //\n16\n- .5e+1".toList :=
    .cons ⟨' ', "/*+*/".toList, rfl, by decide, @Trivia.Gap.block ['+'] [] (by decide) .nil⟩ <|
      .cons ⟨' ', "//\n".toList, rfl, by decide, @Trivia.Gap.line [] [] (by decide) .nil⟩ <|
        .cons ⟨'\n', [], rfl, by decide, .nil⟩ <|
          .cons ⟨' ', [], rfl, by decide, .nil⟩ <| .last _
  rcases htokens : tokenize "x+=0x10u-.5e+1F" none with e | tokens
  · simp [htokens, Except.toOption] at hkinds
  · rw [htokens] at hkinds
    rw [← Option.some.inj hkinds] at hrespelled
    obtain ⟨again, hagain, hsame⟩ := @tokenize_respelled _ _ _ none _ htokens hrespelled
    exact ⟨tokens, again, rfl, hagain, hsame⟩

end CSyntax
