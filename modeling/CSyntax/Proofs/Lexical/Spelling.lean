import CSyntax.Proofs.Lexical.Numbers

/-!
# Spelling — the texts of lexemes

Which texts are cut off as one lexeme is said here without the scanners:

* `Quoted.Body` — what may stand between quotes;
* `Lexeme.Spelled` — the texts of each lexeme;
* `Lexeme.EndsAt` — a lexeme is not continued by what follows it, so it is as long as can be;
* `Lexeme.scan_eq_ok_iff` — a text begins with a lexeme just if it begins with a text of it that is
  not continued.
-/

namespace CSyntax

/-! ## Quoted text -/

namespace Quoted

/-- What may stand between quotes: no quote of their kind and no line feed, except that a backslash
takes any character but a line feed along. -/
inductive Body (quote : Char) : List Char → Prop
  | nil : Body quote []
  | plain {c : Char} {cs : List Char} : c ≠ quote → c ≠ '\n' → c ≠ '\\' → Body quote cs →
      Body quote (c :: cs)
  | escape {c : Char} {cs : List Char} : c ≠ '\n' → Body quote cs → Body quote ('\\' :: c :: cs)

variable {quote c : Char} {cs body : List Char} {n : Nat}

theorem read_quote (cs : List Char) : read quote (quote :: cs) = (some [], 1) := by
  rw [read.eq_def]
  exact if_pos rfl

theorem read_plain (hquote : c ≠ quote) (hline : c ≠ '\n') (hescape : c ≠ '\\') (cs : List Char) :
    read quote (c :: cs) = ((read quote cs).1.map (c :: ·), (read quote cs).2 + 1) := by
  rw [read.eq_def]
  simp only [if_neg hquote, if_neg hline, if_neg hescape]

theorem read_escape (hquote : '\\' ≠ quote) (hline : c ≠ '\n') (cs : List Char) :
    read quote ('\\' :: c :: cs) =
      ((read quote cs).1.map ('\\' :: c :: ·), (read quote cs).2 + 2) := by
  have hslash : '\\' ≠ '\n' := by decide
  rw [read.eq_def]
  simp only [if_neg hquote, if_neg hslash, if_neg hline, if_pos]

theorem read_of_body (h : Body quote body) (hquote : '\\' ≠ quote) (rest : List Char) :
    read quote (body ++ quote :: rest) = (some body, body.length + 1) := by
  induction h with
  | nil => exact read_quote rest
  | plain hc hline hescape _ ih => rw [List.cons_append, read_plain hc hline hescape, ih]; rfl
  | escape hline _ ih =>
      rw [List.cons_append, List.cons_append, read_escape hquote hline, ih]
      rfl

theorem body_of_read (h : read quote cs = (some body, n)) :
    Body quote body ∧ n = body.length + 1 ∧ ∃ rest, cs = body ++ quote :: rest := by
  induction cs using read.induct quote generalizing body n with
  | case1 => cases h
  | case2 cs =>
      rw [read_quote, Prod.mk.injEq, Option.some.injEq] at h
      obtain ⟨rfl, rfl⟩ := h
      exact ⟨.nil, rfl, cs, rfl⟩
  | case3 cs hquote =>
      rw [read.eq_def] at h
      simp [hquote] at h
  | case4 hquote =>
      rw [read.eq_def] at h
      simp [hquote] at h
  | case5 cs hquote =>
      rw [read.eq_def] at h
      simp [hquote] at h
  | case6 d cs hline text length hread hquote _ ih =>
      rw [read_escape hquote hline, hread, Prod.mk.injEq, Option.map_eq_some_iff] at h
      obtain ⟨⟨inner, rfl, rfl⟩, rfl⟩ := h
      obtain ⟨hinner, hlength, rest, rfl⟩ := ih hread
      exact ⟨.escape hline hinner, by simp [hlength], rest, rfl⟩
  | case7 d cs hquote hline hescape text length hread ih =>
      rw [read_plain hquote hline hescape, hread, Prod.mk.injEq, Option.map_eq_some_iff] at h
      obtain ⟨⟨inner, rfl, rfl⟩, rfl⟩ := h
      obtain ⟨hinner, hlength, rest, rfl⟩ := ih hread
      exact ⟨.plain hquote hline hescape hinner, by simp [hlength], rest, rfl⟩

theorem body_of_scanString {w : Lexeme} (h : scanString cs = (.ok w, n)) :
    ∃ body rest, cs = body ++ '"' :: rest ∧ Body '"' body ∧ w = .string (String.ofList body) ∧
      n = body.length + 2 := by
  unfold scanString at h
  split at h
  · rename_i body length hread
    rw [Prod.mk.injEq, Except.ok.injEq] at h
    obtain ⟨hbody, rfl, rest, rfl⟩ := body_of_read hread
    exact ⟨body, rest, rfl, hbody, h.1.symm, h.2.symm⟩
  · cases h

theorem body_of_scanCharacter {w : Lexeme} (h : scanCharacter cs = (.ok w, n)) :
    ∃ body rest, cs = body ++ '\'' :: rest ∧ Body '\'' body ∧ body ≠ [] ∧
      w = .character (String.ofList body) ∧ n = body.length + 2 := by
  unfold scanCharacter at h
  split at h
  · cases h
  · rename_i body length hne hread
    rw [Prod.mk.injEq, Except.ok.injEq] at h
    obtain ⟨hbody, rfl, rest, rfl⟩ := body_of_read hread
    exact ⟨body, rest, rfl, hbody, hne, h.1.symm, h.2.symm⟩
  · cases h

end Quoted

/-! ## Punctuators -/

namespace Punctuator

variable {mark : Punctuator} {cs : List Char}

/-- The punctuator that a text begins with, and no longer one. -/
def Leads (mark : Punctuator) (cs : List Char) : Prop :=
  mark.characters <+: cs ∧
    ∀ other : Punctuator, other.characters <+: cs →
      other.characters.length ≤ mark.characters.length

theorem ofCharacters?_take_length {other : Punctuator} (h : other.characters <+: cs) :
    ofCharacters? (cs.take other.characters.length) = some other := by
  rw [← List.prefix_iff_eq_take.1 h]
  exact ofCharacters?_characters other

theorem Leads.unique {other : Punctuator} (h : mark.Leads cs) (hother : other.Leads cs) :
    mark = other := by
  have hlength : mark.characters.length = other.characters.length :=
    Nat.le_antisymm (hother.2 _ h.1) (h.2 _ hother.1)
  refine characters_injective ?_
  rw [List.prefix_iff_eq_take.1 h.1, List.prefix_iff_eq_take.1 hother.1, hlength]

/-- What is found among the first characters leads the text if more characters are none. -/
theorem leads_of_ofCharacters? {k : Nat} (hfound : ofCharacters? (cs.take k) = some mark)
    (hlonger : ∀ j, k < j → j ≤ 3 → ofCharacters? (cs.take j) = none) : mark.Leads cs := by
  have hmark : mark.characters = cs.take k := ofCharacters?_eq_some hfound
  refine ⟨hmark ▸ List.take_prefix k cs, fun other hother => ?_⟩
  have hshort : other.characters.length ≤ k := by
    refine Nat.le_of_not_lt fun hlong => ?_
    have hnone := hlonger _ hlong other.length_characters.2
    rw [ofCharacters?_take_length hother] at hnone
    cases hnone
  have hfits := hother.length_le
  rw [hmark, List.length_take]
  omega

theorem longest?_eq_some_iff : longest? cs = some mark ↔ mark.Leads cs := by
  have hleads : ∀ other, longest? cs = some other → other.Leads cs := by
    intro other h
    unfold longest? at h
    cases hthree : ofCharacters? (cs.take 3) with
    | some found =>
        obtain rfl : found = other := by simpa [hthree] using h
        exact leads_of_ofCharacters? hthree fun j hj hle => absurd hle (Nat.not_le.2 hj)
    | none =>
        cases htwo : ofCharacters? (cs.take 2) with
        | some found =>
            obtain rfl : found = other := by simpa [hthree, htwo] using h
            refine leads_of_ofCharacters? htwo fun j hj hle => ?_
            obtain rfl : j = 3 := by omega
            exact hthree
        | none =>
            have hone : ofCharacters? (cs.take 1) = some other := by simpa [hthree, htwo] using h
            refine leads_of_ofCharacters? hone fun j hj hle => ?_
            obtain rfl | rfl : j = 2 ∨ j = 3 := by omega
            · exact htwo
            · exact hthree
  refine ⟨hleads mark, fun h => ?_⟩
  -- Something is found, and all that may be found leads the text.
  have hsome : longest? cs ≠ none := by
    have hfound := ofCharacters?_take_length h.1
    have hlength := mark.length_characters
    obtain hone | htwo | hthree : mark.characters.length = 1 ∨ mark.characters.length = 2 ∨
        mark.characters.length = 3 := by omega
    · rw [hone] at hfound
      simp [longest?, hfound]
    · rw [htwo] at hfound
      simp [longest?, hfound]
    · rw [hthree] at hfound
      simp [longest?, hfound]
  obtain ⟨other, hother⟩ := Option.ne_none_iff_exists'.1 hsome
  rw [hother, (hleads other hother).unique h]

/-- What is read by single characters leads the text, since no longer punctuator is read there. -/
theorem leads_of_read? {c : Char} {n : Nat} (h : read? c cs = some (mark, n)) :
    mark.Leads (c :: cs) ∧ n = mark.characters.length := by
  obtain ⟨hmark, hlength⟩ := characters_of_read? h
  refine ⟨⟨hmark ▸ List.take_prefix n _, fun other hother => ?_⟩, hlength.symm⟩
  obtain ⟨found, k, hread, hle⟩ := exists_read? hother
  rw [h] at hread
  cases hread
  exact hlength ▸ hle

/-- Reading by single characters finds the longest punctuator. -/
theorem read?_eq (c : Char) (cs : List Char) :
    read? c cs = (longest? (c :: cs)).map fun mark => (mark, mark.characters.length) := by
  cases hread : read? c cs with
  | some found =>
      obtain ⟨mark, n⟩ := found
      obtain ⟨hleads, rfl⟩ := leads_of_read? hread
      rw [longest?_eq_some_iff.2 hleads]
      rfl
  | none =>
      have hnone : longest? (c :: cs) = none := by
        refine Option.eq_none_iff_forall_ne_some.2 fun mark hmark => ?_
        obtain ⟨_, _, hsome, -⟩ := exists_read? (longest?_eq_some_iff.1 hmark).1
        rw [hread] at hsome
        cases hsome
      rw [hnone]
      rfl

end Punctuator

/-! ## Lexemes -/

namespace Lexeme

/-- The texts of a lexeme. -/
inductive Spelled : Lexeme → List Char → Prop
  | word {c : Char} {cs : List Char} : isWordStart c = true → (∀ d ∈ cs, isWordPart d = true) →
      Spelled (.word (String.ofList (c :: cs))) (c :: cs)
  | number {w : Lexeme} {text : List Char} : Number.Spelled w text → Spelled w text
  | string {body : List Char} : Quoted.Body '"' body →
      Spelled (.string (String.ofList body)) ('"' :: (body ++ ['"']))
  | character {body : List Char} : Quoted.Body '\'' body → body ≠ [] →
      Spelled (.character (String.ofList body)) ('\'' :: (body ++ ['\'']))
  | punctuator (mark : Punctuator) : Spelled (.punctuator mark) mark.characters
  | endOfFile : Spelled .endOfFile []

/-- A lexeme ends in front of what does not continue it: a word in front of what is no part of
words, a number in front of what is no letter, digit, underscore or point, and a punctuator where no
longer one and no number begins in its place.  Quotes end what they enclose. -/
def EndsAt : Lexeme → List Char → Prop
  | .word _, rest => ∀ c ∈ rest.head?, isWordPart c = false
  | .integer _, rest | .floating _, rest => Number.Ends rest
  | .punctuator mark, rest =>
      mark.Leads (mark.characters ++ rest) ∧ startsNumber (mark.characters ++ rest) = false
  | .string _, _ | .character _, _ => True
  | .endOfFile, rest => rest = []

variable {w : Lexeme} {cs text rest : List Char} {n : Nat}

theorem isWordStart_of_startsNumber {c : Char} (h : startsNumber (c :: cs) = true) :
    isWordStart c = false := by
  by_cases hpoint : c = '.'
  · subst hpoint
    decide
  · rw [startsNumber.eq_2 c cs fun _ _ hc => absurd hc hpoint, Number.isDigitOf_ten] at h
    -- Digits stand in front of all letters and of the underscore.
    have hle : ∀ d : Char, '9' < d → ¬ d ≤ c := fun d hd hdc =>
      absurd (Char.le_trans hdc h.2) (Char.not_le.2 hd)
    have hunderscore : c ≠ '_' := by
      rintro rfl
      exact absurd h.2 (by decide)
    simp [isWordStart, hle 'a' (by decide), hle 'A' (by decide), hunderscore]

theorem startsNumber_of_quote {c : Char} (hc : c = '"' ∨ c = '\'') (cs : List Char) :
    startsNumber (c :: cs) = false := by
  rcases hc with rfl | rfl <;> rfl

theorem head_of_punctuator (mark : Punctuator) :
    ∃ c cs, mark.characters = c :: cs ∧ isWordStart c = false ∧ c ≠ '"' ∧ c ≠ '\'' := by
  cases mark <;> exact ⟨_, _, rfl, by decide, by decide, by decide⟩

theorem endsAt_number (h : Number.Spelled w text) : w.EndsAt rest ↔ Number.Ends rest := by
  cases h <;> rfl

theorem scan_of_startsNumber (h : startsNumber cs = true) :
    scan cs = ofScanner (Number.scan cs) := by
  cases cs with
  | nil => cases h
  | cons c cs => rw [scan, if_neg (by simp [isWordStart_of_startsNumber h]), if_pos h]

/-- A text that is not continued is read whole: its first character tells what it is a text of. -/
theorem scan_of_spelled (h : w.Spelled text) (hends : w.EndsAt rest) :
    scan (text ++ rest) = (.ok w, text.length) := by
  cases h with
  | @word c cs hc hcs =>
      have hall : ∀ d ∈ c :: cs, isWordPart d = true := by
        rw [List.forall_mem_cons]
        exact ⟨by simp [isWordPart, hc], hcs⟩
      obtain ⟨htake, -⟩ := takeWhile_append_of_head hall hends
      rw [List.cons_append, scan, if_pos hc, ← List.cons_append, htake]
  | number hnumber =>
      rw [scan_of_startsNumber (Number.startsNumber_of_spelled hnumber rest), ofScanner_eq_ok]
      exact Number.scan_of_spelled hnumber ((endsAt_number hnumber).1 hends)
  | string hbody =>
      have hread := Quoted.read_of_body hbody (by decide) rest
      simp [scan, isWordStart, startsNumber_of_quote, Quoted.scanString, hread]
  | @character body hbody hne =>
      obtain ⟨c, cs, rfl⟩ := List.exists_cons_of_ne_nil hne
      have hread := Quoted.read_of_body hbody (by decide) rest
      simp only [List.cons_append] at hread
      simp [scan, isWordStart, startsNumber_of_quote, Quoted.scanCharacter, hread]
  | punctuator mark =>
      obtain ⟨hleads, hstarts⟩ := hends
      have hlongest := Punctuator.longest?_eq_some_iff.2 hleads
      obtain ⟨c, cs, hhead, hword, hstring, hcharacter⟩ := head_of_punctuator mark
      rw [hhead, List.cons_append] at hstarts hlongest ⊢
      rw [scan, if_neg (by simp [hword]), if_neg (by simp [hstarts]), if_neg hstring,
        if_neg hcharacter, scanPunctuator, Punctuator.read?_eq, hlongest]
      simp only [Option.map_some, hhead]
  | endOfFile =>
      have hrest : rest = [] := hends
      rw [hrest, List.append_nil, scan, List.length_nil]

theorem spelled_of_scan (h : scan cs = (.ok w, n)) :
    ∃ text rest, cs = text ++ rest ∧ w.Spelled text ∧ w.EndsAt rest ∧ n = text.length := by
  cases cs with
  | nil =>
      rw [scan, Prod.mk.injEq, Except.ok.injEq] at h
      obtain ⟨rfl, rfl⟩ := h
      exact ⟨[], [], rfl, .endOfFile, rfl, rfl⟩
  | cons c cs =>
      rw [scan] at h
      split at h
      · rename_i hword
        have hpart : isWordPart c = true := by simp [isWordPart, hword]
        simp only [Prod.mk.injEq, Except.ok.injEq] at h
        obtain ⟨rfl, rfl⟩ := h
        refine ⟨(c :: cs).takeWhile isWordPart, (c :: cs).dropWhile isWordPart,
          List.takeWhile_append_dropWhile.symm, ?_, head_dropWhile, rfl⟩
        rw [List.takeWhile_cons_of_pos hpart]
        exact .word hword fun d hd => List.mem_takeWhile_imp hd
      · split at h
        · rename_i hnumber
          obtain ⟨text, rest, hcs, hspelled, hends, hn⟩ :=
            Number.spelled_of_scan (ofScanner_eq_ok.1 h) hnumber
          exact ⟨text, rest, hcs, .number hspelled, (endsAt_number hspelled).2 hends, hn⟩
        · rename_i hstarts
          split at h
          · rename_i hquote
            subst hquote
            obtain ⟨body, rest, rfl, hbody, rfl, rfl⟩ :=
              Quoted.body_of_scanString (ofScanner_eq_ok.1 h)
            exact ⟨'"' :: (body ++ ['"']), rest, by simp, .string hbody, trivial, by simp⟩
          · split at h
            · rename_i hquote
              subst hquote
              obtain ⟨body, rest, rfl, hbody, hne, rfl, rfl⟩ :=
                Quoted.body_of_scanCharacter (ofScanner_eq_ok.1 h)
              exact ⟨'\'' :: (body ++ ['\'']), rest, by simp, .character hbody hne, trivial,
                by simp⟩
            · rw [scanPunctuator] at h
              split at h
              · rename_i mark length hread
                rw [Prod.mk.injEq, Except.ok.injEq] at h
                obtain ⟨rfl, rfl⟩ := h
                obtain ⟨hleads, rfl⟩ := Punctuator.leads_of_read? hread
                obtain ⟨rest, hrest⟩ := hleads.1
                refine ⟨mark.characters, rest, hrest.symm, .punctuator mark, ⟨?_, ?_⟩, rfl⟩
                · exact hrest ▸ hleads
                · exact hrest ▸ Bool.eq_false_iff.2 hstarts
              · cases h

/-- A text begins with a lexeme just if it begins with one of its texts that is not continued. -/
theorem scan_eq_ok_iff : scan cs = (.ok w, n) ↔
    ∃ text rest, cs = text ++ rest ∧ w.Spelled text ∧ w.EndsAt rest ∧ n = text.length := by
  constructor
  · exact spelled_of_scan
  · rintro ⟨text, rest, rfl, hspelled, hends, rfl⟩
    exact scan_of_spelled hspelled hends

/-- Only the end of a text is a lexeme without a text. -/
theorem Spelled.ne_nil (h : w.Spelled text) (hw : w ≠ .endOfFile) : text ≠ [] := by
  cases h with
  | number hnumber =>
      rintro rfl
      cases Number.startsNumber_of_spelled hnumber []
  | punctuator mark => exact List.length_pos_iff.1 mark.length_characters.1
  | endOfFile => exact absurd rfl hw
  | _ => exact List.cons_ne_nil _ _

/-- A text is refused by the scanner for what it begins with, or because nothing begins with its
first character. -/
theorem scan_cons_eq_error {c : Char} {cause : Cause} (h : scan (c :: cs) = (.error cause, n)) :
    ∃ fault, cause = .lexical fault ∧
      (startsNumber (c :: cs) = true ∧ Number.scan (c :: cs) = (.error fault, n) ∨
        Quoted.scanString cs = (.error fault, n) ∨ Quoted.scanCharacter cs = (.error fault, n) ∨
        fault = .invalidCharacter c ∧ n = 1) := by
  by_cases hword : isWordStart c = true
  · simp [scan, hword] at h
  · by_cases hnumber : startsNumber (c :: cs) = true
    · rw [scan, if_neg hword, if_pos hnumber] at h
      obtain ⟨fault, rfl, hscan⟩ := ofScanner_eq_error.1 h
      exact ⟨fault, rfl, Or.inl ⟨hnumber, hscan⟩⟩
    · rw [scan, if_neg hword, if_neg hnumber] at h
      split at h
      · obtain ⟨fault, rfl, hscan⟩ := ofScanner_eq_error.1 h
        exact ⟨fault, rfl, Or.inr (Or.inl hscan)⟩
      · split at h
        · obtain ⟨fault, rfl, hscan⟩ := ofScanner_eq_error.1 h
          exact ⟨fault, rfl, Or.inr (Or.inr (Or.inl hscan))⟩
        · rw [scanPunctuator] at h
          split at h <;> cases h
          exact ⟨_, rfl, Or.inr (Or.inr (Or.inr ⟨rfl, rfl⟩))⟩

/-- What is refused is not the end of the text, and it has characters.  So no punctuator is looked
for at the end, and the fault is one of the text. -/
theorem refused_of_error {cause : Cause} (h : scan cs = (.error cause, n)) :
    ∃ fault, cause = .lexical fault ∧ cs ≠ [] ∧ 0 < n := by
  cases cs with
  | nil =>
      rw [scan] at h
      cases h
  | cons c cs =>
      obtain ⟨fault, rfl, hrefused⟩ := scan_cons_eq_error h
      refine ⟨fault, rfl, List.cons_ne_nil c cs, ?_⟩
      rcases hrefused with ⟨hnumber, hscan⟩ | hscan | hscan | ⟨-, rfl⟩
      · have hpos := Number.length_pos_scan hnumber
        rwa [hscan] at hpos
      · grind [Quoted.scanString]
      · grind [Quoted.scanCharacter]
      · exact Nat.one_pos

end Lexeme
end CSyntax
