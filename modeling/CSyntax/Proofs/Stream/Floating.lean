import CSyntax.Proofs.Stream.Outlook
import Mathlib.Data.List.TakeWhile

/-!
# Floating — the floating constants that are cut off have values

The scanner of numbers and the reader of their values spell floating constants out separately.  What
the one cuts off the other can read (`Source.readable_of_mem_outlook`), so no rule of the grammar
ever comes to a floating constant without a value.
-/

namespace CSyntax

/-- A lexeme that a floating constant makes has a value. -/
def Lexeme.Readable (w : Lexeme) : Prop :=
  ∀ text, w = .floating text → (Decimal.constant? text.toList).isSome

/-! ## Constants that have values -/

/-- Characters of a class are all those at the start of a text if another one follows them. -/
theorem takeWhile_append_of_head {p : Char → Bool} {cs rest : List Char} (h : ∀ c ∈ cs, p c = true)
    (hrest : ∀ c ∈ rest.head?, p c = false) :
    (cs ++ rest).takeWhile p = cs ∧ (cs ++ rest).dropWhile p = rest := by
  rw [List.takeWhile_append_of_pos h, List.dropWhile_append_of_pos h]
  cases rest with
  | nil => simp
  | cons c cs => simp [hrest c rfl]

/-- What is left of a text behind a class begins with none of it. -/
theorem head_dropWhile {p : Char → Bool} {cs : List Char} :
    ∀ c ∈ (cs.dropWhile p).head?, p c = false := by
  intro c hc
  have hhead := List.head?_dropWhile_not p cs
  rw [Option.mem_def.1 hc] at hhead
  exact hhead

namespace Decimal

open Number (isDigitOf)

/-- An exponent of one sign at most and some digits has a value. -/
theorem isSome_exponent? {sign power : List Char} (hsign : sign = [] ∨ sign = ['+'] ∨ sign = ['-'])
    (hpower : power ≠ []) (hdigits : ∀ d ∈ power, isDigitOf 10 d = true) :
    (exponent? (sign ++ power)).isSome := by
  have hall : power ≠ [] ∧ power.all (isDigitOf 10) = true := ⟨hpower, List.all_eq_true.2 hdigits⟩
  obtain ⟨d, ds, rfl⟩ := List.exists_cons_of_ne_nil hpower
  have hdigit := hdigits d List.mem_cons_self
  rcases hsign with rfl | rfl | rfl
  · have hplus : d ≠ '+' := by rintro rfl; cases hdigit
    have hminus : d ≠ '-' := by rintro rfl; cases hdigit
    rw [List.nil_append, exponent?.eq_3 _ (by simp [hplus]) (by simp [hminus])]
    simp only [if_pos hall, Option.isSome_some]
  · rw [List.singleton_append, exponent?.eq_1]
    simp only [if_pos hall, Option.isSome_some]
  · rw [List.singleton_append, exponent?.eq_2]
    simp only [if_pos hall, Option.isSome_some, Option.isSome_map]

/-- The parts of a floating constant: digits with a point before, among or behind them, and an
exponent that is complete if it is begun. -/
structure Parts (digits fraction introduction power : List Char) : Prop where
  whole : ∀ d ∈ digits, isDigitOf 10 d = true
  point : fraction = [] ∨ ∃ ds, fraction = '.' :: ds ∧ ∀ d ∈ ds, isDigitOf 10 d = true
  exponent : introduction = [] ∧ power = [] ∨ ∃ c sign, introduction = c :: sign ∧
    (c = 'e' ∨ c = 'E') ∧ (sign = [] ∨ sign = ['+'] ∨ sign = ['-']) ∧ power ≠ [] ∧
    ∀ d ∈ power, isDigitOf 10 d = true
  significant : digits ≠ [] ∨ ∃ d ds, fraction = '.' :: d :: ds

theorem Parts.isSome_constant? {digits fraction introduction power : List Char}
    (h : Parts digits fraction introduction power) :
    (constant? (digits ++ fraction ++ introduction ++ power)).isSome := by
  -- What is behind the fraction begins with no digit and with no point.
  have hbehind : ∀ c ∈ (introduction ++ power).head?, isDigitOf 10 c = false ∧ c ≠ '.' := by
    rcases h.exponent with ⟨rfl, rfl⟩ | ⟨c, sign, rfl, rfl | rfl, -⟩ <;>
      simp [isDigitOf, Number.digitValue]
  have hfraction : ∀ c ∈ (fraction ++ (introduction ++ power)).head?, isDigitOf 10 c = false := by
    rcases h.point with rfl | ⟨ds, rfl, -⟩
    · exact fun c hc => (hbehind c hc).1
    · simp [isDigitOf, Number.digitValue]
  have hparts : ∃ part, Decimal.fraction (fraction ++ (introduction ++ power)) =
      (part, introduction ++ power) ∧ (digits = [] → part ≠ []) := by
    rcases h.point with rfl | ⟨ds, rfl, hds⟩
    · refine ⟨[], ?_, fun hdigits => absurd hdigits (h.significant.resolve_right (by simp))⟩
      rw [List.nil_append]
      generalize introduction ++ power = rest at hbehind
      cases rest with
      | nil => rfl
      | cons c cs => rw [Decimal.fraction.eq_2 _ (by simp [(hbehind c rfl).2])]
    · obtain ⟨htake, hdrop⟩ := takeWhile_append_of_head hds fun c hc => (hbehind c hc).1
      refine ⟨ds, by rw [List.cons_append, Decimal.fraction, htake, hdrop], fun hdigits => ?_⟩
      obtain ⟨d, others, heq⟩ := h.significant.resolve_left (by simp [hdigits])
      cases heq
      exact List.cons_ne_nil _ _
  obtain ⟨htake, hdrop⟩ := takeWhile_append_of_head h.whole hfraction
  obtain ⟨part, hpart, hsome⟩ := hparts
  rw [List.append_assoc, List.append_assoc]
  simp only [constant?, htake, hdrop, hpart]
  rw [if_neg fun hnone => hsome hnone.1 hnone.2, Option.isSome_map]
  rcases h.exponent with ⟨rfl, rfl⟩ | ⟨c, sign, rfl, hc, hsign, hpower, hdigits⟩
  · rfl
  · simp only [List.cons_append, if_pos hc]
    exact isSome_exponent? hsign hpower hdigits

end Decimal

/-! ## Constants that are cut off -/

namespace Number

theorem isDigitOf_ten {c : Char} : isDigitOf 10 c = true ↔ '0' ≤ c ∧ c ≤ '9' := by
  have hle : ∀ d : Char, d ≤ c ↔ d.toNat ≤ c.toNat := fun d => Iff.rfl
  have hge : ∀ d : Char, c ≤ d ↔ c.toNat ≤ d.toNat := fun d => Iff.rfl
  have h0 : '0'.toNat = 48 := rfl
  have h9 : '9'.toNat = 57 := rfl
  simp only [isDigitOf, digitValue, decide_eq_true_eq, hle, hge, h0, h9]
  split
  · omega
  · split
    · omega
    · split <;> omega

/-- An exponent is absent, or a letter, at most one sign and digits. -/
theorem exponent_eq {cs introduction power : List Char} (h : exponent cs = (introduction, power)) :
    introduction = [] ∧ power = [] ∨ ∃ c sign, introduction = c :: sign ∧ (c = 'e' ∨ c = 'E') ∧
      (sign = [] ∨ sign = ['+'] ∨ sign = ['-']) ∧ ∀ d ∈ power, isDigitOf 10 d = true := by
  cases cs with
  | nil =>
      simp only [exponent, Prod.mk.injEq] at h
      exact Or.inl ⟨h.1.symm, h.2.symm⟩
  | cons c cs =>
      by_cases hc : c = 'e' ∨ c = 'E'
      · rw [exponent, if_pos hc, Prod.mk.injEq] at h
        obtain ⟨rfl, rfl⟩ := h
        refine Or.inr ⟨c, _, rfl, hc, ?_, ?_⟩
        · cases cs with
          | nil => exact Or.inl rfl
          | cons d ds =>
              by_cases hplus : d = '+'
              · simp [hplus]
              · by_cases hminus : d = '-' <;> simp [hplus, hminus]
        · exact fun d hd => List.mem_takeWhile_imp hd
      · rw [exponent, if_neg hc, Prod.mk.injEq] at h
        exact Or.inl ⟨h.1.symm, h.2.symm⟩

theorem fraction_eq (cs : List Char) : fraction cs = [] ∨
    ∃ ds, fraction cs = '.' :: ds ∧ ∀ d ∈ ds, isDigitOf 10 d = true := by
  unfold fraction
  split
  · refine Or.inr ⟨_, rfl, ?_⟩
    exact fun d hd => List.mem_takeWhile_imp hd
  · exact Or.inl rfl

theorem fraction_isPrefix (cs : List Char) : fraction cs <+: cs := by
  unfold fraction
  split
  · exact List.cons_prefix_cons.2 ⟨rfl, List.takeWhile_prefix _⟩
  · exact List.nil_prefix

theorem exponent_isPrefix {cs introduction power : List Char}
    (h : exponent cs = (introduction, power)) : introduction ++ power <+: cs := by
  cases cs with
  | nil =>
      simp only [exponent, Prod.mk.injEq] at h
      simp [← h.1, ← h.2]
  | cons c cs =>
      by_cases hc : c = 'e' ∨ c = 'E'
      · rw [exponent, if_pos hc, Prod.mk.injEq] at h
        obtain ⟨rfl, rfl⟩ := h
        -- The sign is cut off first, and the digits from what is left.
        have hsign : (cs.take 1).takeWhile (fun s => s = '+' || s = '-') <+: cs :=
          (List.takeWhile_prefix _).trans (List.take_prefix 1 cs)
        obtain ⟨after, hafter⟩ := hsign
        refine List.cons_prefix_cons.2 ⟨rfl, ?_⟩
        generalize (cs.take 1).takeWhile (fun s => s = '+' || s = '-') = sign at hafter ⊢
        subst hafter
        rw [List.drop_left]
        exact (List.prefix_append_right_inj _).2 (List.takeWhile_prefix _)
      · rw [exponent, if_neg hc, Prod.mk.injEq] at h
        obtain ⟨rfl, rfl⟩ := h
        exact List.nil_prefix

/-- What follows a number is no letter, digit, underscore or point. -/
def Ends (rest : List Char) : Prop :=
  ∀ c ∈ rest.head?, isGlue c = false

/-- A suffix is cut off if the text begins with a letter of suffixes, and it is that letter. -/
theorem exists_floatingSuffix (cs : List Char) : ∃ suffix after,
    (cs.take 1).takeWhile isFloatingSuffix = suffix ∧ cs = suffix ++ after ∧
      (suffix = [] ∧ (∀ c ∈ after.head?, isFloatingSuffix c = false) ∨
        ∃ c, suffix = [c] ∧ isFloatingSuffix c = true) := by
  cases cs with
  | nil => exact ⟨[], [], rfl, rfl, Or.inl ⟨rfl, nofun⟩⟩
  | cons c cs =>
      by_cases hc : isFloatingSuffix c = true
      · exact ⟨[c], cs, by simp [hc], rfl, Or.inr ⟨c, rfl, hc⟩⟩
      · exact ⟨[], c :: cs, by simp [hc], rfl, Or.inl ⟨rfl, by simpa using hc⟩⟩

/-- What follows the digits is cut into a point with digits, an exponent, a suffix and the rest.  An
exponent without digits is refused where it stops, and all else where the suffix does. -/
theorem scanFloating_eq (digits rest : List Char) : ∃ point introduction power suffix after,
    rest = point ++ introduction ++ power ++ suffix ++ after ∧ fraction rest = point ∧
    (introduction = [] ∧ power = [] ∨ ∃ c sign, introduction = c :: sign ∧ (c = 'e' ∨ c = 'E') ∧
      (sign = [] ∨ sign = ['+'] ∨ sign = ['-']) ∧ ∀ d ∈ power, isDigitOf 10 d = true) ∧
    (suffix = [] ∧ (∀ c ∈ after.head?, isFloatingSuffix c = false) ∨
      ∃ c, suffix = [c] ∧ isFloatingSuffix c = true) ∧
    scanFloating digits rest =
      let text := digits ++ point ++ introduction ++ power
      if introduction ≠ [] ∧ power = [] then malformed text text.length (suffix ++ after)
      else if after.head?.any isGlue then malformed text (text.length + suffix.length) after
      else (.ok (.floating (String.ofList text)), text.length + suffix.length) := by
  rcases hexponent : exponent (rest.drop (fraction rest).length) with ⟨introduction, power⟩
  obtain ⟨later, hlater⟩ := exponent_isPrefix hexponent
  obtain ⟨suffix, after, hcut, rfl, hsuffix⟩ := exists_floatingSuffix later
  have hrest : rest = fraction rest ++ (introduction ++ power ++ (suffix ++ after)) := by
    rw [hlater, List.prefix_iff_eq_append.1 (fraction_isPrefix rest)]
  have hdrop : (rest.drop (fraction rest).length).drop (introduction ++ power).length =
      suffix ++ after := by
    rw [← hlater, List.drop_left]
  refine ⟨_, introduction, power, suffix, after, ?_, rfl, exponent_eq hexponent, hsuffix, ?_⟩
  · simpa using hrest
  · unfold scanFloating
    simp only [hexponent, hdrop, hcut, List.drop_left]

/-- A floating constant is its digits with the parts that follow them, and a suffix of one letter at
most, which its text leaves out. -/
theorem exists_parts_of_scanFloating {digits rest : List Char} {w : Lexeme} {n : Nat}
    (h : scanFloating digits rest = (.ok w, n)) (hdigits : ∀ d ∈ digits, isDigitOf 10 d = true)
    (hsome : digits ≠ [] ∨ ∃ d ds, fraction rest = '.' :: d :: ds) :
    ∃ point introduction power suffix after,
      rest = point ++ introduction ++ power ++ suffix ++ after ∧
      Decimal.Parts digits point introduction power ∧
      (suffix = [] ∨ ∃ c, suffix = [c] ∧ isFloatingSuffix c = true) ∧
      Ends after ∧ w = .floating (String.ofList (digits ++ point ++ introduction ++ power)) ∧
      n = (digits ++ point ++ introduction ++ power ++ suffix).length := by
  obtain ⟨point, introduction, power, suffix, after, hrest, hpoint, hexponent, hsuffix, hscan⟩ :=
    scanFloating_eq digits rest
  rw [hscan] at h
  rw [hpoint] at hsome
  dsimp only at h
  split at h
  · simp [malformed] at h
  · rename_i hcomplete
    split at h
    · simp [malformed] at h
    · rename_i hglue
      simp only [Prod.mk.injEq, Except.ok.injEq] at h
      refine ⟨point, introduction, power, suffix, after, hrest,
        { whole := hdigits, point := hpoint ▸ fraction_eq rest, exponent := ?_,
          significant := hsome },
        hsuffix.imp_left And.left, ?_, h.1.symm, ?_⟩
      · rcases hexponent with hnone | ⟨c, sign, rfl, hc, hsign, hpower⟩
        · exact Or.inl hnone
        · exact Or.inr ⟨c, sign, rfl, hc, hsign, by simpa using hcomplete, hpower⟩
      · intro c hc
        simpa [Option.mem_def.1 hc] using hglue
      · rw [← h.2, ← List.length_append]

theorem readable_of_scanFloating {digits rest : List Char} {w : Lexeme} {n : Nat}
    (h : scanFloating digits rest = (.ok w, n)) (hdigits : ∀ d ∈ digits, isDigitOf 10 d = true)
    (hsome : digits ≠ [] ∨ ∃ d ds, fraction rest = '.' :: d :: ds) : w.Readable := by
  obtain ⟨point, introduction, power, -, -, -, hparts, -, -, rfl, -⟩ :=
    exists_parts_of_scanFloating h hdigits hsome
  rintro text ⟨⟩
  rw [String.toList_ofList]
  exact hparts.isSome_constant?

/-- A number has digits in front, or else behind the point that makes it a number. -/
theorem significant_of_startsNumber {cs : List Char} (hs : Lexeme.startsNumber cs = true) :
    cs.takeWhile (isDigitOf 10) ≠ [] ∨
      ∃ d ds, fraction (cs.dropWhile (isDigitOf 10)) = '.' :: d :: ds := by
  unfold Lexeme.startsNumber at hs
  split at hs
  · rename_i d ds
    have hpoint : isDigitOf 10 '.' = false := by decide
    refine Or.inr ⟨d, ds.takeWhile (isDigitOf 10), ?_⟩
    simp [hpoint, fraction, hs]
  · exact Or.inl (by simp [hs])
  · cases hs

theorem readable_of_scan {cs : List Char} {w : Lexeme} {n : Nat} (h : scan cs = (.ok w, n))
    (hs : Lexeme.startsNumber cs = true) : w.Readable := by
  rcases scan_eq_ok h with ⟨value, rfl, -⟩ | hfloating
  · exact nofun
  · exact readable_of_scanFloating hfloating (fun d hd => List.mem_takeWhile_imp hd)
      (significant_of_startsNumber hs)

end Number

theorem Lexeme.readable_of_scan {cs : List Char} {w : Lexeme} {n : Nat}
    (h : scan cs = (.ok w, n)) : w.Readable := by
  cases cs with
  | nil =>
      rw [scan] at h
      cases h
      exact fun _ hfloating => by cases hfloating
  | cons c cs =>
      rw [scan] at h
      by_cases hword : isWordStart c = true
      · simp only [if_pos hword] at h
        cases h
        exact fun _ hfloating => by cases hfloating
      · by_cases hnumber : startsNumber (c :: cs) = true
        · rw [if_neg hword, if_pos hnumber] at h
          exact Number.readable_of_scan (ofScanner_eq_ok.1 h) hnumber
        · rw [if_neg hword, if_neg hnumber] at h
          -- No other lexeme is a floating constant.
          rintro text rfl
          split at h
          · rw [ofScanner_eq_ok] at h
            grind [Quoted.scanString]
          · split at h
            · rw [ofScanner_eq_ok] at h
              grind [Quoted.scanCharacter]
            · grind [scanPunctuator]

/-- All lexemes ahead are readable. -/
theorem Source.readable_of_mem_outlook {s : Source} {piece : Piece}
    (h : piece ∈ s.outlook.pieces) : piece.lexeme.Readable := by
  obtain ⟨-, cs, n, hscan⟩ := scan_of_mem_outlook h
  exact Lexeme.readable_of_scan hscan

end CSyntax
