import CSyntax.Proofs.Lexical.Respelling
import Mathlib.Data.Nat.Digits.Lemmas
import Mathlib.Tactic.Ring

/-!
# Integers — the values of integer constants

An integer constant has a base, which its mark and its first digit tell, and its digits denote a
number in that base.  The lexer gives just this number if 64 bits hold it, however long the digits
are, and an error if they do not or if a digit is too large for the base
(`Source.nextToken_integer`).

* `Number.Values` — the values of digits, which `Nat.ofDigits` counts from the last one;
* `Number.InBase` — the bases of digits behind a mark;
* `Number.Literal` — the parts of an integer constant, whatever its digits are.
-/

namespace CSyntax
namespace Number

variable {mark digits suffix rest : List Char} {b n : Nat} {c : Char}

/-! ## Values -/

/-- The values of digits, where letters of either case stand for ten to fifteen. -/
def Values (digits : List Char) (values : List Nat) : Prop :=
  List.Forall₂ (fun c n => n < 16 ∧ (c = n.digitChar ∨ c = n.digitChar.toUpper)) digits values

theorem digitValue_eq_iff (hn : n < 16) :
    digitValue c = n ↔ c = n.digitChar ∨ c = n.digitChar.toUpper := by
  have hchars : ∀ n < 16, digitValue n.digitChar = n ∧ digitValue n.digitChar.toUpper = n := by
    decide
  constructor
  · rintro rfl
    -- All digits are in the first part of the basic Latin block, so each character is looked at.
    have hcodes : ∀ code < 103, digitValue (Char.ofNat code) < 16 →
        Char.ofNat code = (digitValue (Char.ofNat code)).digitChar ∨
          Char.ofNat code = (digitValue (Char.ofNat code)).digitChar.toUpper := by decide +kernel
    have hcode : c.toNat < 103 := by
      by_contra hlarge
      have hbehind : ∀ d : Char, d.toNat < 103 → ¬ c ≤ d := fun d hd hle =>
        hlarge (Nat.lt_of_le_of_lt hle hd)
      simp [digitValue, hbehind] at hn
    simpa using hcodes c.toNat hcode (by simpa using hn)
  · rintro (rfl | rfl)
    · exact (hchars n hn).1
    · exact (hchars n hn).2

theorem values_iff {values : List Nat} :
    Values digits values ↔ (∀ d ∈ digits, digitValue d < 16) ∧ values = digits.map digitValue := by
  constructor
  · intro h
    induction h with
    | nil => exact ⟨nofun, rfl⟩
    | cons hdigit _ ih =>
        have hvalue := (digitValue_eq_iff hdigit.1).2 hdigit.2
        exact ⟨List.forall_mem_cons.2 ⟨hvalue ▸ hdigit.1, ih.1⟩, by simp [hvalue, ← ih.2]⟩
  · rintro ⟨hdigits, rfl⟩
    rw [Values, List.forall₂_map_right_iff, List.forall₂_same]
    exact fun d hd => ⟨hdigits d hd, (digitValue_eq_iff (hdigits d hd)).1 rfl⟩

/-- Earlier digits count for more with every digit behind them. -/
theorem valueFrom_eq (b n : Nat) (digits : List Char) :
    valueFrom b n digits =
      n * b ^ digits.length + Nat.ofDigits b (digits.map digitValue).reverse := by
  induction digits generalizing n with
  | nil => simp [valueFrom]
  | cons d ds ih =>
      calc valueFrom b n (d :: ds)
          = valueFrom b (n * b + digitValue d) ds := rfl
        _ = (n * b + digitValue d) * b ^ ds.length +
              Nat.ofDigits b (ds.map digitValue).reverse := ih _
        _ = n * b ^ (d :: ds).length +
              Nat.ofDigits b ((d :: ds).map digitValue).reverse := by
            simp only [List.map_cons, List.reverse_cons, Nat.ofDigits_append, List.length_reverse,
              List.length_map, Nat.ofDigits_singleton, List.length_cons]
            ring

/-- The value of digits is the number that they denote. -/
theorem valueFrom_zero (b : Nat) (digits : List Char) :
    valueFrom b 0 digits = Nat.ofDigits b (digits.map digitValue).reverse := by
  rw [valueFrom_eq, Nat.zero_mul, Nat.zero_add]

/-! ## Digits that have a value, and those that do not -/

theorem exists_of_outOfRadix (h : evaluate b n digits = .error .outOfRadix) :
    ∃ d ∈ digits, b ≤ digitValue d := by
  induction digits generalizing n with
  | nil => cases h
  | cons d ds ih =>
      rw [evaluate] at h
      split at h
      · rename_i hlarge
        exact ⟨d, List.mem_cons_self, hlarge⟩
      · split at h
        · cases h
        · obtain ⟨other, hmem, hlarge⟩ := ih h
          exact ⟨other, List.mem_cons_of_mem _ hmem, hlarge⟩

/-- Digits of the base fail only for the size of what they denote. -/
theorem evaluate_of_within (hb : 0 < b) (h : ∀ d ∈ digits, digitValue d < b) :
    evaluate b 0 digits =
      if valueFrom b 0 digits < 2 ^ 64 then .ok (valueFrom b 0 digits) else .error .overflow := by
  have hok : ∀ value, evaluate b 0 digits = .ok value ↔
      value = valueFrom b 0 digits ∧ value < 2 ^ 64 := by
    intro value
    rw [evaluate_eq_ok_iff hb (by decide)]
    simpa [isDigitOf] using fun _ _ => h
  split
  · rename_i hsmall
    exact (hok _).2 ⟨rfl, hsmall⟩
  · rename_i hlarge
    rcases hvalue : evaluate b 0 digits with (_ | _) | value
    · obtain ⟨d, hd, hbad⟩ := exists_of_outOfRadix hvalue
      exact absurd (h d hd) (Nat.not_lt.2 hbad)
    · rfl
    · obtain ⟨rfl, hsmall⟩ := (hok value).1 hvalue
      exact absurd hsmall hlarge

/-- A digit that does not belong to the base leaves the digits without a value. -/
theorem exists_fault_of_not_within {d : Char} (hb : 0 < b) (hd : d ∈ digits)
    (hbad : b ≤ digitValue d) : ∃ fault, evaluate b 0 digits = .error fault := by
  rcases hvalue : evaluate b 0 digits with fault | value
  · exact ⟨fault, rfl⟩
  · have hdigit := ((evaluate_eq_ok_iff hb (by decide)).1 hvalue).1 d hd
    rw [isDigitOf, decide_eq_true_eq] at hdigit
    omega

/-! ## Parts of constants -/

/-- The base of digits behind a mark.  Without a mark a zero in front of other digits makes them
octal. -/
inductive InBase : (mark digits : List Char) → Nat → Prop
  | hexadecimal {mark digits : List Char} : mark = ['0', 'x'] ∨ mark = ['0', 'X'] →
      InBase mark digits 16
  | binary {mark digits : List Char} : mark = ['0', 'b'] ∨ mark = ['0', 'B'] →
      InBase mark digits 2
  | octal {digits : List Char} : digits.head? = some '0' → 1 < digits.length →
      InBase [] digits 8
  | decimal {digits : List Char} : digits.head? ≠ some '0' ∨ digits.length ≤ 1 →
      InBase [] digits 10

theorem inBase_iff : InBase mark digits b ↔ mark ∈ marks ∧ base mark digits = b := by
  constructor
  · rintro (⟨rfl | rfl⟩ | ⟨rfl | rfl⟩ | ⟨hzero, hlength⟩ | hten)
    · exact ⟨by decide, rfl⟩
    · exact ⟨by decide, rfl⟩
    · exact ⟨by decide, rfl⟩
    · exact ⟨by decide, rfl⟩
    · exact ⟨by decide, by simp [base, radix, radixMark, hzero, hlength]⟩
    · refine ⟨by decide, ?_⟩
      have hnone : ¬ (1 < digits.length ∧ digits.head? = some '0') := by
        rintro ⟨hlength, hzero⟩
        rcases hten with hother | hshort
        · exact hother hzero
        · omega
      simp [base, radix, radixMark, hnone]
  · rintro ⟨hmark, rfl⟩
    simp only [marks, List.mem_cons, List.not_mem_nil, or_false] at hmark
    rcases hmark with rfl | rfl | rfl | rfl | rfl
    · by_cases hoctal : 1 < digits.length ∧ digits.head? = some '0'
      · simpa [base, radix, radixMark, hoctal] using InBase.octal hoctal.2 hoctal.1
      · have hten : digits.head? ≠ some '0' ∨ digits.length ≤ 1 := by
          by_contra hboth
          rw [not_or, not_not] at hboth
          exact hoctal ⟨by omega, hboth.1⟩
        simpa [base, radix, radixMark, hoctal] using InBase.decimal hten
    · exact .hexadecimal (.inl rfl)
    · exact .hexadecimal (.inr rfl)
    · exact .binary (.inl rfl)
    · exact .binary (.inr rfl)

/-- The parts of an integer constant: a mark or none, digits and any letters `u` and `l`.  Nothing
is said of the digits but that there are some. -/
structure Literal (mark digits suffix : List Char) (b : Nat) : Prop where
  based : InBase mark digits b
  nonempty : digits ≠ []
  letters : ∀ c ∈ suffix, c ∈ ['u', 'U', 'l', 'L']

theorem mem_letters_iff : c ∈ ['u', 'U', 'l', 'L'] ↔ isIntegerSuffix c = true := by
  simp [isIntegerSuffix, or_assoc]

namespace Literal

theorem base_eq (h : Literal mark digits suffix b) : base mark digits = b :=
  (inBase_iff.1 h.based).2

theorem base_pos (h : Literal mark digits suffix b) : 0 < b :=
  h.base_eq ▸ Number.base_pos mark digits

theorem base_le (h : Literal mark digits suffix b) : b ≤ 16 := by
  cases h.based <;> decide

/-- Decimal digits are taken behind every mark, whether or not they belong to the base. -/
theorem shaped (h : Literal mark digits suffix b)
    (hdigits : ∀ d ∈ digits, digitValue d < b ∨ digitValue d < 10) :
    Shaped mark digits suffix where
  marked := (inBase_iff.1 h.based).1
  nonempty := h.nonempty
  letters c hc := mem_letters_iff.1 (h.letters c hc)
  taken d hd := by
    have hbase : b ≤ if radixMark mark = ['0', 'x'] then 16 else 10 := by
      rw [← h.base_eq]
      unfold base radix
      split_ifs <;> omega
    have hten : 10 ≤ if radixMark mark = ['0', 'x'] then 16 else 10 := by
      split_ifs <;> omega
    have hvalue := hdigits d hd
    rw [isDigitBehind, isDigitOf, decide_eq_true_eq]
    omega

end Literal

/-- Integer constants are such parts with digits of the base and a value in 64 bits. -/
theorem Integral.literal (h : Integral mark digits suffix) :
    Literal mark digits suffix (base mark digits) where
  based := inBase_iff.2 ⟨h.marked, rfl⟩
  nonempty := h.nonempty
  letters c hc := mem_letters_iff.2 (h.letters c hc)

theorem exists_integral_of_spelled {value : UInt64} {text : List Char}
    (h : (Lexeme.integer value).Spelled text) :
    ∃ mark digits suffix, text = mark ++ digits ++ suffix ∧ Integral mark digits suffix ∧
      value.toNat = valueFrom (base mark digits) 0 digits := by
  cases h with
  | number hnumber =>
      generalize hw : Lexeme.integer value = w at hnumber
      cases hnumber with
      | floating _ _ _ => cases hw
      | @integer mark digits suffix hintegral =>
          obtain rfl := Lexeme.integer.inj hw
          exact ⟨mark, digits, suffix, rfl, hintegral, UInt64.toNat_ofNat_of_lt' hintegral.bound⟩

end Number

/-! ## What the lexer gives -/

namespace Source

open Number

variable {s : Source} {gap mark digits suffix rest : List Char}

/-- Behind a gap the parts of an integer constant are taken whole, and the value of the digits
decides what is given for them. -/
theorem nextToken_of_shaped (hrest : s.rest = gap ++ (mark ++ digits ++ suffix ++ rest))
    (hgap : Trivia.Gap gap) (h : Shaped mark digits suffix) (hends : Ends rest)
    (table : SymbolTable) :
    let start := s.position.advanceBy gap
    let after : Source := { position := start.advanceBy (mark ++ digits ++ suffix), rest := rest }
    let failure (fault : LexicalFault) : ParseError :=
      { start := start, stop := after.position, cause := .lexical fault }
    s.nextToken table =
      (match evaluate (base mark digits) 0 digits with
        | .ok value => .ok { kind := .integer (UInt64.ofNat value), position := start }
        | .error .outOfRadix =>
            .error (failure (.malformedNumber (String.ofList (radixMark mark ++ digits))))
        | .error .overflow => .error (failure .integerOverflow),
        after) := by
  intro start after failure
  have hstarts := h.startsNumber rest
  have hmeasure : Trivia.measure s.rest = { length := gap.length, closed := true } := by
    rw [hrest, Trivia.measure_append hgap, Lexeme.settled_of_startsNumber hstarts]
    rfl
  have hscan := Lexeme.scan_of_startsNumber hstarts
  rw [List.append_assoc, List.append_assoc, h.scan_eq hends, ← List.append_assoc,
    ← List.append_assoc] at hscan
  let here : Source :=
    { position := s.position.advanceBy gap, rest := mark ++ digits ++ suffix ++ rest }
  have hafter : here.drop (mark ++ digits ++ suffix).length = after := drop_append rfl
  -- The constant has characters, so a failure spans just these.
  have hpos : 0 < (mark ++ digits ++ suffix).length := by
    simp [List.length_pos_iff.2 h.nonempty]
  have hspan (cause : Cause) : ParseError.between start after.position cause =
      { start := start, stop := after.position, cause := cause } := by
    rw [← hafter]
    exact between_drop (s := here) (by simp [here, h.nonempty]) hpos cause
  rw [nextToken, nextLexeme_eq, hmeasure, if_pos rfl]
  simp only [drop_append hrest, hscan]
  rcases evaluate (base mark digits) 0 digits with (_ | _) | value
  · change (Except.error (ParseError.between start (here.drop _).position _), here.drop _) = _
    rw [hafter, hspan]
  · change (Except.error (ParseError.between start (here.drop _).position _), here.drop _) = _
    rw [hafter, hspan]
  · change (Except.ok _, here.drop _) = _
    rw [hafter]
    rfl

/-- An integer constant behind a gap, whose digits belong to its base, gives the number that they
denote, or the fault that 64 bits do not hold it; just its parts are taken.  With a decimal digit
that is too large for the base it gives an error.  There are no other integer tokens. -/
theorem nextToken_integer (s : Source) (table : SymbolTable) :
    (∀ gap mark digits suffix rest b values,
      s.rest = gap ++ (mark ++ digits ++ suffix ++ rest) → Trivia.Gap gap →
      Literal mark digits suffix b → Values digits values → Ends rest →
      let number := Nat.ofDigits b values.reverse
      let start := s.position.advanceBy gap
      let after : Source := { position := start.advanceBy (mark ++ digits ++ suffix), rest := rest }
      let failure (fault : LexicalFault) : ParseError :=
        { start := start, stop := after.position, cause := .lexical fault }
      ((∀ n ∈ values, n < b) →
        (number < 2 ^ 64 → ∃ value, value.toNat = number ∧
          s.nextToken table = (.ok { kind := .integer value, position := start }, after)) ∧
        (2 ^ 64 ≤ number → s.nextToken table = (.error (failure .integerOverflow), after))) ∧
      (b = 2 ∨ b = 8 → (∀ n ∈ values, n < 10) → (∃ n ∈ values, b ≤ n) →
        ∃ fault, s.nextToken table = (.error (failure fault), after) ∧
          (fault = .malformedNumber (String.ofList (radixMark mark ++ digits)) ∨
            fault = .integerOverflow))) ∧
    ∀ value p t, s.nextToken table = (.ok { kind := .integer value, position := p }, t) →
      ∃ gap mark digits suffix b values,
        s.rest = gap ++ (mark ++ digits ++ suffix ++ t.rest) ∧ Trivia.Gap gap ∧
        Literal mark digits suffix b ∧ Values digits values ∧ Ends t.rest ∧
        (∀ n ∈ values, n < b) ∧ value.toNat = Nat.ofDigits b values.reverse ∧
        p = s.position.advanceBy gap ∧ t.position = p.advanceBy (mark ++ digits ++ suffix) := by
  refine ⟨?_, ?_⟩
  · intro gap mark digits suffix rest b values hrest hgap h hvalues hends number start after failure
    obtain ⟨-, rfl⟩ := values_iff.1 hvalues
    have hnumber : valueFrom b 0 digits = number := valueFrom_zero b digits
    rw [List.forall_mem_map, List.forall_mem_map]
    refine ⟨fun hwithin => ?_, fun _ hdecimal ⟨n, hn, hlarge⟩ => ?_⟩
    · have hnext := nextToken_of_shaped hrest hgap (h.shaped fun d hd => .inl (hwithin d hd))
        hends table
      rw [h.base_eq, evaluate_of_within h.base_pos hwithin, hnumber] at hnext
      refine ⟨fun hsmall => ?_, fun hlarge => ?_⟩
      · rw [if_pos hsmall] at hnext
        exact ⟨_, UInt64.toNat_ofNat_of_lt' hsmall, hnext⟩
      · rwa [if_neg (Nat.not_lt.2 hlarge)] at hnext
    · -- Too large a digit is found first, unless those in front of it are too many already.
      obtain ⟨d, hd, rfl⟩ := List.mem_map.1 hn
      have hnext := nextToken_of_shaped hrest hgap (h.shaped fun d hd => .inr (hdecimal d hd))
        hends table
      obtain ⟨fault, hfault⟩ := exists_fault_of_not_within h.base_pos hd hlarge
      rw [h.base_eq, hfault] at hnext
      cases fault with
      | outOfRadix => exact ⟨_, hnext, .inl rfl⟩
      | overflow => exact ⟨_, hnext, .inr rfl⟩
  · intro value p t h
    rcases hread : s.nextLexeme with ⟨e | ⟨w, q⟩, u⟩
    · simp [nextToken, hread] at h
    · simp only [nextToken, hread, Prod.mk.injEq, Except.ok.injEq, Token.mk.injEq] at h
      obtain ⟨⟨hkind, rfl⟩, rfl⟩ := h
      obtain rfl : w = .integer value := by
        rw [← table.lexeme_classify w, hkind]
        rfl
      obtain ⟨gap, text, hrest, hbefore, rfl, ht, hspelled, hends⟩ :=
        exists_text_of_nextLexeme hread
      obtain ⟨mark, digits, suffix, rfl, hintegral, hvalue⟩ := exists_integral_of_spelled hspelled
      -- The digits of a token are of its base, hence have values at all.
      have hwithin : ∀ d ∈ digits, digitValue d < base mark digits := by
        simpa [isDigitOf] using hintegral.within
      have hsixteen : ∀ d ∈ digits, digitValue d < 16 := fun d hd =>
        Nat.lt_of_lt_of_le (hwithin d hd) hintegral.literal.base_le
      exact ⟨gap, mark, digits, suffix, base mark digits, digits.map digitValue, hrest,
        hbefore.gap_of_ne_nil (by simp [hintegral.nonempty]), hintegral.literal,
        values_iff.2 ⟨hsixteen, rfl⟩, hends, by simpa using hwithin,
        hvalue.trans (valueFrom_zero _ _), rfl, ht⟩

/-- The largest value is read behind a comment, in digits of both cases with zeros in front of them.
One more is too large, and the digit two is no binary digit. -/
theorem nextToken_integer_limits :
    (∃ value t, value.toNat = 2 ^ 64 - 1 ∧ t.rest = [';'] ∧
      (ofString "/**/0X00fFFFFFFFFFFFFFFfuL;" none).nextToken .empty =
        (.ok { kind := .integer value, position := ⟨1, 5, 4, none⟩ }, t) ∧
      ∃ gap mark digits suffix b values,
        "/**/0X00fFFFFFFFFFFFFFFfuL;".toList = gap ++ (mark ++ digits ++ suffix ++ [';']) ∧
        Literal mark digits suffix b ∧ Values digits values ∧
        value.toNat = Nat.ofDigits b values.reverse) ∧
    (ofString "18446744073709551616" none).nextToken .empty =
      (.error ⟨⟨1, 1, 0, none⟩, ⟨1, 21, 20, none⟩, .lexical .integerOverflow⟩,
        ⟨⟨1, 21, 20, none⟩, []⟩) ∧
    ∃ fault, (ofString "0B12" none).nextToken .empty =
        (.error ⟨⟨1, 1, 0, none⟩, ⟨1, 5, 4, none⟩, .lexical fault⟩, ⟨⟨1, 5, 4, none⟩, []⟩) ∧
      (fault = .malformedNumber "0b12" ∨ fault = .integerOverflow) := by
  have hgap : Trivia.Gap "/**/".toList := @Trivia.Gap.block [] [] (by decide) .nil
  have hends : Ends [';'] := by
    rintro _ ⟨⟩
    decide +kernel
  have hvalues : ∀ digits : List Char, digits.all (fun d => digitValue d < 16) = true →
      Values digits (digits.map digitValue) := fun digits h => values_iff.2 ⟨by simpa using h, rfl⟩
  refine ⟨?_, ?_, ?_⟩
  · obtain ⟨hread, hgiven⟩ :=
      nextToken_integer (ofString "/**/0X00fFFFFFFFFFFFFFFfuL;" none) .empty
    obtain ⟨value, hvalue, hnext⟩ :=
      ((hread "/**/".toList ['0', 'X'] "00fFFFFFFFFFFFFFFf".toList ['u', 'L'] [';'] 16 _ rfl hgap
        ⟨.hexadecimal (.inr rfl), by decide, by simp⟩ (hvalues _ (by decide)) hends).1
          (by decide)).1 (by decide)
    obtain ⟨gap, mark, digits, suffix, b, values, hrest, -, hliteral, hdigits, -, -, hdenoted, -⟩ :=
      hgiven _ _ _ hnext
    exact ⟨value, _, hvalue, rfl, hnext, gap, mark, digits, suffix, b, values, hrest, hliteral,
      hdigits, hdenoted⟩
  · exact ((nextToken_integer (ofString "18446744073709551616" none) .empty).1 [] []
      "18446744073709551616".toList [] [] 10 _ rfl .nil
      ⟨.decimal (.inl (by decide)), by decide, nofun⟩ (hvalues _ (by decide)) nofun).1
        (by decide) |>.2 (by decide)
  · exact ((nextToken_integer (ofString "0B12" none) .empty).1 [] ['0', 'B'] ['1', '2'] [] [] 2 _
      rfl .nil ⟨.binary (.inr rfl), by decide, nofun⟩ (hvalues _ (by decide)) nofun).2
        (.inl rfl) (by decide) (by decide)

end Source
end CSyntax
