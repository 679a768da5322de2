import CSyntax.Proofs.Stream.Floating
import Mathlib.Algebra.Group.Nat.Defs

/-!
# Numbers — the texts of integer and floating constants

The scanner of numbers takes digits, suffixes and what a number runs into in several passes.  Here
the constants are described by their parts, and the scanner takes just these (`spelled_of_scan`,
`scan_of_spelled`):

* `Number.Integral` — an integer constant, made of a mark, digits of the radix and a suffix;
* `Number.Spelled` — a text that is a constant of either kind, and the lexeme that it makes;
* `Number.Split` — a text that is cut where the scanner cuts it.
-/

namespace CSyntax
namespace Number

variable {w : Lexeme} {cs digits rest : List Char} {c : Char} {n : Nat}

/-! ## Characters of numbers -/

theorem isDigitOf_mono {small large : Nat} (hle : small ≤ large) (h : isDigitOf small c = true) :
    isDigitOf large c = true := by
  simp only [isDigitOf, decide_eq_true_eq] at h ⊢
  omega

/-- Digits of all radixes are digits and letters of the basic Latin block. -/
theorem toNat_of_isDigitOf (h : isDigitOf 16 c = true) : 48 ≤ c.toNat ∧ c.toNat ≤ 57 ∨
    65 ≤ c.toNat ∧ c.toNat ≤ 70 ∨ 97 ≤ c.toNat ∧ c.toNat ≤ 102 := by
  simp only [isDigitOf, digitValue] at h
  split at h
  · rename_i hdigit
    exact Or.inl hdigit
  · split at h
    · rename_i hlower
      exact Or.inr (Or.inr hlower)
    · split at h
      · rename_i hupper
        exact Or.inr (Or.inl hupper)
      · cases h

theorem isGlue_of_isDigitOf (h : isDigitOf 16 c = true) : isGlue c = true := by
  have htable : ∀ n < 103, 48 ≤ n ∧ n ≤ 57 ∨ 65 ≤ n ∧ n ≤ 70 ∨ 97 ≤ n ∧ n ≤ 102 →
      Unicode.alphanumericRanges.contains n = true := by decide +kernel
  have hrange := toNat_of_isDigitOf h
  have halphanumeric : Unicode.isAlphanumeric c = true := htable c.toNat (by omega) hrange
  simp [isGlue, halphanumeric]

theorem isGlue_of_isIntegerSuffix (h : isIntegerSuffix c = true) : isGlue c = true := by
  simp only [isIntegerSuffix, Bool.or_eq_true, decide_eq_true_eq] at h
  rcases h with ((rfl | rfl) | rfl) | rfl <;> decide +kernel

theorem isGlue_of_isFloatingSuffix (h : isFloatingSuffix c = true) : isGlue c = true := by
  simp only [isFloatingSuffix, Bool.or_eq_true, decide_eq_true_eq] at h
  rcases h with ((rfl | rfl) | rfl) | rfl <;> decide +kernel

/-- A class of characters that numbers may not run into goes on no further than the number. -/
theorem Ends.stops {p : Char → Bool} (h : Ends rest) (hp : ∀ c, p c = true → isGlue c = true) :
    ∀ c ∈ rest.head?, p c = false := by
  intro c hc
  refine Bool.eq_false_iff.2 fun hpc => ?_
  simpa [hp c hpc] using h c hc

/-! ## Integer constants -/

/-- The value of digits, the earlier ones of which have the value `n`. -/
def valueFrom (radix n : Nat) (digits : List Char) : Nat :=
  digits.foldl (fun n d => n * radix + digitValue d) n

theorem le_valueFrom {radix : Nat} (hradix : 0 < radix) (n : Nat) (digits : List Char) :
    n ≤ valueFrom radix n digits := by
  induction digits generalizing n with
  | nil => exact Nat.le_refl n
  | cons d ds ih =>
      calc n ≤ n * radix := Nat.le_mul_of_pos_right n hradix
        _ ≤ n * radix + digitValue d := Nat.le_add_right _ _
        _ ≤ valueFrom radix n (d :: ds) := ih _

/-- Digits have a value in 64 bits just if all belong to the radix and the value is small enough:
no value on the way is larger than the last. -/
theorem evaluate_eq_ok_iff {radix value : Nat} (hradix : 0 < radix) (hn : n < 2 ^ 64) :
    evaluate radix n digits = .ok value ↔
      (∀ d ∈ digits, isDigitOf radix d = true) ∧ value = valueFrom radix n digits ∧
        value < 2 ^ 64 := by
  induction digits generalizing n with
  | nil =>
      simp only [evaluate, Except.ok.injEq, List.not_mem_nil, false_implies, implies_true, true_and]
      constructor
      · rintro rfl
        exact ⟨rfl, hn⟩
      · rintro ⟨rfl, -⟩
        rfl
  | cons d ds ih =>
      have hstep : valueFrom radix n (d :: ds) =
          valueFrom radix (n * radix + digitValue d) ds := rfl
      -- What is too large on the way is too large in the end.
      have hle := le_valueFrom hradix (n * radix + digitValue d) ds
      have hsize : UInt64.size = 2 ^ 64 := rfl
      rw [List.forall_mem_cons, hstep, evaluate]
      split
      · rename_i hlarge
        simp only [reduceCtorEq, isDigitOf, decide_eq_true_eq, false_iff, not_and]
        omega
      · rename_i hsmall
        split
        · simp only [reduceCtorEq, false_iff, not_and]
          omega
        · rename_i hfits
          have hdigit : isDigitOf radix d = true := by
            simp only [isDigitOf, decide_eq_true_eq]
            omega
          rw [ih (by omega)]
          simp [hdigit]

/-- The marks of radixes as texts have them. -/
def marks : List (List Char) :=
  [[], ['0', 'x'], ['0', 'X'], ['0', 'b'], ['0', 'B']]

/-- The radix of the digits behind a mark. -/
def base (mark digits : List Char) : Nat :=
  radix (radixMark mark) digits

/-- An integer constant: a mark of a radix or none, digits of the radix with a value in 64 bits, and
any letters `u` and `l`. -/
structure Integral (mark digits suffix : List Char) : Prop where
  marked : mark ∈ marks
  nonempty : digits ≠ []
  within : ∀ d ∈ digits, isDigitOf (base mark digits) d = true
  letters : ∀ c ∈ suffix, isIntegerSuffix c = true
  bound : valueFrom (base mark digits) 0 digits < 2 ^ 64

/-- The texts of constants.  A floating constant has a point or an exponent and one letter as a
suffix at most; the lexeme keeps the text in front of the suffix. -/
inductive Spelled : Lexeme → List Char → Prop
  | integer {mark digits suffix : List Char} : Integral mark digits suffix →
      Spelled (.integer (UInt64.ofNat (valueFrom (base mark digits) 0 digits)))
        (mark ++ digits ++ suffix)
  | floating {digits point introduction power suffix : List Char} :
      Decimal.Parts digits point introduction power → point ++ introduction ≠ [] →
      (suffix = [] ∨ ∃ c, suffix = [c] ∧ isFloatingSuffix c = true) →
      Spelled (.floating (String.ofList (digits ++ point ++ introduction ++ power)))
        (digits ++ point ++ introduction ++ power ++ suffix)

/-! ## Marks -/

/-- The mark that is recognised stands in the text, in either case. -/
theorem exists_mark (cs : List Char) :
    ∃ mark body, cs = mark ++ body ∧ mark ∈ marks ∧ radixMark mark = radixMark cs ∧
      mark.length = (radixMark cs).length := by
  unfold radixMark
  split
  · exact ⟨['0', 'x'], _, rfl, by decide, rfl, rfl⟩
  · exact ⟨['0', 'X'], _, rfl, by decide, rfl, rfl⟩
  · exact ⟨['0', 'b'], _, rfl, by decide, rfl, rfl⟩
  · exact ⟨['0', 'B'], _, rfl, by decide, rfl, rfl⟩
  · exact ⟨[], cs, rfl, by decide, rfl, rfl⟩

theorem length_of_mem_marks {mark : List Char} (h : mark ∈ marks) :
    mark.length = (radixMark mark).length := by
  have hall : ∀ m ∈ marks, m.length = (radixMark m).length := by decide
  exact hall mark h

/-- A number that goes on with a digit, or ends, behind its first digit has no mark. -/
theorem radixMark_eq_nil (h : ∀ c ∈ (cs.drop 1).head?, c ∉ ['x', 'X', 'b', 'B']) :
    radixMark cs = [] := by
  unfold radixMark
  split
  · exact absurd (h _ rfl) (by decide)
  · exact absurd (h _ rfl) (by decide)
  · exact absurd (h _ rfl) (by decide)
  · exact absurd (h _ rfl) (by decide)
  · rfl

theorem radixMark_append {mark : List Char} (hmark : mark ∈ marks) (hne : mark ≠ [])
    (rest : List Char) : radixMark (mark ++ rest) = radixMark mark := by
  simp only [marks, List.mem_cons, List.not_mem_nil, or_false] at hmark
  rcases hmark with rfl | rfl | rfl | rfl | rfl
  · exact absurd rfl hne
  all_goals rfl

/-! ## Numbers that are cut off -/

/-- The digits that the scanner takes behind a mark. -/
def isDigitBehind (mark : List Char) : Char → Bool :=
  isDigitOf (if radixMark mark = ['0', 'x'] then 16 else 10)

/-- A text is cut into a mark, the digits that the scanner takes behind it, and the rest. -/
structure Split (cs mark digits rest : List Char) : Prop where
  text : cs = mark ++ (digits ++ rest)
  marked : mark ∈ marks
  radix : radixMark cs = radixMark mark
  length : mark.length = (radixMark mark).length
  within : ∀ d ∈ digits, isDigitBehind mark d = true
  stops : ∀ c ∈ rest.head?, isDigitBehind mark c = false

theorem exists_split (cs : List Char) : ∃ mark digits rest, Split cs mark digits rest := by
  obtain ⟨mark, body, rfl, hmark, hradix, hlength⟩ := exists_mark cs
  exact ⟨mark, body.takeWhile (isDigitBehind mark), body.dropWhile (isDigitBehind mark),
    { text := by rw [List.takeWhile_append_dropWhile]
      marked := hmark
      radix := hradix.symm
      length := hradix ▸ hlength
      within := fun d hd => List.mem_takeWhile_imp hd
      stops := head_dropWhile }⟩

namespace Split

variable {mark : List Char}

/-- The scanner at a text that is cut where it stops. -/
theorem scan_eq (h : Split cs mark digits rest) :
    scan cs =
      if radixMark mark = [] ∧ continuesFloating rest = true then scanFloating digits rest
      else
        let suffix := rest.takeWhile isIntegerSuffix
        let after := rest.dropWhile isIntegerSuffix
        let text := radixMark mark ++ digits
        if digits = [] ∨ after.head?.any isGlue then
          malformed text (text.length + suffix.length) after
        else
          match evaluate (base mark digits) 0 digits with
          | .ok value => (.ok (.integer (UInt64.ofNat value)), text.length + suffix.length)
          | .error .outOfRadix => malformed text (text.length + suffix.length) after
          | .error .overflow => (.error .integerOverflow, text.length + suffix.length) := by
  obtain ⟨htake, hdrop⟩ := takeWhile_append_of_head h.within h.stops
  have hbody : cs.drop (radixMark mark).length = digits ++ rest := by
    rw [h.text, ← h.length, List.drop_left]
  unfold isDigitBehind at htake hdrop
  simp only [scan, h.radix, hbody, htake, hdrop]
  rfl

theorem mark_eq_nil (h : Split cs mark digits rest) (hnone : radixMark mark = []) : mark = [] :=
  List.length_eq_zero_iff.1 (by rw [h.length, hnone, List.length_nil])

/-- Without a mark there are digits, in front or behind a point. -/
theorem significant (h : Split cs mark digits rest) (hnone : radixMark mark = [])
    (hs : Lexeme.startsNumber cs = true) :
    digits ≠ [] ∨ ∃ d ds, fraction rest = '.' :: d :: ds := by
  obtain rfl := h.mark_eq_nil hnone
  have hten : isDigitBehind [] = isDigitOf 10 := rfl
  obtain ⟨htake, hdrop⟩ := takeWhile_append_of_head h.within h.stops
  have hsome := significant_of_startsNumber hs
  rwa [h.text, List.nil_append, ← hten, htake, hdrop] at hsome

end Split

/-- What stands in front has a property, and so has the first character behind it. -/
theorem head_append {P : Char → Prop} {front behind : List Char} (hfront : ∀ c ∈ front, P c)
    (hbehind : ∀ c ∈ behind.head?, P c) : ∀ c ∈ (front ++ behind).head?, P c := by
  cases front with
  | nil => exact hbehind
  | cons d ds =>
      intro c hc
      obtain rfl : d = c := by simpa using hc
      exact hfront d List.mem_cons_self

theorem continuesFloating_eq_false (h : ∀ c ∈ rest.head?, c ∉ ['.', 'e', 'E']) :
    continuesFloating rest = false := by
  cases rest with
  | nil => rfl
  | cons c cs =>
      have hc := h c rfl
      simp only [List.mem_cons, List.not_mem_nil, or_false, not_or] at hc
      simp [continuesFloating, hc]

theorem Ends.not_mem {others : List Char} (h : Ends rest)
    (hothers : others.all isGlue = true) : ∀ c ∈ rest.head?, c ∉ others := by
  intro c hc hmem
  simpa [List.all_eq_true.1 hothers c hmem] using h c hc

/-- Digits go on to a floating constant only with a point or an exponent. -/
theorem marked_of_continuesFloating {point introduction power suffix : List Char}
    (hparts : Decimal.Parts digits point introduction power)
    (hsuffix : suffix = [] ∨ ∃ c, suffix = [c] ∧ isFloatingSuffix c = true) (hends : Ends rest)
    (h : continuesFloating (point ++ introduction ++ power ++ suffix ++ rest) = true) :
    point ++ introduction ≠ [] := by
  intro hempty
  obtain ⟨rfl, rfl⟩ := List.append_eq_nil_iff.1 hempty
  obtain rfl : power = [] := by
    rcases hparts.exponent with ⟨-, hpower⟩ | ⟨c, sign, hletter, -⟩
    · exact hpower
    · cases hletter
  -- A suffix is no point or exponent, and neither is what ends a number.
  have hbehind : ∀ c ∈ (suffix ++ rest).head?, c ∉ ['.', 'e', 'E'] := by
    refine head_append ?_ (hends.not_mem (by decide +kernel))
    rcases hsuffix with rfl | ⟨c, rfl, hc⟩
    · exact nofun
    · intro d hd
      obtain rfl := List.mem_singleton.1 hd
      simp only [isFloatingSuffix, Bool.or_eq_true, decide_eq_true_eq] at hc
      rcases hc with ((rfl | rfl) | rfl) | rfl <;> decide
  simp only [List.nil_append] at h
  rw [continuesFloating_eq_false hbehind] at h
  cases h

/-- What the scanner takes for a floating constant is one of its texts. -/
theorem spelled_of_scanFloating (h : scanFloating digits rest = (.ok w, n))
    (hdigits : ∀ d ∈ digits, isDigitOf 10 d = true)
    (hsome : digits ≠ [] ∨ ∃ d ds, fraction rest = '.' :: d :: ds)
    (hcontinues : continuesFloating rest = true) :
    ∃ text after, digits ++ rest = text ++ after ∧ Spelled w text ∧ Ends after ∧
      n = text.length := by
  obtain ⟨point, introduction, power, suffix, after, rfl, hparts, hsuffix, hends, rfl, rfl⟩ :=
    exists_parts_of_scanFloating h hdigits hsome
  exact ⟨digits ++ point ++ introduction ++ power ++ suffix, after, by simp,
    .floating hparts (marked_of_continuesFloating hparts hsuffix hends hcontinues) hsuffix,
    hends, rfl⟩

theorem base_pos (mark digits : List Char) : 0 < base mark digits := by
  unfold base radix
  split_ifs <;> omega

/-- What the scanner takes is a constant that nothing continues. -/
theorem spelled_of_scan (h : scan cs = (.ok w, n)) (hs : Lexeme.startsNumber cs = true) :
    ∃ text rest, cs = text ++ rest ∧ Spelled w text ∧ Ends rest ∧ n = text.length := by
  obtain ⟨mark, digits, rest, hsplit⟩ := exists_split cs
  rw [hsplit.scan_eq] at h
  split at h
  · -- Without a mark, and with a point or an exponent behind the digits.
    rename_i hfloating
    obtain rfl := hsplit.mark_eq_nil hfloating.1
    obtain ⟨text, after, htext, hspelled⟩ := spelled_of_scanFloating h hsplit.within
      (hsplit.significant hfloating.1 hs) hfloating.2
    exact ⟨text, after, hsplit.text.trans htext, hspelled⟩
  · dsimp only at h
    split at h
    · simp [malformed] at h
    · rename_i hgood
      rw [not_or] at hgood
      obtain ⟨hnonempty, hglue⟩ := hgood
      split at h
      · rename_i value hvalue
        obtain ⟨hwithin, rfl, hbound⟩ :=
          (evaluate_eq_ok_iff (base_pos mark digits) (by decide)).1 hvalue
        simp only [Prod.mk.injEq, Except.ok.injEq] at h
        obtain ⟨rfl, rfl⟩ := h
        refine ⟨mark ++ digits ++ rest.takeWhile isIntegerSuffix,
          rest.dropWhile isIntegerSuffix, ?_,
          .integer { marked := hsplit.marked
                     nonempty := hnonempty
                     within := hwithin
                     letters := fun c hc => List.mem_takeWhile_imp hc
                     bound := hbound }, ?_, ?_⟩
        · simp [hsplit.text]
        · intro c hc
          simpa [Option.mem_def.1 hc] using hglue
        · rw [List.length_append, List.length_append, List.length_append, hsplit.length]
      · simp [malformed] at h
      · cases h

theorem le_length_scanFloating (digits rest : List Char) :
    digits.length + (fraction rest).length ≤ (scanFloating digits rest).2 := by
  unfold scanFloating malformed
  grind

/-- What is taken as a number has characters, also when it is refused. -/
theorem length_pos_scan (hs : Lexeme.startsNumber cs = true) : 0 < (scan cs).2 := by
  obtain ⟨mark, digits, rest, hsplit⟩ := exists_split cs
  rw [hsplit.scan_eq]
  split
  · rename_i hfloating
    have hle := le_length_scanFloating digits rest
    rcases hsplit.significant hfloating.1 hs with hdigit | ⟨d, ds, hpoint⟩
    · have := List.length_pos_iff.2 hdigit
      omega
    · rw [hpoint, List.length_cons] at hle
      omega
  · rename_i hinteger
    have hpos : 0 < (radixMark mark ++ digits).length := by
      refine List.length_pos_iff.2 fun hempty => hinteger ?_
      obtain ⟨hnone, rfl⟩ := List.append_eq_nil_iff.1 hempty
      obtain ⟨d, ds, hpoint⟩ := (hsplit.significant hnone hs).resolve_left (by simp)
      refine ⟨hnone, ?_⟩
      unfold fraction at hpoint
      split at hpoint
      · rfl
      · cases hpoint
    unfold malformed
    grind

/-! ## Numbers that are put together -/

theorem not_mem_of_class {p : Char → Bool} {others : List Char}
    (hothers : others.any p = false) (h : p c = true) : c ∉ others := by
  intro hmem
  exact List.any_eq_false.1 hothers c hmem h

theorem any_head_eq_false (h : Ends rest) : rest.head?.any isGlue = false := by
  cases hhead : rest.head? with
  | none => rfl
  | some c => exact h c hhead

/-- The shape of an integer constant: a mark of a radix or none, some digits that are taken behind
it and any letters `u` and `l`.  The digits need not belong to the radix, nor have a value in 64
bits. -/
structure Shaped (mark digits suffix : List Char) : Prop where
  marked : mark ∈ marks
  nonempty : digits ≠ []
  taken : ∀ d ∈ digits, isDigitBehind mark d = true
  letters : ∀ c ∈ suffix, isIntegerSuffix c = true

namespace Shaped

variable {mark suffix : List Char}

theorem length_mark (h : Shaped mark digits suffix) : mark.length = (radixMark mark).length :=
  length_of_mem_marks h.marked

/-- No suffix begins with a point or an exponent, and none goes on with digits. -/
theorem continuesFloating_eq_false (h : Shaped mark digits suffix) (hends : Ends rest) :
    continuesFloating (suffix ++ rest) = false := by
  refine Number.continuesFloating_eq_false
    (head_append (fun c hc => ?_) (hends.not_mem (by decide +kernel)))
  exact not_mem_of_class (by decide) (h.letters c hc)

/-- What has the shape of an integer constant is cut where its parts are. -/
theorem split (h : Shaped mark digits suffix) (hends : Ends rest) :
    Split (mark ++ (digits ++ (suffix ++ rest))) mark digits (suffix ++ rest) := by
  have hdigit : ∀ c, isDigitBehind mark c = true → isDigitOf 16 c = true := by
    intro c
    refine isDigitOf_mono ?_
    split_ifs <;> omega
  refine { text := rfl, marked := h.marked, radix := ?radix, length := h.length_mark,
           within := h.taken, stops := ?stops }
  case stops =>
    refine head_append (fun c hc => ?_) (hends.stops fun c hc => isGlue_of_isDigitOf (hdigit c hc))
    have hletter := h.letters c hc
    simp only [isIntegerSuffix, Bool.or_eq_true, decide_eq_true_eq] at hletter
    refine Bool.eq_false_iff.2 fun hbad => absurd (hdigit c hbad) ?_
    rcases hletter with ((rfl | rfl) | rfl) | rfl <;> decide
  case radix =>
    by_cases hnone : mark = []
    · -- Behind the first digit stand digits, a suffix or the end, so no mark is recognised.
      subst hnone
      obtain ⟨d, ds, rfl⟩ := List.exists_cons_of_ne_nil h.nonempty
      refine radixMark_eq_nil ?_
      rw [List.nil_append, List.cons_append, List.drop_one, List.tail_cons]
      refine head_append (fun c hc => ?_) (head_append (fun c hc => ?_)
        (hends.not_mem (by decide +kernel)))
      · exact not_mem_of_class (by decide) (h.taken c (List.mem_cons_of_mem _ hc))
      · exact not_mem_of_class (by decide) (h.letters c hc)
    · exact radixMark_append h.marked hnone _

/-- What has the shape of an integer constant is taken up to its end, and its digits alone decide
what becomes of it. -/
theorem scan_eq (h : Shaped mark digits suffix) (hends : Ends rest) :
    scan (mark ++ (digits ++ (suffix ++ rest))) =
      (match evaluate (base mark digits) 0 digits with
        | .ok value => .ok (.integer (UInt64.ofNat value))
        | .error .outOfRadix =>
            .error (.malformedNumber (String.ofList (radixMark mark ++ digits)))
        | .error .overflow => .error .integerOverflow,
        (mark ++ digits ++ suffix).length) := by
  obtain ⟨htake, hdrop⟩ := takeWhile_append_of_head h.letters
    (hends.stops fun c => isGlue_of_isIntegerSuffix)
  have hglue : rest.takeWhile isGlue = [] :=
    (takeWhile_append_of_head (List.forall_mem_nil _) hends).1
  have hgood : ¬ (digits = [] ∨ rest.head?.any isGlue = true) := by
    simp [h.nonempty, any_head_eq_false hends]
  rw [(h.split hends).scan_eq, if_neg (by simp [h.continuesFloating_eq_false hends])]
  simp only [htake, hdrop, if_neg hgood, malformed, hglue, List.append_nil, List.length_append,
    List.length_nil, Nat.add_zero, h.length_mark]
  split <;> rfl

end Shaped

/-- Digits of the radix are taken behind its mark. -/
theorem Integral.shaped {mark suffix : List Char} (h : Integral mark digits suffix) :
    Shaped mark digits suffix := by
  have hbase : base mark digits ≤ if radixMark mark = ['0', 'x'] then 16 else 10 := by
    unfold base radix
    split_ifs <;> omega
  exact
    { marked := h.marked
      nonempty := h.nonempty
      taken := fun d hd => isDigitOf_mono hbase (h.within d hd)
      letters := h.letters }

/-- An integer constant is read up to its end. -/
theorem scan_of_integral {mark suffix : List Char} (h : Integral mark digits suffix)
    (hends : Ends rest) :
    scan (mark ++ (digits ++ (suffix ++ rest))) =
      (.ok (.integer (UInt64.ofNat (valueFrom (base mark digits) 0 digits))),
        (mark ++ digits ++ suffix).length) := by
  have hvalue := (evaluate_eq_ok_iff (base_pos mark digits) (by decide)).2
    ⟨h.within, rfl, h.bound⟩
  rw [h.shaped.scan_eq hends, hvalue]

/-- A point and its digits are read as such up to what is no digit. -/
theorem fraction_append {digits introduction power : List Char} {point : List Char}
    (h : Decimal.Parts digits point introduction power) (hmarked : point ++ introduction ≠ [])
    (hrest : ∀ c ∈ rest.head?, isDigitOf 10 c = false) :
    fraction (point ++ (introduction ++ (power ++ rest))) = point := by
  rcases h.point with rfl | ⟨ds, rfl, hds⟩
  · rcases h.exponent with ⟨rfl, -⟩ | ⟨c, sign, rfl, rfl | rfl, -⟩
    · exact absurd rfl hmarked
    · rfl
    · rfl
  · have hbehind : ∀ c ∈ (introduction ++ (power ++ rest)).head?, isDigitOf 10 c = false := by
      rcases h.exponent with ⟨rfl, rfl⟩ | ⟨c, sign, rfl, rfl | rfl, -⟩
      · exact hrest
      · rintro c ⟨⟩
        decide
      · rintro c ⟨⟩
        decide
    rw [List.cons_append, fraction, (takeWhile_append_of_head hds hbehind).1]

/-- An exponent that is begun is read up to what is no digit; one that is not begun is not read. -/
theorem exponent_append {digits point introduction power : List Char}
    (h : Decimal.Parts digits point introduction power)
    (hrest : ∀ c ∈ rest.head?, isDigitOf 10 c = false ∧ c ∉ ['e', 'E']) :
    exponent (introduction ++ (power ++ rest)) = (introduction, power) := by
  rcases h.exponent with ⟨rfl, rfl⟩ | ⟨c, sign, rfl, hc, hsign, hpower, hdigits⟩
  · cases rest with
    | nil => rfl
    | cons c cs =>
        have hletter := (hrest c rfl).2
        simp only [List.mem_cons, List.not_mem_nil, or_false] at hletter
        simp only [List.nil_append, exponent, if_neg hletter]
  · obtain ⟨htake, -⟩ := takeWhile_append_of_head hdigits fun c hc => (hrest c hc).1
    -- Digits are no signs, so just the sign is taken for one.
    have hcut :
        ((sign ++ (power ++ rest)).take 1).takeWhile (fun s => s = '+' || s = '-') = sign := by
      rcases hsign with rfl | rfl | rfl
      · obtain ⟨d, ds, rfl⟩ := List.exists_cons_of_ne_nil hpower
        have hsigns : d ∉ ['+', '-'] :=
          not_mem_of_class (p := isDigitOf 10) (by decide) (hdigits d List.mem_cons_self)
        simp only [List.mem_cons, List.not_mem_nil, or_false, not_or] at hsigns
        simp [hsigns]
      · rfl
      · rfl
    rw [List.cons_append, exponent, if_pos hc, hcut]
    dsimp only
    rw [List.drop_left, htake]

/-- A floating constant is read up to its end. -/
theorem scanFloating_of_parts {point introduction power suffix : List Char}
    (h : Decimal.Parts digits point introduction power) (hmarked : point ++ introduction ≠ [])
    (hsuffix : suffix = [] ∨ ∃ c, suffix = [c] ∧ isFloatingSuffix c = true) (hends : Ends rest) :
    scanFloating digits (point ++ (introduction ++ (power ++ (suffix ++ rest)))) =
      (.ok (.floating (String.ofList (digits ++ point ++ introduction ++ power))),
        (digits ++ point ++ introduction ++ power ++ suffix).length) := by
  have hletter : ∀ c ∈ suffix, isFloatingSuffix c = true := by
    rcases hsuffix with rfl | ⟨c, rfl, hc⟩
    · exact nofun
    · simpa using hc
  -- Neither a suffix nor what ends a number goes on with digits or an exponent.
  have hbehind : ∀ c ∈ (suffix ++ rest).head?, isDigitOf 10 c = false ∧ c ∉ ['e', 'E'] := by
    refine head_append (fun c hc => ⟨?_, not_mem_of_class (by decide) (hletter c hc)⟩)
      fun c hc => ?_
    · refine Bool.eq_false_iff.2 fun hdigit => ?_
      have hc := hletter c hc
      simp only [isFloatingSuffix, Bool.or_eq_true, decide_eq_true_eq] at hc
      rcases hc with ((rfl | rfl) | rfl) | rfl <;> exact absurd hdigit (by decide)
    · exact ⟨hends.stops (fun c hc => isGlue_of_isDigitOf (isDigitOf_mono (by decide) hc)) c hc,
        hends.not_mem (by decide +kernel) c hc⟩
  have hfraction := fraction_append h hmarked fun c hc => (hbehind c hc).1
  have hexponent := exponent_append h hbehind
  have hcut : ((suffix ++ rest).take 1).takeWhile isFloatingSuffix = suffix := by
    rcases hsuffix with rfl | ⟨c, rfl, hc⟩
    · cases rest with
      | nil => rfl
      | cons c cs =>
          have hc := hends.stops (fun c => isGlue_of_isFloatingSuffix) c rfl
          simp [hc]
    · simp [hc]
  have hcomplete : ¬ (introduction ≠ [] ∧ power = []) := by
    rcases h.exponent with ⟨rfl, -⟩ | ⟨c, sign, -, -, -, hpower, -⟩
    · simp
    · simp [hpower]
  unfold scanFloating
  simp only [hfraction, List.drop_left, hexponent, if_neg hcomplete]
  rw [← List.append_assoc introduction, List.drop_left, hcut, List.drop_left,
    any_head_eq_false hends]
  simp [Nat.add_assoc]

/-- A mark of a floating constant goes before its digits or behind them. -/
theorem exists_head_of_marked {point introduction power : List Char}
    (h : Decimal.Parts digits point introduction power) (hmarked : point ++ introduction ≠ []) :
    ∃ c ds, point ++ introduction = c :: ds ∧ c ∈ ['.', 'e', 'E'] := by
  rcases h.point with rfl | ⟨ds, rfl, -⟩
  · rcases h.exponent with ⟨rfl, -⟩ | ⟨c, sign, rfl, rfl | rfl, -⟩
    · exact absurd rfl hmarked
    · exact ⟨_, _, rfl, by decide⟩
    · exact ⟨_, _, rfl, by decide⟩
  · exact ⟨_, _, rfl, by decide⟩

/-- Digits in front of the mark of a floating constant are cut off there. -/
theorem split_of_marked {c : Char} (hc : c ∈ ['.', 'e', 'E'])
    (hdigits : ∀ d ∈ digits, isDigitBehind [] d = true) (ds : List Char) :
    Split (digits ++ (c :: ds)) [] digits (c :: ds) := by
  simp only [List.mem_cons, List.not_mem_nil, or_false] at hc
  refine { text := rfl, marked := by decide, radix := ?radix, length := rfl, within := hdigits,
           stops := ?stops }
  case stops =>
    rintro _ ⟨⟩
    rcases hc with rfl | rfl | rfl <;> decide
  case radix =>
    cases digits with
    | nil => rcases hc with rfl | rfl | rfl <;> rfl
    | cons d others =>
        refine radixMark_eq_nil ?_
        rw [List.cons_append, List.drop_one, List.tail_cons]
        refine head_append (fun o ho => ?_) ?_
        · exact not_mem_of_class (by decide) (hdigits o (List.mem_cons_of_mem _ ho))
        · rintro _ ⟨⟩
          rcases hc with rfl | rfl | rfl <;> decide

/-- Every constant is read up to its end, as the lexeme that it is. -/
theorem scan_of_spelled {text : List Char} (h : Spelled w text) (hends : Ends rest) :
    scan (text ++ rest) = (.ok w, text.length) := by
  cases h with
  | integer hintegral =>
      have hscan := scan_of_integral hintegral hends
      simpa using hscan
  | @floating digits point introduction power suffix hparts hmarked hsuffix =>
      have hdigits : ∀ d ∈ digits, isDigitBehind [] d = true := hparts.whole
      obtain ⟨c, ds, hhead, hc⟩ := exists_head_of_marked hparts hmarked
      have htail : c :: (ds ++ (power ++ (suffix ++ rest))) =
          point ++ (introduction ++ (power ++ (suffix ++ rest))) := by
        rw [← List.append_assoc point, hhead, List.cons_append]
      have hcontinues : continuesFloating (c :: (ds ++ (power ++ (suffix ++ rest)))) = true := by
        simpa [continuesFloating, or_assoc] using hc
      have hscan := (split_of_marked hc hdigits (ds ++ (power ++ (suffix ++ rest)))).scan_eq
      rw [if_pos ⟨rfl, hcontinues⟩, htail,
        scanFloating_of_parts hparts hmarked hsuffix hends] at hscan
      simpa using hscan

theorem startsNumber_cons (h : isDigitOf 10 c = true) (cs : List Char) :
    Lexeme.startsNumber (c :: cs) = true := by
  have hpoint : c ≠ '.' := by
    rintro rfl
    revert h
    decide
  rw [Lexeme.startsNumber.eq_2 c cs fun _ _ h => absurd h hpoint]
  exact h

theorem Shaped.startsNumber {mark suffix : List Char} (h : Shaped mark digits suffix)
    (rest : List Char) : Lexeme.startsNumber (mark ++ digits ++ suffix ++ rest) = true := by
  have hmark := h.marked
  simp only [marks, List.mem_cons, List.not_mem_nil, or_false] at hmark
  rcases hmark with rfl | rfl | rfl | rfl | rfl
  · obtain ⟨d, ds, rfl⟩ := List.exists_cons_of_ne_nil h.nonempty
    exact startsNumber_cons (h.taken d List.mem_cons_self) _
  all_goals exact startsNumber_cons (by decide) _

/-- Constants begin as numbers do. -/
theorem startsNumber_of_spelled {text : List Char} (h : Spelled w text) (rest : List Char) :
    Lexeme.startsNumber (text ++ rest) = true := by
  cases h with
  | integer hintegral => exact hintegral.shaped.startsNumber rest
  | @floating digits point introduction power suffix hparts hmarked hsuffix =>
      cases digits with
      | cons d ds => exact startsNumber_cons (hparts.whole d List.mem_cons_self) _
      | nil =>
          obtain ⟨d, ds, rfl⟩ := hparts.significant.resolve_left (by simp)
          rcases hparts.point with hnone | ⟨others, hsome, hdigits⟩
          · cases hnone
          · obtain rfl := (List.cons.inj hsome).2
            exact hdigits d List.mem_cons_self

end Number
end CSyntax
