import CSyntax.Proofs.Lexical.Numbers
import CSyntax.Proofs.Lexical.Spelling
import Mathlib.Data.List.Infix

/-!
# Escapes — what the text between quotes stands for

Literals are kept as written.  This file decodes them: an escape sequence is a backslash with one
character, with up to three octal digits, or with `x` and any number of hexadecimal digits, as many
as there are.  So the end of a text may be continued by what is put behind it.

* `Element`, `elements` — the characters and escape sequences that a text is made of;
* `decode` — the values that they stand for;
* `Continues` — the last escape sequence of a text goes on in what follows;
* `decode_flatten_iff` — texts put together stand for what they stand for one by one exactly where
  no escape sequence goes on in what follows.
-/

namespace CSyntax
namespace Escape

open Number (isDigitOf)

/-! ## Elements -/

inductive Element
  | plain (c : Char)
  /-- A backslash and a character that is no digit and no `x`. -/
  | simple (c : Char)
  | octal (digits : List Char)
  | hexadecimal (digits : List Char)

/-- The element that a text begins with, and the text behind it. -/
def next : Char → List Char → Element × List Char
  | '\\', 'x' :: cs => (.hexadecimal (cs.takeWhile (isDigitOf 16)), cs.dropWhile (isDigitOf 16))
  | '\\', c :: cs =>
      if isDigitOf 8 c then
        let more := (cs.take 2).takeWhile (isDigitOf 8)
        (.octal (c :: more), cs.drop more.length)
      else (.simple c, cs)
  | c, cs => (.plain c, cs)

theorem length_next_le (c : Char) (cs : List Char) : (next c cs).2.length ≤ cs.length := by
  unfold next
  split
  · exact (List.length_dropWhile_le _ _).trans (Nat.le_succ _)
  · split
    · simp only [List.length_drop, List.length_cons]
      omega
    · exact Nat.le_succ _
  · exact Nat.le_refl _

def elements : List Char → List Element
  | [] => []
  | c :: cs => (next c cs).1 :: elements (next c cs).2
termination_by cs => cs.length
decreasing_by exact Nat.lt_succ_of_le (length_next_le c cs)

/-- What a simple escape sequence stands for.  Quotes, the question mark and the backslash stand for
themselves, and so does what makes no escape sequence. -/
def simpleValue (c : Char) : Nat :=
  if c = 'a' then 7
  else if c = 'b' then 8
  else if c = 't' then 9
  else if c = 'n' then 10
  else if c = 'v' then 11
  else if c = 'f' then 12
  else if c = 'r' then 13
  else c.toNat

def Element.value : Element → Nat
  | .plain c => c.toNat
  | .simple c => simpleValue c
  | .octal digits => Number.valueFrom 8 0 digits
  | .hexadecimal [] => 'x'.toNat
  | .hexadecimal digits => Number.valueFrom 16 0 digits

/-- The values that a text between quotes stands for. -/
def decode (text : List Char) : List Nat :=
  (elements text).map (·.value)

example : decode "\\101\\x4a\\n\\1018".toList = [0o101, 0x4a, 10, 0o101, '8'.toNat] := by
  decide +kernel

/-! ## What continues an element -/

/-- The element would take the character along. -/
def Element.continuedBy : Element → Char → Bool
  | .plain _, _ | .simple _, _ => false
  | .octal digits, c => decide (digits.length < 3) && isDigitOf 8 c
  | .hexadecimal _, c => isDigitOf 16 c

/-- The last element of the text goes on in the text behind. -/
def Continues (text behind : List Char) : Prop :=
  ∃ e ∈ (elements text).getLast?, ∃ c ∈ behind.head?, e.continuedBy c = true

/-- The text does not end in the middle of an escape sequence. -/
def Complete (text : List Char) : Prop :=
  .plain '\\' ∉ (elements text).getLast?

variable {c d : Char} {cs ds text behind : List Char}

/-! ## Elements of joined texts -/

theorem next_plain (hc : c ≠ '\\') : next c cs = (.plain c, cs) :=
  next.eq_3 c cs (fun _ h => absurd h hc) (fun _ _ h => absurd h hc)

theorem next_hexadecimal : next '\\' ('x' :: cs) =
    (.hexadecimal (cs.takeWhile (isDigitOf 16)), cs.dropWhile (isDigitOf 16)) :=
  rfl

theorem next_escape (hd : d ≠ 'x') : next '\\' (d :: cs) =
    if isDigitOf 8 d then
      (.octal (d :: (cs.take 2).takeWhile (isDigitOf 8)),
        cs.drop ((cs.take 2).takeWhile (isDigitOf 8)).length)
    else (.simple d, cs) :=
  next.eq_2 d cs hd

/-- How many more octal digits a text begins with is told by its first two characters. -/
theorem take_append_octal {digits : List Char} (hbehind : (digits.drop ((digits.take 2).takeWhile
      (isDigitOf 8)).length) = [] → ∀ d ∈ behind.head?, digits.length < 2 → isDigitOf 8 d = false) :
    ((digits ++ behind).take 2).takeWhile (isDigitOf 8) =
      (digits.take 2).takeWhile (isDigitOf 8) := by
  rcases digits with _ | ⟨a, _ | ⟨b, digits⟩⟩
  · cases behind with
    | nil => rfl
    | cons d behind =>
        have hd := hbehind rfl d rfl (by decide)
        simp [hd]
  · by_cases ha : isDigitOf 8 a = true
    · cases behind with
      | nil => rfl
      | cons d behind =>
          have hd := hbehind (by simp [ha]) d rfl (by simp)
          simp [ha, hd]
    · simp [ha]
  · simp

/-- An element is the same with more text behind, unless it reaches to the end and goes on. -/
theorem next_append (h : (next c cs).2 = [] → (next c cs).1 ≠ .plain '\\' ∧
      ∀ d ∈ behind.head?, (next c cs).1.continuedBy d = false) :
    next c (cs ++ behind) = ((next c cs).1, (next c cs).2 ++ behind) := by
  by_cases hc : c = '\\'
  · subst hc
    cases cs with
    | nil => exact absurd rfl (h rfl).1
    | cons d cs =>
        rw [List.cons_append]
        by_cases hx : d = 'x'
        · subst hx
          rw [next_hexadecimal] at h ⊢
          rw [next_hexadecimal]
          have hsplit := List.takeWhile_append_dropWhile (p := isDigitOf 16) (l := cs)
          by_cases hend : cs.dropWhile (isDigitOf 16) = []
          · -- The digits reach to the end, and what follows is no digit.
            have hall : cs.takeWhile (isDigitOf 16) = cs := by
              rwa [hend, List.append_nil] at hsplit
            have hstop : ∀ d ∈ behind.head?, isDigitOf 16 d = false := (h hend).2
            rw [List.takeWhile_append_of_pos (List.takeWhile_eq_self_iff.1 hall),
              List.dropWhile_append]
            cases behind with
            | nil => simp [hall, hend]
            | cons d behind => simp [hall, hend, hstop d rfl]
          · have hlength : (cs.takeWhile (isDigitOf 16)).length ≠ cs.length := fun hlength => by
              have := congrArg List.length hsplit
              rw [List.length_append, hlength] at this
              exact hend (List.eq_nil_of_length_eq_zero (by omega))
            rw [List.takeWhile_append, if_neg hlength, List.dropWhile_append,
              if_neg (by simpa using hend)]
        · rw [next_escape hx] at h ⊢
          rw [next_escape hx]
          by_cases hoctal : isDigitOf 8 d = true
          · simp only [hoctal, if_true] at h ⊢
            have hle : ((cs.take 2).takeWhile (isDigitOf 8)).length ≤ cs.length :=
              (List.takeWhile_sublist _).length_le.trans (List.length_take_le' 2 cs)
            have hmore : ((cs ++ behind).take 2).takeWhile (isDigitOf 8) =
                (cs.take 2).takeWhile (isDigitOf 8) := by
              refine take_append_octal fun hend a ha hshort => ?_
              have hstop := (h hend).2 a ha
              rw [Element.continuedBy, Bool.and_eq_false_iff, decide_eq_false_iff_not] at hstop
              exact hstop.resolve_left fun hnot => hnot (by rw [List.length_cons]; omega)
            rw [hmore, List.drop_append_of_le_length hle]
          · simp [hoctal]
  · rw [next_plain hc, next_plain hc]

theorem elements_cons : elements (c :: cs) = (next c cs).1 :: elements (next c cs).2 := by
  rw [elements]

theorem elements_nil : elements [] = [] := by
  rw [elements]

/-- Texts put together have their elements one behind the other, unless one goes on. -/
theorem elements_append (hcomplete : Complete text) (h : ¬ Continues text behind) :
    elements (text ++ behind) = elements text ++ elements behind := by
  induction hlength : text.length using Nat.strongRecOn generalizing text with
  | ind length ih =>
      cases text with
      | nil => rw [elements_nil]; rfl
      | cons c cs =>
          have hlt := Nat.lt_succ_of_le (length_next_le c cs)
          have hlast : (next c cs).2 = [] → (next c cs).1 ∈ (elements (c :: cs)).getLast? := by
            intro hend
            rw [elements_cons, hend, elements_nil]
            rfl
          have hnext : next c (cs ++ behind) = ((next c cs).1, (next c cs).2 ++ behind) := by
            refine next_append fun hend => ?_
            refine ⟨fun hlone => hcomplete (hlone ▸ hlast hend), fun d hd => ?_⟩
            exact Bool.eq_false_iff.2 fun hgoes => h ⟨_, hlast hend, d, hd, hgoes⟩
          -- The last element of what is left is the last one of the whole.
          have hrest : ∀ e ∈ (elements (next c cs).2).getLast?,
              e ∈ (elements (c :: cs)).getLast? := by
            intro e he
            rw [elements_cons, List.getLast?_cons, Option.mem_def.1 he]
            rfl
          rw [List.cons_append, elements_cons, elements_cons, hnext]
          rw [ih _ (hlength ▸ hlt) (fun hlone => hcomplete (hrest _ hlone))
            (fun ⟨e, he, hgoes⟩ => h ⟨e, hrest e he, hgoes⟩) rfl, List.cons_append]

/-- Characters in front that are no backslashes are elements of their own. -/
theorem length_elements_plain {front : List Char} (h : ∀ c ∈ front, c ≠ '\\')
    (text : List Char) :
    (elements (front ++ text)).length = front.length + (elements text).length := by
  induction front with
  | nil => simp
  | cons c front ih =>
      rw [List.cons_append, elements_cons, next_plain (h c List.mem_cons_self), List.length_cons,
        ih fun c hc => h c (List.mem_cons_of_mem _ hc), List.length_cons]
      omega

theorem ne_backslash_of_mem_takeWhile {radix : Nat} (hradix : radix ≤ 16)
    (hmem : c ∈ text.takeWhile (isDigitOf radix)) : c ≠ '\\' := by
  rintro rfl
  have hdigit := List.mem_takeWhile_imp hmem
  have hvalue : Number.digitValue '\\' = 16 := by decide
  rw [isDigitOf, hvalue, decide_eq_true_iff] at hdigit
  omega

/-- An element that goes on takes characters of what follows along. -/
theorem exists_taken (ds : List Char) (hend : (next c cs).2 = [])
    (hgoes : (next c cs).1.continuedBy d = true) : ∃ taken, taken ≠ [] ∧ (∀ c ∈ taken, c ≠ '\\') ∧
      d :: ds = taken ++ (next c (cs ++ d :: ds)).2 := by
  by_cases hc : c = '\\'
  · subst hc
    cases cs with
    | nil => cases hgoes
    | cons a cs =>
        rw [List.cons_append]
        by_cases hx : a = 'x'
        · subst hx
          rw [next_hexadecimal] at hend hgoes ⊢
          have hall : cs.dropWhile (isDigitOf 16) = [] := hend
          have hd : isDigitOf 16 d = true := hgoes
          refine ⟨(d :: ds).takeWhile (isDigitOf 16), by simp [hd],
            fun c hc => ne_backslash_of_mem_takeWhile (Nat.le_refl _) hc, ?_⟩
          rw [List.dropWhile_append, if_pos (by simp [hall]), List.takeWhile_append_dropWhile]
        · rw [next_escape hx] at hend hgoes ⊢
          by_cases hoctal : isDigitOf 8 a = true
          · simp only [hoctal, if_true] at hend hgoes ⊢
            rw [Element.continuedBy, Bool.and_eq_true, decide_eq_true_iff] at hgoes
            obtain ⟨hshort, hd⟩ := hgoes
            -- One or two digits have been read, and all of them lie in front of `d`.
            rcases cs with _ | ⟨b, _ | ⟨b', cs⟩⟩
            · have hprefix : ((d :: ds).take 2).takeWhile (isDigitOf 8) <+: d :: ds :=
                (List.takeWhile_prefix _).trans (List.take_prefix _ _)
              refine ⟨((d :: ds).take 2).takeWhile (isDigitOf 8), by simp [hd],
                fun c hc => ne_backslash_of_mem_takeWhile (by decide) hc, ?_⟩
              exact List.prefix_append_drop hprefix
            · by_cases hb : isDigitOf 8 b = true
              · have hplain : d ≠ '\\' := by
                  rintro rfl
                  exact absurd hd (by decide)
                exact ⟨[d], by simp, by simpa using hplain, by simp [hb, hd]⟩
              · simp [hb] at hend
            · by_cases hb : isDigitOf 8 b = true <;> by_cases hb' : isDigitOf 8 b' = true <;>
                simp [hb, hb'] at hend hshort
          · simp only [hoctal] at hgoes
            cases hgoes
  · rw [next_plain hc] at hgoes
    cases hgoes

theorem length_elements_append_lt (h : Continues text behind) :
    (elements (text ++ behind)).length < (elements text).length + (elements behind).length := by
  induction hlength : text.length using Nat.strongRecOn generalizing text with
  | ind length ih =>
      obtain ⟨e, he, d, hd, hgoes⟩ := h
      cases text with
      | nil => simp [elements_nil] at he
      | cons c cs =>
          rw [elements_cons] at he
          rw [List.cons_append, elements_cons, elements_cons, List.length_cons, List.length_cons]
          -- Only at the last element the second text can make a difference.
          by_cases hend : (next c cs).2 = []
          · rw [hend, elements_nil] at he
            obtain rfl : (next c cs).1 = e := by simpa using he
            cases behind with
            | nil => cases hd
            | cons d' ds =>
                obtain rfl : d' = d := by simpa using hd
                obtain ⟨taken, hne, hplain, htaken⟩ := exists_taken ds hend hgoes
                have hpos := List.length_pos_iff.2 hne
                have hsum := length_elements_plain hplain (next c (cs ++ d' :: ds)).2
                rw [← htaken] at hsum
                rw [hend, elements_nil, List.length_nil, hsum]
                omega
          · rw [next_append fun hnil => absurd hnil hend]
            dsimp only
            have hlater : elements (next c cs).2 ≠ [] := by
              cases hrest : (next c cs).2 with
              | nil => exact absurd hrest hend
              | cons a rest => simp [elements_cons]
            rw [List.getLast?_cons_of_ne_nil hlater] at he
            have := ih _ (hlength ▸ Nat.lt_succ_of_le (length_next_le c cs))
              ⟨e, he, d, hd, hgoes⟩ rfl
            omega

/-! ## Texts put together -/

theorem decode_append (hcomplete : Complete text) (h : ¬ Continues text behind) :
    decode (text ++ behind) = decode text ++ decode behind := by
  rw [decode, elements_append hcomplete h, List.map_append]
  rfl

theorem length_decode_append_lt (h : Continues text behind) :
    (decode (text ++ behind)).length < (decode text).length + (decode behind).length := by
  simpa [decode] using length_elements_append_lt h

/-- In texts put together, an escape sequence at the end of one goes on in those behind it. -/
def RunsOn : List (List Char) → Prop
  | [] => False
  | text :: texts => Continues text texts.flatten ∨ RunsOn texts

variable {texts : List (List Char)}

theorem decode_flatten (hcomplete : ∀ text ∈ texts, Complete text) (h : ¬ RunsOn texts) :
    decode texts.flatten = texts.flatMap decode := by
  induction texts with
  | nil => simp [decode, elements_nil]
  | cons text texts ih =>
      rw [RunsOn, not_or] at h
      rw [List.flatten_cons, decode_append (hcomplete text List.mem_cons_self) h.1,
        ih (fun text htext => hcomplete text (List.mem_cons_of_mem _ htext)) h.2, List.flatMap_cons]

/-- An escape sequence that goes on makes one element of several. -/
theorem length_decode_flatten (hcomplete : ∀ text ∈ texts, Complete text) :
    (decode texts.flatten).length ≤ (texts.flatMap decode).length ∧
      (RunsOn texts → (decode texts.flatten).length < (texts.flatMap decode).length) := by
  induction texts with
  | nil => exact ⟨by simp [decode, elements_nil], False.elim⟩
  | cons text texts ih =>
      obtain ⟨hle, hlt⟩ := ih fun text htext => hcomplete text (List.mem_cons_of_mem _ htext)
      rw [List.flatten_cons, List.flatMap_cons, List.length_append]
      by_cases hgoes : Continues text texts.flatten
      · have := length_decode_append_lt hgoes
        exact ⟨by omega, fun _ => by omega⟩
      · rw [decode_append (hcomplete text List.mem_cons_self) hgoes, List.length_append]
        exact ⟨by omega, fun hruns => by have := hlt (hruns.resolve_left hgoes); omega⟩

/-- Texts put together stand for what they stand for one by one, unless an escape sequence at the
end of one of them goes on. -/
theorem decode_flatten_iff (hcomplete : ∀ text ∈ texts, Complete text) :
    decode texts.flatten = texts.flatMap decode ↔ ¬ RunsOn texts := by
  refine ⟨fun heq hruns => ?_, decode_flatten hcomplete⟩
  have hlt := (length_decode_flatten hcomplete).2 hruns
  rw [heq] at hlt
  exact Nat.lt_irrefl _ hlt

/-! ## Texts between quotes -/

theorem complete_cons (hfirst : (next c cs).1 ≠ .plain '\\') (h : Complete (next c cs).2) :
    Complete (c :: cs) := by
  intro hlast
  rw [elements_cons, List.getLast?_cons, Option.mem_some_iff] at hlast
  cases hrest : (elements (next c cs).2).getLast? with
  | none =>
      rw [hrest] at hlast
      exact hfirst hlast
  | some e =>
      rw [hrest] at hlast
      obtain rfl : e = .plain '\\' := hlast
      exact h hrest

theorem body_of_cons {quote : Char} (hc : c ≠ '\\') (h : Quoted.Body quote (c :: cs)) :
    Quoted.Body quote cs := by
  cases h with
  | plain _ _ _ h => exact h
  | escape _ _ => exact absurd rfl hc

theorem body_of_append {quote : Char} {front : List Char} (hfront : ∀ c ∈ front, c ≠ '\\')
    (h : Quoted.Body quote (front ++ text)) : Quoted.Body quote text := by
  induction front with
  | nil => exact h
  | cons c front ih =>
      exact ih (fun c hc => hfront c (List.mem_cons_of_mem _ hc))
        (body_of_cons (hfront c List.mem_cons_self) h)

/-- Between quotes no text ends in the middle of an escape sequence. -/
theorem complete_of_body {quote : Char} (h : Quoted.Body quote text) : Complete text := by
  induction hlength : text.length using Nat.strongRecOn generalizing text with
  | ind length ih =>
      -- What is behind the first element is shorter and has a body, too.
      have hlater : ∀ {c : Char} {cs : List Char}, text = c :: cs →
          Quoted.Body quote (next c cs).2 → Complete (next c cs).2 := by
        rintro c cs rfl hbody
        exact ih _ (hlength ▸ Nat.lt_succ_of_le (length_next_le c cs)) hbody rfl
      cases h with
      | nil => simp [Complete, elements_nil]
      | @plain c cs _ _ hc hbody =>
          refine complete_cons ?_ (hlater rfl ?_)
          · rw [next_plain hc]
            exact fun heq => hc (Element.plain.inj heq)
          · rwa [next_plain hc]
      | @escape d cs _ hbody =>
          by_cases hx : d = 'x'
          · subst hx
            refine complete_cons nofun (hlater rfl ?_)
            rw [← List.takeWhile_append_dropWhile (p := isDigitOf 16) (l := cs)] at hbody
            exact body_of_append
              (fun c hc => ne_backslash_of_mem_takeWhile (Nat.le_refl _) hc) hbody
          · by_cases hoctal : isDigitOf 8 d = true
            · refine complete_cons ?_ (hlater rfl ?_)
              · simp [next_escape hx, hoctal]
              · have hprefix : (cs.take 2).takeWhile (isDigitOf 8) <+: cs :=
                  (List.takeWhile_prefix _).trans (List.take_prefix _ _)
                rw [List.prefix_append_drop hprefix] at hbody
                simp only [next_escape hx, hoctal, if_true]
                exact body_of_append
                  (fun c hc => ne_backslash_of_mem_takeWhile (by decide) hc) hbody
            · refine complete_cons ?_ (hlater rfl ?_)
              · simp [next_escape hx, hoctal]
              · simpa [next_escape hx, hoctal] using hbody

end Escape
end CSyntax
