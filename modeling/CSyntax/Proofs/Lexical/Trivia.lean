import CSyntax.Lexer.Trivia
import Mathlib.Data.List.Infix

/-!
# Trivia — what stands between lexemes

Trivia is measured by scanners that call each other.  This file says what they measure without them:

* `Trivia.Gap` — white space and comments, all of them ended, as a text may have them anywhere;
* `Trivia.Dangling` — a comment that the end of the text cuts off;
* `Trivia.measure_append` — a gap is measured whole, whatever follows it;
* `Trivia.exists_gap` — every text begins with a gap, behind which a lexeme, the end of the text or
  a dangling comment stands;
* `Trivia.measure_eq` — so the trivia that is measured is all there is.
-/

namespace CSyntax
namespace Trivia

/-! ## Gaps -/

/-- White space and comments that are ended.  A line comment has its line feed, and a block comment
is ended by the first `*/` behind its opening mark. -/
inductive Gap : List Char → Prop
  | nil : Gap []
  | space {c : Char} {cs : List Char} : Unicode.isWhiteSpace c = true → Gap cs → Gap (c :: cs)
  | line {body cs : List Char} : '\n' ∉ body → Gap cs → Gap ('/' :: '/' :: (body ++ '\n' :: cs))
  | block {body cs : List Char} : ¬ ['*', '/'] <:+: body → Gap cs →
      Gap ('/' :: '*' :: (body ++ '*' :: '/' :: cs))

/-- Behind the gap that was read a lexeme or the end of the text follows. -/
def Settled (rest : List Char) : Prop :=
  measure rest = { length := 0, closed := true }

/-! ## Gaps are measured whole -/

theorem Extent.after_after (e : Extent) (m n : Nat) : (e.after m).after n = e.after (n + m) := by
  simp [Extent.after, Nat.add_assoc]

theorem measure_space {c : Char} (hc : Unicode.isWhiteSpace c = true) (cs : List Char) :
    measure (c :: cs) = (measure cs).after 1 := by
  have hslash : c ≠ '/' := by
    rintro rfl
    revert hc
    decide
  rw [measure.eq_3 c cs (fun _ h => absurd h hslash) (fun _ h => absurd h hslash), if_pos hc]

theorem measureLine_append {body : List Char} (hbody : '\n' ∉ body) (cs : List Char) :
    measureLine (body ++ '\n' :: cs) = (measure cs).after (body.length + 1) := by
  induction body with
  | nil => rw [List.nil_append, measureLine, if_pos rfl, List.length_nil]
  | cons c body ih =>
      rw [List.mem_cons, not_or] at hbody
      rw [List.cons_append, measureLine, if_neg (Ne.symm hbody.1), ih hbody.2, Extent.after_after]
      congr 1
      exact Nat.add_comm 1 _

/-- Without a line feed the comment runs to the end of the text. -/
theorem measureLine_of_not_mem {body : List Char} (hbody : '\n' ∉ body) :
    measureLine body = { length := body.length, closed := true } := by
  induction body with
  | nil => rw [measureLine_nil, List.length_nil]
  | cons c body ih =>
      rw [List.mem_cons, not_or] at hbody
      rw [measureLine, if_neg (Ne.symm hbody.1), ih hbody.2]
      simp [Extent.after, Nat.add_comm]

/-- A mark that does not end the comment is stepped over. -/
theorem measureBlock?_cons {c : Char} {cs : List Char} (h : ¬ ['*', '/'] <+: c :: cs) :
    measureBlock? (c :: cs) = (measureBlock? cs).map (Extent.after 1) := by
  refine measureBlock?.eq_2 c cs ?_
  rintro ds rfl rfl
  exact h ⟨ds, rfl⟩

theorem measureBlock?_append {body : List Char} (hbody : ¬ ['*', '/'] <:+: body)
    (cs : List Char) :
    measureBlock? (body ++ '*' :: '/' :: cs) = some ((measure cs).after (body.length + 2)) := by
  induction body with
  | nil => rw [List.nil_append, measureBlock?, List.length_nil]
  | cons c body ih =>
      rw [List.infix_cons_iff, not_or] at hbody
      -- The mark does not begin inside the body, and its slash is not the asterisk behind it.
      have hhead : ¬ ['*', '/'] <+: c :: (body ++ '*' :: '/' :: cs) := by
        cases body with
        | nil => simp
        | cons d body => simpa using hbody.1
      rw [List.cons_append, measureBlock?_cons hhead, ih hbody.2, Option.map_some,
        Extent.after_after]
      simp only [List.length_cons, Option.some_inj]
      congr 1
      omega

theorem measureBlock?_eq_none {body : List Char} (hbody : ¬ ['*', '/'] <:+: body) :
    measureBlock? body = none := by
  induction body with
  | nil => exact measureBlock?_nil
  | cons c body ih =>
      rw [List.infix_cons_iff, not_or] at hbody
      rw [measureBlock?_cons hbody.1, ih hbody.2, Option.map_none]

theorem measure_append {gap : List Char} (h : Gap gap) (rest : List Char) :
    measure (gap ++ rest) = (measure rest).after gap.length := by
  induction h with
  | nil => simp [Extent.after]
  | @space c cs hc _ ih =>
      rw [List.cons_append, measure_space hc, ih, Extent.after_after, List.length_cons,
        Nat.add_comm]
  | @line body cs hbody _ ih =>
      have hlength : 2 + (body.length + 1 + cs.length) =
          ('/' :: '/' :: (body ++ '\n' :: cs)).length := by
        simp
        omega
      calc measure ('/' :: '/' :: (body ++ '\n' :: cs) ++ rest)
          = (measureLine (body ++ '\n' :: (cs ++ rest))).after 2 := by simp [measure]
        _ = (measure rest).after (2 + (body.length + 1 + cs.length)) := by
            rw [measureLine_append hbody, ih, Extent.after_after, Extent.after_after,
              Nat.add_assoc]
        _ = _ := by rw [hlength]
  | @block body cs hbody _ ih =>
      have hlength : 2 + (body.length + 2 + cs.length) =
          ('/' :: '*' :: (body ++ '*' :: '/' :: cs)).length := by
        simp
        omega
      have hblock : measureBlock? (body ++ '*' :: '/' :: cs ++ rest) =
          some ((measure rest).after (body.length + 2 + cs.length)) := by
        rw [List.append_assoc, List.cons_append, List.cons_append, measureBlock?_append hbody, ih,
          Extent.after_after]
      rw [List.cons_append, List.cons_append, measure, hblock]
      dsimp only
      rw [Extent.after_after, hlength]

/-! ## What stands behind a gap -/

/-- A comment that goes on to the end of the text.  A line comment may; a block comment is then
never closed. -/
inductive Dangling : (closed : Bool) → List Char → Prop
  | line {body : List Char} : '\n' ∉ body → Dangling true ('/' :: '/' :: body)
  | block {body : List Char} : ¬ ['*', '/'] <:+: body → Dangling false ('/' :: '*' :: body)

theorem Dangling.measure {rest : List Char} {closed : Bool} (h : Dangling closed rest) :
    Trivia.measure rest = { length := if closed then rest.length else 0, closed := closed } := by
  cases h with
  | line hbody =>
      rw [Trivia.measure, measureLine_of_not_mem hbody]
      simp [Extent.after, Nat.add_comm 2]
  | block hbody =>
      rw [Trivia.measure, measureBlock?_eq_none hbody]
      rfl

/-- The first mark that ends a comment. -/
theorem exists_first_mark {cs : List Char} (h : ['*', '/'] <:+: cs) :
    ∃ body rest, cs = body ++ '*' :: '/' :: rest ∧ ¬ ['*', '/'] <:+: body := by
  induction cs with
  | nil => simp at h
  | cons c cs ih =>
      by_cases hhead : ['*', '/'] <+: c :: cs
      · obtain ⟨rest, hrest⟩ := hhead
        exact ⟨[], rest, hrest.symm, by simp⟩
      · obtain ⟨body, rest, rfl, hbody⟩ := ih ((List.infix_cons_iff.1 h).resolve_left hhead)
        refine ⟨c :: body, rest, rfl, fun hinfix => ?_⟩
        rcases List.infix_cons_iff.1 hinfix with hstart | hinner
        · exact hhead (hstart.trans ⟨'*' :: '/' :: rest, by simp⟩)
        · exact hbody hinner

/-- What begins with no white space and no comment begins with a lexeme. -/
theorem settled_cons {c : Char} {cs : List Char} (hspace : Unicode.isWhiteSpace c ≠ true)
    (hline : ¬ ['/', '/'] <+: c :: cs) (hblock : ¬ ['/', '*'] <+: c :: cs) :
    Settled (c :: cs) := by
  have hline' : ∀ ds, c = '/' → cs ≠ '/' :: ds := by
    rintro ds rfl rfl
    exact hline ⟨ds, rfl⟩
  have hblock' : ∀ ds, c = '/' → cs ≠ '*' :: ds := by
    rintro ds rfl rfl
    exact hblock ⟨ds, rfl⟩
  rw [Settled, measure.eq_3 c cs hline' hblock', if_neg hspace]

theorem settled_of_ne {c : Char} {cs : List Char} (hspace : Unicode.isWhiteSpace c ≠ true)
    (hslash : c ≠ '/') : Settled (c :: cs) :=
  settled_cons hspace (fun h => hslash (List.cons_prefix_cons.1 h).1.symm)
    fun h => hslash (List.cons_prefix_cons.1 h).1.symm

/-- Every text begins with a gap, and behind it a lexeme begins, the text ends or a comment runs on
to the end of the text. -/
theorem exists_gap (cs : List Char) :
    ∃ gap rest, cs = gap ++ rest ∧ Gap gap ∧ (Settled rest ∨ ∃ closed, Dangling closed rest) := by
  induction hlength : cs.length using Nat.strongRecOn generalizing cs with
  | ind n ih =>
      subst hlength
      -- Trivia in front of a shorter text goes before the gap of that text.
      have extend : ∀ trivia later : List Char, cs = trivia ++ later → trivia ≠ [] →
          (∀ gap, Gap gap → Gap (trivia ++ gap)) → ∃ gap rest, cs = gap ++ rest ∧ Gap gap ∧
            (Settled rest ∨ ∃ closed, Dangling closed rest) := by
        intro trivia later hcs htrivia hgap
        have hpos := List.length_pos_iff.2 htrivia
        obtain ⟨gap, rest, rfl, hlater, hrest⟩ :=
          ih later.length (by rw [hcs, List.length_append]; omega) later rfl
        exact ⟨trivia ++ gap, rest, by simp [hcs], hgap gap hlater, hrest⟩
      by_cases hline : ['/', '/'] <+: cs
      · obtain ⟨body, rfl⟩ := hline
        by_cases hend : '\n' ∈ body
        · obtain ⟨first, later, rfl, hfirst⟩ := List.eq_append_cons_of_mem hend
          refine extend ('/' :: '/' :: (first ++ ['\n'])) later (by simp) nofun fun gap hgap => ?_
          simpa using Gap.line hfirst hgap
        · exact ⟨[], _, rfl, .nil, .inr ⟨true, .line hend⟩⟩
      · by_cases hblock : ['/', '*'] <+: cs
        · obtain ⟨body, rfl⟩ := hblock
          by_cases hend : ['*', '/'] <:+: body
          · obtain ⟨first, later, rfl, hfirst⟩ := exists_first_mark hend
            refine extend ('/' :: '*' :: (first ++ ['*', '/'])) later (by simp) nofun
              fun gap hgap => ?_
            simpa using Gap.block hfirst hgap
          · exact ⟨[], _, rfl, .nil, .inr ⟨false, .block hend⟩⟩
        · cases cs with
          | nil => exact ⟨[], [], rfl, .nil, .inl measure_nil⟩
          | cons c cs =>
              by_cases hspace : Unicode.isWhiteSpace c = true
              · exact extend [c] cs rfl nofun fun gap hgap => .space hspace hgap
              · exact ⟨[], _, rfl, .nil, .inl (settled_cons hspace hline hblock)⟩

/-- The trivia in front of a text: a gap and, in front of the end, perhaps a line comment without a
line feed. -/
inductive Before : (trivia rest : List Char) → Prop
  | gap {cs rest : List Char} : Gap cs → Before cs rest
  | last {cs comment : List Char} : Gap cs → Dangling true comment → Before (cs ++ comment) []

/-- A comment without its line feed stands at the end of the text alone. -/
theorem Before.gap_of_ne_nil {trivia rest : List Char} (h : Before trivia rest)
    (hrest : rest ≠ []) : Gap trivia := by
  cases h with
  | gap hgap => exact hgap
  | last _ _ => exact absurd rfl hrest

/-- All trivia is measured, unless it runs into a block comment that is never closed. -/
theorem measure_eq (cs : List Char) :
    (∃ trivia rest, cs = trivia ++ rest ∧ Before trivia rest ∧ Settled rest ∧
      measure cs = { length := trivia.length, closed := true }) ∨
    ∃ gap rest, cs = gap ++ rest ∧ Gap gap ∧ Dangling false rest ∧
      measure cs = { length := gap.length, closed := false } := by
  obtain ⟨gap, rest, rfl, hgap, hsettled | ⟨closed, hdangling⟩⟩ := exists_gap cs
  · refine Or.inl ⟨gap, rest, rfl, .gap hgap, hsettled, ?_⟩
    rw [measure_append hgap, hsettled]
    rfl
  · have hmeasure := measure_append hgap rest
    rw [hdangling.measure] at hmeasure
    cases closed with
    | true =>
        refine Or.inl ⟨gap ++ rest, [], by simp, .last hgap hdangling, measure_nil, ?_⟩
        simpa [Extent.after] using hmeasure
    | false => exact Or.inr ⟨gap, rest, rfl, hgap, hdangling, hmeasure⟩

end Trivia
end CSyntax
