import CSyntax.Proofs.Lockstep.Locations
import CSyntax.Report

/-!
# Placing — a report points where the error says

The lexer counts lines, columns and bytes as it goes along.  A report has the offset in bytes alone,
and counts the rest anew: the characters in front of the offset, and then the lines.  This file shows
that both come to the same place, but for one case by design: a line feed at the end of a text opens
no line for the report, while the lexer stands at the beginning of one.

* `Report.placeByLines` — a place counted by the lines that a text is split into;
* `Report.charactersBefore_append` — the characters in front of an offset, which may be longer than a
  byte, are those that the lexer has read;
* `Report.locate_eq` — the place is that of the last line that begins at the character or before it;
* `ParseError.report_of_parse` — the theorem.
-/

namespace CSyntax

variable {file : Option String}

namespace Report

/-! ## Lines -/

/-- Whether a line begins at a character.  The first line does at the first one, and each other line
behind a line feed; no line begins at the end of a text. -/
def beginsLine (text : List Char) (i : Nat) : Bool :=
  i = 0 || i < text.length && text[i - 1]? = some '\n'

/-- The characters at which the lines of a text begin, in order. -/
def lineStarts (text : List Char) : List Nat :=
  (List.range (text.length + 1)).filter (beginsLine text)

/-- The line and the column of a character: the last line that begins there or before, and the
characters from its beginning. -/
def placeByLines (text : List Char) (index : Nat) : Nat × Nat :=
  let reached := (lineStarts text).filter (· ≤ index)
  (reached.length, index - reached.getLast?.getD 0 + 1)

variable {front back : List Char}

/-- Lines that begin further on do not matter. -/
theorem reached_eq (front back : List Char) :
    (lineStarts (front ++ back)).filter (· ≤ front.length) =
      (List.range (front.length + 1)).filter (beginsLine (front ++ back)) := by
  have hsplit : List.range ((front ++ back).length + 1) =
      List.range (front.length + 1) ++
        (List.range back.length).map fun i => front.length + 1 + i := by
    rw [List.length_append, Nat.add_right_comm, List.range_add]
  have hnear : ∀ i ∈ List.range (front.length + 1), decide (i ≤ front.length) = true := by
    intro i hi
    rw [List.mem_range] at hi
    exact decide_eq_true (Nat.le_of_lt_succ hi)
  have hfar : ∀ i ∈ (List.range back.length).map fun i => front.length + 1 + i,
      ¬ decide (i ≤ front.length) = true := by
    intro i hi
    obtain ⟨k, -, rfl⟩ := List.mem_map.1 hi
    rw [decide_eq_true_eq]
    omega
  rw [lineStarts, List.filter_comm, hsplit, List.filter_append, List.filter_eq_self.2 hnear,
    List.filter_eq_nil_iff.2 hfar, List.append_nil]

theorem beginsLine_append (front : List Char) (c : Char) (back : List Char) :
    beginsLine (front ++ c :: back) (front.length + 1) = (c = '\n' && back ≠ []) := by
  rw [Bool.eq_iff_iff]
  simp [beginsLine, List.length_pos_iff, and_comm]

/-- In front of something the lines that have begun are counted as the lexer counts them. -/
theorem lines_reached (file : Option String) (front : List Char) (hback : back ≠ []) :
    ((List.range (front.length + 1)).filter (beginsLine (front ++ back))).length =
        (Position.behind file front).line ∧
      ∃ last, ((List.range (front.length + 1)).filter (beginsLine (front ++ back))).getLast? =
          some last ∧ last + (Position.behind file front).column = front.length + 1 := by
  -- From the end, as positions are counted; what is behind grows by the character that is moved.
  induction front using List.reverseRecOn generalizing back with
  | nil => exact ⟨rfl, 0, rfl, rfl⟩
  | append_singleton front c ih =>
      obtain ⟨hlength, last, hlast, hcolumn⟩ := ih (List.cons_ne_nil c back)
      have hline := beginsLine_append front c back
      rw [Position.behind_concat, List.append_assoc, List.singleton_append, List.length_append,
        List.length_singleton, List.range_succ, List.filter_append]
      unfold Position.advance
      by_cases hc : c = '\n'
      · simp only [hc, hback, ne_eq, not_false_eq_true, decide_true, Bool.and_self] at hline
        rw [if_pos hc, List.filter_singleton, hc, hline, ← hc]
        refine ⟨?_, front.length + 1, ?_, rfl⟩
        · rw [List.length_append, hlength]
          rfl
        · simp
      · simp only [hc, decide_false, Bool.false_and] at hline
        rw [if_neg hc, List.filter_singleton, hline]
        refine ⟨?_, last, ?_, ?_⟩
        · simpa using hlength
        · simpa using hlast
        · change last + ((Position.behind file front).column + 1) = _
          omega

theorem placeByLines_append (file : Option String) (front : List Char) (hback : back ≠ []) :
    placeByLines (front ++ back) front.length =
      ((Position.behind file front).line, (Position.behind file front).column) := by
  obtain ⟨hlength, last, hlast, hcolumn⟩ := lines_reached file front hback
  have hpos : 0 < (Position.behind file front).column := Nat.succ_pos _
  rw [placeByLines]
  simp only [reached_eq, hlength, hlast, Option.getD_some, Prod.mk.injEq, true_and]
  omega

/-- The end of a text is behind its last character, in the line of that character. -/
theorem placeByLines_concat (file : Option String) (front : List Char) (c : Char) :
    placeByLines (front ++ [c]) (front.length + 1) =
      ((Position.behind file front).line, (Position.behind file front).column + 1) := by
  obtain ⟨hlength, last, hlast, hcolumn⟩ := lines_reached file front (List.cons_ne_nil c [])
  have hnone : beginsLine (front ++ [c]) (front.length + 1) = false := by
    rw [beginsLine_append]
    simp
  have hreached := reached_eq (front ++ [c]) []
  rw [List.append_nil, List.length_append, List.length_singleton, List.range_succ,
    List.filter_append, List.filter_singleton, hnone] at hreached
  simp only [cond_false, List.append_nil] at hreached
  rw [placeByLines]
  simp only [hreached, hlength, hlast, Option.getD_some, Prod.mk.injEq, true_and]
  omega

/-! ## The report's own way -/

/-- The characters that begin in front of the offset of a text's end are those of the text. -/
theorem charactersBefore_append (front back : List Char) :
    charactersBefore (front ++ back) (String.ofList front).utf8ByteSize = front.length := by
  induction front with
  | nil => cases back <;> simp [charactersBefore]
  | cons c cs ih =>
      have hpos := c.utf8Size_pos
      rw [List.cons_append, charactersBefore, Position.utf8ByteSize_cons, if_pos (by omega),
        Nat.add_sub_cancel_left, ih, List.length_cons]

/-- In front of something a report steps over text as the lexer does. -/
theorem locate_append (front : List Char) (hback : back ≠ []) (k : Nat) (p : Position) :
    locate (front ++ back) (front.length + k) p.line p.column =
      locate back k (p.advanceBy front).line (p.advanceBy front).column := by
  induction front generalizing p with
  | nil => simp
  | cons c cs ih =>
      have hmore : cs ++ back ≠ [] := by simp [hback]
      rw [List.length_cons, Nat.add_right_comm, List.cons_append, locate, Position.advanceBy_cons,
        ← ih (p.advance c)]
      unfold Position.advance
      by_cases hc : c = '\n'
      · rw [if_pos ⟨hc, hmore⟩, if_pos hc]
      · rw [if_neg fun h => hc h.1, if_neg hc]

/-- The place that a report comes to is that of the last line that begins there or before. -/
theorem locate_eq (front back : List Char) :
    locate (front ++ back) front.length 1 1 = placeByLines (front ++ back) front.length := by
  have hstart : Position.start none = .behind none [] := by
    simp [Position.start, Position.behind]
  by_cases hback : back = []
  · subst hback
    rcases front.eq_nil_or_concat' with rfl | ⟨front, c, rfl⟩
    · rfl
    · have hlast := locate_append front (List.cons_ne_nil c []) 1 (.start none)
      rw [hstart, Position.advanceBy_behind] at hlast
      rw [List.append_nil, List.length_append, List.length_singleton, placeByLines_concat none]
      exact hlast.trans (if_neg fun h => h.2 rfl)
  · have hplace := locate_append front hback 0 (.start none)
    rw [hstart, Position.advanceBy_behind] at hplace
    rw [placeByLines_append none front hback]
    refine hplace.trans ?_
    cases back <;> rfl

end Report

/-! ## Failed parses -/

namespace ParseError

variable {text : String} {e : ParseError}

/-- A report of a failed parse, shown with the text that was parsed, points where the error says.
The characters in front of the error are counted from its offset, and the line and the column by the
lines of the text.  They are those of the error, unless it stands at the end of a text behind a line
feed: then the report stays in the line that the line feed ends. -/
theorem report_of_parse (h : parse text file = .error e) : ∃ front back line column,
    text.toList = front ++ back ∧ e.start = .behind file front ∧
      Report.charactersBefore text.toList e.start.offset = front.length ∧
      Report.placeByLines text.toList front.length = (line, column) ∧
      (e.report text).location =
        file.getD "<input>" ++ ":" ++ toString line ++ ":" ++ toString column ∧
      ((line, column) = (e.start.line, e.start.column) ↔
        ¬ (back = [] ∧ text.toList.getLast? = some '\n')) ∧
      ∀ body, text.toList = body ++ ['\n'] → back = [] →
        (line, column) = ((Position.behind file body).line,
          (Position.behind file body).column + 1) := by
  obtain ⟨front, back, htext, hstart, -⟩ := Parser.located_of_parse h
  have hcount : Report.charactersBefore text.toList e.start.offset = front.length := by
    rw [htext, hstart]
    exact Report.charactersBefore_append front back
  have hfeed : ∀ body, text.toList = body ++ ['\n'] → back = [] → front = body ++ ['\n'] := by
    rintro body hbody rfl
    rw [← hbody, htext, List.append_nil]
  have hend : ∀ body, text.toList = body ++ ['\n'] → back = [] →
      Report.placeByLines text.toList front.length =
        ((Position.behind file body).line, (Position.behind file body).column + 1) := by
    intro body hbody hback
    rw [hbody, hfeed body hbody hback, List.length_append, List.length_singleton]
    exact Report.placeByLines_concat file body '\n'
  refine ⟨front, back, _, _, htext, hstart, hcount, rfl, ?location, ?place, hend⟩
  case location =>
    simp only [report, hcount]
    rw [htext, Report.locate_eq, hstart]
    rfl
  case place =>
    rw [hstart]
    change Report.placeByLines text.toList front.length = _ ↔ _
    constructor
    · rintro hplace ⟨hback, hlast⟩
      obtain ⟨body, hbody⟩ := List.getLast?_eq_some_iff.1 hlast
      -- The lexer has gone on to the next line.
      rw [hend body hbody hback, hfeed body hbody hback, Position.behind_concat] at hplace
      have hline := congrArg Prod.fst hplace
      simp [Position.advance] at hline
    · intro hordinary
      by_cases hback : back = []
      · subst hback
        rw [List.append_nil] at htext
        rw [htext] at hordinary ⊢
        rcases front.eq_nil_or_concat' with rfl | ⟨front, c, rfl⟩
        · rfl
        · have hc : c ≠ '\n' := by
            rintro rfl
            exact hordinary ⟨rfl, by simp⟩
          rw [List.length_append, List.length_singleton, Report.placeByLines_concat file,
            Position.behind_concat, Position.advance, if_neg hc]
      · rw [htext]
        exact Report.placeByLines_append file front hback

/-- The end stands at the beginning of the second line, behind a letter of two bytes; the report stays
in the first one. -/
theorem report_of_parse_lineFeed : ∃ e, parse "char *s = \"é\"\n" none = .error e ∧
    e.start.line = 2 ∧ e.start.column = 1 ∧
      (e.report "char *s = \"é\"\n").location = "<input>:1:15" ∧
      ∃ front back line column, "char *s = \"é\"\n".toList = front ++ back ∧
        e.start = .behind none front ∧
        Report.charactersBefore "char *s = \"é\"\n".toList e.start.offset = front.length ∧
        Report.placeByLines "char *s = \"é\"\n".toList front.length = (line, column) ∧
        (e.report "char *s = \"é\"\n").location =
          (none : Option String).getD "<input>" ++ ":" ++ toString line ++ ":" ++ toString column ∧
        ((line, column) = (e.start.line, e.start.column) ↔
          ¬ (back = [] ∧ "char *s = \"é\"\n".toList.getLast? = some '\n')) ∧
        ∀ body, "char *s = \"é\"\n".toList = body ++ ['\n'] → back = [] →
          (line, column) = ((Position.behind none body).line,
            (Position.behind none body).column + 1) := by
  have hfails : (Parser.refusal? "char *s = \"é\"\n" none).any (fun e =>
      e.start.line = 2 ∧ e.start.column = 1 ∧
        (e.report "char *s = \"é\"\n").location = "<input>:1:15") = true := by
    decide +kernel
  obtain ⟨e, hparse, he⟩ := Parser.exists_error_of_any hfails
  obtain ⟨hline, hcolumn, hlocation⟩ := of_decide_eq_true he
  exact ⟨e, hparse, hline, hcolumn, hlocation, report_of_parse hparse⟩

end ParseError
end CSyntax
