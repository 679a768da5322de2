import CSyntax.Proofs.Lexical.Escapes
import CSyntax.Proofs.Run.Takes
import CSyntax.Proofs.Stream.Outlook

/-!
# Strings — adjacent string literals

String literals that stand one behind the other are one string.  Their texts are put together as they
are written, before any escape sequence is decoded, so that a hexadecimal or octal escape sequence at
the end of a literal takes digits of the next one along.  This file shows

* that every string literal that a parser meets was between quotes (`ParserState.Sound.body`);
* what adjacent literals are read as, and that the string is the one that they stand for exactly
  where no escape sequence goes on in what follows (`Parser.strings_joined`);
* that a program can have one that does (`Parser.strings_run_on`).
-/

namespace CSyntax

/-! ## Literals that are met -/

namespace ParserState

variable {origin : Source} {s : ParserState} {piece : Piece} {text : String}

/-- Every lexeme ahead was scanned. -/
theorem Sound.exists_scan (h : s.Sound origin) (hpiece : piece ∈ s.view.ahead) :
    ∃ cs n, Lexeme.scan cs = (.ok piece.lexeme, n) := by
  rcases List.mem_append.1 hpiece with hpending | houtlook
  · obtain ⟨token, htoken, rfl⟩ := List.mem_map.1 hpending
    have hmem := List.mem_append_right s.cursor.kept (List.mem_filter.1 htoken).1
    obtain ⟨w, ⟨n, t, -, hnext⟩, hkind⟩ := Token.fresh_iff.1 (h.cursor.fresh token hmem)
    obtain ⟨m, length, -, -, hscan, -⟩ := Source.nextLexeme_eq_ok hnext
    rw [Token.piece, hkind, SymbolTable.lexeme_classify]
    exact ⟨_, length, hscan⟩
  · exact (Source.scan_of_mem_outlook houtlook).2

/-- The text of a string literal stood between quotes. -/
theorem Sound.body (h : s.Sound origin) (hpiece : piece ∈ s.view.ahead)
    (htext : piece.lexeme = .string text) : Quoted.Body '"' text.toList := by
  obtain ⟨cs, n, hscan⟩ := h.exists_scan hpiece
  obtain ⟨spelling, -, -, hspelled, -⟩ := Lexeme.spelled_of_scan hscan
  rw [htext] at hspelled
  generalize hw : Lexeme.string text = w at hspelled
  cases hspelled with
  | string hbody =>
      obtain rfl := Lexeme.string.inj hw
      rwa [String.toList_ofList]
  | number hnumber => cases hnumber <;> cases hw
  | _ => cases hw

end ParserState

/-! ## Reading literals -/

/-- The texts put together. -/
def joined (texts : List String) : String :=
  texts.foldr (· ++ ·) ""

theorem toList_joined (texts : List String) :
    (joined texts).toList = (texts.map String.toList).flatten := by
  induction texts with
  | nil => rfl
  | cons text texts ih =>
      rw [joined, List.foldr_cons, String.toList_append, List.map_cons, List.flatten_cons, ← ih]
      rfl

namespace Grammar

variable {v : View} {pieces behind : List Piece} {texts : List String} {token : Token}

theorem takes_adjacentStrings (hv : v.taken = none)
    (hpieces : pieces.map (·.lexeme) = texts.map .string)
    (hnext : (v.facing behind).token? 0 = some token) (hother : ∀ text, token.kind ≠ .string text) :
    adjacentStrings.Takes (v.facing (pieces ++ behind)) (joined texts) (v.facing behind) := by
  have hpeek : Script.peek.Takes (v.facing behind) token (v.facing behind) :=
    .request (by rw [View.perform, hnext]; rfl) .pure
  induction texts generalizing pieces with
  | nil =>
      obtain rfl : pieces = [] := by simpa using hpieces
      refine hpeek.bind ?_
      split
      · rename_i hkind
        exact absurd hkind (hother _)
      · exact .pure
  | cons text texts ih =>
      cases pieces with
      | nil => cases hpieces
      | cons piece pieces =>
          obtain ⟨hpiece, hmore⟩ := List.cons.inj hpieces
          have hkind : v.kind piece = .string text := congrArg v.table.classify hpiece
          refine Script.Takes.peek.bind ?_
          rw [View.kind_next, hkind]
          exact (Script.Takes.advance hv).bind
            ((Script.Takes.rule (f := .adjacentStrings) (ih hmore)).bind .pure)

end Grammar

namespace Parser

variable {origin : Source} {s : ParserState} {first : Piece} {pieces behind : List Piece}
  {text : String} {texts : List String} {token : Token}

/-- Adjacent string literals are read as one string at the place of the first.  It stands for what
they stand for one by one, unless an escape sequence at the end of one goes on in those behind. -/
theorem strings_joined (h : s.Sound origin) (hm : s.isMarked = false)
    (hahead : s.view.ahead = first :: pieces ++ behind)
    (hpieces : (first :: pieces).map (·.lexeme) = (text :: texts).map .string)
    (hnext : (s.view.facing behind).token? 0 = some token)
    (hother : ∀ other, token.kind ≠ .string other) :
    ∃ whole t, Script.Yields Grammar.primary s (.string first.position whole) t ∧
      t.view = s.view.facing behind ∧
      whole.toList = ((text :: texts).map String.toList).flatten ∧
      (Escape.decode whole.toList = (text :: texts).flatMap (Escape.decode ·.toList) ↔
        ¬ Escape.RunsOn ((text :: texts).map String.toList)) := by
  obtain ⟨hfirst, hmore⟩ := List.cons.inj hpieces
  have hkind : s.view.kind first = .string text := congrArg s.view.table.classify hfirst
  have hv := ParserState.taken_view hm
  have htakes : Grammar.primary.Takes (s.view.facing (first :: (pieces ++ behind)))
      (.string first.position (text ++ joined texts)) (s.view.facing behind) := by
    refine Script.Takes.peek.bind ?_
    rw [View.kind_next, hkind]
    exact (Script.Takes.advance hv).bind ((Script.Takes.rule (f := .adjacentStrings)
      (Grammar.takes_adjacentStrings hv hmore hnext hother)).bind .pure)
  have hself : s.view.facing (first :: (pieces ++ behind)) = s.view := by
    rw [View.facing, ← List.cons_append, ← hahead]
  rw [hself] at htakes
  obtain ⟨t, hyields, ht⟩ := Script.yields_of_takes Grammar.orderly_primary h hm htakes
  have hwhole : (text ++ joined texts).toList = ((text :: texts).map String.toList).flatten :=
    toList_joined (text :: texts)
  refine ⟨_, t, hyields, ht, hwhole, ?_⟩
  -- Every literal ahead stood between quotes, so none ends in the middle of an escape sequence.
  have hcomplete : ∀ body ∈ (text :: texts).map String.toList, Escape.Complete body := by
    intro body hbody
    obtain ⟨part, hpart, rfl⟩ := List.mem_map.1 hbody
    have hlexeme : Lexeme.string part ∈ (first :: pieces).map (·.lexeme) :=
      hpieces ▸ List.mem_map_of_mem hpart
    obtain ⟨piece, hpiece, htext⟩ := List.mem_map.1 hlexeme
    exact Escape.complete_of_body
      (h.body (hahead ▸ List.mem_append_left behind hpiece) htext)
  have hdecode := Escape.decode_flatten_iff hcomplete
  rwa [← hwhole, List.flatMap_map] at hdecode

/-- Three literals, the first of which ends in an octal escape sequence that takes no more digits. -/
theorem strings_joined_fullOctal : ∃ whole t,
    Script.Yields Grammar.primary (.ofSource (.ofString "\"\\061\" \"2\" \"\\n\";" none))
      (.string (.start none) whole) t ∧
      t.view.ahead.map (·.lexeme) = [.punctuator .semicolon] ∧
      whole.toList = ["\\061".toList, "2".toList, "\\n".toList].flatten ∧
      (Escape.decode whole.toList =
        ["\\061", "2", "\\n"].flatMap (Escape.decode ·.toList) ↔
          ¬ Escape.RunsOn ["\\061".toList, "2".toList, "\\n".toList]) := by
  let s : ParserState := .ofSource (.ofString "\"\\061\" \"2\" \"\\n\";" none)
  let place (n : Nat) : Position := { line := 1, column := n + 1, offset := n, file := none }
  have hahead : s.view.ahead = [⟨.string "\\061", .start none⟩, ⟨.string "2", place 7⟩,
      ⟨.string "\\n", place 11⟩] ++ [⟨.punctuator .semicolon, place 15⟩] := by
    decide +kernel
  have hpieces : [⟨.string "\\061", .start none⟩, ⟨.string "2", place 7⟩,
      ⟨.string "\\n", place 11⟩].map (fun piece : Piece => piece.lexeme) =
      ["\\061", "2", "\\n"].map .string := rfl
  obtain ⟨whole, t, hyields, ht, hwhole, hdecode⟩ :=
    strings_joined (ParserState.sound_ofSource _) rfl hahead hpieces rfl nofun
  exact ⟨whole, t, hyields, by rw [ht]; rfl, hwhole, hdecode⟩

end Parser

/-! ## Escape sequences that go on -/

/-- The texts of the strings that initialize something in the file scope. -/
def TranslationUnit.initialStrings (unit : TranslationUnit) : List String :=
  unit.declarations.flatMap fun
    | .declaration group => group.declarations.filterMap fun
        | { initial := some (.string _ text), .. } => some text
        | _ => none
    | .function _ => []

namespace Parser

/-- An octal escape sequence takes the digit of the next literal along, so that the string read has
one character, a line feed, where the literals have two. -/
theorem strings_run_on : ∃ unit, parse "char *s = \"\\1\" \"2\";" none = .ok unit ∧
    unit.initialStrings = ["\\12"] ∧ Escape.decode "\\12".toList = [10] ∧
    ["\\1", "2"].flatMap (Escape.decode ·.toList) = [1, '2'.toNat] := by
  have hreads : (parse "char *s = \"\\1\" \"2\";" none).toOption.any
      (fun unit => unit.initialStrings = ["\\12"]) = true := by
    decide +kernel
  rcases hparse : parse "char *s = \"\\1\" \"2\";" none with error | unit
  · simp [hparse, Except.toOption] at hreads
  · simp only [hparse, Except.toOption, Option.any_some, decide_eq_true_eq] at hreads
    exact ⟨unit, rfl, hreads, by decide +kernel, by decide +kernel⟩

end Parser
end CSyntax
