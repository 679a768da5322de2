import CSyntax.Proofs.Expression.Soundness

/-!
# Exactness — expressions are read as the grammar has them

Both directions together: what the grammar derives before a closing mark is read, and what is read
the grammar derives.  A type in parentheses is looked for where the parenthesis stands before a word
that begins a type name, so a storage class in front, which the rule for type names would take, keeps
the parenthesis from being read as a cast (`not_yields_static_cast`).
-/

namespace CSyntax

open Script

namespace Parser

variable {origin : Source} {s : ParserState}

theorem derives_of_runAt {depth : Nat} {p : Precedence} {value : Expr} {t : ParserState}
    (h : s.Sound origin) (hm : s.isMarked = false)
    (hrun : runAt depth (.expression p) s = (.ok value, t)) (henum : .enumerators ∉ value.mentions) :
    ∃ after, Derives TokenKind.startsTypeName s.view (.level p) s.view.ahead value after ∧
      t.view = s.view.facing after := by
  obtain ⟨d, hread⟩ := takes_of_runAt h hm hrun
  obtain ⟨after, ht, hderives, -⟩ := derived_of_readAt (ParserState.taken_view hm) h.table (d + 1)
    (.expression p) s.view.ahead value t.view hread henum
  exact ⟨after, hderives, ht⟩

/-- Wherever an expression of a stratum may be asked for, the rule reads exactly the expressions of
the stratum. -/
theorem expression_exact (h : s.Sound origin) (hm : s.isMarked = false) (p : Precedence)
    (value : Expr) :
    (∀ after, Derives TokenKind.startsTypeName s.view (.level p) s.view.ahead value after →
      s.view.Begins (fun kind => kind.closes = true) after →
        ∃ t, Yields (.expression p) s value t ∧ t.view = s.view.facing after) ∧
    (∀ depth t, runAt depth (.expression p) s = (.ok value, t) →
      .enumerators ∉ value.mentions →
        ∃ after, Derives TokenKind.startsTypeName s.view (.level p) s.view.ahead value after ∧
          t.view = s.view.facing after) := by
  refine ⟨fun after hderives hafter => ?_, fun depth t hrun henum => ?_⟩
  · exact yields_of_takes h hm (hderives.takes (ParserState.taken_view hm) h.table hafter)
  · exact derives_of_runAt h hm hrun henum

/-- A text where `T` is a type name. -/
def withAlias (text : String) : ParserState :=
  { cursor := .ofSource (.ofString text none)
    table := SymbolTable.empty.declare "T" (.typeName (.named "int")) }

theorem sound_withAlias (text : String) : (withAlias text).Sound (.ofString text none) :=
  ParserState.sound_of_keywordFree _
    (SymbolTable.keywordFree_empty.declare (show Keyword.ofSpelling? "T" = none by decide) _)

/-- A place in the first line of a text without a name. -/
def column (n : Nat) : Position :=
  { line := 1, column := n + 1, offset := n, file := none }

/-- To name a type is to be read as the type by the rule for type names. -/
theorem names_of_read {names : TokenKind → Bool} {v : View} {first : Piece}
    {others after : List Piece} {type : CType} (depth : Nat)
    (hfirst : names (v.kind first) = true) (henum : .enumerators ∉ type.mentions)
    (h : ((Grammar.typeName.read (readAt depth) (v.facing (first :: others))).map
      fun (type, w) => (type, w.ahead)) = some (type, after)) :
    v.Names names (first :: others) type after := by
  obtain ⟨⟨type', w⟩, hread, heq⟩ := Option.map_eq_some_iff.1 h
  obtain ⟨rfl, rfl⟩ : type' = type ∧ w.ahead = after := by simpa using heq
  exact ⟨⟨first, others, rfl, hfirst⟩, henum, w, ⟨depth, hread⟩, rfl⟩

/-- The lexemes of `a-(T)b*c;` as a difference, in which the cast binds tightest. -/
theorem derives_difference :
    Derives TokenKind.startsTypeName (withAlias "a-(T)b*c;").view (.level .comma)
      [⟨.word "a", column 0⟩, ⟨.punctuator .minus, column 1⟩, ⟨.punctuator .openParen, column 2⟩,
        ⟨.word "T", column 3⟩, ⟨.punctuator .closeParen, column 4⟩, ⟨.word "b", column 5⟩,
        ⟨.punctuator .asterisk, column 6⟩, ⟨.word "c", column 7⟩,
        ⟨.punctuator .semicolon, column 8⟩]
      (.binary (column 0) .subtract (.identifier (column 0) "a")
        (.binary (column 2) .multiply
          (.cast (column 2) (.named "T") (.identifier (column 5) "b"))
          (.identifier (column 7) "c")))
      [⟨.punctuator .semicolon, column 8⟩] := by
  have word : ∀ {n : Nat} {name : String} {after : List Piece},
      (withAlias "a-(T)b*c;").view.kind ⟨.word name, column n⟩ = .identifier name →
      Derives TokenKind.startsTypeName (withAlias "a-(T)b*c;").view (.level .unary)
        (⟨.word name, column n⟩ :: after) (.identifier (column n) name) after :=
    fun hkind => .operand (.postfixed (.primary (.identifier hkind)))
  have hcast : Derives TokenKind.startsTypeName (withAlias "a-(T)b*c;").view (.level .unary)
      [⟨.punctuator .openParen, column 2⟩, ⟨.word "T", column 3⟩,
        ⟨.punctuator .closeParen, column 4⟩, ⟨.word "b", column 5⟩,
        ⟨.punctuator .asterisk, column 6⟩, ⟨.word "c", column 7⟩,
        ⟨.punctuator .semicolon, column 8⟩]
      (.cast (column 2) (.named "T") (.identifier (column 5) "b"))
      [⟨.punctuator .asterisk, column 6⟩, ⟨.word "c", column 7⟩,
        ⟨.punctuator .semicolon, column 8⟩] :=
    .cast (by decide +kernel) (names_of_read 20 (by decide +kernel) (by decide) (by decide +kernel))
      (show (withAlias "a-(T)b*c;").view.kind ⟨.punctuator .closeParen, column 4⟩ = _ by
        decide +kernel) (word (by decide +kernel))
  have hproduct := Derives.binary (p := .multiplicative) (hcast.loosen (by decide))
    (show _ = TokenKind.punctuator .asterisk by decide +kernel)
    (show (_, BinaryOperator.multiply) ∈ _ by decide) (word (by decide +kernel))
  have hdifference := Derives.binary (p := .additive)
    (.loosen (word (n := 0) (show _ = TokenKind.identifier "a" by decide +kernel)) (by decide))
    (show (withAlias "a-(T)b*c;").view.kind ⟨.punctuator .minus, column 1⟩ = _ by decide +kernel)
    (show (Punctuator.minus, BinaryOperator.subtract) ∈ _ by decide) hproduct
  exact hdifference.loosen (by decide)

theorem expression_exact_difference :
    ∃ t, Yields (.expression .comma) (withAlias "a-(T)b*c;")
      (.binary (column 0) .subtract (.identifier (column 0) "a")
        (.binary (column 2) .multiply
          (.cast (column 2) (.named "T") (.identifier (column 5) "b"))
          (.identifier (column 7) "c"))) t ∧
      t.view.ahead = [⟨.punctuator .semicolon, column 8⟩] := by
  have hahead : (withAlias "a-(T)b*c;").view.ahead = _ :=
    show _ = [⟨.word "a", column 0⟩, ⟨.punctuator .minus, column 1⟩,
      ⟨.punctuator .openParen, column 2⟩, ⟨.word "T", column 3⟩, ⟨.punctuator .closeParen, column 4⟩,
      ⟨.word "b", column 5⟩, ⟨.punctuator .asterisk, column 6⟩, ⟨.word "c", column 7⟩,
      ⟨.punctuator .semicolon, column 8⟩] by decide +kernel
  obtain ⟨t, hyields, ht⟩ := (expression_exact (sound_withAlias "a-(T)b*c;") rfl .comma _).1 _
    (hahead ▸ derives_difference) ⟨_, _, rfl, by decide +kernel⟩
  exact ⟨t, hyields, by rw [ht]; rfl⟩

/-- If any lexemes might name a type in parentheses, the grammar would derive a cast here.  The rule
reads none, since a storage class begins no type name. -/
theorem not_yields_static_cast :
    ∃ value after,
      Derives (fun _ => true) (withAlias "(static int)x;").view (.level .comma)
        (withAlias "(static int)x;").view.ahead value after ∧
      (withAlias "(static int)x;").view.Begins (fun kind => kind.closes = true) after ∧
      .enumerators ∉ value.mentions ∧
      ¬∃ t, Yields (.expression .comma) (withAlias "(static int)x;") value t := by
  have hahead : (withAlias "(static int)x;").view.ahead = _ :=
    show _ = [⟨.punctuator .openParen, column 0⟩, ⟨.word "static", column 1⟩,
      ⟨.word "int", column 8⟩, ⟨.punctuator .closeParen, column 11⟩, ⟨.word "x", column 12⟩,
      ⟨.punctuator .semicolon, column 13⟩] by decide +kernel
  refine ⟨.cast (column 0) (.named "int") (.identifier (column 12) "x"),
    [⟨.punctuator .semicolon, column 13⟩], ?_, ⟨_, _, rfl, by decide +kernel⟩, by decide, ?_⟩
  · rw [hahead]
    have hword : Derives (fun _ => true) (withAlias "(static int)x;").view (.level .unary)
        [⟨.word "x", column 12⟩, ⟨.punctuator .semicolon, column 13⟩]
        (.identifier (column 12) "x") [⟨.punctuator .semicolon, column 13⟩] :=
      .operand (.postfixed (.primary (.identifier (by decide +kernel))))
    exact Derives.loosen (p := .unary) (.cast (by decide +kernel)
      (names_of_read 20 rfl (by decide) (by decide +kernel))
      (show (withAlias "(static int)x;").view.kind ⟨.punctuator .closeParen, column 11⟩ = _ by
        decide +kernel) hword) (by decide)
  · rintro ⟨t, enough, hyields⟩
    obtain ⟨after, hderives, -⟩ := derives_of_runAt (sound_withAlias "(static int)x;") rfl
      (hyields enough (Nat.le_refl _)) (by decide)
    -- What would be read begins with a parenthesis before `static`.
    rw [hahead] at hderives
    have henclosed := hderives.opens.2 _ _ rfl (by decide +kernel)
    rw [View.begins_cons] at henclosed
    exact absurd henclosed (by decide +kernel)

end Parser

end CSyntax
