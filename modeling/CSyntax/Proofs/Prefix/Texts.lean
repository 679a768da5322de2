import CSyntax.Proofs.Lexical.Respelling
import CSyntax.Proofs.Lockstep.Kinds
import CSyntax.Proofs.Lockstep.Readings
import CSyntax.Proofs.Prefix.Statements

/-!
# Texts — an error is reported at the first token that nothing could mend

The tokens in front of the one that the grammar refuses begin a text that is parsed, unless they end
in the specifiers of a member behind a storage class (`mendable_iff_of_parse`).  A storage class is
refused there, but not before the specifiers are complete, so tokens are read behind it that no text
could have there (`not_forall_mendable`).

The text is built from the lexemes in front of the refused token and the fillers that complete them,
one behind the other with spaces in between.
-/

namespace CSyntax
namespace Grammar

open Script

variable {depth : Nat} {fault : ParseError} {T : SymbolTable} {p : List Piece}

/-! ## Declarations up to the end of the text -/

/-- The shortest declaration. -/
theorem exists_takes_bare (hT : T.KeywordFree) : ∃ list w, externalDeclarations.Takes
    ((View.empty T).facing [Filler.int.piece, (Filler.punctuator .semicolon).piece]) list w := by
  obtain ⟨found, hfound, -⟩ := reads_specifiers_int hT
  have hword : Sequel.word.Leads [(Filler.punctuator .semicolon).piece] :=
    ⟨.punctuator .semicolon, by decide, _, _, rfl, rfl⟩
  obtain ⟨found, rfl, htakes⟩ := hfound (View.empty T) _ rfl rfl hword
  have hbare : externalDeclaration.Takes
      ((View.empty T).facing [Filler.int.piece, (Filler.punctuator .semicolon).piece])
      (.declaration (bareGroup found)) (View.empty T) :=
    htakes.bind ((Takes.accept rfl rfl).bind Takes.pure)
  exact ⟨_, _, takes_externalDeclarations_cons nofun hbare (takes_externalDeclarations_nil rfl rfl)⟩

/-- A declaration that has been completed ends a text. -/
theorem exists_takes_of_completes {piece : Piece} {first : ExternalDeclaration}
    (hpiece : piece.lexeme ≠ .endOfFile)
    (hsteady : externalDeclaration.Steady .block fun _ => True) (hT : Place.block.Ready T)
    (h : externalDeclaration.Completes T (piece :: p) (.only .int) first) :
    ∃ (c : List Filler) (list : List ExternalDeclaration) (w : View),
      externalDeclarations.Takes ((View.empty T).facing (piece :: p ++ c.map Filler.piece)) list
        w := by
  obtain ⟨c, U, hreads⟩ := h
  obtain ⟨-, hU, -⟩ := hsteady.leaves hT hreads
  obtain ⟨others, w, hothers⟩ := exists_takes_bare hU.keywordFree
  have hint : (Sequel.only .int).Leads [Filler.int.piece, (Filler.punctuator .semicolon).piece] :=
    ⟨.int, List.mem_cons_self, _, _, rfl, rfl⟩
  obtain ⟨first, rfl, hfirst⟩ := hreads (View.empty T) _ rfl rfl hint
  rw [List.append_assoc] at hfirst
  refine ⟨c ++ [.int, .punctuator .semicolon], first :: others, w, ?_⟩
  rw [List.map_append]
  exact takes_externalDeclarations_cons hpiece hfirst hothers

/-- Lexemes that starve the rule for a whole text begin one that is read to its end, if they are not
barred. -/
theorem exists_takes_of_starves (hT : Place.file.Ready T)
    (h : Parser.StarvesAt depth .externalDeclarations (.alone T p fault)) :
    (∃ (c : List Filler) (list : List ExternalDeclaration) (w : View),
      externalDeclarations.Takes ((View.empty T).facing (p ++ c.map Filler.piece)) list w) ∨
      externalDeclarations.Barred (.alone T p fault) := by
  -- One declaration after the other: all are read whole but the last, which is completed.
  induction depth generalizing T p with
  | zero => exact h.elim
  | succ depth ih =>
      cases p with
      | nil => exact Or.inl ⟨[], _, _, takes_externalDeclarations_nil rfl rfl⟩
      | cons piece p =>
          have hready : Place.block.Ready T :=
            { keywordFree := hT.keywordFree
              holds := SymbolTable.inBlock_of_nested_eq_nil hT.holds }
          have hdeclaration : externalDeclaration.Viable depth fault .block (.only .int) (.only .int)
              fun _ => True := viable_externalDeclaration (calls depth fault)
          have hpeek : Script.peek.Takes (.alone T (piece :: p) fault) _ _ :=
            Takes.peek (v := .alone T [] fault)
          have hlater := Starves.past h hpeek
          split at hlater
          · exact hlater.elim
          · rename_i hpiece
            have hlexeme : piece.lexeme ≠ .endOfFile := by
              simpa [Token.isEndOfFile, View.next, View.kind] using hpiece
            have hbars : (externalDeclaration >>= fun first =>
                rule .externalDeclarations >>= fun others => pure (first :: others)).Barred
                  (.alone T (piece :: p) fault) →
                externalDeclarations.Barred (.alone T (piece :: p) fault) := by
              intro hbarred
              refine Barred.rest hpeek ?_
              rw [if_neg hpiece]
              exact hbarred
            rcases hlater.bind with hfirst | ⟨first, w, htakes, hrest⟩
            · rcases hdeclaration.resumes hready _ hfirst with ⟨first, hcompletes⟩ | hbarred
              · exact Or.inl (exists_takes_of_completes hlexeme hdeclaration.steady hready hcompletes)
              · exact Or.inr (hbars hbarred.front)
            · have hleaves := hdeclaration.steady _ first w rfl hready htakes
              have halone := htakes.alone hleaves.taken
              rw [halone] at htakes hrest
              have hothers : Parser.StarvesAt depth .externalDeclarations
                  (.alone w.table w.ahead fault) := by
                rcases hrest.bind with hrule | ⟨_, _, -, hdone⟩
                · exact starves_rule.1 hrule
                · exact hdone.elim
              have hfile : Place.file.Ready w.table :=
                { keywordFree := hleaves.ready.keywordFree
                  holds := Place.Holds.frame hT.holds hleaves.frame }
              rcases ih hfile hothers with ⟨c, list, u, hlist⟩ | hbarred
              · have hbehind := htakes.behind (v := View.empty T) rfl rfl (c.map Filler.piece)
                exact Or.inl ⟨c, first :: list, u,
                  takes_externalDeclarations_cons hlexeme hbehind hlist⟩
              · exact Or.inr (hbars (.rest htakes (.front (Barred.rule hbarred))))

end Grammar

/-! ## Texts written from lexemes -/

/-- Kinds of tokens can be written with spaces in between. -/
theorem exists_respelled (kinds : List TokenKind) : ∃ text, Respelled kinds text := by
  induction kinds with
  | nil => exact ⟨[], .nil⟩
  | cons kind kinds ih =>
      cases kinds with
      | nil => exact ⟨_, .last kind⟩
      | cons next kinds =>
          obtain ⟨text, htext⟩ := ih
          exact ⟨_, .cons ⟨' ', [], rfl, by decide, .nil⟩ htext⟩

/-- A lexeme that the spelling of its token gives again. -/
def Lexeme.Writable (w : Lexeme) : Prop :=
  w ≠ .endOfFile ∧ w.Spelled (SymbolTable.empty.classify w).spelling.toList

theorem Lexeme.Spelled.writable {w : Lexeme} {text : List Char} (h : w.Spelled text)
    (hw : w ≠ .endOfFile) : w.Writable :=
  ⟨hw, h.canonical hw .empty⟩

theorem Filler.writable (filler : Filler) : filler.lexeme.Writable := by
  cases filler with
  | punctuator mark => exact (Lexeme.Spelled.punctuator mark).writable nofun
  | zero => exact (Lexeme.Spelled.number (Lexeme.spelled_toDigits 0)).writable nofun
  | name =>
      have hspelled : (Lexeme.word "x").Spelled ['x'] := .word rfl nofun
      exact hspelled.writable nofun
  | int =>
      have hspelled : (Lexeme.word "int").Spelled ['i', 'n', 't'] :=
        .word rfl (List.all_eq_true.1 rfl)
      exact hspelled.writable nofun
  | «while» =>
      have hspelled : (Lexeme.word "while").Spelled ['w', 'h', 'i', 'l', 'e'] :=
        .word rfl (List.all_eq_true.1 rfl)
      exact hspelled.writable nofun

namespace Source

theorem writable_of_mem_outlook {s : Source} {piece : Piece} (h : piece ∈ s.outlook.pieces) :
    piece.lexeme.Writable := by
  obtain ⟨hne, cs, n, hscan⟩ := scan_of_mem_outlook h
  obtain ⟨spelled, -, -, hspelled, -⟩ := Lexeme.spelled_of_scan hscan
  exact hspelled.writable hne

/-- Some text is cut into the lexemes. -/
theorem exists_ofString {lexemes : List Lexeme} (h : ∀ w ∈ lexemes, w.Writable) :
    ∃ text, (ofString text none).outlook.pieces.map (·.lexeme) = lexemes ∧
      ∃ p, (ofString text none).outlook.ending = .ok p := by
  obtain ⟨text, htext⟩ := exists_respelled (lexemes.map SymbolTable.empty.classify)
  refine ⟨String.ofList text, outlook_of_respelled h htext .nil ?_⟩
  simp [ofString]

end Source

/-! ## Views of the same lexemes -/

/-- Lexemes answer each other wherever they stand, and so do faults. -/
def Correspondence.everywhere : Correspondence where
  positions _ _ := True
  faults _ _ := True

theorem Correspondence.everywhere_pieces {pieces pieces' : List Piece}
    (hread : ∀ w ∈ pieces.map (·.lexeme), w.Readable)
    (h : pieces.map (·.lexeme) = pieces'.map (·.lexeme)) :
    List.Forall₂ everywhere.Pieces pieces pieces' := by
  induction pieces generalizing pieces' with
  | nil =>
      rw [List.map_eq_nil_iff.1 h.symm]
      exact .nil
  | cons piece pieces ih =>
      obtain ⟨piece', others, rfl, hlexeme, hothers⟩ := List.map_eq_cons_iff.1 h.symm
      obtain ⟨hpiece, hpieces⟩ := List.forall_mem_cons.1 hread
      exact .cons ⟨hlexeme, trivial, hpiece⟩ (ih hpieces hothers.symm)

/-- Views that show the same lexemes correspond, if the same words are declared. -/
theorem Correspondence.everywhere_views {v v' : View}
    (hread : ∀ w ∈ v.ahead.map (·.lexeme), w.Readable)
    (hlexemes : v.ahead.map (·.lexeme) = v'.ahead.map (·.lexeme))
    (hend : everywhere.Endings v.ending v'.ending) (htable : v.table = v'.table)
    (htaken : v.taken = none) (htaken' : v'.taken = none) : everywhere.Views v v' where
  ahead := everywhere_pieces hread hlexemes
  ending := hend
  table := congrArg SymbolTable.erase htable
  taken := by
    rw [htaken, htaken']
    exact .none

/-- Views that end are read alike if they show the same lexemes. -/
theorem Parser.exists_takes_of_lexemes {v v' w : View} {p p' : Position}
    {list : List ExternalDeclaration} (h : Grammar.externalDeclarations.Takes v list w)
    (hread : ∀ w ∈ v.ahead.map (·.lexeme), w.Readable)
    (hlexemes : v.ahead.map (·.lexeme) = v'.ahead.map (·.lexeme)) (hend : v.ending = .ok p)
    (hend' : v'.ending = .ok p') (htable : v.table = v'.table) (htaken : v.taken = none)
    (htaken' : v'.taken = none) :
    ∃ list' w', Grammar.externalDeclarations.Takes v' list' w' := by
  have hviews := Correspondence.everywhere_views hread hlexemes (hend ▸ hend' ▸ .ok trivial) htable
    htaken htaken'
  exact exists_takes_of_views hviews htaken h

theorem Source.readable_of_mem_lexemes {s : Source} :
    ∀ w ∈ s.outlook.pieces.map (·.lexeme), w.Readable := by
  intro w hw
  obtain ⟨piece, hpiece, rfl⟩ := List.mem_map.1 hw
  exact readable_of_mem_outlook hpiece

/-- Lexemes that declarations can be read off are those of a text that is parsed. -/
theorem exists_parse_of_takes {pieces : List Piece} {list : List ExternalDeclaration} {w : View}
    (hpieces : ∀ piece ∈ pieces, piece.lexeme.Writable)
    (h : Grammar.externalDeclarations.Takes ((View.empty .empty).facing pieces) list w) :
    ∃ text unit, parse text none = .ok unit ∧
      (Source.ofString text none).outlook.pieces.map (·.lexeme) = pieces.map (·.lexeme) := by
  obtain ⟨text, hlexemes, p, hend⟩ := Source.exists_ofString (List.forall_mem_map.2 hpieces)
  have hread : ∀ w ∈ pieces.map (·.lexeme), w.Readable := hlexemes ▸ Source.readable_of_mem_lexemes
  have hwhole : ∃ list' w', Grammar.externalDeclarations.Takes
      (ParserState.ofSource (.ofString text none)).view list' w' := by
    rw [ParserState.view_ofSource, hend]
    exact Parser.exists_takes_of_lexemes h hread hlexemes.symm rfl rfl rfl rfl rfl
  obtain ⟨list', w', htakes⟩ := hwhole
  obtain ⟨t, hyields, -⟩ := Parser.yields_of_takes (f := .externalDeclarations)
    (ParserState.sound_ofSource _) rfl htakes
  obtain ⟨list, hparse, -⟩ := Parser.parse_of_yields hyields
  exact ⟨text, _, hparse, hlexemes⟩

/-- A text that is parsed ends, and declarations are read off its lexemes. -/
theorem exists_takes_of_parse {text : String} {file : Option String} {unit : TranslationUnit}
    (h : parse text file = .ok unit) :
    (∃ p, (Source.ofString text file).outlook.ending = .ok p) ∧
      ∃ list w, Grammar.externalDeclarations.Takes
        (ParserState.ofSource (.ofString text file)).view list w := by
  unfold parse at h
  rcases hrun : Parser.runUnit text file with ⟨e | list, t⟩
  · rw [hrun] at h
    cases h
  · exact ⟨Parser.ending_of_runUnit hrun, list, t.view,
      Parser.takes_of_runAt (ParserState.sound_ofSource _) rfl hrun⟩

/-! ## Tokens in front of an error -/

namespace Source

/-- The kinds of the tokens of a text, up to its end or to a lexical fault in it. -/
def kinds (s : Source) : List TokenKind :=
  (s.outlook.pieces.map (·.lexeme)).map SymbolTable.empty.classify

/-- Some text that is parsed begins with tokens of the same kinds as the first ones here. -/
def Mendable (s : Source) (n : Nat) : Prop :=
  ∃ text unit tokens, parse text none = .ok unit ∧ tokenize text none = .ok tokens ∧
    (tokens.map (·.kind)).take n = s.kinds.take n

theorem kinds_of_tokenize {text : String} {file : Option String} {tokens : List Token}
    (h : tokenize text file = .ok tokens) : tokens.map (·.kind) = (ofString text file).kinds := by
  rw [tokenize_eq] at h
  cases hend : (ofString text file).outlook.ending with
  | error e =>
      rw [hend] at h
      cases h
  | ok p =>
      rw [hend] at h
      obtain rfl := Except.ok.inj h
      simp [kinds]

theorem exists_tokenize {text : String} {file : Option String} {p : Position}
    (h : (ofString text file).outlook.ending = .ok p) : ∃ tokens, tokenize text file = .ok tokens := by
  rw [tokenize_eq, h]
  exact ⟨_, rfl⟩

/-- Tokens of the same kinds have the same lexemes. -/
theorem lexemes_of_kinds {s t : Source} {n : Nat} (h : s.kinds.take n = t.kinds.take n) :
    (s.outlook.pieces.take n).map (·.lexeme) = (t.outlook.pieces.take n).map (·.lexeme) := by
  have hlexemes : ∀ s : Source, (s.kinds.take n).map TokenKind.lexeme =
      (s.outlook.pieces.take n).map (·.lexeme) := by
    intro s
    simp [kinds, List.map_take, Function.comp_def]
  rw [← hlexemes s, ← hlexemes t, h]

end Source

section

variable {text : String} {file : Option String} {fault : ParseError} {n : Nat}

/-- Behind tokens that starve the parser without barring it, others can stand. -/
theorem mendable_of_starves {depth : Nat}
    (h : Parser.StarvesAt depth .externalDeclarations
      (.alone .empty ((Source.ofString text file).outlook.pieces.take n) fault))
    (hbarred : ¬ Grammar.externalDeclarations.Barred
      (.alone .empty ((Source.ofString text file).outlook.pieces.take n) fault))
    (hn : n ≤ (Source.ofString text file).outlook.pieces.length) :
    (Source.ofString text file).Mendable n := by
  have hready : Place.file.Ready .empty :=
    { keywordFree := SymbolTable.keywordFree_empty, holds := rfl }
  obtain ⟨c, list, w, htakes⟩ := (Grammar.exists_takes_of_starves hready h).resolve_right hbarred
  -- What is filled in has to be a text, so all of it must have a spelling.
  have hwritable : ∀ piece ∈ (Source.ofString text file).outlook.pieces.take n ++ c.map Filler.piece,
      piece.lexeme.Writable := by
    intro piece hpiece
    rcases List.mem_append.1 hpiece with hshown | hfiller
    · exact Source.writable_of_mem_outlook (List.mem_of_mem_take hshown)
    · obtain ⟨filler, -, rfl⟩ := List.mem_map.1 hfiller
      exact filler.writable
  obtain ⟨other, unit, hparse, hlexemes⟩ := exists_parse_of_takes hwritable htakes
  obtain ⟨⟨p, hend⟩, -⟩ := exists_takes_of_parse hparse
  obtain ⟨tokens, htokens⟩ := Source.exists_tokenize hend
  refine ⟨other, unit, tokens, hparse, htokens, ?_⟩
  have hlength : ((Source.ofString text file).outlook.pieces.take n).length = n := by
    rw [List.length_take, Nat.min_eq_left hn]
  rw [Source.kinds_of_tokenize htokens, Source.kinds, hlexemes, List.map_append, List.map_append,
    List.take_left' (by simpa using hn), Source.kinds, List.map_take, List.map_take]

/-- Behind tokens that bar the parser, none can. -/
theorem not_mendable_of_barred
    (h : Grammar.externalDeclarations.Barred
      (.alone .empty ((Source.ofString text file).outlook.pieces.take n) fault)) :
    ¬ (Source.ofString text file).Mendable n := by
  rintro ⟨other, unit, tokens, hparse, htokens, hkinds⟩
  obtain ⟨⟨p, hend⟩, list, w, htakes⟩ := exists_takes_of_parse hparse
  rw [Source.kinds_of_tokenize htokens] at hkinds
  rw [ParserState.view_ofSource, hend] at htakes
  have hlexemes : (Source.ofString other none).outlook.pieces.map (·.lexeme) =
      ((Source.ofString text file).outlook.pieces.take n ++
        (Source.ofString other none).outlook.pieces.drop n).map (·.lexeme) := by
    rw [List.map_append, ← Source.lexemes_of_kinds hkinds, ← List.map_append,
      List.take_append_drop]
  have hextended : ∃ list' w', Grammar.externalDeclarations.Takes
      ((View.alone .empty ((Source.ofString text file).outlook.pieces.take n) fault).extend
        ((Source.ofString other none).outlook.pieces.drop n) (.ok p)) list' w' :=
    Parser.exists_takes_of_lexemes htakes Source.readable_of_mem_lexemes hlexemes rfl rfl rfl rfl rfl
  obtain ⟨list', w', hextended⟩ := hextended
  exact h.not_takes rfl hextended

/-- The tokens in front of the one that the grammar refuses begin a text that is parsed, unless a
storage class has been gathered among them for members. -/
theorem mendable_iff_of_parse {e : ParseError} (h : parse text file = .error e)
    (hcause : ∃ fault, e.cause = .grammatical fault) :
    ∃ n, (Source.ofString text file).outlook.positions[n]? = some e.start ∧
      ((Source.ofString text file).Mendable n ↔
        ¬ Grammar.externalDeclarations.Barred
          (.alone .empty ((Source.ofString text file).outlook.pieces.take n) e)) := by
  -- The grammar refuses a lexeme or the end; the fault that ends the lexemes is a lexical one.
  have hstart : e.start ∈ (Source.ofString text file).outlook.positions := by
    rcases Parser.error_of_parse h with ⟨-, hpiece | hend⟩ | hend
    · exact List.mem_append_left _ hpiece
    · exact List.mem_append_right _ (by simp [Outlook.stop, hend])
    · obtain ⟨fault, hfault⟩ := hcause
      obtain ⟨lexical, hlexical⟩ := Parser.lexical_of_ending hend
      rw [hfault] at hlexical
      cases hlexical
  obtain ⟨n, hlt, hget⟩ := List.mem_iff_getElem.1 hstart
  have hn : (Source.ofString text file).outlook.positions[n]? = some e.start := by
    rw [List.getElem?_eq_getElem hlt, hget]
  refine ⟨n, hn, fun hmendable hbarred => not_mendable_of_barred hbarred hmendable, fun hbarred => ?_⟩
  obtain ⟨depth, hstarves⟩ := Parser.starves_of_parse h hn e
  exact mendable_of_starves hstarves hbarred (by simpa [Outlook.positions, Nat.lt_succ_iff] using hlt)

end

/-- What `tokenize` and `parse` give is evaluated, so that it can be read off. -/
theorem exists_ok_of_toOption {α β : Type} {x : Except ParseError α} {f : α → β} {b : β}
    (h : x.toOption.map f = some b) : ∃ a, x = .ok a ∧ f a = b := by
  rcases x with e | a
  · cases h
  · exact ⟨a, rfl, Option.some.inj h⟩

/-- A text that breaks off in front of the size of an array, which could have been given. -/
theorem mendable_brokenArray :
    ∃ e n, parse "int a[" (some "a.c") = .error e ∧
      (Source.ofString "int a[" (some "a.c")).outlook.positions[n]? = some e.start ∧
      (Source.ofString "int a[" (some "a.c")).Mendable n ∧
      ¬ Grammar.externalDeclarations.Barred
        (.alone .empty ((Source.ofString "int a[" (some "a.c")).outlook.pieces.take n) e) := by
  have hfails : (match parse "int a[" (some "a.c") with
      | .ok _ => none
      | .error e => some e.cause) =
      some (.grammatical (.expectedExpression .endOfFile)) := by decide +kernel
  have hunit : (parse "int a[0];" none).toOption.map (·.declarations.length) = some 1 := by
    decide +kernel
  have hbroken : (tokenize "int a[" (some "a.c")).toOption.map (·.map (·.kind)) =
      some [.keyword .int, .identifier "a", .punctuator .openBracket] := by decide +kernel
  have hmended : (tokenize "int a[0];" none).toOption.map (·.map (·.kind)) =
      some ([.keyword .int, .identifier "a", .punctuator .openBracket] ++
        [.integer 0, .punctuator .closeBracket, .punctuator .semicolon]) := by decide +kernel
  obtain ⟨unit, hunit, -⟩ := exists_ok_of_toOption hunit
  obtain ⟨tokens, hbroken, hkinds⟩ := exists_ok_of_toOption hbroken
  obtain ⟨others, hmended, hothers⟩ := exists_ok_of_toOption hmended
  rcases hparse : parse "int a[" (some "a.c") with e | unit'
  · rw [hparse] at hfails
    obtain ⟨n, hn, hiff⟩ := mendable_iff_of_parse hparse ⟨_, Option.some.inj hfails⟩
    have hsource := hkinds.symm.trans (Source.kinds_of_tokenize hbroken)
    have hle : n ≤ 3 := by
      have hlength : 3 = (Source.ofString "int a[" (some "a.c")).outlook.pieces.length := by
        simpa [Source.kinds] using congrArg List.length hsource
      have hlt := (List.getElem?_eq_some_iff.1 hn).1
      simp only [Outlook.positions, List.length_append, List.length_map, List.length_cons,
        List.length_nil, ← hlength] at hlt
      omega
    have hmendable : (Source.ofString "int a[" (some "a.c")).Mendable n := by
      refine ⟨"int a[0];", unit, others, hunit, hmended, ?_⟩
      rw [hothers, ← hsource]
      exact List.take_append_of_le_length hle
    exact ⟨e, n, rfl, hn, hmendable, hiff.1 hmendable⟩
  · rw [hparse] at hfails
    cases hfails

/-- A text that ends behind the storage class of a member. -/
def storedMember : String :=
  "struct \x7b static"

theorem tokenize_storedMember :
    tokenize storedMember none = .ok [⟨.keyword .struct, ⟨1, 1, 0, none⟩⟩,
      ⟨.punctuator .openBrace, ⟨1, 8, 7, none⟩⟩, ⟨.keyword .static, ⟨1, 10, 9, none⟩⟩] := by
  have htokens : (tokenize storedMember none).toOption.map id =
      some [⟨.keyword .struct, ⟨1, 1, 0, none⟩⟩, ⟨.punctuator .openBrace, ⟨1, 8, 7, none⟩⟩,
        ⟨.keyword .static, ⟨1, 10, 9, none⟩⟩] := by decide +kernel
  obtain ⟨tokens, h, rfl⟩ := exists_ok_of_toOption htokens
  exact h

/-- Not every refused token stands behind tokens that begin a text that is parsed. -/
theorem not_forall_mendable :
    ¬ ∀ (text : String) (file : Option String) (e : ParseError), parse text file = .error e →
      (∃ fault, e.cause = .grammatical fault) →
      ∃ n, (Source.ofString text file).outlook.positions[n]? = some e.start ∧
        (Source.ofString text file).Mendable n := by
  intro hall
  have hfails : (match parse storedMember none with
      | .ok _ => none
      | .error e => some (e.start, e.cause)) =
      some (⟨1, 16, 15, none⟩, .grammatical (.expectedTypeSpecifier .endOfFile)) := by decide +kernel
  rcases hparse : parse storedMember none with e | unit
  · rw [hparse] at hfails
    obtain ⟨hstart, hcause⟩ := Prod.mk.inj (Option.some.inj hfails)
    obtain ⟨n, hn, hmendable⟩ := hall storedMember none e hparse ⟨_, hcause⟩
    have houtlook := outlook_of_tokenize tokenize_storedMember none
    have hthree : n = 3 := by
      rw [houtlook, hstart] at hn
      rcases n with _ | _ | _ | _ | n
      · simp [Outlook.positions, Position.relabel] at hn
      · simp [Outlook.positions, Position.relabel] at hn
      · simp [Outlook.positions, Position.relabel] at hn
      · rfl
      · simp [Outlook.positions, Position.relabel] at hn
    subst hthree
    have hbarred : Grammar.externalDeclarations.Barred
        (.alone .empty ((Source.ofString storedMember none).outlook.pieces.take 3) e) := by
      rw [houtlook]
      exact Grammar.barred_externalDeclarations rfl rfl rfl rfl
    exact not_mendable_of_barred hbarred hmendable
  · rw [hparse] at hfails
    cases hfails

end CSyntax
