import CSyntax.Proofs.Lockstep.Units

/-!
# Batch — lexing on demand and lexing at once

A parser cuts tokens off one by one, looks ahead, goes back, and classifies words by what is declared
at the time.  For all that it finds the fault in a text that lexing at once finds, unless the grammar
refuses a token in front of it (`parse_of_tokenize`).

The argument is the agreement of a text with itself: what is not refused by the grammar runs into
the fault that ends the lexemes, and the grammar refuses only tokens that stand before it.
-/

namespace CSyntax

/-- A text beside itself: the tokens that stand in it, and the fault that ends them. -/
def Correspondence.diagonal (o : Outlook) : Correspondence where
  positions p _ := p ∈ o.pieces.map (·.position) ∨ o.ending = .ok p
  faults e _ := o.ending = .error e

/-- Lexing at once gives the lexemes ahead, apart from the label. -/
theorem tokenize_eq (text : String) (file : Option String) :
    tokenize text file = (Source.ofString text file).outlook.ending.map fun _ =>
      (Source.ofString text file).outlook.pieces.map fun piece =>
        { kind := SymbolTable.empty.classify piece.lexeme, position := piece.position } :=
  Source.tokens_eq .empty (Nat.lt_succ_self _)

namespace Parser

variable {text : String} {file : Option String}

/-- A parse that fails has refused a token, or has come to the fault that ends the lexemes. -/
theorem error_of_parse {e : ParseError} (h : parse text file = .error e) :
    (∃ fault, e.cause = .grammatical fault) ∧
        (e.start ∈ (Source.ofString text file).outlook.pieces.map (·.position) ∨
          (Source.ofString text file).outlook.ending = .ok e.start) ∨
      (Source.ofString text file).outlook.ending = .error e := by
  -- The text is read in lockstep with itself, and positions correspond if lexemes stand there.
  have hpieces : List.Forall₂ (Correspondence.diagonal (Source.ofString text file).outlook).Pieces
      (Source.ofString text file).outlook.pieces (Source.ofString text file).outlook.pieces := by
    refine List.forall₂_same.2 fun piece hpiece => ⟨rfl, Or.inl ?_, ?_⟩
    · exact List.mem_map_of_mem hpiece
    · exact Source.readable_of_mem_outlook hpiece
  have hending : (Correspondence.diagonal (Source.ofString text file).outlook).Endings
      (Source.ofString text file).outlook.ending (Source.ofString text file).outlook.ending := by
    cases hend : (Source.ofString text file).outlook.ending with
    | ok p => exact .ok (Or.inr hend)
    | error e => exact .error hend
  have houtcome := lockstep_runUnit _ hpieces hending
  unfold parse at h
  generalize runUnit text file = x at h houtcome
  cases houtcome with
  | value _ _ => cases h
  | refusal hrefusal =>
      obtain rfl := Except.error.inj h
      exact Or.inl ⟨hrefusal.grammatical, hrefusal.start⟩
  | fault hfault =>
      obtain rfl := Except.error.inj h
      exact Or.inr hfault

end Parser

/-- Lexing on demand agrees with lexing at once.  A text without a lexical fault is parsed, or refused
by the grammar.  A text with one is refused: for this fault, or by the grammar at a token in front
of it. -/
theorem parse_of_tokenize (text : String) (file : Option String) :
    match tokenize text none with
    | .ok _ => ∀ e, parse text file = .error e → ∃ fault, e.cause = .grammatical fault
    | .error e => ∃ e', parse text file = .error e' ∧
        (e' = e.relabel file ∨
          (∃ fault, e'.cause = .grammatical fault) ∧ e'.start.offset < e.start.offset) := by
  have hlabel : (Source.ofString text file).outlook =
      (Source.ofString text none).outlook.relabel file :=
    Source.outlook_relabel file (.ofString text none)
  rw [tokenize_eq]
  cases hend : (Source.ofString text none).outlook.ending with
  | ok p =>
      intro e herror
      have hending : (Source.ofString text file).outlook.ending = .ok (p.relabel file) := by
        rw [hlabel, Outlook.relabel, hend]
        rfl
      rcases Parser.error_of_parse herror with ⟨hfault, -⟩ | hfault
      · exact hfault
      · rw [hending] at hfault
        cases hfault
  | error e =>
      have hending : (Source.ofString text file).outlook.ending = .error (e.relabel file) := by
        rw [hlabel, Outlook.relabel, hend]
        rfl
      cases hparse : parse text file with
      | ok unit =>
          -- A unit is read to its end, where there is no fault.
          exfalso
          unfold parse at hparse
          rcases hrun : Parser.runUnit text file with ⟨e' | list, t⟩
          · rw [hrun] at hparse
            cases hparse
          · obtain ⟨q, hq⟩ := Parser.ending_of_runUnit hrun
            rw [hending] at hq
            cases hq
      | error e' =>
          refine ⟨e', rfl, ?_⟩
          rcases Parser.error_of_parse hparse with ⟨hfault, hstart⟩ | hsame
          · refine Or.inr ⟨hfault, ?_⟩
            have hmem := hstart.resolve_right (by rw [hending]; nofun)
            have hstop : (Source.ofString text file).outlook.stop = e.start.relabel file := by
              rw [Outlook.stop, hending]
              rfl
            have hbefore := (List.pairwise_append.1
              (Source.pairwise_outlook (.ofString text file)).1).2.2 _ hmem _ List.mem_cons_self
            rwa [hstop] at hbefore
          · rw [hending] at hsame
            exact Or.inl (Except.error.inj hsame).symm

end CSyntax
