import CSyntax.Proofs.Lockstep.Runs
import CSyntax.Proofs.Run.Inversion

/-!
# Units — whole texts read side by side

Two texts whose lexemes correspond, and which end alike, are read to the same end
(`Parser.lockstep_runUnit`).  A text that is read as a unit has been read to its end, so it has no
fault in it (`Parser.ending_of_runUnit`).
-/

namespace CSyntax

/-! ## Texts as views -/

@[simp] theorem TokenKind.lexeme_eq_endOfFile (kind : TokenKind) :
    kind.lexeme = .endOfFile ↔ kind = .endOfFile := by
  cases kind <;> simp [lexeme]

/-- The end of the text is never among the lexemes ahead. -/
theorem ParserState.lexeme_ne_endOfFile {s : ParserState} {piece : Piece}
    (h : piece ∈ s.view.ahead) : piece.lexeme ≠ .endOfFile := by
  rcases List.mem_append.1 h with h | h
  · obtain ⟨token, htoken, rfl⟩ := List.mem_map.1 h
    simpa [Token.piece] using (List.mem_filter.1 htoken).2
  · exact (Source.scan_of_mem_outlook h).1

/-- Where the next token is the end of the text, the text has no fault. -/
theorem ParserState.ending_of_token? {s : ParserState} {token : Token}
    (h : s.view.token? 0 = some token) (hkind : token.kind = .endOfFile) :
    s.view.ending = .ok token.position := by
  unfold View.token? at h
  split at h
  · rename_i piece hpiece
    cases h
    have hlexeme : piece.lexeme = .endOfFile := by simpa [View.kind] using hkind
    exact absurd hlexeme (lexeme_ne_endOfFile (List.mem_of_getElem? hpiece))
  · obtain ⟨position, hposition, rfl⟩ := Option.map_eq_some_iff.1 h
    cases hending : s.view.ending with
    | error e => simp [hending, Except.toOption] at hposition
    | ok p => simpa [hending, Except.toOption] using hposition

/-! ## Declarations up to the end of the text -/

namespace Grammar

variable {v w u : View}

theorem takes_externalDeclarations_nil {token : Token} (htoken : v.token? 0 = some token)
    (hend : token.kind = .endOfFile) : externalDeclarations.Takes v [] v := by
  have hpeek : Script.peek.Takes v token v := by
    refine Script.Takes.request ?_ Script.Takes.pure
    simp [View.perform, htoken]
  refine hpeek.bind ?_
  rw [if_pos (by simpa [Token.isEndOfFile] using hend)]
  exact Script.Takes.pure

/-- A declaration that begins with a token that is there. -/
theorem takes_externalDeclarations_cons {piece : Piece} {pieces : List Piece}
    {first : ExternalDeclaration} {others : List ExternalDeclaration}
    (hpiece : piece.lexeme ≠ .endOfFile)
    (hfirst : externalDeclaration.Takes (v.facing (piece :: pieces)) first w)
    (hothers : externalDeclarations.Takes w others u) :
    externalDeclarations.Takes (v.facing (piece :: pieces)) (first :: others) u := by
  refine Script.Takes.peek.bind ?_
  rw [if_neg (by simpa [Token.isEndOfFile, View.next, View.kind] using hpiece)]
  exact hfirst.bind ((Script.Takes.rule (f := .externalDeclarations) hothers).bind Script.Takes.pure)

end Grammar

namespace Parser

/-- Declarations are read as long as there are tokens. -/
theorem token?_of_readAt {depth : Nat} {v w : View} {list : List ExternalDeclaration}
    (h : readAt depth .externalDeclarations v = some (list, w)) :
    ∃ token, w.token? 0 = some token ∧ token.kind = .endOfFile := by
  induction depth generalizing v list with
  | zero => cases h
  | succ depth ih =>
      obtain ⟨token, u, hpeek, hnext⟩ := Script.bind_of_read h
      obtain ⟨rfl, htoken⟩ := Script.peek_of_read hpeek
      split at hnext
      · rename_i hend
        obtain ⟨-, rfl⟩ := Script.pure_of_read hnext
        exact ⟨token, htoken, by simpa [Token.isEndOfFile] using hend⟩
      · obtain ⟨first, u, -, hnext⟩ := Script.bind_of_read hnext
        obtain ⟨others, u', hothers, hpure⟩ := Script.bind_of_read hnext
        obtain ⟨-, rfl⟩ := Script.pure_of_read hpure
        exact ih (Script.rule_of_read hothers)

/-- A text that is read as a unit has no fault in it. -/
theorem ending_of_runUnit {text : String} {file : Option String}
    {list : List ExternalDeclaration} {t : ParserState} (h : runUnit text file = (.ok list, t)) :
    ∃ p, (Source.ofString text file).outlook.ending = .ok p := by
  have hsound := ParserState.sound_ofSource (.ofString text file)
  have houtcome := outcome_eq hsound rfl ((Source.ofString text file).rest.length + 1)
    .externalDeclarations
  have htakes := takes_of_runAt hsound rfl h
  unfold runUnit at h
  simp only [h, ParserState.outcome] at houtcome
  obtain ⟨token, htoken, hkind⟩ := token?_of_readAt houtcome.symm
  refine ⟨token.position, ?_⟩
  calc (Source.ofString text file).outlook.ending = t.view.ending := htakes.ending_eq.symm
    _ = .ok token.position := ParserState.ending_of_token? htoken hkind

/-- Texts whose lexemes correspond, and which end alike, are read alike. -/
theorem lockstep_runUnit (K : Correspondence) {text text' : String} {file file' : Option String}
    (hpieces : List.Forall₂ K.Pieces (Source.ofString text file).outlook.pieces
      (Source.ofString text' file').outlook.pieces)
    (hending : K.Endings (Source.ofString text file).outlook.ending
      (Source.ofString text' file').outlook.ending) :
    K.Outcomes (fun list list' _ => Alike (List.map ExternalDeclaration.erase) list list')
      (runUnit text file) (runUnit text' file') := by
  have hlength := Source.length_pieces_le (.ofString text file)
  have hlength' := Source.length_pieces_le (.ofString text' file')
  rw [← hpieces.length_eq] at hlength'
  have hviews : K.Views (ParserState.ofSource (.ofString text file)).view
      (ParserState.ofSource (.ofString text' file')).view :=
    { ahead := hpieces, ending := hending, table := rfl, taken := .none }
  have houtcome := lockstep .externalDeclarations (lawful_events text file)
    (lawful_events text' file') hviews rfl (Nat.lt_succ_of_le hlength) (Nat.lt_succ_of_le hlength')
  exact houtcome.mono fun list list' w h => h.1

/-- What is read off a text if calls may nest deeply enough is read with the depth that the text has
characters, up to positions. -/
theorem parse_of_yields {text : String} {file : Option String} {list : List ExternalDeclaration}
    {t : ParserState} (h : Yields .externalDeclarations (.ofSource (.ofString text file)) list t) :
    ∃ list', parse text file = .ok { declarations := list' } ∧
      Alike (List.map ExternalDeclaration.erase) list list' := by
  -- A text corresponds to itself, and every fault in it to every other.
  let K : Correspondence := { positions := fun _ _ => True, faults := fun _ _ => True }
  have hpieces : List.Forall₂ K.Pieces (Source.ofString text file).outlook.pieces
      (Source.ofString text file).outlook.pieces :=
    List.forall₂_same.2 fun piece hpiece => ⟨rfl, trivial, Source.readable_of_mem_outlook hpiece⟩
  have hending : K.Endings (Source.ofString text file).outlook.ending
      (Source.ofString text file).outlook.ending := by
    cases (Source.ofString text file).outlook.ending with
    | ok p => exact .ok trivial
    | error e => exact .error trivial
  have hviews : K.Views (ParserState.ofSource (.ofString text file)).view
      (ParserState.ofSource (.ofString text file)).view :=
    { ahead := hpieces, ending := hending, table := rfl, taken := .none }
  have hlength := Nat.lt_succ_of_le (Source.length_pieces_le (.ofString text file))
  obtain ⟨enough, hruns⟩ := h
  have houtcome := lockstep .externalDeclarations
    (lawful_eventsAt (max enough ((Source.ofString text file).rest.length + 1)) (.ofString text file))
    (lawful_events text file) hviews rfl
    (Nat.lt_of_lt_of_le hlength (Nat.le_max_right _ _)) hlength
  rw [hruns _ (Nat.le_max_left _ _)] at houtcome
  change K.Outcomes _ _ (runUnit text file) at houtcome
  unfold parse
  generalize runUnit text file = x at houtcome
  cases houtcome with
  | value hsame _ => exact ⟨_, rfl, hsame.1⟩

/-- So is the state that is left: a deeper run gives the same. -/
theorem runUnit_of_yields {text : String} {file : Option String} {list : List ExternalDeclaration}
    {t : ParserState} (h : Yields .externalDeclarations (.ofSource (.ofString text file)) list t) :
    runUnit text file = (.ok list, t) := by
  obtain ⟨list', hparse, -⟩ := parse_of_yields h
  obtain ⟨t', hrun⟩ := runUnit_of_parse hparse
  obtain ⟨enough, hruns⟩ := h
  have hdeep := hruns _ (Nat.le_max_left enough ((Source.ofString text file).rest.length + 1))
  rw [runAt_mono (Nat.le_max_right _ _) hrun] at hdeep
  rw [hrun, hdeep]

end Parser
end CSyntax
