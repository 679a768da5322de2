import CSyntax.Proofs.Lockstep.Kinds
import CSyntax.Proofs.Span.Statements

/-!
# Units — the stretch of a whole text

The reading of a text begins at its first token, with nothing taken.  From there the contract of
stretches covers the whole: positions in a finished unit are those of tokens, in the order of the
text (`positions_of_parse`).
-/

namespace CSyntax

/-! ## The reading of a text -/

/-- Where the reading of a text begins. -/
def Site.start (source : Source) : Site where
  here := (ParserState.ofSource source).view.here
  ahead := (ParserState.ofSource source).view.token?
  saved := none
  ended := false

namespace Site

theorem tells_start (source : Source) :
    (chronicle source).Tells [] (ParserState.ofSource source) (start source) :=
  { behind := ⟨rfl, rfl⟩, here := rfl, ahead := rfl, saved := ⟨rfl, rfl⟩, ended := nofun,
    plain := nofun }

/-- Rules of a text that can be begun at any offset may be begun here. -/
theorem pre_start (source : Source) :
    (spanning source.outlook 0).pre .externalDeclarations (start source) :=
  ⟨⟨rfl, rfl⟩, Nat.zero_le _, (tells_start source).behind.here_le, trivial⟩

theorem follows_spanning {source : Source} {trace : List Event} (N : Nat)
    (h : Parser.Lawful source trace) : (spanning source.outlook N).Follows (chronicle source) trace :=
  follows_of_lawful (fun _ _ hmay => hmay) rfl h

end Site

namespace Parser

variable {text : String} {file : Option String}

/-- A text that is read as a unit is lexed at once into its lexemes. -/
theorem tokenize_of_runUnit {list : List ExternalDeclaration} {t : ParserState}
    (h : runUnit text file = (.ok list, t)) :
    ∃ tokens, tokenize text none = .ok tokens ∧
      tokens.map (fun token => { token with position := token.position.relabel file }) =
        (Source.ofString text file).outlook.pieces.map fun piece =>
          { kind := SymbolTable.empty.classify piece.lexeme, position := piece.position } := by
  obtain ⟨p, hp⟩ := ending_of_runUnit h
  have hlabel : (Source.ofString text file).outlook =
      (Source.ofString text none).outlook.relabel file :=
    Source.outlook_relabel file (.ofString text none)
  cases hend : (Source.ofString text none).outlook.ending with
  | error e =>
      rw [hlabel, Outlook.relabel, hend] at hp
      cases hp
  | ok q =>
      refine ⟨_, by rw [tokenize_eq, hend]; rfl, ?_⟩
      rw [hlabel, Outlook.relabel, List.map_map, List.map_map]
      rfl

/-- What the contract of stretches says of the reading of a unit. -/
theorem covers_of_runUnit {list : List ExternalDeclaration} {t : ParserState}
    (h : runUnit text file = (.ok list, t)) : ∃ x : Site, x.Rests ∧
      Site.Tells (.ofString text file) (events text file) t.view x ∧
      Nonterminal.Covers (Source.ofString text file).outlook.Real
        (Site.start (.ofString text file)).here x.here .externalDeclarations list := by
  obtain ⟨-, hresult⟩ := Contract.along (valid_spanning _ 0)
    (Site.tells_start (.ofString text file)) (Site.pre_start _)
    (Site.follows_spanning 0 (lawful_events text file))
  obtain ⟨x, R, htells, hrests, -, -, hcovers⟩ := hresult list t h
  exact ⟨x, hrests, htells, hcovers⟩

end Parser

/-! ## Positions of a unit -/

/-- All positions in a unit are those of tokens, labelled with the name of the text, and they follow
the order of the text: the declarations of the unit, the items of blocks and lists, the parts of every
statement and the operands of every expression. -/
theorem positions_of_parse {text : String} {file : Option String} {unit : TranslationUnit}
    (h : parse text file = .ok unit) : ∃ tokens, tokenize text none = .ok tokens ∧
      (unit.declarations.map (·.position)).Pairwise Position.Before ∧
      unit.Everywhere (placed fun p => ∃ token ∈ tokens, p = token.position.relabel file) := by
  obtain ⟨t, hrun⟩ := Parser.runUnit_of_parse h
  obtain ⟨tokens, htokens, hpieces⟩ := Parser.tokenize_of_runUnit hrun
  obtain ⟨x, -, -, heverywhere, hascend⟩ := Parser.covers_of_runUnit hrun
  have hpositions : tokens.map (fun token => token.position.relabel file) =
      (Source.ofString text file).outlook.pieces.map (·.position) := by
    simpa [Function.comp_def] using congrArg (List.map Token.position) hpieces
  have hreal : (Source.ofString text file).outlook.Real =
      fun p => ∃ token ∈ tokens, p = token.position.relabel file := by
    funext p
    rw [Outlook.Real, ← hpositions, List.mem_map, eq_iff_iff]
    exact exists_congr fun token => and_congr_right fun _ => eq_comm
  refine ⟨tokens, htokens, hascend.pairwise, ?_⟩
  rw [← hreal]
  exact heverywhere

/-- A loop, a branch, a call and a cast, with parentheses that leave no trace. -/
def scalingText : String :=
  "int scale(int n, char *c) { int a[2] = { 1, (n) }, *b;
  for (; n;) if (scale((n), c)) a[1] += *b; else return (int)c[0]; }"

theorem positions_of_parse_scalingText :
    ∃ unit, parse scalingText (some "scale.c") = .ok unit ∧ unit.functions.length = 1 ∧
      ∃ tokens, tokenize scalingText none = .ok tokens ∧
        (unit.declarations.map (·.position)).Pairwise Position.Before ∧
        unit.Everywhere
          (placed fun p => ∃ token ∈ tokens, p = token.position.relabel (some "scale.c")) := by
  have hparses : (parse scalingText (some "scale.c")).toOption.map (·.functions.length) = some 1 := by
    decide +kernel
  rcases hparse : parse scalingText (some "scale.c") with error | unit
  · simp [hparse, Except.toOption] at hparses
  · refine ⟨unit, rfl, by simpa [hparse, Except.toOption] using hparses, ?_⟩
    exact positions_of_parse hparse

end CSyntax
