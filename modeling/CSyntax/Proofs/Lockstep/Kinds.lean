import CSyntax.Proofs.Lockstep.Batch

/-!
# Kinds — a parse depends on the kinds of the tokens alone

Two texts may differ in layout, in comments, in the way numbers are written and in their labels.  If
they have the same kinds of tokens, they are the same to the parser: trees differ in positions only,
and failures are the same fault at the same token (`parse_of_same_kinds`).
-/

namespace CSyntax

/-! ## Tokens by their number -/

/-- Where the token with the number stands in the text with a label.  The end of the text comes
behind the last token. -/
def tokenPosition (text : String) (file : Option String) (tokens : List Token) (i : Nat) : Position :=
  match tokens[i]? with
  | some token => token.position.relabel file
  | none => (Position.start file).advanceBy text.toList

/-- Two texts with the same number of tokens: those with the same number answer each other. -/
def Correspondence.numbered (text text' : String) (file file' : Option String)
    (tokens tokens' : List Token) : Correspondence where
  positions p p' := ∃ i ≤ tokens.length, p = tokenPosition text file tokens i ∧
    p' = tokenPosition text' file' tokens' i
  faults _ _ := False

/-- A text that can be lexed at once has its tokens ahead, and no fault. -/
theorem outlook_of_tokenize {text : String} {tokens : List Token}
    (h : tokenize text none = .ok tokens) (file : Option String) :
    (Source.ofString text file).outlook =
      { pieces := tokens.map fun token =>
          { lexeme := token.kind.lexeme, position := token.position.relabel file }
        ending := .ok ((Position.start file).advanceBy text.toList) } := by
  have hlabel : (Source.ofString text file).outlook =
      (Source.ofString text none).outlook.relabel file :=
    Source.outlook_relabel file (.ofString text none)
  rw [tokenize_eq] at h
  cases hend : (Source.ofString text none).outlook.ending with
  | error e =>
      rw [hend] at h
      cases h
  | ok p =>
      have hending : (Source.ofString text file).outlook.ending = .ok (p.relabel file) := by
        rw [hlabel, Outlook.relabel, hend]
        rfl
      rw [hend] at h
      obtain rfl := Except.ok.inj h
      have hstop : p.relabel file = (Position.start file).advanceBy text.toList :=
        Source.eq_advanceBy_of_outlook hending
      rw [← hstop, ← hending, List.map_map, hlabel]
      simp only [Outlook.relabel, Outlook.mk.injEq, and_true]
      refine List.map_congr_left fun piece _ => ?_
      simp [Piece.relabel]

/-- Texts with the same kinds of tokens have corresponding lexemes. -/
theorem forall₂_pieces {text text' : String} {tokens tokens' : List Token} {file file' : Option String}
    (h : tokenize text none = .ok tokens) (h' : tokenize text' none = .ok tokens')
    (hkinds : tokens.map (·.kind) = tokens'.map (·.kind)) :
    List.Forall₂ (Correspondence.numbered text text' file file' tokens tokens').Pieces
      (Source.ofString text file).outlook.pieces (Source.ofString text' file').outlook.pieces := by
  have hlength : tokens.length = tokens'.length := by simpa using congrArg List.length hkinds
  have hread : ∀ piece ∈ (Source.ofString text file).outlook.pieces, piece.lexeme.Readable :=
    fun _ => Source.readable_of_mem_outlook
  rw [outlook_of_tokenize h] at hread ⊢
  rw [outlook_of_tokenize h']
  refine List.forall₂_iff_get.2 ⟨by simpa using hlength, fun i hi hi' => ?_⟩
  have hlt : i < tokens.length := by simpa using hi
  have hlt' : i < tokens'.length := hlength ▸ hlt
  have hkind : tokens'[i].kind = tokens[i].kind := by
    have hget := congrArg (·[i]?) hkinds
    simpa [hlt, hlt', eq_comm] using hget
  refine ⟨?_, ⟨i, Nat.le_of_lt hlt, ?_, ?_⟩, hread _ (List.get_mem _ _)⟩
  · simp [hkind]
  · simp [tokenPosition, hlt]
  · simp [tokenPosition, hlt']

/-! ## Texts with the same kinds of tokens -/

/-- Texts with the same kinds of tokens give units that are the same up to positions, or the same
fault at tokens with the same number. -/
theorem parse_of_same_kinds {text text' : String} {tokens tokens' : List Token}
    (h : tokenize text none = .ok tokens) (h' : tokenize text' none = .ok tokens')
    (hkinds : tokens.map (·.kind) = tokens'.map (·.kind)) (file file' : Option String) :
    (∃ unit unit', parse text file = .ok unit ∧ parse text' file' = .ok unit' ∧
      unit.erase = unit'.erase) ∨
    ∃ e e' i, parse text file = .error e ∧ parse text' file' = .error e' ∧ e.cause = e'.cause ∧
      i ≤ tokens.length ∧ e.start = tokenPosition text file tokens i ∧
      e'.start = tokenPosition text' file' tokens' i := by
  have hlength : tokens.length = tokens'.length := by simpa using congrArg List.length hkinds
  -- Positions correspond if they have one number in both texts; the ends come last.
  have hending : (Correspondence.numbered text text' file file' tokens tokens').Endings
      (Source.ofString text file).outlook.ending
      (Source.ofString text' file').outlook.ending := by
    rw [outlook_of_tokenize h, outlook_of_tokenize h']
    exact .ok ⟨tokens.length, Nat.le_refl _, by simp [tokenPosition],
      by simp [tokenPosition, hlength]⟩
  have houtcome := Parser.lockstep_runUnit _ (forall₂_pieces h h' hkinds) hending
  unfold parse
  generalize Parser.runUnit text file = x, Parser.runUnit text' file' = x' at houtcome
  cases houtcome with
  | value hsame _ => exact Or.inl ⟨_, _, rfl, rfl, congrArg TranslationUnit.mk hsame⟩
  | refusal hrefusal =>
      obtain ⟨i, hi, hstart, hstart'⟩ := hrefusal.start
      exact Or.inr ⟨_, _, i, rfl, rfl, hrefusal.cause.symm, hi, hstart, hstart'⟩
  | fault hfault => cases hfault

/-- Whether texts have the same kinds of tokens is read off what `tokenize` gives for them. -/
theorem exists_tokens_of_kinds {x y : Except ParseError (List Token)}
    (h : x.toOption.isSome = true)
    (hkinds : x.toOption.map (List.map (·.kind)) = y.toOption.map (List.map (·.kind))) :
    ∃ tokens tokens', x = .ok tokens ∧ y = .ok tokens' ∧
      tokens.map (·.kind) = tokens'.map (·.kind) := by
  cases x with
  | error e => cases h
  | ok tokens =>
      cases y with
      | error e => cases hkinds
      | ok tokens' => exact ⟨tokens, tokens', rfl, rfl, Option.some.inj hkinds⟩

/-- A text without a space to spare. -/
def compactText : String :=
  "typedef int T;T f(T a){for(int T=0x10;;)a+T;}"

/-- The same tokens with comments between them and with another number for the same value. -/
def spaciousText : String :=
  "typedef int T; // a name
T f ( T a )
{ for ( int T = 16ul ; /**/ ; ) a + T ; }"

theorem parse_of_same_kinds_layout :
    ∃ unit unit', parse compactText none = .ok unit ∧
      parse spaciousText (some "f.c") = .ok unit' ∧ unit.erase = unit'.erase := by
  have hsome : (tokenize compactText none).toOption.isSome = true := by decide +kernel
  have hsame : (tokenize compactText none).toOption.map (List.map (·.kind)) =
      (tokenize spaciousText none).toOption.map (List.map (·.kind)) := by decide +kernel
  have hparses : (parse compactText none).toOption.isSome = true := by decide +kernel
  obtain ⟨tokens, tokens', h, h', hkinds⟩ := exists_tokens_of_kinds hsome hsame
  rcases parse_of_same_kinds h h' hkinds none (some "f.c") with hunits | ⟨e, _, _, herror, -⟩
  · exact hunits
  · rw [herror] at hparses
    cases hparses

end CSyntax
