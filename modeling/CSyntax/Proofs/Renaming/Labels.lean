import CSyntax.Proofs.Renaming.Declarations
import CSyntax.Proofs.Statement.Declarations

/-!
# Labels — where a statement may begin

A word where a statement may begin is a label if a colon comes next.  A label is recognised only if
its name is no type name: behind a type name the colon is an error, be it taken for the name that
begins a declaration or for an operand.  So a renamed label either is a label again, or what is read
there fails.

* `Renaming.Related.label` — what comes next where a label does;
* `Renaming.Related.unlabelled` — where none does, words are ordinary.
-/

namespace CSyntax

/-! ## What fails before a colon -/

section Failures

variable {α : Type} {v w : View} {token second : Token} {name : String}

/-- No expression begins with a type name. -/
theorem Grammar.not_takes_statement (htoken : v.token? 0 = some token)
    (hkind : token.kind = .typeName name) (statement : Statement) :
    ¬Grammar.statement.Takes v statement w := by
  intro h
  obtain ⟨found, u, ⟨depth, hpeek⟩, h⟩ := h.exists_bind
  obtain ⟨rfl, hfound⟩ := Script.peek_of_read hpeek
  obtain rfl : token = found := Option.some_inj.1 (htoken.symm.trans hfound)
  rw [hkind] at h
  obtain ⟨value, u, hvalue, -⟩ := h.exists_bind
  obtain ⟨first, hfirst, hopens⟩ := token?_of_expression hvalue
  obtain rfl : token = first := Option.some_inj.1 (htoken.symm.trans hfirst)
  rw [hkind] at hopens
  cases hopens

/-- The specifiers of a declaration that begins with a type name end before a colon, and no declarator
begins with one. -/
theorem Grammar.not_takes_declarationGroup (hv : v.taken = none)
    (htoken : v.token? 0 = some token) (hkind : token.kind = .typeName name)
    (hsecond : v.token? 1 = some second) (hcolon : second.kind = .punctuator .colon)
    (group : DeclarationGroup) : ¬Grammar.declarationGroup.Takes v group w := by
  intro h
  have hfirst : (v.facing v.ahead).token? 0 = some token := htoken
  obtain ⟨piece, others, hahead, rfl⟩ := View.lexeme_of_token? hfirst (by simp [hkind])
  rw [← View.token?_facing hahead] at hsecond
  obtain ⟨next, after, rfl, rfl⟩ := View.lexeme_of_token? hsecond (by simp [hcolon])
  have hsame : v = v.facing ([piece] ++ next :: after) := by
    rw [List.singleton_append, ← hahead]
    rfl
  have hcolon : v.kind next = .punctuator .colon := hcolon
  -- The type name is all of the specifiers, because a colon ends them.
  have hends : v.EndsSpecifiers (next :: after) :=
    View.begins_cons.2 (by simp [hcolon])
  obtain ⟨first, rest, -, hspecifiers⟩ := Based.takes (.declared hkind) hv hends
  rw [← hsame] at hspecifiers
  obtain ⟨specifiers, u, hfront, h⟩ := h.exists_bind
  obtain ⟨rfl, rfl⟩ := hfront.unique hspecifiers
  obtain ⟨found, u, haccept, h⟩ := h.exists_bind
  obtain ⟨rfl, rfl⟩ := haccept.unique (Script.Takes.accept_not (by simp [hcolon]))
  obtain ⟨d, u, hdeclarator, -⟩ := h.exists_bind
  obtain ⟨found, hfound, hopens⟩ := token?_of_declarator hdeclarator
  obtain rfl : v.next next = found := Option.some_inj.1 hfound
  rw [View.kind_next, hcolon] at hopens
  cases hopens

/-- Nor does a statement or a declaration. -/
theorem Grammar.not_takes_blockItem (hv : v.taken = none) (htoken : v.token? 0 = some token)
    (hkind : token.kind = .typeName name) (hsecond : v.token? 1 = some second)
    (hcolon : second.kind = .punctuator .colon) (item : Statement) :
    ¬(Grammar.blockItem token).Takes v item w := by
  intro h
  unfold Grammar.blockItem at h
  rw [if_pos (by rw [hkind]; rfl)] at h
  obtain ⟨group, u, hgroup, -⟩ := h.exists_bind
  exact Grammar.not_takes_declarationGroup hv htoken hkind hsecond hcolon group hgroup

end Failures

/-! ## Labels with new names -/

/-- A lexeme that is classified as a word is the word, and it is an identifier unless it names a
type. -/
theorem SymbolTable.word_of_words {T : SymbolTable} {w : Lexeme} {name : String}
    (h : (T.classify w).words = [name]) :
    w = .word name ∧ (T.classify w = .identifier name ∧ T.isTypeName name = false ∨
      T.classify w = .typeName name ∧ T.isTypeName name = true) := by
  cases hclass : T.classify w with
  | identifier other =>
      rw [hclass] at h
      cases h
      obtain ⟨hword, hfree, -⟩ := classify_eq_identifier.1 hclass
      exact ⟨hword, Or.inl ⟨rfl, hfree⟩⟩
  | typeName other =>
      rw [hclass] at h
      cases h
      obtain ⟨hword, htype⟩ := classify_eq_typeName.1 hclass
      exact ⟨hword, Or.inr ⟨rfl, htype⟩⟩
  | _ =>
      rw [hclass] at h
      cases h

/-- A word and a colon come next, or they do not. -/
theorem View.label_or (v : View) :
    (∃ token second name, v.token? 0 = some token ∧
      (token.kind = .identifier name ∨ token.kind = .typeName name) ∧
      v.token? 1 = some second ∧ second.kind = .punctuator .colon) ∨
    ∀ token second, v.token? 0 = some token → v.token? 1 = some second →
      token.kind.words ≠ [] → second.kind ≠ .punctuator .colon := by
  by_contra! h
  obtain ⟨hnone, token, second, htoken, hsecond, hwords, hcolon⟩ := h
  have hword : ∃ name, token.kind = .identifier name ∨ token.kind = .typeName name := by
    cases hkind : token.kind with
    | identifier name => exact ⟨name, Or.inl rfl⟩
    | typeName name => exact ⟨name, Or.inr rfl⟩
    | _ => exact absurd (by rw [hkind]; rfl) hwords
  obtain ⟨name, hname⟩ := hword
  exact hnone token second name htoken hname hsecond hcolon

namespace Renaming.Related

variable {ρ : Renaming} {P : Nat → Prop} {σ : Scanner} {S : List Bracket} {v v' : View}
  {token second : Token} {name : String}

/-- What comes next where a label does.  Its new name is a word again, and an identifier if and only if
the label is in nobody's way. -/
theorem label (hv : ρ.Related P σ v v') (hσ : σ.expects = .statement)
    (htoken : v.token? 0 = some token) (hname : token.kind.words = [name])
    (hsecond : v.token? 1 = some second) (hcolon : second.kind = .punctuator .colon) :
    ∃ token' second', v'.token? 0 = some token' ∧ v'.token? 1 = some second' ∧
      second'.kind = .punctuator .colon ∧
      (token'.kind = .identifier (ρ.label token.position.offset name) ∧ ρ.Clear P v ∨
        token'.kind = .typeName (ρ.label token.position.offset name) ∧ ¬ρ.Clear P v) := by
  have hend : token.kind ≠ .endOfFile := by
    intro hend
    rw [hend] at hname
    cases hname
  obtain ⟨piece, others, -, -, hahead, rfl, -⟩ := hv.exists_cons htoken hend
  obtain ⟨piece', others', hahead', htwins, hlabel, hrest⟩ := hv.cons hahead
  rw [← View.token?_facing hahead] at hsecond
  obtain ⟨found, second', third, hfound, hsecond', htwins'⟩ := hrest.token?
  obtain rfl : found = second := Option.some_inj.1 (hfound.symm.trans hsecond)
  obtain ⟨next, after, rfl, rfl⟩ := View.lexeme_of_token? hsecond (by simp [hcolon])
  have hcolon : v.kind next = .punctuator .colon := hcolon
  have hnext : (next :: after).head?.map v.kind = some (.punctuator .colon) := by simp [hcolon]
  rw [hnext] at htwins hlabel
  have hspace : σ.nameSpace piece.position.offset (some (.punctuator .colon)) =
      .label piece.position.offset := by
    simp [Scanner.nameSpace, hσ]
  have hwords := htwins.words
  rw [hspace, hname] at hwords
  have hP : P piece.position.offset := hlabel.2 ⟨hσ, by
    rw [show (v.kind piece).words = [name] from hname]
    exact List.cons_ne_nil _ _, rfl⟩
  obtain ⟨hlexeme, -⟩ := SymbolTable.word_of_words
    (show (v.table.classify piece.lexeme).words = [name] from hname)
  -- The new name is compared with the types in force just where the label is taken.
  have hclear : ρ.Clear P v ↔
      v'.table.isTypeName (ρ.label piece.position.offset name) = false := by
    rw [hv.isTypeName]
    constructor
    · exact fun hclear => hclear piece (by simp [hahead]) hP name hlexeme
    · intro hfree found hfound _ other hother
      obtain rfl : piece = found := by simpa [hahead] using hfound
      obtain rfl : name = other := Lexeme.word.inj (hlexeme.symm.trans hother)
      exact hfree
  refine ⟨v'.next piece', second', by simp [View.token?, hahead'],
    by rwa [View.token?_facing hahead'] at hsecond', (htwins'.kind_iff rfl).2 hcolon, ?_⟩
  have hkind' : (v'.table.classify piece'.lexeme).words = [ρ.label piece.position.offset name] :=
    hwords
  rcases (SymbolTable.word_of_words hkind').2 with ⟨hclass, hfree⟩ | ⟨hclass, htype⟩
  · exact Or.inl ⟨hclass, hclear.2 hfree⟩
  · exact Or.inr ⟨hclass, fun h => by simp [hclear.1 h] at htype⟩

/-- Where no label comes next, words are ordinary as elsewhere in the block. -/
theorem unlabelled (hv : ρ.Related P ⟨.block :: S, .statement⟩ v v')
    (hnot : ∀ token second, v.token? 0 = some token → v.token? 1 = some second →
      token.kind.words ≠ [] → second.kind ≠ .punctuator .colon) :
    ρ.Related P ⟨.block :: S, .nothing⟩ v v' := by
  refine hv.relax fun piece others hahead => Scanner.agrees_statement ?_
  by_cases hwords : (v.kind piece).words = []
  · exact Or.inl hwords
  · refine Or.inr fun hnext => ?_
    cases others with
    | nil => cases hnext
    | cons next after =>
        exact hnot (v.next piece) (v.next next) (by simp [View.token?, hahead])
          (by simp [View.token?, hahead]) hwords (Option.some_inj.1 hnext)

end Renaming.Related

end CSyntax
