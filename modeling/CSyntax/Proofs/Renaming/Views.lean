import CSyntax.Proofs.Renaming.Trees
import CSyntax.Proofs.Run.Inversion
import CSyntax.Proofs.Run.Observance
import CSyntax.Proofs.Scope.Mapping

/-!
# Views — a view and the same one with new names

The lexemes ahead of the second view are those ahead of the first with labels, tags and members
renamed, and its table stands for the same words with the types that the new names give
(`Renaming.Related`).  The scanner says where in the text the views stand.

The next tokens are then of the same kind, unless the word is renamed (`Renaming.Twins`): a word that
is renamed may become a type name or cease to be one.
-/

namespace CSyntax

/-! ## Kinds of words -/

/-- The kind with type names as identifiers. -/
def TokenKind.untyped : TokenKind → TokenKind
  | .typeName name => .identifier name
  | kind => kind

namespace TokenKind

@[simp] theorem words_untyped (kind : TokenKind) : kind.untyped.words = kind.words := by
  cases kind <;> rfl

@[simp] theorem untyped_eq_punctuator {kind : TokenKind} {mark : Punctuator} :
    kind.untyped = .punctuator mark ↔ kind = .punctuator mark := by
  cases kind <;> simp [untyped]

end TokenKind

/-- The lexeme as a token where nothing is declared. -/
def Piece.bare (piece : Piece) : Token :=
  { kind := SymbolTable.empty.classify piece.lexeme, position := piece.position }

namespace View

variable {v : View}

theorem untyped_kind (h : v.table.KeywordFree) (piece : Piece) :
    (v.kind piece).untyped = piece.bare.kind := by
  have hrefresh := SymbolTable.refresh_classify h SymbolTable.keywordFree_empty piece.lexeme
  change _ = SymbolTable.empty.classify piece.lexeme
  rw [← hrefresh]
  change (v.kind piece).untyped = Cursor.reclassify.refresh .empty (v.kind piece)
  cases v.kind piece <;> rfl

theorem map_untyped (h : v.table.KeywordFree) (next : Option Piece) :
    (next.map v.kind).map TokenKind.untyped = next.map (·.bare.kind) := by
  cases next with
  | none => rfl
  | some piece => exact congrArg some (untyped_kind h piece)

theorem token?_facing {piece : Piece} {others : List Piece} (h : v.ahead = piece :: others) :
    (v.facing others).token? 0 = v.token? 1 := by
  simp [token?, facing, h, next, kind]

/-- A kind is told by the lexeme and by which words are type names. -/
theorem refresh_untyped (h : v.table.KeywordFree) (piece : Piece) :
    Cursor.reclassify.refresh v.table (v.kind piece).untyped = v.kind piece := by
  have hrefresh : Cursor.reclassify.refresh v.table (v.kind piece) = v.kind piece :=
    SymbolTable.refresh_classify h h piece.lexeme
  have hsame : ∀ kind : TokenKind, Cursor.reclassify.refresh v.table kind.untyped =
      Cursor.reclassify.refresh v.table kind := by
    intro kind
    cases kind <;> rfl
  rw [hsame, hrefresh]

end View

namespace Scanner

variable (σ : Scanner) (kind : TokenKind) (offset : Nat) (next : Option TokenKind)

@[simp] theorem after_untyped : σ.after kind.untyped offset = σ.after kind offset := by
  cases kind <;> rfl

theorem nameSpace_untyped :
    σ.nameSpace offset (next.map TokenKind.untyped) = σ.nameSpace offset next := by
  have hcolon : next.map TokenKind.untyped = some (.punctuator .colon) ↔
      next = some (.punctuator .colon) := by
    cases next <;> simp
  simp only [nameSpace, hcolon]

theorem labels_untyped :
    σ.Labels kind.untyped (next.map TokenKind.untyped) ↔ σ.Labels kind next := by
  cases next <;> simp [Labels]

/-- Standing here or there makes no difference to the next token. -/
structure Agrees (σ τ : Scanner) (kind : TokenKind) (offset : Nat) (next : Option TokenKind) :
    Prop where
  after : σ.after kind offset = τ.after kind offset
  nameSpace : kind.words ≠ [] → σ.nameSpace offset next = τ.nameSpace offset next
  labels : σ.Labels kind next ↔ τ.Labels kind next

theorem Agrees.untyped {σ τ : Scanner} {kind : TokenKind} {offset : Nat} {next : Option TokenKind}
    (h : σ.Agrees τ kind offset next) :
    σ.Agrees τ kind.untyped offset (next.map TokenKind.untyped) where
  after := by simpa using h.after
  nameSpace hwords := by simpa [nameSpace_untyped] using h.nameSpace (by simpa using hwords)
  labels := by simpa [labels_untyped] using h.labels

end Scanner

/-! ## Lexemes with new names -/

namespace Renaming

variable {ρ : Renaming} {P : Nat → Prop} {σ τ : Scanner} {v v' : View}

@[simp] theorem words_kind (space : NameSpace) (kind : TokenKind) :
    (ρ.kind space kind).words = kind.words.map (ρ.name space) := by
  cases kind <;> rfl

theorem kind_of_words {space : NameSpace} {kind : TokenKind} (h : kind.words = []) :
    ρ.kind space kind = kind := by
  cases kind <;> first | rfl | cases h

@[simp] theorem kind_ordinary (kind : TokenKind) : ρ.kind .ordinary kind = kind := by
  cases kind <;> rfl

/-- The second lexemes are the first with the new names.  The labels of statements among them are
those whose offsets are as `P` says. -/
inductive Follows (ρ : Renaming) (P : Nat → Prop) : Scanner → List Piece → List Piece → Prop
  | nil {σ : Scanner} : Follows ρ P σ [] []
  | cons {σ : Scanner} {piece piece' : Piece} {others others' : List Piece} :
      piece'.bare.kind = ρ.kind (σ.nameSpace piece.position.offset
        (others.head?.map (·.bare.kind))) piece.bare.kind →
      (P piece.position.offset ↔ σ.Labels piece.bare.kind (others.head?.map (·.bare.kind))) →
      Follows ρ P (σ.after piece.bare.kind piece.position.offset) others others' →
      Follows ρ P σ (piece :: others) (piece' :: others')

/-- The second view is the first with the new names, where the scanner stands. -/
structure Related (ρ : Renaming) (P : Nat → Prop) (σ : Scanner) (v v' : View) : Prop where
  ahead : ρ.Follows P σ v.ahead v'.ahead
  ending : ∃ p, v.ending = .ok p
  ending' : ∃ p, v'.ending = .ok p
  table : v.table.mapTypes (fun type => (type.respell ρ).erase) = v'.table.mapTypes CType.erase
  regular : v.Regular
  regular' : v'.Regular

/-- Tokens that come next in such views: the second is the first, with the new name if it is a word. -/
structure Twins (ρ : Renaming) (space : NameSpace) (token token' : Token) : Prop where
  words : token'.kind.words = token.kind.words.map (ρ.name space)
  kind : space = .ordinary ∨ token.kind.words = [] → token'.kind = token.kind

namespace Twins

variable {space : NameSpace} {token token' : Token}

/-- Tokens that are no words are told apart alike. -/
theorem kind_iff (h : ρ.Twins space token token') {kind : TokenKind} (hkind : kind.words = []) :
    token'.kind = kind ↔ token.kind = kind := by
  constructor
  · intro heq
    have hnone : token.kind.words = [] := by
      have hwords := h.words
      rw [heq, hkind] at hwords
      exact List.map_eq_nil_iff.1 hwords.symm
    rw [← h.kind (Or.inr hnone), heq]
  · intro heq
    rw [h.kind (Or.inr (heq ▸ hkind)), heq]

/-- Both are words, or the tokens are of the same kind. -/
theorem cases (h : ρ.Twins space token token') :
    token.kind.words = [] ∧ token'.kind = token.kind ∨
      ∃ name, token.kind.words = [name] ∧ token'.kind.words = [ρ.name space name] := by
  cases hkind : token.kind with
  | identifier name | typeName name => exact Or.inr ⟨name, rfl, by rw [h.words, hkind]; rfl⟩
  | _ => exact Or.inl ⟨rfl, by rw [h.kind (Or.inr (by rw [hkind]; rfl)), hkind]⟩

end Twins

/-- No label that comes next gets a name that is a type name there. -/
def Clear (ρ : Renaming) (P : Nat → Prop) (v : View) : Prop :=
  ∀ piece ∈ v.ahead.head?, P piece.position.offset → ∀ name, piece.lexeme = .word name →
    v.table.isTypeName (ρ.label piece.position.offset name) = false

namespace Related

theorem isTypeName (h : ρ.Related P σ v v') (name : String) :
    v'.table.isTypeName name = v.table.isTypeName name := by
  rw [← SymbolTable.isTypeName_mapTypes CType.erase v'.table, ← h.table,
    SymbolTable.isTypeName_mapTypes]

theorem twins_of_kind {space : NameSpace} {piece piece' : Piece} (h : ρ.Related P σ v v')
    (hkind : (v'.kind piece').untyped = ρ.kind space (v.kind piece).untyped) :
    ρ.Twins space (v.next piece) (v'.next piece') := by
  have hwords : (v'.kind piece').words = (v.kind piece).words.map (ρ.name space) := by
    rw [← TokenKind.words_untyped, hkind, words_kind, TokenKind.words_untyped]
  refine ⟨hwords, fun hspace => ?_⟩
  have hsame : (v'.kind piece').untyped = (v.kind piece).untyped := by
    rcases hspace with rfl | hnone
    · rw [hkind, kind_ordinary]
    · rw [hkind, kind_of_words (by simpa using hnone)]
  have htables : ∀ kind, Cursor.reclassify.refresh v'.table kind =
      Cursor.reclassify.refresh v.table kind := by
    intro kind
    cases kind <;> simp only [Cursor.reclassify.refresh, h.isTypeName]
  -- Of a word that keeps its name, both tables say the same.
  calc v'.kind piece'
      = Cursor.reclassify.refresh v'.table (v'.kind piece').untyped :=
        (View.refresh_untyped h.regular'.keywordFree piece').symm
    _ = Cursor.reclassify.refresh v.table (v.kind piece).untyped := by rw [hsame, htables]
    _ = v.kind piece := View.refresh_untyped h.regular.keywordFree piece

/-- What is known of the views where a lexeme comes next. -/
theorem cons {piece : Piece} {others : List Piece} (h : ρ.Related P σ v v')
    (hahead : v.ahead = piece :: others) :
    ∃ piece' others', v'.ahead = piece' :: others' ∧
      ρ.Twins (σ.nameSpace piece.position.offset (others.head?.map v.kind)) (v.next piece)
        (v'.next piece') ∧
      (P piece.position.offset ↔ σ.Labels (v.kind piece) (others.head?.map v.kind)) ∧
      ρ.Related P (σ.after (v.kind piece) piece.position.offset) (v.facing others)
        (v'.facing others') := by
  have hfollows := h.ahead
  rw [hahead] at hfollows
  generalize hahead' : v'.ahead = ahead' at hfollows
  have hnext := View.map_untyped h.regular.keywordFree others.head?
  cases hfollows with
  | cons hkind hlabel hothers =>
      rename_i piece' others'
      rw [← hnext, ← View.untyped_kind h.regular.keywordFree] at hlabel
      rw [← hnext, Scanner.nameSpace_untyped, ← View.untyped_kind h.regular.keywordFree piece,
        ← View.untyped_kind h.regular'.keywordFree] at hkind
      rw [← View.untyped_kind h.regular.keywordFree, Scanner.after_untyped] at hothers
      refine ⟨piece', others', rfl, h.twins_of_kind hkind, ?_, hothers, h.ending, h.ending',
        h.table, ⟨h.regular.unmarked, h.regular.keywordFree⟩,
        ⟨h.regular'.unmarked, h.regular'.keywordFree⟩⟩
      rwa [Scanner.labels_untyped] at hlabel

theorem nil (h : ρ.Related P σ v v') (hahead : v.ahead = []) : v'.ahead = [] := by
  have hfollows := h.ahead
  rw [hahead] at hfollows
  cases hahead' : v'.ahead with
  | nil => rfl
  | cons piece others =>
      rw [hahead'] at hfollows
      cases hfollows

/-- The scanner may stand elsewhere if that makes no difference to the lexeme that comes next. -/
theorem relax (h : ρ.Related P σ v v')
    (hagree : ∀ piece others, v.ahead = piece :: others →
      σ.Agrees τ (v.kind piece) piece.position.offset (others.head?.map v.kind)) :
    ρ.Related P τ v v' := by
  refine { h with ahead := ?_ }
  have hfollows := h.ahead
  cases hahead : v.ahead with
  | nil =>
      rw [h.nil hahead]
      exact .nil
  | cons piece others =>
      have hbare := (hagree piece others hahead).untyped
      rw [View.map_untyped h.regular.keywordFree, View.untyped_kind h.regular.keywordFree] at hbare
      rw [hahead] at hfollows
      generalize v'.ahead = ahead' at hfollows
      cases hfollows with
      | cons hkind hlabel hothers =>
          rw [hbare.after] at hothers
          refine .cons ?_ (hlabel.trans hbare.labels) hothers
          -- Only a word can get another name where the scanner stands elsewhere.
          by_cases hwords : piece.bare.kind.words = []
          · rw [hkind, kind_of_words hwords, kind_of_words hwords]
          · rw [hkind, hbare.nameSpace hwords]

end Related
end Renaming
end CSyntax
