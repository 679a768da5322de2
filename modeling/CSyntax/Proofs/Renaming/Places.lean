import CSyntax.Proofs.Expression.Operators
import CSyntax.Proofs.Renaming.Scripts

/-!
# Places — where the rules of the grammar begin and end

At most places words are ordinary, and what is read leaves the scanner where it stood
(`Scanner.Calm`).  Member declarations are the exception: their specifiers, declarators and members
move the scanner on.  `Nonterminal.Renamed` lists the calls of rules, each with the place where it
begins and the one where it ends, and `Parser.RenamesCalls` assumes of all that they do what they
should.
-/

namespace CSyntax

namespace Scanner

variable {σ υ : Scanner} {offset : Nat} {next : Option TokenKind}

theorem expecting_nothing (h : σ.expects = .nothing) : σ.expecting .nothing = σ := by
  rw [expecting, ← h]

/-! ## Calm places -/

/-- Nothing in particular is expected, and no record lies around. -/
structure Calm (σ : Scanner) : Prop where
  expects : σ.expects = .nothing
  outside : ∀ typed named brackets, σ.brackets ≠ .record typed named :: brackets

namespace Calm

theorem list (σ : Scanner) : (σ.within .list .nothing).Calm :=
  ⟨rfl, nofun⟩

theorem header (σ : Scanner) : (σ.within .header .nothing).Calm :=
  ⟨rfl, nofun⟩

theorem nameSpace (h : σ.Calm) : σ.nameSpace offset next = .ordinary := by
  unfold Scanner.nameSpace
  rw [h.expects]
  dsimp only
  split
  · rename_i hbrackets
    exact absurd hbrackets (h.outside _ _ _)
  · rfl

theorem not_statement (h : σ.Calm) : σ.expects ≠ .statement := by
  simp [h.expects]

theorem word (h : σ.Calm) : σ.word = σ := by
  unfold Scanner.word
  rw [h.expects]
  dsimp only
  split
  · rename_i hbrackets
    exact absurd hbrackets (h.outside _ _ _)
  · exact expecting_nothing h.expects

theorem typed (h : σ.Calm) : Bracket.typed σ.brackets = σ.brackets := by
  unfold Bracket.typed
  split
  · rename_i hbrackets
    exact absurd hbrackets (h.outside _ _ _)
  · rfl

theorem comma (h : σ.Calm) : σ.mark .comma = σ := by
  change σ.comma = σ
  unfold Scanner.comma
  split
  · rename_i hbrackets
    exact absurd hbrackets (h.outside _ _ _)
  · exact expecting_nothing h.expects

end Calm

/-- What is put in parentheses, brackets or braces is read in a list. -/
theorem close_list (h : σ.expects = .nothing) {mark : Punctuator}
    (hmark : mark = .closeParen ∨ mark = .closeBracket ∨ mark = .colon ∨ mark = .closeBrace) :
    (σ.within .list .nothing).mark mark = σ := by
  rcases hmark with rfl | rfl | rfl | rfl <;> exact expecting_nothing h

/-- What an operator behind an operand makes of a calm place. -/
def operated (σ : Scanner) : InfixOperator → Scanner
  | .binary _ => σ
  | .assign none => σ.expecting .initial
  | .assign (some _) => σ
  | .conditional => σ.within .list .nothing

theorem Calm.mark_infixed (h : σ.Calm) {mark : Punctuator} {operator : InfixOperator}
    (hoperator : mark.infixOperator? = some operator) : σ.mark mark = σ.operated operator := by
  cases mark <;> first
    | cases hoperator; first | exact expecting_nothing h.expects | exact h.comma | rfl
    | cases hoperator

theorem mark_unary (h : σ.expects = .nothing) {mark : Punctuator} {operator : UnaryOperator}
    (hoperator : mark.unaryOperator? = some operator) : σ.mark mark = σ := by
  cases mark <;> first
    | cases hoperator; exact expecting_nothing h
    | cases hoperator

end Scanner

/-! ## Places that differ only before a brace -/

/-- What may be expected without a difference, unless an opening brace comes next. -/
inductive Expects.Idle : Expects → Prop
  | nothing : Idle .nothing
  | body (record : Bool) : Idle (.body record)
  | initial : Idle .initial

namespace Scanner

variable {σ υ : Scanner} {offset : Nat} {next : Option TokenKind}

theorem agrees_idle {e e' : Expects} (he : e.Idle) (he' : e'.Idle) {kind : TokenKind}
    (hkind : kind ≠ .punctuator .openBrace) :
    (σ.expecting e).Agrees (σ.expecting e') kind offset next where
  after := by
    cases kind with
    | punctuator mark => cases mark <;> cases he <;> cases he' <;> first | rfl | exact absurd rfl hkind
    | keyword word => cases word <;> rfl
    | _ => cases he <;> cases he' <;> rfl
  nameSpace _ := by cases he <;> cases he' <;> rfl
  labels := by cases he <;> cases he' <;> simp [Labels, expecting]

theorem Calm.agrees_idle (h : σ.Calm) {e : Expects} (he : e.Idle) {kind : TokenKind}
    (hkind : kind ≠ .punctuator .openBrace) : (σ.expecting e).Agrees σ kind offset next := by
  have hagree : (σ.expecting e).Agrees (σ.expecting .nothing) kind offset next :=
    Scanner.agrees_idle he .nothing hkind
  rwa [expecting_nothing h.expects] at hagree

theorem Calm.nameSpace_idle (h : σ.Calm) {e : Expects} (he : e.Idle) :
    (σ.expecting e).nameSpace offset next = .ordinary := by
  have hspace : (σ.expecting .nothing).nameSpace offset next = .ordinary := by
    rw [expecting_nothing h.expects, h.nameSpace]
  rw [← hspace]
  cases he <;> rfl

/-- Where a statement may begin, any other token than a label is read as elsewhere in the block. -/
theorem agrees_statement {S : List Bracket} {kind : TokenKind}
    (hkind : kind.words = [] ∨ next ≠ some (.punctuator .colon)) :
    Agrees ⟨.block :: S, .statement⟩ ⟨.block :: S, .nothing⟩ kind offset next where
  after := by
    cases kind with
    | punctuator mark => cases mark <;> rfl
    | keyword word => cases word <;> rfl
    | _ => rfl
  nameSpace hwords := by
    simp [nameSpace, hkind.resolve_left hwords]
  labels := by
    simp only [Labels, reduceCtorEq, false_and, true_and, iff_false, not_and]
    exact fun hwords => hkind.resolve_left hwords

/-! ## Member declarations -/

/-- Where a declaration may begin. -/
inductive Opens : Scanner → Prop
  | calm {σ : Scanner} : σ.Calm → Opens σ
  | member (S : List Bracket) : Opens ⟨.record false false :: S, .nothing⟩

/-- Behind specifiers, which have named a type or have not. -/
def typedAs (σ : Scanner) (typed : Bool) : Scanner :=
  match σ.brackets with
  | .record _ named :: brackets => { σ with brackets := .record typed named :: brackets }
  | _ => σ

theorem Calm.typedAs (h : σ.Calm) (typed : Bool) : σ.typedAs typed = σ := by
  unfold Scanner.typedAs
  split
  · rename_i hbrackets
    exact absurd hbrackets (h.outside _ _ _)
  · rfl

namespace Opens

theorem expects (h : σ.Opens) (typed : Bool) : (σ.typedAs typed).expects = .nothing := by
  cases h with
  | calm h => rw [h.typedAs, h.expects]
  | member S => rfl

theorem typedAs_false (h : σ.Opens) : σ.typedAs false = σ := by
  cases h with
  | calm h => exact h.typedAs false
  | member S => rfl

theorem nameSpace (h : σ.Opens) : (σ.typedAs false).nameSpace offset next = .ordinary := by
  cases h with
  | calm h => rw [h.typedAs, h.nameSpace]
  | member S => rfl

theorem word (h : σ.Opens) : (σ.typedAs false).word = σ.typedAs true := by
  cases h with
  | calm h => rw [h.typedAs, h.typedAs, h.word]
  | member S => rfl

theorem typed (h : σ.Opens) (typed : Bool) :
    Bracket.typed (σ.typedAs typed).brackets = (σ.typedAs true).brackets := by
  cases h with
  | calm h => rw [h.typedAs, h.typedAs, h.typed]
  | member S => rfl

theorem modifier (h : σ.Opens) (typed : Bool) {word : Keyword}
    (hword : word.isStorageClass = true ∨ word.isQualifier = true) :
    (σ.typedAs typed).keyword offset word = σ.typedAs typed := by
  have hnothing := expecting_nothing (h.expects typed)
  cases word <;> first | exact hnothing | (rcases hword with h | h <;> cases h)

theorem typeWord (h : σ.Opens) (typed : Bool) {word : Keyword} (hword : word.isTypeWord = true) :
    (σ.typedAs typed).keyword offset word = σ.typedAs true := by
  have htyped : (⟨Bracket.typed (σ.typedAs typed).brackets, .nothing⟩ : Scanner) =
      σ.typedAs true := by
    rw [h.typed, ← h.expects true]
  cases word <;> first | exact htyped | cases hword

theorem tagged (h : σ.Opens) (typed : Bool) {word : Keyword} (hword : word.isTagged = true) :
    (σ.typedAs typed).keyword offset word =
      (σ.typedAs true).expecting (.tag (word ≠ .enum)) := by
  have htyped : ∀ e : Expects, (⟨Bracket.typed (σ.typedAs typed).brackets, e⟩ : Scanner) =
      (σ.typedAs true).expecting e := by
    intro e
    rw [h.typed]
    rfl
  cases word <;> first | exact htyped _ | cases hword

end Opens

/-- A declarator may begin at the first place; its name is of the name space, and it ends at the second
place. -/
inductive Declaring : Scanner → NameSpace → Scanner → Prop
  | calm {σ : Scanner} : σ.Calm → Declaring σ .ordinary σ
  | member (S : List Bracket) :
      Declaring ⟨.record true false :: S, .nothing⟩ .member ⟨.record true true :: S, .nothing⟩

/-- Where brackets and parameter lists may follow: behind the name of a member, and at calm places. -/
inductive Settled : Scanner → Prop
  | calm {σ : Scanner} : σ.Calm → Settled σ
  | member (S : List Bracket) : Settled ⟨.record true true :: S, .nothing⟩

theorem Settled.expects (h : σ.Settled) : σ.expects = .nothing := by
  cases h with
  | calm h => exact h.expects
  | member S => rfl

theorem Calm.openParen (h : σ.Calm) : σ.mark .openParen = σ.within .list .nothing := by
  change σ.openParen = _
  unfold Scanner.openParen
  rw [h.expects]
  dsimp only
  split
  · rename_i hbrackets
    exact absurd hbrackets (h.outside _ _ _)
  · rfl

theorem Settled.openParen (h : σ.Settled) : σ.mark .openParen = σ.within .list .nothing := by
  cases h with
  | calm h => exact h.openParen
  | member S => rfl

namespace Declaring

variable {space : NameSpace}

theorem expects (h : σ.Declaring space υ) : σ.expects = .nothing := by
  cases h with
  | calm h => exact h.expects
  | member S => rfl

theorem nameSpace (h : σ.Declaring space υ) : σ.nameSpace offset next = space := by
  cases h with
  | calm h => exact h.nameSpace
  | member S => rfl

theorem word (h : σ.Declaring space υ) : σ.word = υ := by
  cases h with
  | calm h => exact h.word
  | member S => rfl

theorem settled (h : σ.Declaring space υ) : υ.Settled := by
  cases h with
  | calm h => exact .calm h
  | member S => exact .member S

theorem settled_of_ordinary (h : σ.Declaring .ordinary υ) : σ.Calm ∧ υ = σ := by
  cases h with
  | calm h => exact ⟨h, rfl⟩

/-- A declarator in parentheses. -/
theorem nested (h : σ.Declaring space υ) : ∃ τ τ', σ.mark .openParen = τ ∧
    τ.Declaring space τ' ∧ τ'.mark .closeParen = υ := by
  cases h with
  | calm h => exact ⟨_, _, h.openParen, .calm (.list σ), close_list h.expects (Or.inl rfl)⟩
  | member S => exact ⟨_, _, rfl, .member S, rfl⟩

end Declaring
end Scanner

/-! ## Calls -/

/-- Specifiers that have been read, the second with new names. -/
structure Renaming.OfSpecifiers (ρ : Renaming) (specifiers specifiers' : Specifiers) : Prop where
  base : Renamed (CType.respell ρ) CType.erase specifiers.base specifiers'.base
  storage : specifiers.storage = specifiers'.storage
  isTypedef : specifiers.isTypedef = specifiers'.isTypedef
  qualifiers : specifiers.qualifiers = specifiers'.qualifiers

/-- Declarators that have been read, the second with new names, where a declared name is of the name
space. -/
structure Renaming.OfDeclarators (ρ : Renaming) (space : NameSpace) (d d' : Declarator) : Prop where
  name : d'.name.map (·.1) = d.name.map fun n => ρ.name space n.1
  modifiers : Renamed (List.map (TypeModifier.respell ρ)) (List.map TypeModifier.erase)
    d.modifiers d'.modifiers

/-- Calls of rules with and without new names: where they begin, how their results are related, and
where they end. -/
inductive Nonterminal.Renamed (ρ : Renaming) :
    Scanner → (f f' : Nonterminal) → (f.Result → f'.Result → Prop) → (f.Result → Scanner) → Prop
  | expression {σ : Scanner} {e : Expects} (limit : Precedence) : σ.Calm → e.Idle →
      Renamed ρ (σ.expecting e) (.expression limit) (.expression limit)
        (CSyntax.Renamed (Expr.respell ρ) Expr.erase) fun _ => σ
  | infixTail {σ : Scanner} (limit : Precedence) {left left' : Expr} : σ.Calm →
      CSyntax.Renamed (Expr.respell ρ) Expr.erase left left' →
      Renamed ρ σ (.infixTail limit left) (.infixTail limit left')
        (CSyntax.Renamed (Expr.respell ρ) Expr.erase) fun _ => σ
  | postfixTail {σ : Scanner} {operand operand' : Expr} : σ.Calm →
      CSyntax.Renamed (Expr.respell ρ) Expr.erase operand operand' →
      Renamed ρ σ (.postfixTail operand) (.postfixTail operand')
        (CSyntax.Renamed (Expr.respell ρ) Expr.erase) fun _ => σ
  | «arguments» {σ : Scanner} : σ.Calm →
      Renamed ρ σ .arguments .arguments
        (CSyntax.Renamed (List.map (Expr.respell ρ)) (List.map Expr.erase)) fun _ => σ
  | adjacentStrings {σ : Scanner} : σ.Calm →
      Renamed ρ σ .adjacentStrings .adjacentStrings Eq fun _ => σ
  | typeName {σ : Scanner} : σ.Calm →
      Renamed ρ σ .typeName .typeName (CSyntax.Renamed (CType.respell ρ) CType.erase) fun _ => σ
  | specifierTail {σ : Scanner} {tally tally' : SpecifierTally} : σ.Opens →
      CSyntax.Renamed (SpecifierTally.respell ρ) SpecifierTally.erase tally tally' →
      Renamed ρ (σ.typedAs tally.hasType) (.specifierTail tally) (.specifierTail tally')
        (CSyntax.Renamed (SpecifierTally.respell ρ) SpecifierTally.erase)
        fun result => σ.typedAs result.hasType
  | members (σ : Scanner) :
      Renamed ρ (σ.within (.record false false) .nothing) .members .members
        (CSyntax.Renamed (List.map (Member.respell ρ)) (List.map Member.erase))
        fun _ => σ.within (.record false false) .nothing
  | memberDeclarators (σ : Scanner) {specifiers specifiers' : Specifiers} :
      ρ.OfSpecifiers specifiers specifiers' →
      Renamed ρ (σ.within (.record true false) .nothing) (.memberDeclarators specifiers)
        (.memberDeclarators specifiers')
        (CSyntax.Renamed (List.map (Member.respell ρ)) (List.map Member.erase))
        fun _ => σ.within (.record true true) .nothing
  | enumerators {σ : Scanner} : σ.Calm →
      Renamed ρ σ .enumerators .enumerators
        (CSyntax.Renamed (List.map (Enumerator.respell ρ)) (List.map Enumerator.erase)) fun _ => σ
  | pointerTail {σ υ : Scanner} {space : NameSpace} : σ.Declaring space υ →
      Renamed ρ σ .pointerTail .pointerTail Eq fun _ => σ
  | declarator {σ υ : Scanner} {space : NameSpace} {mode : DeclaratorMode} :
      σ.Declaring space υ → space = .ordinary ∨ mode = .named →
      Renamed ρ σ (.declarator mode) (.declarator mode) (ρ.OfDeclarators space) fun _ => υ
  | suffixes {σ : Scanner} : σ.Settled →
      Renamed ρ σ .suffixes .suffixes
        (CSyntax.Renamed (List.map (TypeModifier.respell ρ)) (List.map TypeModifier.erase)) fun _ => σ
  | parameters {σ : Scanner} : σ.Calm →
      Renamed ρ σ .parameters .parameters
        (CSyntax.Renamed (Prod.map (List.map (Parameter.respell ρ)) id)
          (Prod.map (List.map Parameter.erase) id)) fun _ => σ
  | initializerItems (σ : Scanner) :
      Renamed ρ (σ.within .list .nothing) .initializerItems .initializerItems
        (CSyntax.Renamed (List.map (Expr.respell ρ)) (List.map Expr.erase))
        fun _ => σ.within .list .nothing
  | initDeclarators {σ : Scanner} {specifiers specifiers' : Specifiers} : σ.Calm →
      ρ.OfSpecifiers specifiers specifiers' →
      Renamed ρ σ (.initDeclarators specifiers) (.initDeclarators specifiers')
        (CSyntax.Renamed (List.map (Declaration.respell ρ)) (List.map Declaration.erase)) fun _ => σ
  | statement (S : List Bracket) :
      Renamed ρ ⟨.block :: S, .statement⟩ .statement .statement
        (CSyntax.Renamed (Statement.respell ρ) Statement.erase) fun _ => ⟨.block :: S, .statement⟩
  | blockItems (S : List Bracket) :
      Renamed ρ ⟨.block :: S, .statement⟩ .blockItems .blockItems
        (CSyntax.Renamed (List.map (Statement.respell ρ)) (List.map Statement.erase))
        fun _ => ⟨.block :: S, .statement⟩
  | externalDeclarations :
      Renamed ρ .start .externalDeclarations .externalDeclarations
        (CSyntax.Renamed (List.map (ExternalDeclaration.respell ρ))
          (List.map ExternalDeclaration.erase)) fun _ => .start

/-- The rules that are called do with new names what they do without, with calls nested to the
depth. -/
def Parser.RenamesCalls (ρ : Renaming) (P : Nat → Prop) (depth : Nat) : Prop :=
  ∀ {σ : Scanner} {f f' : Nonterminal} {E : f.Result → f'.Result → Prop} {τ : f.Result → Scanner},
    Nonterminal.Renamed ρ σ f f' E τ → Script.Renames ρ P depth σ (.rule f) (.rule f') E τ

end CSyntax
