import CSyntax.Proofs.Declarator.Notation
import CSyntax.Proofs.Run.Reads
import CSyntax.Proofs.Tree.Erasure

/-!
# Notation — how statements are written

A statement is written as its tree says, keyword by keyword and mark by mark.  This file states the
notation for all trees, those included that cannot be read back because an `else` or a declaration
stands in the wrong place:

* `Expr.Spelled`, `Declaration.Spelled` — the expressions and declarators in a statement are written
  by any lexemes that are read back on their own;
* `DeclarationGroup.Written`, `ForStart.Written` — declarations over an arithmetic type;
* `Passage.Written` — statements and lists of them.

Names mean what has been declared for them up to where they stand, so a writing leads from the table
in force before it to the one in force behind it.  Behind a block and behind a loop that is the table
before it.
-/

namespace CSyntax

/-- A reserved word as a lexeme. -/
def Lexeme.keyword (word : Keyword) : Lexeme :=
  .word word.spelling

/-! ## What is read back -/

/-- A full expression before one of the marks. -/
def Expr.Spelled (value : Expr) (marks : List Punctuator) (T : SymbolTable) (pieces : List Piece)
    (U : SymbolTable) : Prop :=
  (Grammar.expression .comma).Spells marks T pieces (Alike Expr.erase value) U

/-! ## Declarations -/

/-- Storage classes and qualifiers that may stand together in front of a type. -/
structure ModifierWords (words : List Keyword) : Prop where
  modifiers : ∀ word ∈ words,
    word.isQualifier = true ∨ word.isStorageClass = true ∧ word ≠ .typedef
  single : (words.filter Keyword.isStorageClass).length ≤ 1

/-- What the specifiers of a declaration say, written as storage classes and qualifiers in front of
the words of an arithmetic type. -/
structure Specified (specifiers : Specifiers) (pieces : List Piece) (front words : List Keyword) :
    Prop where
  spelled : pieces.map (·.lexeme) = (front ++ words).map Lexeme.keyword
  modifiers : ModifierWords front
  arithmetic : words ∈ ArithmeticType.canonicalWords
  base : specifiers.base = .named (ArithmeticType.spell words)
  storage : specifiers.storage = (front.foldl SpecifierTally.addModifier .empty).storage
  isTypedef : specifiers.isTypedef = false
  qualifiers : specifiers.qualifiers = (front.foldl SpecifierTally.addModifier .empty).qualifiers

/-- What a declaration has from its specifiers. -/
structure Declaration.Under (specifiers : Specifiers) (d : Declaration) : Prop where
  storage : d.storage = specifiers.storage
  isTypedef : d.isTypedef = specifiers.isTypedef
  qualifiers : d.qualifiers = specifiers.qualifiers

/-- The declarator declares the name with the type. -/
structure Declarator.Declares (d : Declarator) (base : CType) (name : String) (type : CType) :
    Prop where
  name : d.name.map (·.1) = some name
  type : (d.type base).erase = type.erase

/-- The declarator of a declaration before one of the marks. -/
def Declaration.Spelled (specifiers : Specifiers) (d : Declaration) (marks : List Punctuator)
    (T : SymbolTable) (pieces : List Piece) (U : SymbolTable) : Prop :=
  (Grammar.declarator .named).Spells marks T pieces
    (fun declarator => declarator.Declares specifiers.base d.name d.type) U

/-- An initial value, before the next declarator or the semicolon. -/
def Expr.SpelledInitial (value : Expr) (T : SymbolTable) (pieces : List Piece) (U : SymbolTable) :
    Prop :=
  Grammar.initialValue.Spells [.comma, .semicolon] T pieces (Alike Expr.erase value) U

/-- A name is declared behind its declarator and in front of its initial value. -/
inductive Declaration.Written (specifiers : Specifiers) :
    SymbolTable → Declaration → List Piece → SymbolTable → Prop
  | bare {T U : SymbolTable} {d : Declaration} {pieces : List Piece} :
      d.Under specifiers → d.Spelled specifiers [.comma, .semicolon] T pieces U → d.initial = none →
      Written specifiers T d pieces (U.declare d.name .ordinary)
  | initialized {T U V : SymbolTable} {d : Declaration} {value : Expr} {equals : Piece}
      {pieces others : List Piece} :
      d.Under specifiers → d.Spelled specifiers [.assign] T pieces U → d.initial = some value →
      equals.lexeme = .punctuator .assign →
      value.SpelledInitial (U.declare d.name .ordinary) others V →
      Written specifiers T d (pieces ++ equals :: others) V

/-- One or more declarations with commas between them. -/
inductive Declaration.WrittenList (specifiers : Specifiers) :
    SymbolTable → List Declaration → List Piece → SymbolTable → Prop
  | last {T U : SymbolTable} {d : Declaration} {pieces : List Piece} :
      d.Written specifiers T pieces U → WrittenList specifiers T [d] pieces U
  | more {T U V : SymbolTable} {d : Declaration} {list : List Declaration} {comma : Piece}
      {pieces others : List Piece} :
      d.Written specifiers T pieces U → comma.lexeme = .punctuator .comma →
      WrittenList specifiers U list others V →
      WrittenList specifiers T (d :: list) (pieces ++ comma :: others) V

/-- A group of declarations with its semicolon. -/
inductive DeclarationGroup.Written :
    SymbolTable → DeclarationGroup → List Piece → SymbolTable → Prop
  | bare {T : SymbolTable} {specifiers : Specifiers} {front words : List Keyword}
      {position : Position} {semicolon : Piece} {pieces : List Piece} :
      Specified specifiers pieces front words → semicolon.lexeme = .punctuator .semicolon →
      Written T { base := specifiers.base, declarations := [], position := position }
        (pieces ++ [semicolon]) T
  | declares {T U : SymbolTable} {specifiers : Specifiers} {front words : List Keyword}
      {position : Position} {list : List Declaration} {semicolon : Piece}
      {pieces others : List Piece} :
      Specified specifiers pieces front words →
      Declaration.WrittenList specifiers T list others U →
      semicolon.lexeme = .punctuator .semicolon →
      Written T { base := specifiers.base, declarations := list, position := position }
        (pieces ++ others ++ [semicolon]) U

/-! ## Statements -/

/-- An expression that may be left out, before the mark. -/
inductive Expr.WrittenOption (mark : Punctuator) :
    SymbolTable → Option Expr → List Piece → SymbolTable → Prop
  | none {T : SymbolTable} : WrittenOption mark T none [] T
  | some {T U : SymbolTable} {value : Expr} {pieces : List Piece} :
      value.Spelled [mark] T pieces U → WrittenOption mark T (some value) pieces U

/-- What a loop begins with, through the first semicolon. -/
inductive ForStart.Written : SymbolTable → Option ForStart → List Piece → SymbolTable → Prop
  | none {T : SymbolTable} {semicolon : Piece} :
      semicolon.lexeme = .punctuator .semicolon → Written T none [semicolon] T
  | declaration {T U : SymbolTable} {group : DeclarationGroup} {pieces : List Piece} :
      group.Written T pieces U → Written T (some (.declaration group)) pieces U
  | expression {T U : SymbolTable} {value : Expr} {semicolon : Piece} {pieces : List Piece} :
      value.Spelled [.semicolon] T pieces U → semicolon.lexeme = .punctuator .semicolon →
      Written T (some (.expression value)) (pieces ++ [semicolon]) U

/-- What is written: a statement, or the items of a block. -/
inductive Passage
  | statement (s : Statement)
  | items (list : List Statement)

/-- `Written T passage pieces U`: where `T` is in force, the lexemes are a way to write it, and `U` is
in force behind them. -/
inductive Passage.Written : SymbolTable → Passage → List Piece → SymbolTable → Prop
  | block {T U : SymbolTable} {position : Position} {items : List Statement}
      {opening closing : Piece} {pieces : List Piece} :
      opening.lexeme = .punctuator .openBrace → Written (T.enter .block) (.items items) pieces U →
      closing.lexeme = .punctuator .closeBrace →
      Written T (.statement (.block position items)) (opening :: pieces ++ [closing]) T
  | declaration {T U : SymbolTable} {position : Position} {group : DeclarationGroup}
      {pieces : List Piece} :
      group.Written T pieces U → Written T (.statement (.declaration position group)) pieces U
  | expression {T U : SymbolTable} {position : Position} {value : Expr} {semicolon : Piece}
      {pieces : List Piece} :
      value.Spelled [.semicolon] T pieces U → semicolon.lexeme = .punctuator .semicolon →
      Written T (.statement (.expression position value)) (pieces ++ [semicolon]) U
  | ifOnly {T U V : SymbolTable} {position : Position} {condition : Expr} {whenTrue : Statement}
      {word opening closing : Piece} {test body : List Piece} :
      word.lexeme = .keyword .if → opening.lexeme = .punctuator .openParen →
      condition.Spelled [.closeParen] T test U → closing.lexeme = .punctuator .closeParen →
      Written U (.statement whenTrue) body V →
      Written T (.statement (.if position condition whenTrue none))
        (word :: opening :: test ++ closing :: body) V
  | ifElse {T U V W : SymbolTable} {position : Position} {condition : Expr}
      {whenTrue whenFalse : Statement} {word opening closing other : Piece}
      {test body rest : List Piece} :
      word.lexeme = .keyword .if → opening.lexeme = .punctuator .openParen →
      condition.Spelled [.closeParen] T test U → closing.lexeme = .punctuator .closeParen →
      Written U (.statement whenTrue) body V → other.lexeme = .keyword .else →
      Written V (.statement whenFalse) rest W →
      Written T (.statement (.if position condition whenTrue (some whenFalse)))
        (word :: opening :: test ++ closing :: body ++ other :: rest) W
  | while {T U V : SymbolTable} {position : Position} {condition : Expr} {body : Statement}
      {word opening closing : Piece} {test pieces : List Piece} :
      word.lexeme = .keyword .while → opening.lexeme = .punctuator .openParen →
      condition.Spelled [.closeParen] T test U → closing.lexeme = .punctuator .closeParen →
      Written U (.statement body) pieces V →
      Written T (.statement (.while position condition body))
        (word :: opening :: test ++ closing :: pieces) V
  | doWhile {T U V : SymbolTable} {position : Position} {condition : Expr} {body : Statement}
      {word again opening closing semicolon : Piece} {test pieces : List Piece} :
      word.lexeme = .keyword .do → Written T (.statement body) pieces U →
      again.lexeme = .keyword .while → opening.lexeme = .punctuator .openParen →
      condition.Spelled [.closeParen] U test V → closing.lexeme = .punctuator .closeParen →
      semicolon.lexeme = .punctuator .semicolon →
      Written T (.statement (.doWhile position body condition))
        (word :: pieces ++ again :: opening :: test ++ [closing, semicolon]) V
  | for {T U V W X : SymbolTable} {position : Position} {start : Option ForStart}
      {condition step : Option Expr} {body : Statement} {word opening semicolon closing : Piece}
      {first test last pieces : List Piece} :
      word.lexeme = .keyword .for → opening.lexeme = .punctuator .openParen →
      ForStart.Written (T.enter .block) start first U →
      Expr.WrittenOption .semicolon U condition test V →
      semicolon.lexeme = .punctuator .semicolon → Expr.WrittenOption .closeParen V step last W →
      closing.lexeme = .punctuator .closeParen → Written W (.statement body) pieces X →
      Written T (.statement (.for position start condition step body))
        (word :: opening :: first ++ test ++ semicolon :: last ++ closing :: pieces) T
  | switch {T U V : SymbolTable} {position : Position} {subject : Expr} {body : Statement}
      {word opening closing : Piece} {test pieces : List Piece} :
      word.lexeme = .keyword .switch → opening.lexeme = .punctuator .openParen →
      subject.Spelled [.closeParen] T test U → closing.lexeme = .punctuator .closeParen →
      Written U (.statement body) pieces V →
      Written T (.statement (.switch position subject body))
        (word :: opening :: test ++ closing :: pieces) V
  | case {T U V : SymbolTable} {position : Position} {value : Expr} {body : Statement}
      {word colon : Piece} {test pieces : List Piece} :
      word.lexeme = .keyword .case →
      (Grammar.expression .conditional).Spells [.colon] T test (Alike Expr.erase value) U →
      colon.lexeme = .punctuator .colon → Written U (.statement body) pieces V →
      Written T (.statement (.case position value body)) (word :: test ++ colon :: pieces) V
  | default {T U : SymbolTable} {position : Position} {body : Statement} {word colon : Piece}
      {pieces : List Piece} :
      word.lexeme = .keyword .default → colon.lexeme = .punctuator .colon →
      Written T (.statement body) pieces U →
      Written T (.statement (.default position body)) (word :: colon :: pieces) U
  | label {T U : SymbolTable} {position : Position} {name : String} {body : Statement}
      {word colon : Piece} {pieces : List Piece} :
      word.lexeme = .word name → T.classify (.word name) = .identifier name →
      colon.lexeme = .punctuator .colon → Written T (.statement body) pieces U →
      Written T (.statement (.label position name body)) (word :: colon :: pieces) U
  | goto {T : SymbolTable} {position : Position} {name : String} {word target semicolon : Piece} :
      word.lexeme = .keyword .goto → target.lexeme = .word name → Unreserved name →
      semicolon.lexeme = .punctuator .semicolon →
      Written T (.statement (.goto position name)) [word, target, semicolon] T
  | break {T : SymbolTable} {position : Position} {word semicolon : Piece} :
      word.lexeme = .keyword .break → semicolon.lexeme = .punctuator .semicolon →
      Written T (.statement (.break position)) [word, semicolon] T
  | continue {T : SymbolTable} {position : Position} {word semicolon : Piece} :
      word.lexeme = .keyword .continue → semicolon.lexeme = .punctuator .semicolon →
      Written T (.statement (.continue position)) [word, semicolon] T
  | return {T U : SymbolTable} {position : Position} {value : Option Expr} {word semicolon : Piece}
      {pieces : List Piece} :
      word.lexeme = .keyword .return → Expr.WrittenOption .semicolon T value pieces U →
      semicolon.lexeme = .punctuator .semicolon →
      Written T (.statement (.return position value)) (word :: pieces ++ [semicolon]) U
  | empty {T : SymbolTable} {position : Position} {semicolon : Piece} :
      semicolon.lexeme = .punctuator .semicolon →
      Written T (.statement (.empty position)) [semicolon] T
  | nil {T : SymbolTable} : Written T (.items []) [] T
  | cons {T U V : SymbolTable} {item : Statement} {items : List Statement}
      {pieces others : List Piece} :
      Written T (.statement item) pieces U → Written U (.items items) others V →
      Written T (.items (item :: items)) (pieces ++ others) V

end CSyntax
