import CSyntax.Proofs.Scope.Walk
import CSyntax.Proofs.Run.View

/-!
# Notation — how a type is written around a name

A declaration writes a type inside out: what stands next to the name applies first, and what stands
to its right before what stands to its left.  This file states the notation without a parser:

* `Based` — how the type at the heart of a declaration is written;
* `Written` — how declarators, type names and parameter lists are.

A declarator stands between two types: around the name it makes the whole of what is left to name,
the rest.  It grows outwards, and the rest gets smaller until only the base is left.
-/

namespace CSyntax

/-! ## Base types -/

namespace ArithmeticType

/-- The keywords of each arithmetic type in their canonical order. -/
def canonicalWords : List (List Keyword) :=
  [[.void], [.char], [.signed, .char], [.unsigned, .char], [.short], [.unsigned, .short], [.int],
    [.unsigned, .int], [.long], [.unsigned, .long], [.long, .long], [.unsigned, .long, .long],
    [.float], [.double], [.long, .double]]

def spell (words : List Keyword) : String :=
  " ".intercalate (words.map (·.spelling))

theorem mem_spellings_iff {name : String} :
    name ∈ spellings ↔ ∃ words ∈ canonicalWords, spell words = name := by
  have hmap : spellings.Perm (canonicalWords.map spell) := by decide
  rw [hmap.mem_iff, List.mem_map]

/-- However many of the words have been read, they name a type. -/
theorem canonical?_of_prefix {words front : List Keyword} (h : words ∈ canonicalWords)
    (hfront : front <+: words) (hne : front ≠ []) : (canonical? front).isSome = true := by
  have hall : ∀ words ∈ canonicalWords, ∀ n, n ≤ words.length → words.take n ≠ [] →
      (canonical? (words.take n)).isSome = true := by decide
  have htake := List.prefix_iff_eq_take.1 hfront
  rw [htake] at hne ⊢
  exact hall words h front.length hfront.length_le hne

theorem canonical?_of_mem {words : List Keyword} (h : words ∈ canonicalWords) :
    canonical? words = some (spell words) := by
  have hall : ∀ words ∈ canonicalWords, canonical? words = some (spell words) := by decide
  exact hall words h

theorem isTypeWord_of_mem {words : List Keyword} {word : Keyword} (h : words ∈ canonicalWords)
    (hword : word ∈ words) : word.isTypeWord = true := by
  have hall : ∀ words ∈ canonicalWords, ∀ word ∈ words, word.isTypeWord = true := by decide
  exact hall words h word hword

end ArithmeticType

/-- The word that a record begins with. -/
def RecordKind.word : RecordKind → Keyword
  | .struct => .struct
  | .union => .union

/-- The lexemes write a type that no declarator makes: an arithmetic type in its canonical spelling,
a declared type name, or a record or enumeration by its tag. -/
inductive Based (kind : Piece → TokenKind) : CType → List Piece → Prop
  | arithmetic {words : List Keyword} {pieces : List Piece} :
      words ∈ ArithmeticType.canonicalWords → pieces.map kind = words.map .keyword →
      Based kind (.named (ArithmeticType.spell words)) pieces
  | declared {name : String} {piece : Piece} :
      kind piece = .typeName name → Based kind (.named name) [piece]
  | record {record : RecordKind} {tag : String} {word piece : Piece} :
      kind word = .keyword record.word → (kind piece = .identifier tag ∨ kind piece = .typeName tag) →
      Based kind (.record record (some tag) none) [word, piece]
  | enumeration {tag : String} {word piece : Piece} :
      kind word = .keyword .enum → (kind piece = .identifier tag ∨ kind piece = .typeName tag) →
      Based kind (.enumeration (some tag) none) [word, piece]

/-! ## Declarators -/

/-- What is written. -/
inductive Writing
  /-- A declarator without pointers to its left. -/
  | core (name : Option (String × Position)) (whole rest : CType)
  | declarator (name : Option (String × Position)) (whole rest : CType)
  /-- A type without a name. -/
  | typeName (type : CType)
  /-- One or more parameters, or the ellipsis. -/
  | list (types : List CType) (variadic : Bool)
  /-- What stands between the parentheses of a function. -/
  | parameters (types : List CType) (variadic : Bool)

/-- `Written kind writing pieces`: the lexemes, of these kinds, are a way to write it.  Parentheses
are needed where a pointer comes before a suffix, and allowed around any declarator with a name. -/
inductive Written (kind : Piece → TokenKind) : Writing → List Piece → Prop
  | name {whole : CType} {name : String} {piece : Piece} :
      (kind piece = .identifier name ∨ kind piece = .typeName name) →
      Written kind (.core (some (name, piece.position)) whole whole) [piece]
  | nameless {whole : CType} :
      Written kind (.core none whole whole) []
  | openArray {name : Option (String × Position)} {whole rest : CType} {opening closing : Piece}
      {inner : List Piece} :
      Written kind (.core name whole (.array rest none)) inner →
      kind opening = .punctuator .openBracket → kind closing = .punctuator .closeBracket →
      Written kind (.core name whole rest) (inner ++ [opening, closing])
  | array {name : Option (String × Position)} {whole rest : CType} {value : UInt64}
      {opening size closing : Piece} {inner : List Piece} :
      Written kind (.core name whole (.array rest (some (.integer size.position value)))) inner →
      kind opening = .punctuator .openBracket → kind size = .integer value →
      kind closing = .punctuator .closeBracket →
      Written kind (.core name whole rest) (inner ++ [opening, size, closing])
  | function {name : Option (String × Position)} {whole rest : CType} {types : List CType}
      {variadic : Bool} {opening closing : Piece} {inner between : List Piece} :
      Written kind (.core name whole (.function rest types variadic)) inner →
      kind opening = .punctuator .openParen → Written kind (.parameters types variadic) between →
      kind closing = .punctuator .closeParen →
      Written kind (.core name whole rest) (inner ++ opening :: between ++ [closing])
  | bound {name : Option (String × Position)} {whole rest : CType} {opening star closing : Piece}
      {inner : List Piece} :
      kind opening = .punctuator .openParen → kind star = .punctuator .asterisk →
      Written kind (.declarator name whole (.pointer rest)) inner →
      kind closing = .punctuator .closeParen →
      Written kind (.core name whole rest) (opening :: star :: inner ++ [closing])
  | redundant {name : String × Position} {whole rest : CType} {opening closing : Piece}
      {inner : List Piece} :
      kind opening = .punctuator .openParen → Written kind (.declarator (some name) whole rest) inner →
      kind closing = .punctuator .closeParen →
      Written kind (.core (some name) whole rest) (opening :: inner ++ [closing])
  | core {name : Option (String × Position)} {whole rest : CType} {pieces : List Piece} :
      Written kind (.core name whole rest) pieces →
      Written kind (.declarator name whole rest) pieces
  | pointer {name : Option (String × Position)} {whole rest : CType} {star : Piece}
      {pieces : List Piece} :
      kind star = .punctuator .asterisk →
      Written kind (.declarator name whole (.pointer rest)) pieces →
      Written kind (.declarator name whole rest) (star :: pieces)
  | typeName {type base : CType} {front pieces : List Piece} :
      Based kind base front → Written kind (.declarator none type base) pieces →
      Written kind (.typeName type) (front ++ pieces)
  | ellipsis {piece : Piece} :
      kind piece = .punctuator .ellipsis → Written kind (.list [] true) [piece]
  | one {type : CType} {pieces : List Piece} :
      Written kind (.typeName type) pieces → Written kind (.list [type] false) pieces
  | more {type : CType} {types : List CType} {variadic : Bool} {comma : Piece}
      {pieces others : List Piece} :
      Written kind (.typeName type) pieces → kind comma = .punctuator .comma →
      Written kind (.list types variadic) others →
      Written kind (.list (type :: types) variadic) (pieces ++ comma :: others)
  | noParameters :
      Written kind (.parameters [] false) []
  | void {piece : Piece} :
      kind piece = .keyword .void → Written kind (.parameters [] false) [piece]
  | list {types : List CType} {variadic : Bool} {pieces : List Piece} :
      Written kind (.list types variadic) pieces →
      ¬(types = [.named "void"] ∧ variadic = false) →
      Written kind (.parameters types variadic) pieces

/-! ## Every type can be written -/

/-- The types that the notation is for, where the table is in force. -/
inductive CType.Writable (table : SymbolTable) : CType → Prop
  | arithmetic {name : String} :
      name ∈ ArithmeticType.spellings → Writable table (.named name)
  | declared {name : String} :
      table.isTypeName name = true → Writable table (.named name)
  | record {record : RecordKind} {tag : String} :
      Unreserved tag → Writable table (.record record (some tag) none)
  | enumeration {tag : String} :
      Unreserved tag → Writable table (.enumeration (some tag) none)
  | pointer {target : CType} :
      Writable table target → Writable table (.pointer target)
  | openArray {element : CType} :
      Writable table element → Writable table (.array element none)
  | array {element : CType} {position : Position} {value : UInt64} :
      Writable table element → Writable table (.array element (some (.integer position value)))
  | function {result : CType} {types : List CType} {variadic : Bool} :
      Writable table result → (∀ type ∈ types, Writable table type) →
      ¬(types = [.named "void"] ∧ variadic = false) →
      Writable table (.function result types variadic)

section

variable {v : View} {name : Option (String × Position)} {whole rest type : CType}
  {pieces : List Piece}

theorem View.kind_of_keyword (h : v.table.KeywordFree) (word : Keyword) (position : Position) :
    v.kind ⟨.word word.spelling, position⟩ = .keyword word :=
  h.classify_keyword word

theorem View.kind_of_unreserved {word : String} (h : Unreserved word) (position : Position) :
    v.kind ⟨.word word, position⟩ = .identifier word ∨
      v.kind ⟨.word word, position⟩ = .typeName word :=
  v.table.classify_unreserved h

/-- A lexeme at the start of a text; where lexemes stand makes no difference to what they write, but
for sizes. -/
def Lexeme.piece (w : Lexeme) : Piece :=
  { lexeme := w, position := .start none }

/-- A declarator can be made to take a suffix. -/
theorem Written.exists_core (h : Written v.kind (.declarator name whole rest) pieces) :
    ∃ inner, Written v.kind (.core name whole rest) inner := by
  cases h with
  | core hcore => exact ⟨_, hcore⟩
  | pointer hstar hinner =>
      have hopening : v.kind (Lexeme.piece (.punctuator .openParen)) = .punctuator .openParen := rfl
      have hclosing : v.kind (Lexeme.piece (.punctuator .closeParen)) = .punctuator .closeParen := rfl
      exact ⟨_, .bound hopening hstar hinner hclosing⟩

theorem Written.exists_list {types : List CType} {variadic : Bool}
    (h : ∀ type ∈ types, ∃ pieces, Written v.kind (.typeName type) pieces)
    (hne : types ≠ [] ∨ variadic = true) :
    ∃ pieces, Written v.kind (.list types variadic) pieces := by
  have hellipsis : v.kind (Lexeme.piece (.punctuator .ellipsis)) = .punctuator .ellipsis := rfl
  have hcomma : v.kind (Lexeme.piece (.punctuator .comma)) = .punctuator .comma := rfl
  induction types with
  | nil =>
      obtain rfl : variadic = true := by simpa using hne
      exact ⟨_, .ellipsis hellipsis⟩
  | cons type types ih =>
      obtain ⟨first, hfirst⟩ := h type List.mem_cons_self
      -- The last type stands without a comma unless the ellipsis follows.
      by_cases hmore : types ≠ [] ∨ variadic = true
      · obtain ⟨others, hothers⟩ :=
          ih (fun type htype => h type (List.mem_cons_of_mem _ htype)) hmore
        exact ⟨_, .more hfirst hcomma hothers⟩
      · obtain ⟨rfl, rfl⟩ : types = [] ∧ variadic = false := by simpa using hmore
        exact ⟨_, .one hfirst⟩

/-- A declarator goes on around a type that can be written until only a base type is left. -/
theorem CType.Writable.exists_declarator (hfree : v.table.KeywordFree)
    (h : type.Writable v.table) :
    ∀ {name whole pieces}, Written v.kind (.declarator name whole type) pieces →
      ∃ base front others, Based v.kind base front ∧
        Written v.kind (.declarator name whole base) others := by
  have hopenBracket : v.kind (Lexeme.piece (.punctuator .openBracket)) = .punctuator .openBracket :=
    rfl
  have hcloseBracket :
      v.kind (Lexeme.piece (.punctuator .closeBracket)) = .punctuator .closeBracket := rfl
  have hopenParen : v.kind (Lexeme.piece (.punctuator .openParen)) = .punctuator .openParen := rfl
  have hcloseParen : v.kind (Lexeme.piece (.punctuator .closeParen)) = .punctuator .closeParen := rfl
  -- From the outside of the type inwards, what has been written so far is carried along.
  induction h with
  | @arithmetic name hname =>
      intro _ _ pieces hwritten
      obtain ⟨words, hwords, rfl⟩ := ArithmeticType.mem_spellings_iff.1 hname
      refine ⟨_, words.map fun word => Lexeme.piece (.word word.spelling), pieces,
        .arithmetic hwords ?_, hwritten⟩
      simp [Lexeme.piece, View.kind_of_keyword hfree]
  | @declared name hname =>
      intro _ _ pieces hwritten
      have hkind : v.kind (Lexeme.piece (.word name)) = .typeName name :=
        SymbolTable.classify_eq_typeName.2 ⟨rfl, hname⟩
      exact ⟨_, _, pieces, .declared hkind, hwritten⟩
  | @record record tag htag =>
      intro _ _ pieces hwritten
      exact ⟨_, _, pieces, .record (View.kind_of_keyword hfree record.word (.start none))
        (View.kind_of_unreserved htag (.start none)), hwritten⟩
  | @enumeration tag htag =>
      intro _ _ pieces hwritten
      exact ⟨_, _, pieces, .enumeration (View.kind_of_keyword hfree .enum (.start none))
        (View.kind_of_unreserved htag (.start none)), hwritten⟩
  | pointer _ ih =>
      intro _ _ pieces hwritten
      have hstar : v.kind (Lexeme.piece (.punctuator .asterisk)) = .punctuator .asterisk := rfl
      exact ih (.pointer hstar hwritten)
  | openArray _ ih =>
      intro _ _ pieces hwritten
      obtain ⟨inner, hinner⟩ := hwritten.exists_core
      exact ih (.core (.openArray hinner hopenBracket hcloseBracket))
  | @array _ position value _ ih =>
      intro _ _ pieces hwritten
      obtain ⟨inner, hinner⟩ := hwritten.exists_core
      have hsize : v.kind ⟨.integer value, position⟩ = .integer value := rfl
      exact ih (.core (.array hinner hopenBracket hsize hcloseBracket))
  | @function _ types variadic _ _ hvoid ih ih' =>
      intro _ _ pieces hwritten
      obtain ⟨inner, hinner⟩ := hwritten.exists_core
      -- The induction hypothesis for a parameter is used with no name to write around.
      have hlist : ∃ between, Written v.kind (.parameters types variadic) between := by
        by_cases hne : types ≠ [] ∨ variadic = true
        · obtain ⟨between, hbetween⟩ := Written.exists_list (fun type htype => by
            obtain ⟨base, front, others, hbase, hothers⟩ := ih' type htype (.core .nameless)
            exact ⟨_, .typeName hbase hothers⟩) hne
          exact ⟨between, .list hbetween hvoid⟩
        · obtain ⟨rfl, rfl⟩ : types = [] ∧ variadic = false := by simpa using hne
          exact ⟨_, .noParameters⟩
      obtain ⟨between, hbetween⟩ := hlist
      exact ih (.core (.function hinner hopenParen hbetween hcloseParen))

/-- Every such type can be written around any word that a program may declare, and without one. -/
theorem CType.Writable.exists_written (hfree : v.table.KeywordFree) (h : type.Writable v.table) :
    (∀ word, Unreserved word → ∃ base front place pieces, Based v.kind base front ∧
      Written v.kind (.declarator (some (word, place)) type base) pieces) ∧
    ∃ pieces, Written v.kind (.typeName type) pieces := by
  refine ⟨fun word hword => ?_, ?_⟩
  · obtain ⟨base, front, others, hbase, hothers⟩ :=
      h.exists_declarator hfree (.core (.name (View.kind_of_unreserved hword (.start none))))
    exact ⟨base, front, _, others, hbase, hothers⟩
  · obtain ⟨base, front, others, hbase, hothers⟩ := h.exists_declarator hfree (.core .nameless)
    exact ⟨_, .typeName hbase hothers⟩

end

end CSyntax
