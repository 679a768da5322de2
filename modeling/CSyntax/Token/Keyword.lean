/-!
# Keyword — the reserved words

The thirty-two words that C89 reserves; every other word is left to the program.  The classes of
keywords that the grammar asks for stand here too: storage classes, qualifiers and the words that
name arithmetic types.
-/

namespace CSyntax

inductive Keyword
  | typedef
  | external
  | static
  | auto
  | register
  | const
  | volatile
  | void
  | signed
  | unsigned
  | char
  | int
  | short
  | long
  | float
  | double
  | struct
  | enum
  | union
  | «if»
  | «else»
  | «for»
  | «do»
  | «while»
  | switch
  | «case»
  | default
  | sizeof
  | goto
  | «break»
  | «continue»
  | «return»
  deriving DecidableEq

namespace Keyword

def all : List Keyword :=
  [.typedef, .external, .static, .auto, .register, .const, .volatile, .void, .signed, .unsigned,
    .char, .int, .short, .long, .float, .double, .struct, .enum, .union, .if, .else, .for, .do,
    .while, .switch, .case, .default, .sizeof, .goto, .break, .continue, .return]

def spelling : Keyword → String
  | .typedef => "typedef"
  | .external => "extern"
  | .static => "static"
  | .auto => "auto"
  | .register => "register"
  | .const => "const"
  | .volatile => "volatile"
  | .void => "void"
  | .signed => "signed"
  | .unsigned => "unsigned"
  | .char => "char"
  | .int => "int"
  | .short => "short"
  | .long => "long"
  | .float => "float"
  | .double => "double"
  | .struct => "struct"
  | .enum => "enum"
  | .union => "union"
  | .if => "if"
  | .else => "else"
  | .for => "for"
  | .do => "do"
  | .while => "while"
  | .switch => "switch"
  | .case => "case"
  | .default => "default"
  | .sizeof => "sizeof"
  | .goto => "goto"
  | .break => "break"
  | .continue => "continue"
  | .return => "return"

/-- The keyword that a word is, in alphabetical order. -/
def ofSpelling? : String → Option Keyword
  | "auto" => some .auto
  | "break" => some .break
  | "case" => some .case
  | "char" => some .char
  | "const" => some .const
  | "continue" => some .continue
  | "default" => some .default
  | "do" => some .do
  | "double" => some .double
  | "else" => some .else
  | "enum" => some .enum
  | "extern" => some .external
  | "float" => some .float
  | "for" => some .for
  | "goto" => some .goto
  | "if" => some .if
  | "int" => some .int
  | "long" => some .long
  | "register" => some .register
  | "return" => some .return
  | "short" => some .short
  | "signed" => some .signed
  | "sizeof" => some .sizeof
  | "static" => some .static
  | "struct" => some .struct
  | "switch" => some .switch
  | "typedef" => some .typedef
  | "union" => some .union
  | "unsigned" => some .unsigned
  | "void" => some .void
  | "volatile" => some .volatile
  | "while" => some .while
  | _ => none

/-! ## Classes of keywords -/

/-- Storage classes; `typedef` counts as one, as in the grammar of declarations. -/
def isStorageClass : Keyword → Bool
  | .typedef | .external | .static | .auto | .register => true
  | _ => false

def isQualifier : Keyword → Bool
  | .const | .volatile => true
  | _ => false

/-- The words that combine to the name of an arithmetic type or `void`. -/
def isTypeWord : Keyword → Bool
  | .void | .char | .short | .int | .long | .float | .double | .signed | .unsigned => true
  | _ => false

/-- The words before a tag or a list of members or enumerators. -/
def isTagged : Keyword → Bool
  | .struct | .union | .enum => true
  | _ => false

/-- The statements that begin with keywords of their own. -/
inductive StatementForm
  | selection
  | iteration
  | jump
  | labelled
  deriving DecidableEq

def statementForm? : Keyword → Option StatementForm
  | .if | .switch => some .selection
  | .while | .do | .for => some .iteration
  | .goto | .continue | .break | .return => some .jump
  | .case | .default => some .labelled
  | _ => none

def startsTypeName (k : Keyword) : Bool :=
  k.isQualifier || k.isTypeWord || k.isTagged

def startsDeclaration (k : Keyword) : Bool :=
  k.isStorageClass || k.startsTypeName

/-! ## The spelling determines the keyword -/

theorem mem_all (k : Keyword) : k ∈ all := by
  cases k <;> decide

@[simp] theorem ofSpelling?_spelling (k : Keyword) : ofSpelling? k.spelling = some k := by
  cases k <;> rfl

theorem ofSpelling?_eq_some {word : String} {k : Keyword} (h : ofSpelling? word = some k) :
    k.spelling = word := by
  unfold ofSpelling? at h
  split at h <;> cases h <;> rfl

/-- The table has each keyword under its spelling, and nothing else. -/
theorem ofSpelling?_eq_find? (word : String) :
    ofSpelling? word = all.find? fun k => k.spelling = word := by
  cases hfound : all.find? fun k => k.spelling = word with
  | some k =>
      obtain rfl : k.spelling = word := by simpa using List.find?_some hfound
      exact ofSpelling?_spelling k
  | none =>
      cases htable : ofSpelling? word with
      | none => rfl
      | some k =>
          have hother := List.find?_eq_none.1 hfound k (mem_all k)
          exact absurd (ofSpelling?_eq_some htable) (by simpa using hother)

end Keyword

end CSyntax
