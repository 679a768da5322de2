import CSyntax.Proofs.Run.Discipline

/-!
# Name spaces — which words of a program are labels, tags and members

Labels, tags and members have name spaces of their own.  Which words are used as such can be told
from the tokens before them and from whether a colon follows, without a symbol table: a tag stands
behind `struct`, `union` or `enum`; a member behind a point or an arrow, or as the name in a member
declarator; a label behind `goto`, or before the colon where a statement begins.

* `Scanner` — what has to be kept in mind on the way through the tokens, with `Scanner.after` as the
  step over one token;
* `Scanner.nameSpace` — the name space of a word that comes next;
* `Renaming.kinds` — the tokens of a program with labels, tags and members renamed.

A scanner does not check anything; off the grammar it says what it says.
-/

namespace CSyntax

/-! ## Scanners -/

/-- What has been opened and waits to be closed. -/
inductive Bracket
  /-- The braces of a compound statement. -/
  | block
  /-- The parentheses behind `if`, `switch`, `while` and `for`. -/
  | header
  /-- Other parentheses and brackets, what stands between a question mark and its colon, and braces
  around enumerators and initial values. -/
  | list
  /-- The braces of a record: whether the member declaration at hand has named its type, and whether
  the declarator at hand has its name. -/
  | record (typed named : Bool)
  deriving DecidableEq

/-- What the token before lets expect of the next one. -/
inductive Expects
  | nothing
  | statement
  /-- A tag or an opening brace, of a record or else of an enumeration. -/
  | tag (record : Bool)
  /-- An opening brace, perhaps. -/
  | body (record : Bool)
  | member
  /-- The label of the `goto` that stands at the offset. -/
  | target (offset : Nat)
  /-- The parenthesis behind `if`, `switch`, `while` or `for`. -/
  | header
  /-- An initial value or the right side of an assignment. -/
  | initial
  deriving DecidableEq

/-- A place among the tokens: the brackets that are open, the innermost first, and what is expected. -/
structure Scanner where
  brackets : List Bracket
  expects : Expects
  deriving DecidableEq

/-- Where a word has its meaning.  A label comes with the offset at which its statement begins. -/
inductive NameSpace
  | ordinary
  | tag
  | member
  | label (offset : Nat)
  deriving DecidableEq

/-- The brackets when the type of a member declaration has been named. -/
def Bracket.typed : List Bracket → List Bracket
  | .record _ named :: brackets => .record true named :: brackets
  | brackets => brackets

namespace Scanner

/-- Where a program begins. -/
def start : Scanner :=
  { brackets := [], expects := .nothing }

/-- Inside one more bracket. -/
def within (σ : Scanner) (bracket : Bracket) (expects : Expects) : Scanner :=
  { brackets := bracket :: σ.brackets, expects := expects }

/-- With the brackets as they are. -/
def expecting (σ : Scanner) (expects : Expects) : Scanner :=
  { σ with expects := expects }

/-- The name space of a word at the offset, where the token behind it is of the kind. -/
def nameSpace (σ : Scanner) (offset : Nat) (next : Option TokenKind) : NameSpace :=
  match σ.expects with
  | .tag _ => .tag
  | .member => .member
  | .target jump => .label jump
  | .statement => if next = some (.punctuator .colon) then .label offset else .ordinary
  | _ =>
      match σ.brackets with
      | .record true false :: _ => .member
      | _ => .ordinary

/-- Past a word that is not reserved.  In a member declaration the first one names the type, unless
the type is named already, and the next one the member. -/
def word (σ : Scanner) : Scanner :=
  match σ.expects with
  | .tag record => σ.expecting (.body record)
  | .member | .target _ => σ.expecting .nothing
  | _ =>
      match σ.brackets with
      | .record typed _ :: brackets =>
          { brackets := .record true typed :: brackets, expects := .nothing }
      | _ => σ.expecting .nothing

/-- Past a keyword at the offset. -/
def keyword (σ : Scanner) (offset : Nat) : Keyword → Scanner
  | .struct | .union => { brackets := Bracket.typed σ.brackets, expects := .tag true }
  | .enum => { brackets := Bracket.typed σ.brackets, expects := .tag false }
  | .goto => σ.expecting (.target offset)
  | .if | .switch | .while | .for => σ.expecting .header
  | .else | .do => σ.expecting .statement
  | word =>
      if word.isTypeWord then { brackets := Bracket.typed σ.brackets, expects := .nothing }
      else σ.expecting .nothing

/-- Past an opening parenthesis.  One before the name of a member belongs to the declarator. -/
def openParen (σ : Scanner) : Scanner :=
  match σ.expects with
  | .header => σ.within .header .nothing
  | _ =>
      match σ.brackets with
      | .record _ false :: _ => σ.expecting .nothing
      | _ => σ.within .list .nothing

def openBrace (σ : Scanner) : Scanner :=
  match σ.expects with
  | .tag true | .body true => σ.within (.record false false) .nothing
  | .tag false | .body false | .initial => σ.within .list .nothing
  | _ =>
      match σ.brackets with
      | .list :: _ => σ.within .list .nothing
      | _ => σ.within .block .statement

/-- Past a mark that closes a parenthesis or a bracket. -/
def close (σ : Scanner) : Scanner :=
  match σ.brackets with
  | .header :: brackets => { brackets := brackets, expects := .statement }
  | .list :: brackets => { brackets := brackets, expects := .nothing }
  | _ => σ.expecting .nothing

/-- Past a closing brace.  The braces of a function have none around them. -/
def closeBrace (σ : Scanner) : Scanner :=
  match σ.brackets with
  | .block :: brackets =>
      { brackets := brackets, expects := if brackets.isEmpty then .nothing else .statement }
  | _ => { brackets := σ.brackets.tail, expects := .nothing }

def colon (σ : Scanner) : Scanner :=
  match σ.brackets with
  | .list :: brackets => { brackets := brackets, expects := .nothing }
  | _ => σ.expecting .statement

def semicolon (σ : Scanner) : Scanner :=
  match σ.brackets with
  | .block :: _ => σ.expecting .statement
  | .record _ _ :: brackets => { brackets := .record false false :: brackets, expects := .nothing }
  | _ => σ.expecting .nothing

def comma (σ : Scanner) : Scanner :=
  match σ.brackets with
  | .record typed _ :: brackets => { brackets := .record typed false :: brackets, expects := .nothing }
  | _ => σ.expecting .nothing

/-- Past an operator or a separator. -/
def mark (σ : Scanner) : Punctuator → Scanner
  | .openParen => σ.openParen
  | .openBracket | .question => σ.within .list .nothing
  | .openBrace => σ.openBrace
  | .closeParen | .closeBracket => σ.close
  | .closeBrace => σ.closeBrace
  | .colon => σ.colon
  | .semicolon => σ.semicolon
  | .comma => σ.comma
  | .point | .arrow => σ.expecting .member
  | .assign => σ.expecting .initial
  | _ => σ.expecting .nothing

/-- Past a token.  Type names and other words are not told apart. -/
def after (σ : Scanner) (kind : TokenKind) (offset : Nat) : Scanner :=
  match kind with
  | .identifier _ | .typeName _ => σ.word
  | .keyword word => σ.keyword offset word
  | .punctuator mark => σ.mark mark
  | _ => σ.expecting .nothing

/-- Whether a token is the label of a statement, where the one behind it is of the second kind. -/
def Labels (σ : Scanner) (kind : TokenKind) (next : Option TokenKind) : Prop :=
  σ.expects = .statement ∧ kind.words ≠ [] ∧ next = some (.punctuator .colon)

instance (σ : Scanner) (kind : TokenKind) (next : Option TokenKind) :
    Decidable (σ.Labels kind next) :=
  inferInstanceAs (Decidable (_ ∧ _ ∧ _))

/-- The offsets of the labels of statements among tokens. -/
def labels : Scanner → List Token → List Nat
  | _, [] => []
  | σ, token :: others =>
      let more := (σ.after token.kind token.position.offset).labels others
      if σ.Labels token.kind (others.head?.map (·.kind)) then token.position.offset :: more
      else more

end Scanner

/-! ## Renaming -/

/-- New names for tags, for members, and for labels, those by the offset of the statement. -/
structure Renaming where
  tag : String → String
  member : String → String
  label : Nat → String → String

namespace Renaming

variable (ρ : Renaming)

/-- The new name of a word in the name space. -/
def name : NameSpace → String → String
  | .ordinary, name => name
  | .tag, name => ρ.tag name
  | .member, name => ρ.member name
  | .label offset, name => ρ.label offset name

/-- The kind of a token, if it is a word with the new name in place of its own. -/
def kind (space : NameSpace) : TokenKind → TokenKind
  | .identifier name => .identifier (ρ.name space name)
  | .typeName name => .typeName (ρ.name space name)
  | kind => kind

/-- The kinds of tokens behind a place, with labels, tags and members renamed. -/
def kinds : Scanner → List Token → List TokenKind
  | _, [] => []
  | σ, token :: others =>
      ρ.kind (σ.nameSpace token.position.offset (others.head?.map (·.kind))) token.kind ::
        kinds (σ.after token.kind token.position.offset) others

end Renaming

end CSyntax
