import CSyntax.Position
import CSyntax.Token.Keyword
import CSyntax.Token.Punctuator

/-!
# Token — kinds of tokens and where they start

A word that a visible `typedef` declares is a type name and not an identifier.  Literals keep
their text between the quotes as written; an integer keeps its value alone, and a floating constant
its text without the type suffix.
-/

namespace CSyntax

inductive TokenKind
  | identifier (name : String)
  | typeName (name : String)
  | punctuator (mark : Punctuator)
  | keyword (word : Keyword)
  | string (text : String)
  | character (text : String)
  | integer (value : UInt64)
  | floating (text : String)
  | endOfFile
  deriving DecidableEq

namespace TokenKind

/-- The text of a token as messages show it.  Numbers appear in decimal and without suffixes. -/
def spelling : TokenKind → String
  | .identifier name => name
  | .typeName name => name
  | .punctuator mark => mark.spelling
  | .keyword word => word.spelling
  | .string text => "\"" ++ text ++ "\""
  | .character text => "'" ++ text ++ "'"
  | .integer value => toString value.toNat
  | .floating text => text
  | .endOfFile => "end of file"

/-- What a type name begins with: a qualifier, a type specifier or a declared type name. -/
def startsTypeName : TokenKind → Bool
  | .typeName _ => true
  | .keyword word => word.startsTypeName
  | _ => false

/-- What a declaration begins with: a type name or a storage class. -/
def startsDeclaration : TokenKind → Bool
  | .typeName _ => true
  | .keyword word => word.startsDeclaration
  | _ => false

end TokenKind

structure Token where
  kind : TokenKind
  position : Position
  deriving DecidableEq

namespace Token

def spelling (t : Token) : String :=
  t.kind.spelling

def isEndOfFile (t : Token) : Bool :=
  t.kind = .endOfFile

/-- The number of columns an error about the token covers: its spelling, and one at least. -/
def width (t : Token) : Nat :=
  match t.kind with
  | .endOfFile => 1
  | kind => max 1 kind.spelling.length

end Token

end CSyntax
