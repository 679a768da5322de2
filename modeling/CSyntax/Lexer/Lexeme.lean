import CSyntax.Fault
import CSyntax.Symbols

/-!
# Lexeme — a token before its words are classified

How far a token extends does not depend on what has been declared; only the kind of a word does.
So a text is cut into lexemes first, and a symbol table turns a lexeme into a kind of token.
-/

namespace CSyntax

inductive Lexeme
  | word (name : String)
  | punctuator (mark : Punctuator)
  | string (text : String)
  | character (text : String)
  | integer (value : UInt64)
  | floating (text : String)
  | endOfFile
  deriving DecidableEq

namespace SymbolTable

/-- The kind of a word: a visible type name, whatever its spelling, else a keyword if it is
reserved, else an identifier. -/
def classifyWord (table : SymbolTable) (name : String) : TokenKind :=
  if table.isTypeName name then .typeName name
  else
    match Keyword.ofSpelling? name with
    | some word => .keyword word
    | none => .identifier name

def classify (table : SymbolTable) : Lexeme → TokenKind
  | .word name => table.classifyWord name
  | .punctuator mark => .punctuator mark
  | .string text => .string text
  | .character text => .character text
  | .integer value => .integer value
  | .floating text => .floating text
  | .endOfFile => .endOfFile

end SymbolTable

end CSyntax
