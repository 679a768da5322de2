import CSyntax.Text.Quoted
import CSyntax.Token.Basic

/-!
# Fault — why a text is refused, and where

The first fault found ends a parse.  It is lexical if the text cannot be cut into tokens,
grammatical if the tokens do not fit the grammar, and internal if the parser contradicted itself.

* `Cause.message` is the wording of each fault;
* `ParseError` adds the stretch of text that the fault is about.
-/

namespace CSyntax

/-! ## Causes -/

inductive LexicalFault
  | invalidCharacter (c : Char)
  | unterminatedString
  | unterminatedCharacter
  | emptyCharacter
  | unterminatedComment
  | integerOverflow
  | malformedNumber (text : String)
  deriving DecidableEq

inductive GrammarFault
  | expected (wanted found : TokenKind)
  | expectedOneOf (wanted : List TokenKind) (found : TokenKind)
  | expectedExpression (found : TokenKind)
  | expectedDeclarator (found : TokenKind)
  | expectedTypeSpecifier (found : TokenKind)
  | expectedIdentifier (found : TokenKind)
  | invalidTypeSpecifier (text : String)
  | duplicateStorageClass (word : Keyword)
  | invalidFunctionDefinition (name : String)
  deriving DecidableEq

/-- Contradictions that the parser guards against, one for each place where it does. -/
inductive InternalFault
  /-- A punctuator was to be read at the end of the text. -/
  | noPunctuator
  /-- A word that names no arithmetic type was counted among those that do. -/
  | uncountableWord
  /-- The file scope was to be left. -/
  | fileScopeLeft
  /-- A declaration went on from a declarator without a name. -/
  | unnamedDeclaration
  /-- A function went on from a declarator without a name. -/
  | unnamedFunction
  /-- A function body followed a declarator that declares no function. -/
  | bodyWithoutParameters
  /-- A record began with neither of its words. -/
  | unknownRecord
  /-- A member went on from a declarator without a name. -/
  | unnamedMember
  /-- A labelled statement began with what is no label. -/
  | unknownLabel
  /-- A branching statement began with neither of its words. -/
  | unknownSelection
  /-- A loop began with none of its words. -/
  | unknownIteration
  /-- A jump began with none of its words. -/
  | unknownJump
  /-- A token that is no punctuator had priorities as an infix operator. -/
  | infixWord
  /-- A punctuator had priorities as an infix operator and stood for none. -/
  | infixPunctuator
  /-- A floating constant had no value. -/
  | unreadableConstant
  /-- The rules of the grammar nested deeper than the text is long. -/
  | tooDeep
  deriving DecidableEq

inductive Cause
  | lexical (fault : LexicalFault)
  | grammatical (fault : GrammarFault)
  | internal (fault : InternalFault)
  deriving DecidableEq

namespace LexicalFault

def message : LexicalFault → String
  | .invalidCharacter c => "unrecognized character " ++ Text.quoteChar c
  | .unterminatedString => "unterminated string literal"
  | .unterminatedCharacter => "unterminated character literal"
  | .emptyCharacter => "empty character literal"
  | .unterminatedComment => "unterminated block comment"
  | .integerOverflow => "integer literal is too large"
  | .malformedNumber text => "malformed number `" ++ text ++ "`"

end LexicalFault

namespace GrammarFault

/-- A kind of token between back quotes. -/
def quoted (kind : TokenKind) : String :=
  "`" ++ kind.spelling ++ "`"

def message : GrammarFault → String
  | .expected wanted found => "expected " ++ quoted wanted ++ ", found " ++ quoted found
  | .expectedOneOf wanted found =>
      "expected one of " ++ ", ".intercalate (wanted.map quoted) ++ ", found " ++ quoted found
  | .expectedExpression found => "expected expression, found " ++ quoted found
  | .expectedDeclarator found => "expected declarator, found " ++ quoted found
  | .expectedTypeSpecifier found => "expected type specifier, found " ++ quoted found
  | .expectedIdentifier found => "expected identifier, found " ++ quoted found
  | .invalidTypeSpecifier text => "invalid combination of type specifiers `" ++ text ++ "`"
  | .duplicateStorageClass word =>
      "more than one storage class specifier (`" ++ word.spelling ++ "`)"
  | .invalidFunctionDefinition name => "`" ++ name ++ "` cannot be defined as a function here"

end GrammarFault

namespace InternalFault

def message : InternalFault → String
  | .noPunctuator => "internal parser error (punctuator at the end)"
  | .uncountableWord => "internal parser error (word of no arithmetic type)"
  | .fileScopeLeft => "internal parser error (file scope left)"
  | .unnamedDeclaration => "internal parser error (declaration without a name)"
  | .unnamedFunction => "internal parser error (function without a name)"
  | .bodyWithoutParameters => "internal parser error (body without parameters)"
  | .unknownRecord => "internal parser error (unknown record)"
  | .unnamedMember => "internal parser error (member without a name)"
  | .unknownLabel => "internal parser error (unknown label)"
  | .unknownSelection => "internal parser error (unknown selection)"
  | .unknownIteration => "internal parser error (unknown iteration)"
  | .unknownJump => "internal parser error (unknown jump)"
  | .infixWord => "internal parser error (infix operator that is no punctuator)"
  | .infixPunctuator => "internal parser error (unknown infix operator)"
  | .unreadableConstant => "internal parser error (unreadable constant)"
  | .tooDeep => "internal parser error (nested too deeply)"

end InternalFault

namespace Cause

def message : Cause → String
  | .lexical fault => fault.message
  | .grammatical fault => fault.message
  | .internal fault => fault.message

/-- The part of the work that found the fault, as messages name it. -/
def stage : Cause → String
  | .lexical _ => "lexical error"
  | .grammatical _ => "syntax error"
  | .internal _ => "internal error"

end Cause

/-! ## Located causes -/

structure ParseError where
  start : Position
  stop : Position
  cause : Cause
  deriving DecidableEq

namespace ParseError

/-- A cause that concerns the whole of a token. -/
def atToken (token : Token) (cause : Cause) : ParseError :=
  { start := token.position, stop := token.position.shift token.width, cause := cause }

/-- A cause that concerns the text between two positions, and one character at least. -/
def between (start stop : Position) (cause : Cause) : ParseError :=
  { start := start
    stop := if start.offset < stop.offset then stop else start.shift 1
    cause := cause }

/-- A cause at the character that stands at a position. -/
def atPosition (position : Position) (cause : Cause) : ParseError :=
  { start := position, stop := position.shift 1, cause := cause }

def describe (error : ParseError) : String :=
  error.start.describe ++ ": " ++ error.cause.stage ++ ": " ++ error.cause.message

end ParseError

end CSyntax
