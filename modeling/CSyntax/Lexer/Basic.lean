import CSyntax.Lexer.Number
import CSyntax.Lexer.Quoted
import CSyntax.Lexer.Trivia

/-!
# Lexer — one token after the other

Each call skips trivia and reads the longest lexeme that the text begins with.  It never reads past
the token it gives, so a type name declared between two calls is seen by the second one.  At the
end of the text every call gives the end-of-file token.  After a failure the source stands behind
what was refused, and reading can go on from there.

* `Lexeme.scan` cuts off one lexeme and tells its length;
* `Source.nextLexeme` and `Source.nextToken` move a source past it;
* `tokenize` reads a whole text in which nothing is declared.
-/

namespace CSyntax

namespace Lexeme

def isWordStart (c : Char) : Bool :=
  'a' ≤ c && c ≤ 'z' || 'A' ≤ c && c ≤ 'Z' || c = '_'

def isWordPart (c : Char) : Bool :=
  isWordStart c || '0' ≤ c && c ≤ '9'

/-- Whether a text begins with a digit, or with a point and a digit. -/
def startsNumber : List Char → Bool
  | '.' :: c :: _ => Number.isDigitOf 10 c
  | c :: _ => Number.isDigitOf 10 c
  | [] => false

/-- The punctuator at the start of a text.  It is not to be looked for at the end. -/
def scanPunctuator : List Char → Except Cause Lexeme × Nat
  | [] => (.error (.internal .noPunctuator), 0)
  | c :: cs =>
      match Punctuator.read? c cs with
      | some (mark, length) => (.ok (.punctuator mark), length)
      | none => (.error (.lexical (.invalidCharacter c)), 1)

/-- What the scanner of one kind of lexeme gives.  Its faults are lexical. -/
def ofScanner (scanned : Except LexicalFault Lexeme × Nat) : Except Cause Lexeme × Nat :=
  (scanned.1.mapError .lexical, scanned.2)

@[simp] theorem ofScanner_eq_ok {scanned : Except LexicalFault Lexeme × Nat} {w : Lexeme}
    {n : Nat} :
    ofScanner scanned = (.ok w, n) ↔ scanned = (.ok w, n) := by
  rcases scanned with ⟨fault | _, _⟩
  · exact iff_of_false nofun nofun
  · constructor <;> rintro ⟨⟩ <;> rfl

@[simp] theorem ofScanner_eq_error {scanned : Except LexicalFault Lexeme × Nat} {cause : Cause}
    {n : Nat} :
    ofScanner scanned = (.error cause, n) ↔
      ∃ fault, cause = .lexical fault ∧ scanned = (.error fault, n) := by
  rcases scanned with ⟨fault | _, _⟩
  · constructor
    · rintro ⟨⟩
      exact ⟨fault, rfl, rfl⟩
    · rintro ⟨_, rfl, ⟨⟩⟩
      rfl
  · exact iff_of_false nofun nofun

/-- The lexeme at the start of a text, and the number of its characters.  What is refused has a
length too. -/
def scan : List Char → Except Cause Lexeme × Nat
  | [] => (.ok .endOfFile, 0)
  | c :: cs =>
      if isWordStart c then
        let name := (c :: cs).takeWhile isWordPart
        (.ok (.word (String.ofList name)), name.length)
      else if startsNumber (c :: cs) then ofScanner (Number.scan (c :: cs))
      else if c = '"' then ofScanner (Quoted.scanString cs)
      else if c = '\'' then ofScanner (Quoted.scanCharacter cs)
      else scanPunctuator (c :: cs)

end Lexeme

namespace Source

/-- The next lexeme and its position.  A lexeme that is refused is behind the source afterwards,
and the failure spans it. -/
def nextLexeme (s : Source) : Except ParseError (Lexeme × Position) × Source :=
  match s.skipTrivia with
  | (.error error, s) => (.error error, s)
  | (.ok (), s) =>
      let (outcome, length) := Lexeme.scan s.rest
      let after := s.drop length
      match outcome with
      | .ok lexeme => (.ok (lexeme, s.position), after)
      | .error cause => (.error (.between s.position after.position cause), after)

/-- The next token, where `table` tells what is declared. -/
def nextToken (s : Source) (table : SymbolTable) : Except ParseError Token × Source :=
  match s.nextLexeme with
  | (.ok (lexeme, position), s) => (.ok { kind := table.classify lexeme, position := position }, s)
  | (.error error, s) => (.error error, s)

/-- At most `n` tokens, up to the end of the text. -/
def tokens (table : SymbolTable) : Nat → Source → Except ParseError (List Token)
  | 0, _ => .ok []
  | n + 1, s =>
      match s.nextToken table with
      | (.error error, _) => .error error
      | (.ok token, s) =>
          if token.isEndOfFile then .ok [] else (s.tokens table n).map (token :: ·)

end Source

/-- The tokens of a text without the end-of-file token.  Nothing is declared, so no word is a type
name.  A text has no more tokens than characters. -/
def tokenize (text : String) (file : Option String) : Except ParseError (List Token) :=
  let source := Source.ofString text file
  source.tokens .empty (source.rest.length + 1)

end CSyntax
