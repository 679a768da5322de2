import CSyntax.Lexer.Lexeme

/-!
# Quoted — string and character literals

A literal runs to the next quote of its kind on the same line.  A backslash takes the character
after it along, so that `\"` does not end a string; escapes are kept as written.
-/

namespace CSyntax
namespace Quoted

/-- The text up to the closing `quote` and the number of characters through it.  There is no text
if a line feed or the end comes first; the line feed is read with the rest. -/
def read (quote : Char) : List Char → Option (List Char) × Nat
  | [] => (none, 0)
  | c :: cs =>
      if c = quote then (some [], 1)
      else if c = '\n' then (none, 1)
      else if c = '\\' then
        match cs with
        | [] => (none, 1)
        | d :: ds =>
            if d = '\n' then (none, 2)
            else
              let (text, length) := read quote ds
              (text.map (c :: d :: ·), length + 2)
      else
        let (text, length) := read quote cs
        (text.map (c :: ·), length + 1)

/-- The string literal whose opening quote stands before the text. -/
def scanString (cs : List Char) : Except LexicalFault Lexeme × Nat :=
  match read '"' cs with
  | (some text, length) => (.ok (.string (String.ofList text)), length + 1)
  | (none, length) => (.error .unterminatedString, length + 1)

/-- The character literal whose opening quote stands before the text. -/
def scanCharacter (cs : List Char) : Except LexicalFault Lexeme × Nat :=
  match read '\'' cs with
  | (some [], length) => (.error .emptyCharacter, length + 1)
  | (some text, length) => (.ok (.character (String.ofList text)), length + 1)
  | (none, length) => (.error .unterminatedCharacter, length + 1)

end Quoted
end CSyntax
