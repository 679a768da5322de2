import CSyntax.Fault
import CSyntax.Source
import CSyntax.Unicode.WhiteSpace

/-!
# Trivia — white space and comments between tokens

A line comment runs through its line feed or to the end of the text.  A block comment runs to the
first `*/` after its opening mark; `/*/` opens one and does not close it.

* `Trivia.measure` tells how much trivia a text begins with;
* `Source.skipTrivia` moves past it, or fails at a block comment that is never closed.
-/

namespace CSyntax
namespace Trivia

/-- How many characters of trivia a text begins with, and whether they end where a token or the
end of the text does.  If not, a block comment that is never closed begins after them. -/
structure Extent where
  length : Nat
  closed : Bool
  deriving DecidableEq

/-- The extent with `n` further characters before it. -/
def Extent.after (n : Nat) (e : Extent) : Extent :=
  { e with length := n + e.length }

mutual

def measure : List Char → Extent
  | '/' :: '/' :: cs => (measureLine cs).after 2
  | '/' :: '*' :: cs =>
      match measureBlock? cs with
      | some extent => extent.after 2
      | none => { length := 0, closed := false }
  | c :: cs =>
      if Unicode.isWhiteSpace c then (measure cs).after 1
      else { length := 0, closed := true }
  | [] => { length := 0, closed := true }

/-- As `measure`, from inside a line comment. -/
def measureLine : List Char → Extent
  | c :: cs => if c = '\n' then (measure cs).after 1 else (measureLine cs).after 1
  | [] => { length := 0, closed := true }

/-- As `measure`, from inside a block comment; nothing if the text ends inside it. -/
def measureBlock? : List Char → Option Extent
  | '*' :: '/' :: cs => some ((measure cs).after 2)
  | _ :: cs => (measureBlock? cs).map (Extent.after 1)
  | [] => none

end

@[simp] theorem measure_nil : measure [] = { length := 0, closed := true } := by
  rw [measure]

@[simp] theorem measureLine_nil : measureLine [] = { length := 0, closed := true } := by
  rw [measureLine]

@[simp] theorem measureBlock?_nil : measureBlock? [] = none := by
  rw [measureBlock?]

end Trivia

namespace Source

/-- Moves to the next token or the end of the text.  An unclosed comment swallows what is left. -/
def skipTrivia (s : Source) : Except ParseError Unit × Source :=
  let extent := Trivia.measure s.rest
  let after := s.drop extent.length
  if extent.closed then (.ok (), after)
  else
    (.error
      { start := after.position
        stop := after.position.shift 2
        cause := .lexical .unterminatedComment },
      after.drop after.rest.length)

end Source

end CSyntax
