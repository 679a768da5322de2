import CSyntax.Position

/-!
# Source — a text and how far it has been read

The rest of the text and the position of its first character, which move together.
-/

namespace CSyntax

structure Source where
  position : Position
  rest : List Char
  deriving DecidableEq

namespace Source

def ofString (text : String) (file : Option String) : Source :=
  { position := .start file, rest := text.toList }

/-- The source after its next `n` characters, or at its end if there are fewer. -/
def drop (s : Source) (n : Nat) : Source :=
  { position := s.position.advanceBy (s.rest.take n), rest := s.rest.drop n }

@[simp] theorem drop_zero (s : Source) : s.drop 0 = s := rfl

theorem drop_drop (s : Source) (m n : Nat) : (s.drop m).drop n = s.drop (m + n) := by
  simp [drop, ← Position.advanceBy_append, List.take_add]

@[simp] theorem drop_file (s : Source) (n : Nat) :
    (s.drop n).position.file = s.position.file := by
  simp [drop]

end Source

end CSyntax
