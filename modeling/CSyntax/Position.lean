/-!
# Position — where a character stands in a text

Lines and columns count from one, a column for each character, and only the line feed ends a line.
The offset counts the bytes of the text's UTF-8 form before the position.  A position carries the
label of the text it belongs to, if the text has one.

* `Position.advance` steps over one character, `Position.advanceBy` over a piece of text;
* `Position.shift` moves right within a line by a number of one-byte characters;
* `Position.describe` is the written form, `[label:]line:column`.
-/

namespace CSyntax

structure Position where
  line : Nat
  column : Nat
  offset : Nat
  file : Option String
  deriving DecidableEq

namespace Position

/-- The position of the first character of a text. -/
def start (file : Option String) : Position :=
  { line := 1, column := 1, offset := 0, file := file }

/-- The position after the character `c` at `p`. -/
def advance (p : Position) (c : Char) : Position :=
  if c = '\n' then
    { p with line := p.line + 1, column := 1, offset := p.offset + c.utf8Size }
  else
    { p with column := p.column + 1, offset := p.offset + c.utf8Size }

/-- The position after the text `cs` that begins at `p`. -/
def advanceBy (p : Position) (cs : List Char) : Position :=
  cs.foldl advance p

/-- `n` columns further right, as many bytes on. -/
def shift (p : Position) (n : Nat) : Position :=
  { p with column := p.column + n, offset := p.offset + n }

def describe (p : Position) : String :=
  match p.file with
  | some name => name ++ ":" ++ toString p.line ++ ":" ++ toString p.column
  | none => toString p.line ++ ":" ++ toString p.column

/-! ## Steps over text -/

@[simp] theorem advanceBy_nil (p : Position) : p.advanceBy [] = p := rfl

@[simp] theorem advanceBy_cons (p : Position) (c : Char) (cs : List Char) :
    p.advanceBy (c :: cs) = (p.advance c).advanceBy cs := rfl

theorem advanceBy_append (p : Position) (cs ds : List Char) :
    p.advanceBy (cs ++ ds) = (p.advanceBy cs).advanceBy ds := by
  simp [advanceBy]

@[simp] theorem advance_file (p : Position) (c : Char) : (p.advance c).file = p.file := by
  unfold advance
  split <;> rfl

@[simp] theorem advanceBy_file (p : Position) (cs : List Char) :
    (p.advanceBy cs).file = p.file := by
  induction cs generalizing p with
  | nil => rfl
  | cons c cs ih => simp [ih]

theorem offset_advance (p : Position) (c : Char) :
    (p.advance c).offset = p.offset + c.utf8Size := by
  unfold advance
  split <;> rfl

end Position

end CSyntax
