import CSyntax.Fault

/-!
# Report — an error and the place of a text that it points to

A report counts the place anew in the text that it is shown with, from the byte offset of the
error.  It splits that text at line feeds; a line feed at the very end opens no further line, so an
error behind it is placed behind the end of the last line.

The number of characters in front of the error is counted here (`Report.charactersBefore`).  Lines
and columns are counted by the printer of reports, which is no part of this development.
`Report.locate` is all that is assumed of it: line feeds alone end lines, the last line that begins
at the character or before it is the one shown, and columns count from its beginning.
`Report.placeByLines`, among the proofs, spells this assumption out over the lines of a text, and
`Report.locate_eq` shows that the two say the same.
-/

namespace CSyntax

structure Report where
  header : String
  location : String
  message : String
  deriving DecidableEq

namespace Report

/-- The number of characters that begin before a byte offset. -/
def charactersBefore : List Char → (offset : Nat) → Nat
  | c :: cs, offset =>
      if 0 < offset then charactersBefore cs (offset - c.utf8Size) + 1 else 0
  | [], _ => 0

/-- The line and the column of the character behind the next `count` ones, where the text begins at
the given line and column. -/
def locate : List Char → (count line column : Nat) → Nat × Nat
  | c :: cs, count + 1, line, column =>
      if c = '\n' ∧ cs ≠ [] then locate cs count (line + 1) 1
      else locate cs count line (column + 1)
  | _, _, line, column => (line, column)

end Report

/-- The report of an error, shown with a text.  A text without a label is called `<input>`. -/
def ParseError.report (error : ParseError) (shown : String) : Report :=
  let text := shown.toList
  let (line, column) := Report.locate text (Report.charactersBefore text error.start.offset) 1 1
  { header := "Error: " ++ error.cause.stage
    location :=
      error.start.file.getD "<input>" ++ ":" ++ toString line ++ ":" ++ toString column
    message := error.cause.message }

end CSyntax
