import CSyntax.Decimal.Binary64
import CSyntax.Text.Digit

/-!
# Constant — the value of a decimal floating constant

A constant is digits with at most one point among them, then possibly an exponent: a letter `e` of
either case, an optional sign and digits.  There is a digit beside the point, and an exponent that
is begun has a digit.
-/

namespace CSyntax
namespace Decimal

open Number (isDigitOf)

/-- The value of a string of decimal digits. -/
def ofDigits (cs : List Char) : Nat :=
  cs.foldl (fun n c => 10 * n + (c.toNat - '0'.toNat)) 0

/-- The exponent after its letter. -/
def exponent? (cs : List Char) : Option Int :=
  let unsigned? (ds : List Char) : Option Int :=
    if ds ≠ [] ∧ ds.all (isDigitOf 10) then some (ofDigits ds) else none
  match cs with
  | '+' :: ds => unsigned? ds
  | '-' :: ds => (unsigned? ds).map fun n => -n
  | ds => unsigned? ds

/-- The digits after the point, if the text begins with one, and what follows them. -/
def fraction (cs : List Char) : List Char × List Char :=
  match cs with
  | '.' :: ds => (ds.takeWhile (isDigitOf 10), ds.dropWhile (isDigitOf 10))
  | ds => ([], ds)

/-- The number nearest to the constant, or nothing if the text is not one. -/
def constant? (cs : List Char) : Option Binary64 :=
  let whole := cs.takeWhile (isDigitOf 10)
  let (part, rest) := fraction (cs.dropWhile (isDigitOf 10))
  let scale? : Option Int :=
    match rest with
    | [] => some 0
    | c :: ds => if c = 'e' ∨ c = 'E' then exponent? ds else none
  if whole = [] ∧ part = [] then none
  else scale?.map fun scale => .ofDecimal (ofDigits (whole ++ part)) (scale - part.length)

end Decimal
end CSyntax
