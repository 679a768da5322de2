import CSyntax.Decimal.Binary64

/-!
# Shortest — the fewest decimal digits that read back

A finite positive number is the nearest of its format to every real of an interval around it.  The
shortest decimal is the one with the fewest digits in that interval, and among those of equal
length the one nearest to the number, the greater of two at equal distance.

With a number `n` of digits the candidates lie on a grid, and if any point of the grid is in the
interval then so is one of the two neighbours of the number.  So the search looks at those two on
ever finer grids.
-/

namespace CSyntax
namespace Decimal

/-- The reals that round to a number, as integers over one denominator. -/
structure Interval where
  value : Nat
  low : Nat
  high : Nat
  denominator : Nat
  /-- Whether the ends themselves round to the number. -/
  closed : Bool

/-- The interval of a finite positive number.  Its ends are half way to its neighbours, and the
neighbour below the first number of a block is half as far as the one above. -/
def interval (x : Binary64) : Interval :=
  let place := x.rank / Binary64.block
  let mantissa := if place = 0 then x.rank else Binary64.block + x.rank % Binary64.block
  let unit := Nat.pow 2 (place - 1)
  let below := if 1 < place ∧ mantissa = Binary64.block then 1 else 2
  { value := 4 * mantissa * unit
    low := (4 * mantissa - below) * unit
    high := (4 * mantissa + 2) * unit
    denominator := Nat.pow 2 1076
    closed := mantissa % 2 = 0 }

namespace Interval

/-- The interval in units of `10 ^ -places`. -/
def scale (i : Interval) (places : Nat) : Interval :=
  { i with
    value := i.value * Nat.pow 10 places
    low := i.low * Nat.pow 10 places
    high := i.high * Nat.pow 10 places }

/-- Whether `n`, over the interval's denominator, rounds to the number. -/
def contains (i : Interval) (n : Nat) : Bool :=
  if i.closed then i.low ≤ n && n ≤ i.high else i.low < n && n < i.high

/-- A multiple of `10 ^ k` next to the number and in the interval: the nearer neighbour if both
are, the upper one if they are equally near. -/
def neighbour? (i : Interval) (k : Nat) : Option Nat :=
  let step := i.denominator * Nat.pow 10 k
  let below := i.value / step
  let rest := i.value % step
  match i.contains (below * step), i.contains ((below + 1) * step) with
  | true, true => some (if 2 * rest < step then below else below + 1)
  | true, false => some below
  | false, true => some (below + 1)
  | false, false => none

/-- The first grid of spacing `10 ^ k`, `10 ^ (k - 1)`, … with a point in the interval: that point
and the spacing's exponent. -/
def search (i : Interval) : Nat → Nat × Nat
  | 0 => (i.value / i.denominator, 0)
  | k + 1 =>
      match i.neighbour? (k + 1) with
      | some n => (n, k + 1)
      | none => i.search k

end Interval

/-- Decimal places that leave every positive number of the format with an integer part. -/
def finestPlace : Nat := 400

/-- A decimal number: its significant digits stand right after the point, times a power of ten. -/
structure Scientific where
  digits : List Char
  point : Int

def dropTrailingZeros (digits : List Char) : List Char :=
  (digits.reverse.dropWhile (· = '0')).reverse

/-- The shortest decimal that rounds to a finite positive number. -/
def shortest (x : Binary64) : Scientific :=
  let scaled := (interval x).scale finestPlace
  let whole := Nat.toDigits 10 (scaled.value / scaled.denominator)
  let (n, k) := scaled.search (whole.length - 1)
  let digits := Nat.toDigits 10 n
  { digits := dropTrailingZeros digits
    point := (digits.length : Int) + k - finestPlace }

/-! ## Layout -/

/-- The powers of ten between which a number is written without an exponent. -/
structure Layout where
  /-- The least position of the point before the digits: zeros are written after the point. -/
  least : Int
  /-- The greatest position of the point in or after the digits. -/
  greatest : Int

/-- Positional writing, with a digit on either side of the point. -/
def Scientific.positional (s : Scientific) : List Char :=
  if s.point ≤ 0 then
    ['0', '.'] ++ List.replicate (-s.point).toNat '0' ++ s.digits
  else
    let before := s.point.toNat
    if before < s.digits.length then
      s.digits.take before ++ ['.'] ++ s.digits.drop before
    else
      s.digits ++ List.replicate (before - s.digits.length) '0' ++ ['.', '0']

/-- Writing with an exponent: one digit before the point, and no point if there is no other. -/
def Scientific.exponential (s : Scientific) : List Char :=
  let fraction :=
    match s.digits.tail with
    | [] => []
    | ds => '.' :: ds
  s.digits.take 1 ++ fraction ++ ['e'] ++ (toString (s.point - 1)).toList

def Layout.write (layout : Layout) (x : Binary64) : String :=
  if x = .zero then "0.0"
  else if Binary64.infinity.rank ≤ x.rank then "inf"
  else
    let s := shortest x
    String.ofList
      (if layout.least ≤ s.point ∧ s.point ≤ layout.greatest then s.positional else s.exponential)

end Decimal
end CSyntax
