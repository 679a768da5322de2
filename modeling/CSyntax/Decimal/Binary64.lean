/-!
# Binary64 — non-negative floating numbers and rounding to them

The non-negative numbers of the 64-bit binary format are numbered in increasing order: zero has
rank 0, the infinity the last rank.  The rank is the number's 64-bit pattern read as an integer.
In each block of `2 ^ 52` ranks neighbours are equally far apart, and the distance doubles from one
block to the next, the first two blocks sharing the least distance `2 ^ -1074`.

* `Binary64.nearest` rounds a fraction to the nearest number, an exact half to the even rank;
* `Binary64.ofDecimal` does so for a decimal number `digits · 10 ^ exponent`.
-/

namespace CSyntax

/-- A non-negative number of the format, finite or infinite, by its place in increasing order. -/
structure Binary64 where
  rank : Nat
  deriving DecidableEq

namespace Binary64

/-- The number of ranks in a block of equally spaced numbers. -/
def block : Nat := Nat.pow 2 52

def zero : Binary64 := ⟨0⟩

def infinity : Binary64 := ⟨2047 * block⟩

/-- The integer nearest to `numerator / denominator`, the even one of two at equal distance. -/
def roundHalfEven (numerator denominator : Nat) : Nat :=
  let floor := numerator / denominator
  let rest := numerator % denominator
  if 2 * rest < denominator then floor
  else if 2 * rest > denominator then floor + 1
  else if floor % 2 = 0 then floor
  else floor + 1

/-- The number nearest to `numerator / denominator`; one past the largest is the infinity. -/
def nearest (numerator denominator : Nat) : Binary64 :=
  let scaled := numerator * Nat.pow 2 1074
  -- The least spacing `2 ^ (shift - 1074)` at which the fraction needs no more than 53 bits.
  let shift := (scaled / denominator).log2 - 52
  let rank := shift * block + roundHalfEven scaled (denominator * Nat.pow 2 shift)
  if rank < infinity.rank then ⟨rank⟩ else infinity

/-- The number nearest to `digits · 10 ^ exponent`.  Magnitudes that certainly round to zero or to
the infinity are told by the number of digits, so that no exponent is too large to compute with. -/
def ofDecimal (digits : Nat) (exponent : Int) : Binary64 :=
  if digits = 0 then zero
  else
    let magnitude : Int := (Nat.toDigits 10 digits).length + exponent
    if magnitude > 310 then infinity
    else if magnitude < -330 then zero
    else if 0 ≤ exponent then nearest (digits * Nat.pow 10 exponent.toNat) 1
    else nearest digits (Nat.pow 10 (-exponent).toNat)

end Binary64

end CSyntax
