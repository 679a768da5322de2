/-!
# Digit — characters that stand for numbers

The letters `a` to `f` of either case are digits behind `9`.  Which characters are digits depends on
the radix.
-/

namespace CSyntax
namespace Number

/-- The value of a digit of any radix up to sixteen; other characters have no digit's value. -/
def digitValue (c : Char) : Nat :=
  if '0' ≤ c ∧ c ≤ '9' then c.toNat - '0'.toNat
  else if 'a' ≤ c ∧ c ≤ 'f' then c.toNat - 'a'.toNat + 10
  else if 'A' ≤ c ∧ c ≤ 'F' then c.toNat - 'A'.toNat + 10
  else 16

def isDigitOf (radix : Nat) (c : Char) : Bool :=
  digitValue c < radix

end Number
end CSyntax
