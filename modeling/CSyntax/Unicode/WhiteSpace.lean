import CSyntax.Unicode.Ranges

/-!
# WhiteSpace — the characters that separate tokens

The property `White_Space`: the ASCII blanks and line ends, the no-break space and the spaces and
separators of general punctuation.
-/

namespace CSyntax
namespace Unicode

/-- The property `White_Space`. -/
def whiteSpaceRanges : Ranges :=
  [(0x9, 0xD), (0x20, 0x20), (0x85, 0x85), (0xA0, 0xA0), (0x1680, 0x1680), (0x2000, 0x200A),
    (0x2028, 0x2029), (0x202F, 0x202F), (0x205F, 0x205F), (0x3000, 0x3000)]

def isWhiteSpace (c : Char) : Bool :=
  whiteSpaceRanges.contains c.toNat

end Unicode
end CSyntax
