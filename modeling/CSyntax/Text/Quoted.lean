import CSyntax.Unicode.DefaultIgnorable
import CSyntax.Unicode.GraphemeExtend
import CSyntax.Unicode.Printable

/-!
# Quoted — characters and strings between quotes

Quoted text shows every character as it is, except that the quote of its own kind, the backslash
and four control characters have a letter after a backslash, and that a character which cannot be
seen by itself is written as its code point in braces.

* `Text.standsAlone` tells which characters can be seen by themselves;
* `Text.escape` writes one character, `Text.quoteChar` and `Text.quoteString` a whole text.
-/

namespace CSyntax
namespace Text

/-- The halfwidth voiced and semi-voiced sound marks of Katakana.  They extend a grapheme, but fill
a cell of their own. -/
def isHalfwidthSoundMark (c : Char) : Bool :=
  c = '\uff9e' || c = '\uff9f'

/-- A character merges with the one before it if it extends a grapheme and fills no cell. -/
def merges (c : Char) : Bool :=
  Unicode.isGraphemeExtend c && !isHalfwidthSoundMark c

/-- A character can be seen by itself if it is printable, has a form, and does not merge with what
stands before it. -/
def standsAlone (c : Char) : Bool :=
  Unicode.isPrintable c && !Unicode.isDefaultIgnorable c && !merges c

/-- The code point in lower-case hexadecimal, without padding, in braces. -/
def codePointEscape (c : Char) : List Char :=
  ['\\', 'u', '\x7b'] ++ Nat.toDigits 16 c.toNat ++ ['\x7d']

/-- A character of a text between two `quote` characters. -/
def escape (quote c : Char) : List Char :=
  if c = quote then ['\\', c]
  else
    match c with
    | '\x00' => ['\\', '0']
    | '\t' => ['\\', 't']
    | '\r' => ['\\', 'r']
    | '\n' => ['\\', 'n']
    | '\\' => ['\\', '\\']
    | c =>
        if standsAlone c then [c]
        else codePointEscape c

def quoteChar (c : Char) : String :=
  String.ofList (['\''] ++ escape '\'' c ++ ['\''])

def quoteString (s : String) : String :=
  String.ofList (['"'] ++ s.toList.flatMap (escape '"') ++ ['"'])

end Text
end CSyntax
