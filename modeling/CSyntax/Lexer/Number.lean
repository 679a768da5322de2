import CSyntax.Decimal.Constant
import CSyntax.Lexer.Lexeme
import CSyntax.Unicode.Alphanumeric

/-!
# Number — integer and floating constants

An integer is decimal, octal after a leading zero, hexadecimal after `0x` or binary after `0b`, and
may end in any letters `u` and `l`.  A floating constant is decimal with a fraction, an exponent or
both, and may end in one letter `f` or `l`.  Suffixes leave no trace in the lexeme.

A number may not run into a letter, a digit, an underscore or a point.  What it runs into is
swallowed, so that the message shows it; the text of such a malformed number leaves out the suffix
letters that were read before the fault was seen.
-/

namespace CSyntax
namespace Number

/-! ## Digits -/

inductive DigitFault
  | outOfRadix
  | overflow
  deriving DecidableEq

/-- The value of digits, the earlier ones of which have the value `value`.  The first digit that
does not belong to the radix or takes the value past 64 bits decides the fault. -/
def evaluate (radix : Nat) (value : Nat) : List Char → Except DigitFault Nat
  | [] => .ok value
  | c :: cs =>
      let next := value * radix + digitValue c
      if radix ≤ digitValue c then .error .outOfRadix
      else if UInt64.size ≤ next then .error .overflow
      else evaluate radix next cs

/-- The mark of a radix that a number begins with, letters in lower case. -/
def radixMark : List Char → List Char
  | '0' :: 'x' :: _ | '0' :: 'X' :: _ => ['0', 'x']
  | '0' :: 'b' :: _ | '0' :: 'B' :: _ => ['0', 'b']
  | _ => []

/-- The radix that a mark and the digits after it select. -/
def radix (mark digits : List Char) : Nat :=
  if mark = ['0', 'x'] then 16
  else if mark = ['0', 'b'] then 2
  else if 1 < digits.length ∧ digits.head? = some '0' then 8
  else 10

/-! ## What may and may not follow -/

def isIntegerSuffix (c : Char) : Bool :=
  c = 'u' || c = 'U' || c = 'l' || c = 'L'

def isFloatingSuffix (c : Char) : Bool :=
  c = 'f' || c = 'F' || c = 'l' || c = 'L'

/-- What a number may not run into. -/
def isGlue (c : Char) : Bool :=
  Unicode.isAlphanumeric c || c = '_' || c = '.'

/-- A number with text `text` whose `length` characters are followed by `rest`, refused together
with what it runs into. -/
def malformed (text : List Char) (length : Nat) (rest : List Char) :
    Except LexicalFault Lexeme × Nat :=
  let glue := rest.takeWhile isGlue
  (.error (.malformedNumber (String.ofList (text ++ glue))), length + glue.length)

/-! ## Floating constants -/

/-- The point and the digits after it, if the text begins with a point. -/
def fraction : List Char → List Char
  | '.' :: cs => '.' :: cs.takeWhile (isDigitOf 10)
  | _ => []

/-- The letter, the sign and the digits of an exponent that the text begins with, in two pieces:
what precedes the digits, and the digits. -/
def exponent : List Char → List Char × List Char
  | c :: cs =>
      if c = 'e' ∨ c = 'E' then
        let sign := (cs.take 1).takeWhile fun s => s = '+' || s = '-'
        (c :: sign, (cs.drop sign.length).takeWhile (isDigitOf 10))
      else ([], [])
  | [] => ([], [])

/-- A floating constant with integer digits `digits`, which may be none, and the text after them. -/
def scanFloating (digits rest : List Char) : Except LexicalFault Lexeme × Nat :=
  let fraction := fraction rest
  let rest := rest.drop fraction.length
  let (introduction, power) := exponent rest
  let text := digits ++ fraction ++ introduction ++ power
  let rest := rest.drop (introduction ++ power).length
  if introduction ≠ [] ∧ power = [] then malformed text text.length rest
  else
    let suffix := (rest.take 1).takeWhile isFloatingSuffix
    let rest := rest.drop suffix.length
    let length := text.length + suffix.length
    if rest.head?.any isGlue then malformed text length rest
    else (.ok (.floating (String.ofList text)), length)

/-! ## Constants of either kind -/

/-- Whether the text after decimal digits makes them the start of a floating constant. -/
def continuesFloating : List Char → Bool
  | c :: _ => c = '.' || c = 'e' || c = 'E'
  | [] => false

/-- The constant at the start of a text that begins with a digit, or with a point and a digit. -/
def scan (cs : List Char) : Except LexicalFault Lexeme × Nat :=
  let mark := radixMark cs
  let body := cs.drop mark.length
  let isDigit := isDigitOf (if mark = ['0', 'x'] then 16 else 10)
  let digits := body.takeWhile isDigit
  let rest := body.dropWhile isDigit
  if mark = [] ∧ continuesFloating rest then scanFloating digits rest
  else
    let suffix := rest.takeWhile isIntegerSuffix
    let rest := rest.dropWhile isIntegerSuffix
    let text := mark ++ digits
    let length := text.length + suffix.length
    if digits = [] ∨ rest.head?.any isGlue then malformed text length rest
    else
      match evaluate (radix mark digits) 0 digits with
      | .ok value => (.ok (.integer (UInt64.ofNat value)), length)
      | .error .outOfRadix => malformed text length rest
      | .error .overflow => (.error .integerOverflow, length)

end Number
end CSyntax
