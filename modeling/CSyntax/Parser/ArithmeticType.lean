import CSyntax.Token.Keyword

/-!
# ArithmeticType — the types that keywords name

The keywords of an arithmetic type may stand in any order, so only how often each occurs counts.
Every combination that names a type has one canonical spelling: `int long unsigned` is
`unsigned long`, and a lone `unsigned` is `unsigned int`.
-/

namespace CSyntax
namespace ArithmeticType

/-- The words that no type repeats; `long` alone may stand twice. -/
def unrepeatable : List Keyword :=
  [.void, .char, .short, .int, .float, .double, .signed, .unsigned]

/-- The canonical spelling of the type that `words` name, if they name one. -/
def canonical? (words : List Keyword) : Option String :=
  let has (k : Keyword) : Bool := words.contains k
  let signed := has .signed || has .unsigned
  let sign (name : String) : String := if has .unsigned then "unsigned " ++ name else name
  if unrepeatable.any (1 < words.count ·) || 2 < words.count .long ||
      (has .signed && has .unsigned) then none
  else
    match has .void, has .char, has .short, words.count .long, has .float, has .double with
    | true, false, false, 0, false, false => if signed || has .int then none else some "void"
    | false, true, false, 0, false, false =>
        if has .int then none
        else if has .signed then some "signed char"
        else some (sign "char")
    | false, false, true, 0, false, false => some (sign "short")
    | false, false, false, 0, false, false =>
        if signed || has .int then some (sign "int") else none
    | false, false, false, 1, false, false => some (sign "long")
    | false, false, false, 2, false, false => some (sign "long long")
    | false, false, false, 0, true, false => if signed || has .int then none else some "float"
    | false, false, false, 0, false, true => if signed || has .int then none else some "double"
    | false, false, false, 1, false, true =>
        if signed || has .int then none else some "long double"
    | _, _, _, _, _, _ => none

/-- The words with one more, if it belongs to arithmetic types. -/
def count? (words : List Keyword) : Keyword → Option (List Keyword)
  | .void => some (words ++ [.void])
  | .char => some (words ++ [.char])
  | .short => some (words ++ [.short])
  | .int => some (words ++ [.int])
  | .long => some (words ++ [.long])
  | .float => some (words ++ [.float])
  | .double => some (words ++ [.double])
  | .signed => some (words ++ [.signed])
  | .unsigned => some (words ++ [.unsigned])
  | _ => none

theorem count?_of_isTypeWord {word : Keyword} (h : word.isTypeWord = true) (words : List Keyword) :
    count? words word = some (words ++ [word]) := by
  cases word <;> first | rfl | cases h

end ArithmeticType
end CSyntax
