/-!
# Punctuator — the forty-six operators and separators

One spelling may serve several purposes: `*` is a pointer, a dereference or a product, `&` an
address or a bitwise operator.  The grammar decides by context, so each spelling is one punctuator.

* `Punctuator.read?` decides by the first characters of a text which punctuator it begins with;
* `Punctuator.longest?` is the longest spelling that a text begins with, and `read?` finds it.
-/

namespace CSyntax

inductive Punctuator
  | openParen
  | closeParen
  | openBrace
  | closeBrace
  | openBracket
  | closeBracket
  | comma
  | semicolon
  | colon
  | question
  | point
  | arrow
  | increment
  | decrement
  | plus
  | minus
  | asterisk
  | slash
  | percent
  | exclamation
  | tilde
  | ampersand
  | shiftLeft
  | shiftRight
  | less
  | lessEqual
  | greater
  | greaterEqual
  | equal
  | notEqual
  | caret
  | bar
  | doubleAmpersand
  | doubleBar
  | assign
  | plusAssign
  | minusAssign
  | asteriskAssign
  | slashAssign
  | percentAssign
  | shiftLeftAssign
  | shiftRightAssign
  | ampersandAssign
  | caretAssign
  | barAssign
  | ellipsis
  deriving DecidableEq

namespace Punctuator

def all : List Punctuator :=
  [.openParen, .closeParen, .openBrace, .closeBrace, .openBracket, .closeBracket, .comma,
    .semicolon, .colon, .question, .point, .arrow, .increment, .decrement, .plus, .minus,
    .asterisk, .slash, .percent, .exclamation, .tilde, .ampersand, .shiftLeft, .shiftRight, .less,
    .lessEqual, .greater, .greaterEqual, .equal, .notEqual, .caret, .bar, .doubleAmpersand,
    .doubleBar, .assign, .plusAssign, .minusAssign, .asteriskAssign, .slashAssign, .percentAssign,
    .shiftLeftAssign, .shiftRightAssign, .ampersandAssign, .caretAssign, .barAssign, .ellipsis]

def characters : Punctuator → List Char
  | .openParen => ['(']
  | .closeParen => [')']
  | .openBrace => ['\x7b']
  | .closeBrace => ['\x7d']
  | .openBracket => ['[']
  | .closeBracket => [']']
  | .comma => [',']
  | .semicolon => [';']
  | .colon => [':']
  | .question => ['?']
  | .point => ['.']
  | .arrow => ['-', '>']
  | .increment => ['+', '+']
  | .decrement => ['-', '-']
  | .plus => ['+']
  | .minus => ['-']
  | .asterisk => ['*']
  | .slash => ['/']
  | .percent => ['%']
  | .exclamation => ['!']
  | .tilde => ['~']
  | .ampersand => ['&']
  | .shiftLeft => ['<', '<']
  | .shiftRight => ['>', '>']
  | .less => ['<']
  | .lessEqual => ['<', '=']
  | .greater => ['>']
  | .greaterEqual => ['>', '=']
  | .equal => ['=', '=']
  | .notEqual => ['!', '=']
  | .caret => ['^']
  | .bar => ['|']
  | .doubleAmpersand => ['&', '&']
  | .doubleBar => ['|', '|']
  | .assign => ['=']
  | .plusAssign => ['+', '=']
  | .minusAssign => ['-', '=']
  | .asteriskAssign => ['*', '=']
  | .slashAssign => ['/', '=']
  | .percentAssign => ['%', '=']
  | .shiftLeftAssign => ['<', '<', '=']
  | .shiftRightAssign => ['>', '>', '=']
  | .ampersandAssign => ['&', '=']
  | .caretAssign => ['^', '=']
  | .barAssign => ['|', '=']
  | .ellipsis => ['.', '.', '.']

def spelling (p : Punctuator) : String :=
  String.ofList p.characters

def ofCharacters? (cs : List Char) : Option Punctuator :=
  all.find? fun p => p.characters = cs

/-! ## Reading -/

/-- The punctuator at the start of a text and the number of its characters, by the first character
and the ones behind it.  Two points are two punctuators. -/
def read? (first : Char) (behind : List Char) : Option (Punctuator × Nat) :=
  let next := behind.head?.getD ' '
  match first with
  | '[' => some (.openBracket, 1)
  | ']' => some (.closeBracket, 1)
  | '\x7b' => some (.openBrace, 1)
  | '\x7d' => some (.closeBrace, 1)
  | '(' => some (.openParen, 1)
  | ')' => some (.closeParen, 1)
  | ';' => some (.semicolon, 1)
  | '?' => some (.question, 1)
  | ':' => some (.colon, 1)
  | '~' => some (.tilde, 1)
  | ',' => some (.comma, 1)
  | '!' =>
      match next with
      | '=' => some (.notEqual, 2)
      | _ => some (.exclamation, 1)
  | '&' =>
      match next with
      | '&' => some (.doubleAmpersand, 2)
      | '=' => some (.ampersandAssign, 2)
      | _ => some (.ampersand, 1)
  | '=' =>
      match next with
      | '=' => some (.equal, 2)
      | _ => some (.assign, 1)
  | '*' =>
      match next with
      | '=' => some (.asteriskAssign, 2)
      | _ => some (.asterisk, 1)
  | '+' =>
      match next with
      | '+' => some (.increment, 2)
      | '=' => some (.plusAssign, 2)
      | _ => some (.plus, 1)
  | '-' =>
      match next with
      | '-' => some (.decrement, 2)
      | '=' => some (.minusAssign, 2)
      | '>' => some (.arrow, 2)
      | _ => some (.minus, 1)
  | '%' =>
      match next with
      | '=' => some (.percentAssign, 2)
      | _ => some (.percent, 1)
  | '^' =>
      match next with
      | '=' => some (.caretAssign, 2)
      | _ => some (.caret, 1)
  | '>' =>
      match next with
      | '>' => if behind[1]? = some '=' then some (.shiftRightAssign, 3) else some (.shiftRight, 2)
      | '=' => some (.greaterEqual, 2)
      | _ => some (.greater, 1)
  | '<' =>
      match next with
      | '<' => if behind[1]? = some '=' then some (.shiftLeftAssign, 3) else some (.shiftLeft, 2)
      | '=' => some (.lessEqual, 2)
      | _ => some (.less, 1)
  | '|' =>
      match next with
      | '|' => some (.doubleBar, 2)
      | '=' => some (.barAssign, 2)
      | _ => some (.bar, 1)
  | '/' =>
      match next with
      | '=' => some (.slashAssign, 2)
      | _ => some (.slash, 1)
  | '.' =>
      if next = '.' ∧ behind[1]? = some '.' then some (.ellipsis, 3) else some (.point, 1)
  | _ => none

/-- The longest punctuator at the start of a text; none has more than three characters. -/
def longest? (cs : List Char) : Option Punctuator :=
  ofCharacters? (cs.take 3) <|> ofCharacters? (cs.take 2) <|> ofCharacters? (cs.take 1)

/-! ## The spelling determines the punctuator -/

theorem ofCharacters?_eq_some {cs : List Char} {p : Punctuator} (h : ofCharacters? cs = some p) :
    p.characters = cs := by
  simpa using List.find?_some h

@[simp] theorem ofCharacters?_characters (p : Punctuator) :
    ofCharacters? p.characters = some p := by
  cases p <;> decide

theorem characters_injective {p q : Punctuator} (h : p.characters = q.characters) : p = q := by
  simpa [h] using (ofCharacters?_characters p).symm

theorem length_characters (p : Punctuator) : 0 < p.characters.length ∧ p.characters.length ≤ 3 := by
  cases p <;> decide

/-! ## What is read is a spelling -/

variable {mark : Punctuator} {first : Char} {behind : List Char} {n : Nat}

/-- What is read stands at the start of the text. -/
theorem characters_of_read? (h : read? first behind = some (mark, n)) :
    mark.characters = (first :: behind).take n ∧ mark.characters.length = n := by
  unfold read? at h
  -- Three characters decide, as far as the text has them.
  rcases behind with _ | ⟨second, _ | ⟨third, rest⟩⟩ <;> dsimp at h <;>
    (repeat' split at h) <;> cases h <;> simp_all [characters]

/-- Where a text begins with a punctuator, no shorter one is read. -/
theorem exists_read? (h : mark.characters <+: first :: behind) :
    ∃ other n, read? first behind = some (other, n) ∧ mark.characters.length ≤ n := by
  obtain ⟨rest, hrest⟩ := h
  cases mark <;>
    simp only [characters, List.cons_append, List.nil_append, List.cons.injEq] at hrest <;>
    obtain ⟨rfl, rfl⟩ := hrest <;>
    simp only [read?, List.head?_cons, Option.getD_some, List.getElem?_cons_succ,
      List.getElem?_cons_zero, and_self, if_true] <;>
    (repeat' split) <;> exact ⟨_, _, rfl, by decide⟩

end Punctuator

end CSyntax
