import CSyntax.Parser.Statement

/-!
# Parser — the grammar closed over its own rules

* `Grammar.script` is the script of each rule;
* `Parser.runAt` carries a rule out with calls nested to a given depth;
* `Parser.runUnit` reads a whole text, with as much depth as the text can call for;
* `parse` gives the unit that was read.
-/

namespace CSyntax

namespace Grammar

def script : (f : Nonterminal) → Script f.Result
  | .expression limit => expression limit
  | .infixTail limit left => infixTail limit left
  | .postfixTail operand => postfixTail operand
  | .arguments => arguments
  | .adjacentStrings => adjacentStrings
  | .typeName => typeName
  | .specifierTail tally => specifierTail tally
  | .members => members
  | .memberDeclarators specifiers => memberDeclarators specifiers
  | .enumerators => enumerators
  | .pointerTail => pointerTail
  | .declarator mode => declarator mode
  | .suffixes => suffixes
  | .parameters => parameters
  | .initializerItems => initializerItems
  | .initDeclarators specifiers => initDeclarators specifiers
  | .statement => statement
  | .blockItems => blockItems
  | .externalDeclarations => externalDeclarations

end Grammar

namespace Parser

/-- Carries a rule out.  Calls that nest deeper than `depth` fail. -/
def runAt : (depth : Nat) → Script.Callee
  | 0, _, s =>
      (.error (.atPosition s.cursor.source.position (.internal .tooDeep)), s)
  | depth + 1, f, s => (Grammar.script f).run (runAt depth) s

/-- Reads a text to its end or to the first fault, and keeps the state that is reached.  Each call
of a rule stands behind a token taken since the call before it, so the calls nest no deeper than
the text has characters. -/
def runUnit (text : String) (file : Option String) :
    Except ParseError (List ExternalDeclaration) × ParserState :=
  let source := Source.ofString text file
  runAt (source.rest.length + 1) .externalDeclarations (.ofSource source)

end Parser

/-- Outcomes are equal if both are units or both failures, equal in all their parts. -/
instance instDecidableEqOutcome {ε α : Type} [DecidableEq ε] [DecidableEq α] :
    DecidableEq (Except ε α)
  | .ok a, .ok b => decidable_of_iff (a = b) (by simp)
  | .error e, .error f => decidable_of_iff (e = f) (by simp)
  | .ok _, .error _ => .isFalse (by simp)
  | .error _, .ok _ => .isFalse (by simp)

/-- The unit that a text is, or the first fault in it. -/
def parse (text : String) (file : Option String) : Except ParseError TranslationUnit :=
  (Parser.runUnit text file).1.map fun declarations => { declarations := declarations }

end CSyntax
