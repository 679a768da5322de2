import CSyntax.Cursor
import CSyntax.Parser.Declarator
import CSyntax.Parser.Precedence

/-!
# Script — rules of the grammar as data

A rule asks for tokens, declares words, opens and closes scopes, fails, or calls a rule of the
grammar.  A `Script` is such a course of action, with a continuation for each answer.  It touches
no state, so what a rule does is open to inspection; `Script.run` carries it out.

* `Request` lists what a rule can ask for and `Request.perform` what happens then;
* `Nonterminal` names the rules that are called, with the type of what each reads;
* `Script` strings requests and calls together and is a lawful monad.

A script calls rules only behind a token that it has taken.  Calls then nest no deeper than the
text has tokens, and `Script.run` can be closed over the grammar by recursion on the depth.
-/

namespace CSyntax

/-! ## State and requests -/

/-- The tokens ahead and what is declared. -/
structure ParserState where
  cursor : Cursor
  table : SymbolTable
  deriving DecidableEq

namespace ParserState

def ofSource (source : Source) : ParserState :=
  { cursor := .ofSource source, table := .empty }

/-- Puts another table in force.  Words that were looked at already are classified anew. -/
def withTable (s : ParserState) (table : SymbolTable) : ParserState :=
  { cursor := s.cursor.reclassify table, table := table }

end ParserState

inductive Request
  /-- The token after the next `n` ones. -/
  | peek (n : Nat)
  /-- The next token, which is taken. -/
  | advance
  | mark
  | reset (m : Mark)
  | release (m : Mark)
  | enter (kind : ScopeKind)
  /-- Leaves the innermost scope; the position is where a failure would be reported. -/
  | leave (position : Position)
  | declare (name : String) (meaning : Meaning)
  | declareEnumerator (name : String)

namespace Request

/-- The type of the answer. -/
abbrev Answer : Request → Type
  | .peek _ => Token
  | .advance => Token
  | .mark => Mark
  | _ => Unit

def perform : (r : Request) → ParserState → Except ParseError r.Answer × ParserState
  | .peek n, s =>
      let (outcome, cursor) := s.cursor.peekNth s.table n
      (outcome, { s with cursor := cursor })
  | .advance, s =>
      let (outcome, cursor) := s.cursor.advance s.table
      (outcome, { s with cursor := cursor })
  | .mark, s =>
      let (m, cursor) := s.cursor.mark
      (.ok m, { s with cursor := cursor })
  | .reset m, s => (.ok (), { s with cursor := s.cursor.reset m })
  | .release m, s => (.ok (), { s with cursor := s.cursor.release m })
  | .enter kind, s => (.ok (), { s with table := s.table.enter kind })
  | .leave position, s =>
      match s.table.leave? with
      | some table => (.ok (), s.withTable table)
      | none => (.error (.atPosition position (.internal .fileScopeLeft)), s)
  | .declare name meaning, s => (.ok (), s.withTable (s.table.declare name meaning))
  | .declareEnumerator name, s => (.ok (), s.withTable (s.table.declareEnumerator name))

end Request

/-! ## Rules that are called -/

/-- The rules of the grammar that a script may call.  What a rule was begun with is its argument:
the operand to which operators are added, or the specifiers of a declaration. -/
inductive Nonterminal
  /-- An expression with operators of the level and tighter ones. -/
  | expression (limit : Precedence)
  /-- Operators after an operand, with what stands to their right. -/
  | infixTail (limit : Precedence) (left : Expr)
  /-- Subscripts, calls, members and increments after an operand. -/
  | postfixTail (operand : Expr)
  /-- One or more arguments of a call. -/
  | arguments
  /-- String literals that follow a string literal, joined. -/
  | adjacentStrings
  | typeName
  /-- Further specifiers. -/
  | specifierTail (tally : SpecifierTally)
  /-- The members of a record, up to the closing brace. -/
  | members
  /-- The declarators of a member declaration. -/
  | memberDeclarators (specifiers : Specifiers)
  /-- Enumeration constants, up to the closing brace. -/
  | enumerators
  /-- Qualifiers and further asterisks after an asterisk, which are counted. -/
  | pointerTail
  | declarator (mode : DeclaratorMode)
  /-- The brackets and parameter lists after a declarator. -/
  | suffixes
  /-- One or more parameters, and whether an ellipsis ends them. -/
  | parameters
  /-- The items of an initializer list, up to the closing brace. -/
  | initializerItems
  /-- Declarators after a comma, with their initial values. -/
  | initDeclarators (specifiers : Specifiers)
  | statement
  /-- Declarations and statements, up to the closing brace. -/
  | blockItems
  /-- Declarations and function definitions, up to the end of the text. -/
  | externalDeclarations

/-- The type of what a rule reads. -/
abbrev Nonterminal.Result : Nonterminal → Type
  | .expression _ => Expr
  | .infixTail _ _ => Expr
  | .postfixTail _ => Expr
  | .arguments => List Expr
  | .adjacentStrings => String
  | .typeName => CType
  | .specifierTail _ => SpecifierTally
  | .members => List Member
  | .memberDeclarators _ => List Member
  | .enumerators => List Enumerator
  | .pointerTail => Nat
  | .declarator _ => Declarator
  | .suffixes => List TypeModifier
  | .parameters => List Parameter × Bool
  | .initializerItems => List Expr
  | .initDeclarators _ => List Declaration
  | .statement => Statement
  | .blockItems => List Statement
  | .externalDeclarations => List ExternalDeclaration

/-! ## Scripts -/

/-- A course of action that ends in a value or in a failure. -/
inductive Script (α : Type) : Type where
  | done (value : α)
  | fail (error : ParseError)
  | request (r : Request) (next : r.Answer → Script α)
  | call (f : Nonterminal) (next : f.Result → Script α)

namespace Script

variable {α β γ : Type}

def bind : Script α → (α → Script β) → Script β
  | .done value, k => k value
  | .fail error, _ => .fail error
  | .request r next, k => .request r fun answer => (next answer).bind k
  | .call f next, k => .call f fun result => (next result).bind k

instance : Monad Script where
  pure := .done
  bind := .bind

theorem bind_done (x : Script α) : x.bind .done = x := by
  induction x with
  | done _ => rfl
  | fail _ => rfl
  | request _ _ ih => exact congrArg _ (funext ih)
  | call _ _ ih => exact congrArg _ (funext ih)

theorem bind_bind (x : Script α) (k : α → Script β) (l : β → Script γ) :
    (x.bind k).bind l = x.bind fun a => (k a).bind l := by
  induction x with
  | done _ => rfl
  | fail _ => rfl
  | request _ _ ih => exact congrArg _ (funext ih)
  | call _ _ ih => exact congrArg _ (funext ih)

instance : LawfulMonad Script :=
  LawfulMonad.mk' Script bind_done (fun _ _ => rfl) bind_bind

/-- What a rule does when it is called. -/
abbrev Callee := (f : Nonterminal) → ParserState → Except ParseError f.Result × ParserState

/-- Carries a script out, with `callee` for the rules that it calls. -/
def run (callee : Callee) : Script α → ParserState → Except ParseError α × ParserState
  | .done value, s => (.ok value, s)
  | .fail error, s => (.error error, s)
  | .request r next, s =>
      match r.perform s with
      | (.ok answer, s) => (next answer).run callee s
      | (.error error, s) => (.error error, s)
  | .call f next, s =>
      match callee f s with
      | (.ok result, s) => (next result).run callee s
      | (.error error, s) => (.error error, s)

theorem run_bind (callee : Callee) (x : Script α) (k : α → Script β) (s : ParserState) :
    (x.bind k).run callee s =
      match x.run callee s with
      | (.ok a, s) => (k a).run callee s
      | (.error error, s) => (.error error, s) := by
  induction x generalizing s with
  | done _ => rfl
  | fail _ => rfl
  | request r next ih =>
      simp only [bind, run]
      rcases r.perform s with ⟨_ | answer, t⟩
      · rfl
      · exact ih answer t
  | call f next ih =>
      simp only [bind, run]
      rcases callee f s with ⟨_ | result, t⟩
      · rfl
      · exact ih result t

end Script

end CSyntax
