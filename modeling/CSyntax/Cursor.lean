import CSyntax.Lexer.Basic

/-!
# Cursor — a place in the stream of tokens

Tokens are cut off the source when they are first looked at, so a word is classified by what is
declared at that moment.  Tokens that were looked at wait until they are taken; tokens that were
taken are kept while a mark is outstanding, so that the cursor can go back.

* `Cursor.peekNth` and `Cursor.advance` look at tokens and take them;
* `Cursor.mark`, `Cursor.reset` and `Cursor.release` remember a place and use the memory up;
* `Cursor.reclassify` brings waiting words up to date after a declaration.

An operation that fails has read up to the failure, and loses no token.
-/

namespace CSyntax

structure Cursor where
  source : Source
  /-- Tokens taken since there was last no mark outstanding, in order. -/
  kept : List Token
  /-- Tokens looked at and not taken, in order. -/
  pending : List Token
  /-- The number of outstanding marks. -/
  marks : Nat
  deriving DecidableEq

/-- A remembered place: how many tokens were kept before it. -/
structure Mark where
  place : Nat
  deriving DecidableEq

namespace Cursor

def ofSource (source : Source) : Cursor :=
  { source := source, kept := [], pending := [], marks := 0 }

/-- Cuts one more token off the source and lets it wait. -/
def pull (c : Cursor) (table : SymbolTable) : Except ParseError Token × Cursor :=
  match c.source.nextToken table with
  | (.ok token, source) => (.ok token, { c with source := source, pending := c.pending ++ [token] })
  | (.error error, source) => (.error error, { c with source := source })

/-- Pulls `k + 1` tokens and gives the last. -/
def pullNth (table : SymbolTable) : Nat → Cursor → Except ParseError Token × Cursor
  | 0, c => c.pull table
  | k + 1, c =>
      match c.pull table with
      | (.ok _, c) => pullNth table k c
      | (.error error, c) => (.error error, c)

/-- The token after the next `n` ones. -/
def peekNth (c : Cursor) (table : SymbolTable) (n : Nat) : Except ParseError Token × Cursor :=
  match c.pending[n]? with
  | some token => (.ok token, c)
  | none => c.pullNth table (n - c.pending.length)

def peek (c : Cursor) (table : SymbolTable) : Except ParseError Token × Cursor :=
  c.peekNth table 0

/-- Takes the next token.  It stays at hand only if there is a mark to go back to. -/
def advance (c : Cursor) (table : SymbolTable) : Except ParseError Token × Cursor :=
  match c.peek table with
  | (.ok token, c) =>
      let kept := if c.marks = 0 then [] else c.kept ++ [token]
      (.ok token, { c with kept := kept, pending := c.pending.tail })
  | (.error error, c) => (.error error, c)

def isMarked (c : Cursor) : Bool :=
  0 < c.marks

/-- Remembers the place before the next token. -/
def mark (c : Cursor) : Mark × Cursor :=
  ({ place := c.kept.length }, { c with marks := c.marks + 1 })

/-- Uses up one mark; with the last one the tokens taken are dropped. -/
def unmark (c : Cursor) : Cursor :=
  let marks := c.marks - 1
  { c with marks := marks, kept := if marks = 0 then [] else c.kept }

/-- Goes to a remembered place, which may lie before or after the present one. -/
def reset (c : Cursor) (m : Mark) : Cursor :=
  let tokens := c.kept ++ c.pending
  { c with kept := tokens.take m.place, pending := tokens.drop m.place }.unmark

/-- Forgets a remembered place and stays. -/
def release (c : Cursor) (_ : Mark) : Cursor :=
  c.unmark

/-- Classifies the waiting words again.  A keyword stays one, since no declaration of the grammar
makes a reserved word a type name. -/
def reclassify (c : Cursor) (table : SymbolTable) : Cursor :=
  { c with pending := c.pending.map fun token => { token with kind := refresh token.kind } }
where
  refresh : TokenKind → TokenKind
    | .identifier name | .typeName name =>
        if table.isTypeName name then .typeName name else .identifier name
    | kind => kind

end Cursor

end CSyntax
