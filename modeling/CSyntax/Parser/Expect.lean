import CSyntax.Parser.Script

/-!
# Expect — steps over single tokens

The requests as scripts, and the ways in which a rule deals with one token: to test it, to take it
if it fits, or to insist on it.
-/

namespace CSyntax
namespace Script

/-! ## Requests -/

def peek : Script Token :=
  .request (.peek 0) .done

def peekNth (n : Nat) : Script Token :=
  .request (.peek n) .done

def advance : Script Token :=
  .request .advance .done

def mark : Script Mark :=
  .request .mark .done

def reset (m : Mark) : Script Unit :=
  .request (.reset m) .done

def release (m : Mark) : Script Unit :=
  .request (.release m) .done

def enter (kind : ScopeKind) : Script Unit :=
  .request (.enter kind) .done

def leave (position : Position) : Script Unit :=
  .request (.leave position) .done

def declare (name : String) (meaning : Meaning) : Script Unit :=
  .request (.declare name meaning) .done

def declareEnumerator (name : String) : Script Unit :=
  .request (.declareEnumerator name) .done

/-- Calls a rule. -/
def rule (f : Nonterminal) : Script f.Result :=
  .call f .done

/-! ## Failures -/

/-- Refuses a token for a fault of the grammar. -/
def refuse {α : Type} (token : Token) (fault : GrammarFault) : Script α :=
  .fail (.atToken token (.grammatical fault))

/-- Gives up at a contradiction. -/
def contradict {α : Type} (position : Position) (fault : InternalFault) : Script α :=
  .fail (.atPosition position (.internal fault))

/-- Gives up at a token that is not what it was taken for. -/
def contradictAt {α : Type} (token : Token) (fault : InternalFault) : Script α :=
  .fail (.atToken token (.internal fault))

/-! ## Tests of the next token -/

def nextIs (kind : TokenKind) : Script Bool := do
  let token ← peek
  return token.kind = kind

/-- Takes the next token if it is of the kind, and tells whether it was. -/
def accept (kind : TokenKind) : Script Bool := do
  if ← nextIs kind then
    let _ ← advance
    return true
  else
    return false

/-- What comes behind a token that is taken if it is next, in two branches. -/
theorem accept_bind {α : Type} (kind : TokenKind) (next : Bool → Script α) :
    (accept kind >>= next) = nextIs kind >>= fun found =>
      if found = true then advance >>= fun _ => next true else next false := by
  unfold accept
  rw [bind_assoc]
  congr 1
  funext found
  cases found <;> rfl

/-- Takes the next token, which has to be of the kind. -/
def expect (kind : TokenKind) : Script Token := do
  let token ← peek
  if token.kind = kind then advance
  else refuse token (.expected kind token.kind)

def nextIsMark (mark : Punctuator) : Script Bool :=
  nextIs (.punctuator mark)

def acceptMark (mark : Punctuator) : Script Bool :=
  accept (.punctuator mark)

def expectMark (mark : Punctuator) : Script Token :=
  expect (.punctuator mark)

/-- Takes the next token, which has to be a word that is not reserved.  A type name will do, since
tags, members and labels have name spaces of their own. -/
def expectWord : Script String := do
  let token ← advance
  match token.kind with
  | .identifier name | .typeName name => return name
  | _ => refuse token (.expectedIdentifier token.kind)

/-- Takes the next token if it is a word that is not reserved. -/
def acceptWord : Script (Option String) := do
  let token ← peek
  match token.kind with
  | .identifier _ | .typeName _ => return some (← expectWord)
  | _ => return none

/-- The position of the next token. -/
def here : Script Position := do
  let token ← peek
  return token.position

end Script
end CSyntax
