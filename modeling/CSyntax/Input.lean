import CSyntax.Parser.Basic

/-!
# Input — units read from bytes

The bytes of a text are its UTF-8 form.  Bytes that are no text, or that cannot be had at all, are
a failure of their own, which names the file if there is one.
-/

namespace CSyntax

inductive ReadFault
  | missing
  | notText
  /-- Any other failure, as the system words it. -/
  | unreadable (reason : String)
  deriving DecidableEq

namespace ReadFault

def message : ReadFault → String
  | .missing => "No such file or directory (os error 2)"
  | .notText => "stream did not contain valid UTF-8"
  | .unreadable reason => reason

end ReadFault

structure ReadError where
  path : Option String
  fault : ReadFault
  deriving DecidableEq

namespace ReadError

def describe (error : ReadError) : String :=
  "could not read " ++ error.path.getD "input" ++ ": " ++ error.fault.message

end ReadError

inductive InputError
  | read (error : ReadError)
  | parse (error : ParseError)
  deriving DecidableEq

/-- The text that bytes are. -/
def decodeText (path : Option String) (bytes : ByteArray) : Except ReadError String :=
  match String.fromUTF8? bytes with
  | some text => .ok text
  | none => .error { path := path, fault := .notText }

/-- Reads a unit from bytes; `label` names them in positions and failures. -/
def parseBytes (bytes : ByteArray) (label : Option String) :
    Except InputError TranslationUnit := do
  let text ← (decodeText label bytes).mapError .read
  (parse text label).mapError .parse

/-- Reads a unit from what a file was found to hold. -/
def parseFile (path : String) (content : Except ReadFault ByteArray) :
    Except InputError TranslationUnit := do
  let bytes ← content.mapError fun fault => .read { path := some path, fault := fault }
  parseBytes bytes (some path)

end CSyntax
