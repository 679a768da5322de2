import CSyntax.Dump
import CSyntax.Input
import CSyntax.Report
import CSyntax.Tree.Describe

/-!
# CommandLine — what the program answers to its arguments

The program takes one file.  It prints a line for each declared name, or the whole tree if asked
to.  A file that is no unit is reported and the program ends with exit code 1; a file that cannot
be read, or arguments that make no sense, end it with exit code 2.

* `CommandLine.Options.parse` reads the arguments;
* `CommandLine.answer` is the answer for what the file was found to hold;
* `CommandLine.run` does both where the files are given as a function.
-/

namespace CSyntax

/-! ## The summary of a unit -/

namespace Declaration

def summary (d : Declaration) : String :=
  let role := if d.isTypedef then "typedef" else "declaration"
  d.position.describe ++ ": " ++ role ++ " " ++ d.name ++ ": " ++ d.type.describe

end Declaration

namespace ExternalDeclaration

def summary : ExternalDeclaration → List String
  | .function f => [f.position.describe ++ ": function " ++ f.name ++ ": " ++ f.type.describe]
  | .declaration group =>
      match group.declarations with
      | [] => [group.position.describe ++ ": " ++ group.base.describe]
      | declarations => declarations.map (·.summary)

end ExternalDeclaration

namespace TranslationUnit

/-- A line for each function, each declared name and each group without names. -/
def summary (unit : TranslationUnit) : List String :=
  unit.declarations.flatMap (·.summary)

end TranslationUnit

namespace CommandLine

/-! ## Arguments -/

structure Options where
  file : String
  /-- Whether to print the whole tree. -/
  dump : Bool
  deriving DecidableEq

inductive UsageFault
  | noFile
  | surplus (argument : String)
  | unknown (option : String)
  deriving DecidableEq

namespace UsageFault

def message : UsageFault → String
  | .noFile => "error: no file was given"
  | .surplus argument => "error: one file is enough, but '" ++ argument ++ "' was given too"
  | .unknown option => "error: unknown option '" ++ option ++ "'"

end UsageFault

namespace Options

/-- Adds a file to what has been read. -/
def addFile (file : Option String) (argument : String) : Except UsageFault (Option String) :=
  match file with
  | none => .ok (some argument)
  | some _ => .error (.surplus argument)

/-- Whether an argument asks for more messages along the way, of which there are none. -/
def isVerbosity (argument : String) : Bool :=
  argument = "--verbose" ||
    match argument.toList with
    | '-' :: c :: cs => c = 'v' && cs.all (· = 'v')
    | _ => false

/-- Reads arguments behind a file and a wish for the tree.  `--` ends the options. -/
def read (file : Option String) (dump : Bool) : List String → Except UsageFault Options
  | [] =>
      match file with
      | some file => .ok { file := file, dump := dump }
      | none => .error .noFile
  | argument :: arguments =>
      if argument = "--" then do
        let file ← arguments.foldlM addFile file
        match file with
        | some file => .ok { file := file, dump := dump }
        | none => .error .noFile
      else if argument = "--dump-ast" then read file true arguments
      else if isVerbosity argument then read file dump arguments
      else if argument.startsWith "-" && argument ≠ "-" then .error (.unknown argument)
      else do
        let file ← addFile file argument
        read file dump arguments

def parse (arguments : List String) : Except UsageFault Options :=
  read none false arguments

end Options

/-! ## Answers -/

inductive Answer
  | printed (text : String)
  | reported (report : Report)
  | unread (error : ReadError)
  | misused (fault : UsageFault)
  deriving DecidableEq

namespace Answer

def exitCode : Answer → Nat
  | .printed _ => 0
  | .reported _ => 1
  | .unread _ | .misused _ => 2

def output : Answer → String
  | .printed text => text
  | _ => ""

/-- What goes to the error output. -/
def errorOutput : Answer → String
  | .printed _ => ""
  | .reported report =>
      report.header ++ "\n  at " ++ report.location ++ "\n  " ++ report.message ++ "\n"
  | .unread error => error.describe ++ "\n"
  | .misused fault => fault.message ++ "\n"

end Answer

def lines (texts : List String) : String :=
  String.join (texts.map (· ++ "\n"))

/-- The answer where the file was found to hold `content`. -/
def answer (options : Options) (content : Except ReadFault ByteArray) : Answer :=
  let decoded : Except ReadError String := do
    let bytes ← content.mapError fun fault => { path := some options.file, fault := fault }
    decodeText (some options.file) bytes
  match decoded with
  | .error error => .unread error
  | .ok text =>
      match parse text (some options.file) with
      | .error error => .reported (error.report text)
      | .ok unit => .printed (if options.dump then unit.dump ++ "\n" else lines unit.summary)

/-- The answer to arguments, where `files` tells what the files hold. -/
def run (files : String → Except ReadFault ByteArray) (arguments : List String) : Answer :=
  match Options.parse arguments with
  | .error fault => .misused fault
  | .ok options => answer options (files options.file)

end CommandLine

end CSyntax
