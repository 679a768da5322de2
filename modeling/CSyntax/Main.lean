import CSyntax.CommandLine

/-!
# Main — the program

Reads the file that the arguments name and writes the answer to the two outputs.
-/

open CSyntax

/-- What a file holds. -/
def readContent (path : String) : IO (Except ReadFault ByteArray) := do
  try
    return .ok (← IO.FS.readBinFile path)
  catch
    | .noFileOrDirectory .. => return .error .missing
    | error => return .error (.unreadable (toString error))

def main (arguments : List String) : IO UInt32 := do
  let answer ←
    match CommandLine.Options.parse arguments with
    | .error fault => pure (.misused fault)
    | .ok options => pure (CommandLine.answer options (← readContent options.file))
  IO.print answer.output
  IO.eprint answer.errorOutput
  return UInt32.ofNat answer.exitCode
