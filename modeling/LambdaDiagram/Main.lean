import LambdaDiagram.CommandLine.Run

/-!
The program: a command line carried out on the file system of the machine.
-/

namespace LambdaDiagram

namespace CommandLine

/-- The cause behind an error number of the machine and its text. Some numbers come negated. -/
def FileError.ofCode (code : UInt32) (details : String) : FileError :=
  let code := if code < 0x80000000 then code else -code
  if code = 2 then notFound
  else if code = 20 then notDirectory
  else if code = 21 then isDirectory
  else if code = 36 then nameTooLong
  else other s!"{details} (os error {code})"

/-- Why the machine refuses a file. -/
def FileError.ofMachine : IO.Error → FileError
  | .noFileOrDirectory _ code details | .inappropriateType _ code details
  | .invalidArgument _ code details | .permissionDenied _ code details
  | .resourceExhausted _ code details | .noSuchThing _ code details
  | .otherError code details => ofCode code details
  | e => other (toString e)

instance : Files IO where
  read path := do
    try
      match String.fromUTF8? (← IO.FS.readBinFile path) with
      | some text => return .ok text
      | none => return .error (.other "stream did not contain valid UTF-8")
    catch e => return .error (FileError.ofMachine e)
  write path text := do
    try
      IO.FS.writeFile path text
      return .ok ()
    catch e => return .error (FileError.ofMachine e)

end CommandLine

end LambdaDiagram

/-- Carry out the command line, print what it reports and exit. -/
def main (args : List String) : IO UInt32 := do
  let report ← LambdaDiagram.CommandLine.run "lgg" args
  IO.print report.stdout
  IO.eprint report.stderr
  return report.code.toUInt32
