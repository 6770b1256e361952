import MixedRadix.CommandLine

/-!
# The program
-/

namespace MixedRadix

/-- The error of a failed access to a file. -/
def FileError.ofSystem : IO.Error → FileError
  | .noFileOrDirectory _ code details
  | .permissionDenied _ code details
  | .inappropriateType _ code details
  | .alreadyExists _ code details
  | .invalidArgument _ code details
  | .resourceExhausted _ code details
  | .noSuchThing _ code details
  | .otherError code details
  | .resourceBusy code details
  | .illegalOperation code details
  | .hardwareFault code details => .ofCode code.toNat details
  | e => { reason := toString e }

/-- The files of the system. -/
def systemFiles : FileSystem IO where
  read path := do
    try return .ok (← IO.FS.readFile path)
    catch e => return .error (.ofSystem e)
  write path text := do
    try
      IO.FS.writeFile path text
      return .ok ()
    catch e => return .error (.ofSystem e)

end MixedRadix

/-- Runs the program on the arguments and prints what it has to say. -/
def main (args : List String) : IO UInt32 := do
  let outcome ← MixedRadix.CommandLine.run MixedRadix.systemFiles args
  IO.print outcome.stdout
  IO.eprint outcome.stderr
  return outcome.exitCode.toUInt32
