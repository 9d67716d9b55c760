import TagWire.Cli.Run

/-!
# The program

Reads files and prints for the command line.
-/

namespace TagWire.Cli

/-- The fault behind a failure of the operating system. -/
def fileFault : IO.Error → FileFault
  | .noFileOrDirectory .. => .missing
  | .permissionDenied .. => .denied
  | .inappropriateType _ 21 _ => .directory
  | .inappropriateType .. => .notDirectory
  | .invalidArgument _ 36 _ => .nameTooLong
  | e => .other (toString e)

/-- What an action gives, unless the operating system keeps it from that. -/
def attempt {α : Type} (action : IO α) : IO (Except FileFault α) := do
  try
    return .ok (← action)
  catch e =>
    return .error (fileFault e)

def textOf (bytes : ByteArray) : Except FileFault String :=
  match Utf8.decode? bytes.toList with
  | some text => .ok text
  | none => .error .notText

/-- The files of the operating system. -/
def systemHost (logFilter? : Option String) : Host IO where
  load path := do return (← attempt (IO.FS.readBinFile path)).bind textOf
  input := do return (← attempt (do (← IO.getStdin).readBinToEnd)).bind textOf
  save path bytes := attempt (IO.FS.writeBinFile path ⟨bytes.toArray⟩)
  logFilter?

end TagWire.Cli

open TagWire

def main (words : List String) : IO UInt32 := do
  let outcome ← Cli.run (Cli.systemHost (← IO.getEnv "WIREREP_LOG")) words
  match outcome with
  | .printed text => IO.print text
  | .failed failure => IO.eprintln ("Error: " ++ failure.message)
  | .misused misuse => IO.eprintln ("error: " ++ misuse.message ++ "\n\n" ++ Cli.usage)
  return outcome.exitCode
