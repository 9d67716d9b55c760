import TagWire.Cli.LogFilter
import TagWire.Codec
import TagWire.File

/-!
# Failures of commands

What keeps a command that was asked for properly from being carried out.
-/

namespace TagWire.Cli

inductive Failure where
  /-- A layout is named, but there is no registry. -/
  | noRegistry
  | registry (path : String) (error : Error)
  | unknownLayout (name : String) (known : List String)
  | noReply
  | noMessage
  | hex (text : String) (fault : Hex.Fault)
  | unreadable (path : String) (fault : FileFault)
  | unreadableInput (fault : FileFault)
  | unwritable (path : String) (fault : FileFault)
  | indivisible (cause : Layout.Indivisible)
  | logFilter (text : String) (fault : LogFilter.Fault)
  | transcoding (error : Error)
  deriving DecidableEq, Repr

def Failure.message : Failure → String
  | noRegistry => "--layout needs a registry file (--config FILE)"
  | registry path error => "Failed to load layouts from " ++ path ++ ": " ++ error.message
  | unknownLayout name known =>
    "Unknown layout '" ++ name ++ "' (known: " ++ ", ".intercalate known ++ ")"
  | noReply => "grammar has no reply section (separate it with ---)"
  | noMessage => "Give the message with --hex HEX or --input FILE"
  | hex text fault => "Invalid hex input: " ++ text ++ ": " ++ fault.message
  | unreadable path fault => "Failed to read " ++ path ++ ": " ++ fault.message
  | unreadableInput fault => "Failed to read stdin: " ++ fault.message
  | unwritable path fault => "Failed to write " ++ path ++ ": " ++ fault.message
  | indivisible (.message index error) =>
    "Failed to decode message #" ++ toString index ++ ": " ++ error.message
  | indivisible (.left count) =>
    "Layout reads no external bytes, so --all cannot split " ++ toString count ++
      " remaining bytes into messages"
  | logFilter text .malformed => "Invalid log filter '" ++ text ++ "': invalid filter directive"
  | logFilter text .brokenCharacter => "Log filter '" ++ text ++ "' cannot be taken apart"
  | transcoding error => error.message

/-- The status that a run ends with. A filter that cannot be taken apart has one of its own. -/
def Failure.exitCode : Failure → UInt32
  | logFilter _ .brokenCharacter => 101
  | _ => 1

end TagWire.Cli
