/-!
# Files

What keeps a file from being read or written.
-/

namespace TagWire

inductive FileFault where
  | missing
  | denied
  | directory
  /-- Something on the way to the file is not a directory. -/
  | notDirectory
  | nameTooLong
  /-- The bytes are not UTF-8. -/
  | notText
  | other (message : String)
  deriving DecidableEq, Repr

def FileFault.message : FileFault → String
  | missing => "No such file or directory (os error 2)"
  | denied => "Permission denied (os error 13)"
  | notDirectory => "Not a directory (os error 20)"
  | directory => "Is a directory (os error 21)"
  | nameTooLong => "File name too long (os error 36)"
  | notText => "stream did not contain valid UTF-8"
  | other message => message

end TagWire
