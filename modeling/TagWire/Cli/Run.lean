import TagWire.Blank
import TagWire.Cli.Failure
import TagWire.Cli.Request
import TagWire.Layout.Describe
import TagWire.Layout.Json
import TagWire.Layout.Sample
import TagWire.Registry
import TagWire.Value.Json
import TagWire.Value.Parse
import TagWire.Value.Print

/-!
# Runs of the command line

A run reads files and perhaps writes one, and prints only if all goes well.

- `Host`: where a run finds its files.
- `run`: carries out what words ask for.
-/

namespace TagWire.Cli

/-- The surroundings of a run. -/
structure Host (m : Type → Type) where
  /-- The text of a file. -/
  load : (path : String) → m (Except FileFault String)
  /-- The text that comes in by the standard input. -/
  input : m (Except FileFault String)
  /-- Writes a file, in the place of one that is there. -/
  save : (path : String) → Bytes → m (Except FileFault Unit)
  logFilter? : Option String

/-- How a run ends. -/
inductive Outcome where
  | printed (text : String)
  | failed (failure : Failure)
  | misused (misuse : Misuse)
  deriving DecidableEq, Repr

def Outcome.exitCode : Outcome → UInt32
  | printed _ => 0
  | failed failure => failure.exitCode
  | misused _ => 2

def version : String := "wirerep 0.1.0\n"

def usage : String :=
  "Convert messages between tagged lists and binary layouts.\n\n" ++
  "  wirerep describe (GRAMMAR | --layout NAME) [--reply] [--json]\n" ++
  "  wirerep decode (GRAMMAR | --layout NAME) [--reply] (--hex HEX | --input FILE) [--all] [--json]\n" ++
  "  wirerep encode (GRAMMAR | --layout NAME) [--reply] --value TEXT [--output FILE]\n" ++
  "  wirerep template --value TEXT\n\n" ++
  "  -c, --config FILE  the registry with the layouts that --layout names\n" ++
  "  -v, --verbose      set the log filter of the environment aside\n" ++
  "  -h, --help         print this\n" ++
  "  -V, --version      print the version\n"

/-- The bytes of hexadecimal text, which may hold blanks and begin with `0x`. -/
def hexBytes (text : String) : Except Failure Bytes :=
  let digits := match text.toList.filter (!isBlank ·) with
    | '0' :: 'x' :: digits => digits
    | '0' :: 'X' :: digits => digits
    | digits => digits
  (Hex.decode (Utf8.encodeChars digits)).mapError (Failure.hex text)

/-- Whether a path stands for the input of the run. Slashes at its end mean nothing. -/
def isInput (path : String) : Bool :=
  match path.splitOn "/" with
  | first :: rest => first = "-" && rest.all fun part => part = "" || part = "."
  | [] => false

/-- The layout of a registry that a name stands for. -/
def pick (registry : Registry) (name : String) (reply : Bool) : Except Failure Layout :=
  match if reply then registry.reply? name else registry.request? name with
  | some l => .ok l
  | none => .error (.unknownLayout name registry.names)

/-- The layout of a grammar's request or reply. -/
def compileSection (grammar : String) (reply : Bool) : Except Failure Layout := do
  let sections ← (Layout.compileSections grammar).mapError Failure.transcoding
  match sections[if reply then 1 else 0]? with
  | some l => return l
  | none => throw .noReply

/-- What `describe` prints. -/
def description (l : Layout) (json : Bool) : String :=
  if json then String.ofList l.toJson.pretty ++ "\n"
  else
    "Grammar: " ++ l.grammar ++ "\nWire:    " ++ l.describe ++ "\nTemplate bytes: " ++
      toString l.template.length ++ "\n" ++ l.display

/-- The messages of `decode`: one, or as many as there are. -/
def messages (l : Layout) (all : Bool) (bytes : Bytes) : Except Failure (List Value) :=
  if all then (l.readAll bytes).mapError Failure.indivisible
  else ((l.read bytes).map ([·])).mapError Failure.transcoding

/-- What `decode` prints for a message. -/
def messageLine (json : Bool) (index : Nat) (v : Value) : String :=
  if json then String.ofList (Json.record [("index", .ofNat index), ("value", v.toJson)]).compact ++ "\n"
  else v.messageText ++ "\n"

/-- What `decode` prints. -/
def decoded (l : Layout) (all json : Bool) (bytes : Bytes) : Except Failure String := do
  return String.join ((← messages l all bytes).mapIdx (messageLine json))

/-- The external bytes of `encode`. -/
def encoded (l : Layout) (text : String) : Except Failure Bytes :=
  (Value.parse text >>= l.write).mapError Failure.transcoding

/-- What `template` prints. -/
def sample (text : String) : Except Failure String :=
  ((Value.parse text).map fun v => v.sampleGrammar ++ "\n").mapError Failure.transcoding

/-- A log filter counts if the run is not verbose and the filter is more than blanks. -/
def checkLogFilter (filter? : Option String) (verbose : Bool) : Except Failure Unit :=
  match filter? with
  | none => .ok ()
  | some filter =>
    if verbose || filter.toList.all isBlank then .ok ()
    else (LogFilter.check filter).mapError (Failure.logFilter filter)

section

variable {m : Type → Type} [Monad m] (host : Host m)

/-- The layout that a command works with. -/
def resolve (config : Option String) (choice : LayoutChoice) : ExceptT Failure m Layout := do
  match choice.origin, config with
  | .grammar text, _ => compileSection text choice.reply
  | .named _, none => throw .noRegistry
  | .named name, some path =>
    let text ← host.load path
    let registry ← (Registry.load path text).mapError (Failure.registry path)
    pick registry name choice.reply

/-- The bytes that a command is given. -/
def receive : HexOrigin → ExceptT Failure m Bytes
  | .text text => hexBytes text
  | .nowhere => throw .noMessage
  | .file path => do
    let text ←
      if isInput path then (← host.input).mapError Failure.unreadableInput
      else (← host.load path).mapError (Failure.unreadable path)
    hexBytes text

/-- Hands bytes over: to a file, or as text to print. -/
def deliver (bytes : Bytes) : Option String → ExceptT Failure m String
  | none => return Hex.encodeGroups bytes ++ "\n"
  | some path => do
    (← host.save path bytes).mapError (Failure.unwritable path)
    return ""

/-- Carries out a command and gives what it prints. -/
def carryOut (config : Option String) : Command → ExceptT Failure m String
  | .describe choice json => return description (← resolve host config choice) json
  | .decode choice hex all json => do
    let l ← resolve host config choice
    let bytes ← receive host hex
    decoded l all json bytes
  | .encode choice value output => do
    let l ← resolve host config choice
    let bytes ← encoded l value
    deliver host bytes output
  | .template value => sample value

/-- Carries out what words ask for. -/
def run (words : List String) : m Outcome :=
  match Request.ofWords words with
  | .help => return .printed usage
  | .version => return .printed version
  | .misused misuse => return .misused misuse
  | .run config verbose command => do
    match checkLogFilter host.logFilter? verbose with
    | .error failure => return .failed failure
    | .ok () =>
      match ← (carryOut host config command).run with
      | .error failure => return .failed failure
      | .ok text => return .printed text

end

end TagWire.Cli
