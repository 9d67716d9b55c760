import TagWire.Cli.Word

/-!
# Requests

What the words of a command line ask for.

- `Request.ofWords`: the request that words make.
-/

namespace TagWire.Cli

/-- Where the layout of a command comes from. -/
inductive LayoutOrigin where
  | grammar (text : String)
  /-- An entry of the registry. -/
  | named (name : String)
  deriving DecidableEq, Repr

structure LayoutChoice where
  origin : LayoutOrigin
  /-- Whether the layout of the reply is meant. -/
  reply : Bool
  deriving DecidableEq, Repr

/-- Where hexadecimal text comes from. -/
inductive HexOrigin where
  | text (text : String)
  | file (path : String)
  | nowhere
  deriving DecidableEq, Repr

inductive Command where
  | describe (choice : LayoutChoice) (json : Bool)
  | decode (choice : LayoutChoice) (hex : HexOrigin) (all json : Bool)
  | encode (choice : LayoutChoice) (value : String) (output : Option String)
  | template (value : String)
  deriving DecidableEq, Repr

inductive Request where
  | help
  | version
  /-- To carry out a command, with a registry if there is a file for it. A verbose run sets aside the log
  filter of its surroundings. -/
  | run (config : Option String) (verbose : Bool) (command : Command)
  | misused (misuse : Misuse)
  deriving DecidableEq, Repr

/-- What the words have said so far. -/
structure Said where
  /-- The switches before the command. -/
  before : List (Switch × String) := []
  command : Option CommandName := none
  /-- The switches behind the command. -/
  behind : List (Switch × String) := []
  operand : Option String := none
  deriving DecidableEq, Repr

namespace Said

/-- The text for a switch behind the command. -/
def text? (said : Said) (s : Switch) : Option String := said.behind.lookup s

def has (said : Said) (s : Switch) : Bool := (said.text? s).isSome

/-- Adds a switch. Only `verbose` may stand more than once on the same side of the command. -/
def addSwitch (said : Said) (s : Switch) (argument : String) : Except Misuse Said :=
  let here := if said.command.isSome then said.behind else said.before
  if s.wanted = .path ∧ argument = "" then .error (.emptyPath s)
  else if s ≠ .verbose ∧ (here.lookup s).isSome then .error (.repeated s)
  else if said.command.isSome then .ok { said with behind := said.behind ++ [(s, argument)] }
  else .ok { said with before := said.before ++ [(s, argument)] }

/-- Adds an operand, of which commands with a layout have one. -/
def addOperand (said : Said) (text : String) : Except Misuse Said :=
  if (said.command.map CommandName.takesLayout).getD false ∧ said.operand = none then
    .ok { said with operand := some text }
  else .error (.unexpectedOperand text)

def layoutChoice (said : Said) : Except Misuse LayoutChoice :=
  match said.operand, said.text? .layout with
  | some grammar, none => .ok ⟨.grammar grammar, said.has .reply⟩
  | none, some name => .ok ⟨.named name, said.has .reply⟩
  | some _, some _ => .error (.conflict "GRAMMAR" "'--layout'")
  | none, none => .error (.missing "GRAMMAR")

def hexOrigin (said : Said) : Except Misuse HexOrigin :=
  match said.text? .hex, said.text? .input with
  | some text, none => .ok (.text text)
  | none, some path => .ok (.file path)
  | none, none => .ok .nowhere
  | some _, some _ => .error (.conflict "'--hex'" "'--input'")

def value (said : Said) : Except Misuse String :=
  match said.text? .value with
  | some text => .ok text
  | none => .error (.missing "'--value'")

def commandNamed (said : Said) : CommandName → Except Misuse Command
  | .describe => return .describe (← said.layoutChoice) (said.has .json)
  | .decode => return .decode (← said.layoutChoice) (← said.hexOrigin) (said.has .all) (said.has .json)
  | .encode => return .encode (← said.layoutChoice) (← said.value) (said.text? .output)
  | .template => return .template (← said.value)

/-- The request of words that have been read to their end. A registry behind the command goes before one
in front of it. -/
def request (said : Said) : Request :=
  match said.command with
  | none => .misused .noCommand
  | some name =>
    match said.commandNamed name with
    | .error misuse => .misused misuse
    | .ok command =>
      .run ((said.behind ++ said.before).lookup .config) (((said.behind ++ said.before).lookup .verbose).isSome)
        command

end Said

namespace Request

/-- Goes through items. Help and the version are asked for at once, and a misuse ends the reading. -/
def ofItems (said : Said) : List Item → Request
  | [] => said.request
  | .fault misuse :: _ => .misused misuse
  | .switch .help _ :: _ => .help
  | .switch .version _ :: _ => .version
  | .switch s argument :: rest =>
    match said.addSwitch s argument with
    | .ok said => ofItems said rest
    | .error misuse => .misused misuse
  | .command name :: rest => ofItems { said with command := some name } rest
  | .operand text :: rest =>
    match said.addOperand text with
    | .ok said => ofItems said rest
    | .error misuse => .misused misuse

/-- The request that the words of a command line make. -/
def ofWords (words : List String) : Request := ofItems {} (Item.ofWords words)

end Request

end TagWire.Cli
