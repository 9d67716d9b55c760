import TagWire.Cli.Switch

/-!
# Words of the command line

The words are read one after the other into items: switches with what they want, the command, its operands,
and faults. A fault stands where the words cannot be understood; what follows it says nothing.

- `--name value`, `--name=value`: a switch by its name.
- `-lvalue`, `-l=value`, `-l value`: a switch by its letter; letters of switches that want nothing may share
  a dash with others.
- `--`: only operands follow.
-/

namespace TagWire.Cli

/-- Why the words ask for nothing that can be done. -/
inductive Misuse where
  | noCommand
  | unknownCommand (name : String)
  | unknownSwitch (word : String)
  | unexpectedOperand (text : String)
  | unwanted (s : Switch) (text : String)
  | missingArgument (s : Switch)
  | emptyPath (s : Switch)
  | repeated (s : Switch)
  | missing (what : String)
  | conflict (first second : String)
  deriving DecidableEq, Repr

def Misuse.message : Misuse → String
  | noCommand => "a command is missing"
  | unknownCommand name => "unknown command '" ++ name ++ "'"
  | unknownSwitch word => "unknown option '" ++ word ++ "'"
  | unexpectedOperand text => "unexpected argument '" ++ text ++ "'"
  | unwanted s text => "'--" ++ s.name ++ "' takes no value, but '" ++ text ++ "' is given"
  | missingArgument s => "'--" ++ s.name ++ "' needs a value"
  | emptyPath s => "'--" ++ s.name ++ "' needs a path"
  | repeated s => "'--" ++ s.name ++ "' cannot be repeated"
  | missing what => what ++ " is missing"
  | conflict first second => first ++ " and " ++ second ++ " cannot be used together"

inductive Item where
  | switch (s : Switch) (argument : String)
  | command (c : CommandName)
  | operand (text : String)
  | fault (misuse : Misuse)
  deriving DecidableEq, Repr

/-- What the next word is taken for. -/
inductive Expected where
  | anything
  | argument (s : Switch)
  | operand
  /-- The name of the command to give help on. -/
  | topic
  /-- No word can mend what was read. -/
  | nothing
  deriving DecidableEq, Repr

namespace Item

/-- Reads the letters behind a dash. A switch that wants something takes the other letters. -/
def ofLetters (known : List Switch) : List Char → List Item × Expected
  | [] => ([], .anything)
  | letter :: rest =>
    match known.find? (·.letter? = some letter) with
    | none => ([.fault (.unknownSwitch ("-" ++ String.singleton letter))], .nothing)
    | some s =>
      if s.wanted = .nothing then
        let (items, expected) := ofLetters known rest
        (.switch s "" :: items, expected)
      else
        match rest with
        | [] => ([], .argument s)
        | '=' :: argument => ([.switch s (String.ofList argument)], .anything)
        | argument => ([.switch s (String.ofList argument)], .anything)

/-- Reads what stands behind two dashes. -/
def ofName (known : List Switch) (text : List Char) : List Item × Expected :=
  let name := String.ofList (text.takeWhile (· ≠ '='))
  let argument? := match text.dropWhile (· ≠ '=') with
    | _ :: argument => some (String.ofList argument)
    | [] => none
  match known.find? (·.name = name) with
  | none => ([.fault (.unknownSwitch ("--" ++ name))], .nothing)
  | some s =>
    match s.wanted, argument? with
    | .nothing, none => ([.switch s ""], .anything)
    | .nothing, some argument => ([.fault (.unwanted s argument)], .nothing)
    | _, none => ([], .argument s)
    | _, some argument => ([.switch s argument], .anything)

/-- Whether a word begins with a dash and is more than one. -/
def isDashed : List Char → Bool
  | '-' :: _ :: _ => true
  | _ => false

/-- Reads a word before the command that is no switch. -/
def ofCommand (text : String) : List Item × Expected :=
  if text = "help" then ([], .topic)
  else
    match CommandName.ofName? text with
    | some c => ([.command c], .anything)
    | none => ([.fault (.unknownCommand text)], .nothing)

/-- Reads a word, before the command or behind it. -/
def ofWord (command? : Option CommandName) (word : String) : List Item × Expected :=
  let known := (command?.map CommandName.switches).getD commonSwitches
  match word.toList with
  | ['-', '-'] => ([], .operand)
  | '-' :: '-' :: name => ofName known name
  | '-' :: letter :: letters => ofLetters known (letter :: letters)
  | _ => if command?.isSome then ([.operand word], .anything) else ofCommand word

/-- The command that items have named. -/
def commandOf? (items : List Item) : Option CommandName :=
  items.findSome? fun
    | .command c => some c
    | _ => none

/-- Reads words behind a command, or before one is named. -/
def ofWordsFrom (command? : Option CommandName) : Expected → List String → List Item
  | .nothing, _ => []
  | .argument s, [] => [.fault (.missingArgument s)]
  | .topic, [] => [.switch .help ""]
  | _, [] => []
  | .argument s, word :: rest =>
    if isDashed word.toList then [.fault (.missingArgument s)]
    else .switch s word :: ofWordsFrom command? .anything rest
  | .operand, word :: rest => .operand word :: ofWordsFrom command? .operand rest
  | .topic, word :: rest =>
    if rest = [] ∧ (word = "help" ∨ (CommandName.ofName? word).isSome) then [.switch .help ""]
    else [.fault (.unknownCommand word)]
  | .anything, word :: rest =>
    let (items, expected) := ofWord command? word
    items ++ ofWordsFrom (command?.or (commandOf? items)) expected rest

/-- Reads all words. -/
def ofWords (words : List String) : List Item := ofWordsFrom none .anything words

end Item

end TagWire.Cli
