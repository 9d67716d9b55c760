/-!
# Switches of the command line

A switch has a name behind two dashes and mostly a letter behind one. Some switches stand before and behind
the command, the others belong to commands.
-/

namespace TagWire.Cli

inductive CommandName where
  | describe
  | decode
  | encode
  | template
  deriving DecidableEq, Repr

namespace CommandName

def all : List CommandName := [describe, decode, encode, template]

def name : CommandName → String
  | describe => "describe"
  | decode => "decode"
  | encode => "encode"
  | template => "template"

def ofName? (name : String) : Option CommandName := all.find? (·.name = name)

/-- Whether the command works with a layout. -/
def takesLayout (c : CommandName) : Bool := c ≠ template

end CommandName

inductive Switch where
  | config
  | verbose
  | help
  | version
  | layout
  | reply
  | json
  | hex
  | input
  | all
  | value
  | output
  deriving DecidableEq, Repr

/-- What a switch wants behind it. -/
inductive Wanted where
  | nothing
  | text
  /-- The path of a file, which is never empty. -/
  | path
  deriving DecidableEq, Repr

namespace Switch

def name : Switch → String
  | config => "config"
  | verbose => "verbose"
  | help => "help"
  | version => "version"
  | layout => "layout"
  | reply => "reply"
  | json => "json"
  | hex => "hex"
  | input => "input"
  | all => "all"
  | value => "value"
  | output => "output"

def letter? : Switch → Option Char
  | config => some 'c'
  | verbose => some 'v'
  | help => some 'h'
  | version => some 'V'
  | layout => some 'l'
  | json => some 'j'
  | input => some 'i'
  | output => some 'o'
  | reply | hex | all | value => none

def wanted : Switch → Wanted
  | config | input | output => .path
  | layout | hex | value => .text
  | verbose | help | version | reply | json | all => .nothing

end Switch

/-- The switches that may stand before the command. -/
def commonSwitches : List Switch := [.config, .verbose, .help, .version]

/-- The switches that may stand behind a command. -/
def CommandName.switches (c : CommandName) : List Switch :=
  [.config, .verbose, .help] ++
    match c with
    | describe => [.layout, .reply, .json]
    | decode => [.layout, .reply, .hex, .input, .all, .json]
    | encode => [.layout, .reply, .value, .output]
    | template => [.value]

end TagWire.Cli
