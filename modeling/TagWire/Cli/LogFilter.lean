import TagWire.Blank
import TagWire.Decimal.Numeral
import TagWire.Letter
import TagWire.Pattern.Parse

/-!
# Log filters

A log filter is a list of directives with commas between them. A directive names a target, or a span with
a field, or both, and may set a level: `warn`, `codec=debug`, `codec[decode]=trace`, `[decode{size=4}]`.

The places of a directive's parts are counted in bytes from its first character that is no blank. The parts
are cut out from its very beginning. So a directive with blanks in front of it has other parts than it
seems, and a part may even begin inside a character.

- `LogFilter.check`: finds what keeps a text from being a log filter.
-/

namespace TagWire.Cli.LogFilter

/-- What keeps a text from being a log filter. -/
inductive Fault where
  | malformed
  /-- A part of a directive begins or ends inside a character. -/
  | brokenCharacter
  deriving DecidableEq, Repr

/-- The first bytes of a text, as many as asked for, and what follows. A character is not broken up. -/
def splitBytes? : (count : Nat) → List Char → Option (List Char × List Char)
  | 0, text => some ([], text)
  | _ + 1, [] => none
  | count + 1, c :: rest =>
    if c.utf8Size ≤ count + 1 then
      (splitBytes? (count + 1 - c.utf8Size) rest).map fun (taken, rest) => (c :: taken, rest)
    else none
  termination_by structural _ text => text

/-- What follows a number of bytes. -/
def partFrom (directive : List Char) (start : Nat) : Except Fault (List Char) :=
  match splitBytes? start directive with
  | some (_, rest) => .ok rest
  | none => .error .brokenCharacter

/-- The bytes from one place up to another. -/
def part (directive : List Char) (start stop : Nat) : Except Fault (List Char) := do
  match splitBytes? (stop - start) (← partFrom directive start) with
  | some (taken, _) => .ok taken
  | none => .error .brokenCharacter

def levelNames : List String := ["off", "error", "warn", "info", "debug", "trace"]

/-- The numbers from 0 to 5 stand for the levels in their order. -/
def isLevelNumber (text : List Char) : Bool :=
  let digits := match text with
    | '+' :: digits => digits
    | digits => digits
  match digits.reverse with
  | last :: zeros => '0' ≤ last && last ≤ '5' && zeros.all (· = '0')
  | [] => false

/-- A level, which may be left out behind its sign. -/
def isLevel (text : List Char) : Bool :=
  text.isEmpty || isLevelNumber text || String.ofList (text.map Char.toLower) ∈ levelNames

/-- Digits with or without a point and an exponent, or the name of a number that is not finite. -/
def isNumber (text : List Char) : Bool :=
  let (whole, rest) := Decimal.splitDigits text
  let (fraction, rest) := match rest with
    | '.' :: rest => Decimal.splitDigits rest
    | rest => ([], rest)
  String.ofList (text.map Char.toLower) ∈ ["inf", "infinity", "nan"] ||
    ((whole ++ fraction) ≠ [] && (rest = [] || (Decimal.exponent? rest).isSome))

/-- A field may be compared with a truth value, a number or a pattern. Of these only a number with a plus
sign is not a pattern already. -/
def isFieldValue (text : List Char) : Bool :=
  match text with
  | '+' :: number => isNumber number
  | text => Pattern.isValid text

/-- A field is a name, which may be anything. What it is compared with reaches from the first equals sign
to the second one. -/
def isField (text : List Char) : Bool :=
  match text.dropWhile (· ≠ '=') with
  | [] => !text.isEmpty
  | _ :: rest => isFieldValue (rest.takeWhile (· ≠ '='))

/-- Where a reader of a directive stands. -/
inductive State where
  | start
  /-- In a word that is a level or a target. -/
  | word
  | span (start : Nat)
  /-- In the field of a span. -/
  | field (start : Nat)
  | fieldOver
  | spanOver
  | level (start : Nat)
  deriving DecidableEq, Repr

/-- Characters that a directive may begin with. -/
def beginsWord (c : Char) : Bool := c ∈ ['-', ':', '_'] || isAlphanumeric c

/-- Reads the character at a place. -/
def step (directive : List Char) (place : Nat) (c : Char) : State → Except Fault State
  | .start => if c = '[' then .ok (.span (place + 1)) else if beginsWord c then .ok .word else .error .malformed
  | .word =>
    if c = '=' then (part directive 0 place).map fun _ => .level (place + 1)
    else if c = '[' then (part directive 0 place).map fun _ => .span (place + 1)
    else .ok .word
  | .span start =>
    if c = ']' then (part directive start place).map fun _ => .spanOver
    else if c = '\x7b' then (part directive start place).map fun _ => .field (place + 1)
    else .ok (.span start)
  | .field start =>
    if c = '\x7d' then do
      if isField (← part directive start place) then return .fieldOver else throw .malformed
    else .ok (.field start)
  | .fieldOver => if c = ']' then .ok .spanOver else .error .malformed
  | .spanOver => if c = '=' then .ok (.level (place + 1)) else .error .malformed
  | .level start => .ok (.level start)

/-- Reads the characters from a place on. -/
def steps (directive : List Char) : (place : Nat) → State → List Char → Except Fault State
  | _, state, [] => .ok state
  | place, state, c :: rest => do
    steps directive (place + c.utf8Size) (← step directive place c state) rest

/-- Whether a directive may end where a reader stands. -/
def finish (directive : List Char) : State → Except Fault Unit
  | .word | .spanOver => .ok ()
  | .level start => do
    if isLevel (← partFrom directive start) then return () else throw .malformed
  | _ => .error .malformed

def checkDirective (directive : List Char) : Except Fault Unit := do
  finish directive (← steps directive 0 .start (trimBlanks directive))

/-- Finds what keeps a text from being a log filter. Empty directives are passed over. -/
def check (text : String) : Except Fault Unit :=
  ((text.splitOn ",").filter (· ≠ "")).forM fun directive => checkDirective directive.toList

end TagWire.Cli.LogFilter
