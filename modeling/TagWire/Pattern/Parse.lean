import TagWire.Letter
import TagWire.Pattern.Bracket

/-!
# Patterns, read

A pattern is read from left to right, with the groups that are open on a stack. A count in braces is not
among the repetitions, because a pattern has no closing brace to end it.

- `Pattern.parse?`: the pattern that a text spells.
-/

namespace TagWire.Pattern

/-- A group that is open. -/
structure Frame where
  flags : Flags
  /-- Whether the text around the group is verbose. -/
  wasVerbose : Bool
  /-- The choices that are over, the last one first. -/
  choices : List Pattern
  /-- The parts of the choice at hand, the last one first. -/
  parts : List Pattern
  deriving Repr

namespace Frame

/-- The choice at hand, if it ends here. -/
def choice (f : Frame) : Pattern := bundle .sequence f.parts.reverse

def nextChoice (f : Frame) : Frame := { f with choices := f.choice :: f.choices, parts := [] }

/-- What the group holds, if it ends here. -/
def content (f : Frame) : Pattern := bundle .choice (f.choice :: f.choices).reverse

def add (f : Frame) (part : Pattern) : Frame := { f with parts := part :: f.parts }

/-- Repeats the last part. Flags cannot be repeated. -/
def repeatLast? (f : Frame) : Option Frame :=
  match f.parts with
  | [] | .flags _ :: _ => none
  | part :: before => some { f with parts := .branch .repetition [part] :: before }

end Frame

/-- A pattern that is read in part. -/
structure Reader where
  frame : Frame
  /-- The groups around the innermost one. -/
  outer : List Frame
  verbose : Bool
  /-- The names of the groups so far. -/
  names : List (List Char)
  deriving Repr

namespace Reader

def initial : Reader := ⟨⟨[], false, [], []⟩, [], false, []⟩

def add (r : Reader) (part : Pattern) : Reader := { r with frame := r.frame.add part }

/-- Flags without an order, each at most once, and no minus sign at their end. -/
def isFlags (text : List Char) : Bool :=
  text.all (· ∈ ['i', 'm', 's', 'U', 'u', 'R', 'x', '-']) && text.Nodup && text.getLast? ≠ some '-'

/-- A letter or underscore, and then also numbers, points and brackets. -/
def isName : List Char → Bool
  | [] => false
  | first :: rest =>
    (first = '_' || isAlphabetic first) && rest.all fun c => c ∈ ['_', '.', '[', ']'] || isAlphanumeric c

/-- Whether text is verbose once flags are set. -/
def verboseUnder (r : Reader) (f : Flags) : Bool := (f.setting? 'x').getD r.verbose

/-- Opens a group whose flags are in force in it. -/
def openGroup (r : Reader) (f : Flags) : Reader :=
  { r with
    frame := ⟨f, r.verbose, [], []⟩
    outer := r.frame :: r.outer
    verbose := r.verboseUnder f }

/-- Opens a group behind the bracket in front of its name. -/
def openNamed? (r : Reader) (text : List Char) : Option (Reader × List Char) :=
  let name := text.takeWhile (· ≠ '>')
  match text.dropWhile (· ≠ '>') with
  | _ :: rest =>
    if isName name && !r.names.contains name then some ({ r.openGroup [] with names := name :: r.names }, rest)
    else none
  | [] => none

/-- Opens a group with flags, or sets flags for the rest of the one at hand. -/
def openFlags? (r : Reader) (text : List Char) : Option (Reader × List Char) :=
  let isEnd (c : Char) : Bool := c = ':' || c = ')'
  let f := text.takeWhile (!isEnd ·)
  if isFlags f then
    match text.dropWhile (!isEnd ·) with
    | ':' :: rest => some (r.openGroup f, rest)
    | ')' :: rest =>
      if f.isEmpty then none else some ({ r.add (.flags f) with verbose := r.verboseUnder f }, rest)
    | _ => none
  else none

/-- Opens a group behind its parenthesis. There are no groups that look around. -/
def open? (r : Reader) (text : List Char) : Option (Reader × List Char) :=
  match skip r.verbose text with
  | '?' :: 'P' :: '<' :: rest => r.openNamed? rest
  | '?' :: '<' :: rest => r.openNamed? rest
  | '?' :: rest => r.openFlags? rest
  | rest => some (r.openGroup [], rest)

def close? (r : Reader) : Option Reader :=
  match r.outer with
  | [] => none
  | frame :: outer =>
    some { r with
      frame := frame.add (.branch (.group r.frame.flags) [r.frame.content])
      outer
      verbose := r.frame.wasVerbose }

/-- Repeats the last part, as often as possible or, with a question mark, as seldom as possible. -/
def repeatLast? (r : Reader) (text : List Char) : Option (Reader × List Char) := do
  let r := { r with frame := ← r.frame.repeatLast? }
  match text with
  | '?' :: rest => return (r, rest)
  | rest => return (r, rest)

/-- Reads what begins with a character. -/
def step? (r : Reader) (c : Char) (rest : List Char) : Option (Reader × List Char) :=
  if c = '(' then r.open? rest
  else if c = ')' then r.close?.map fun r => (r, rest)
  else if c = '|' then some ({ r with frame := r.frame.nextChoice }, rest)
  else if c = '[' then (Bracket.read? r.verbose rest).map fun (p, rest) => (r.add p, rest)
  else if c ∈ ['*', '+', '?'] then r.repeatLast? rest
  else if c = '\x7b' then none
  else if c = '.' then some (r.add (.leaf .anyChar), rest)
  else if c ∈ ['^', '$'] then some (r.add (.leaf .edge), rest)
  else if c = '\\' then (escape? r.verbose rest).map fun (l, rest) => (r.add (.leaf l), rest)
  else some (r.add (.leaf (.literal ⟨c, false⟩)), rest)

/-- Reads to the end of the text. Every step takes at least one character, so that fuel for each of them is
enough. -/
def finish? : (fuel : Nat) → Reader → List Char → Option Reader
  | 0, _, _ => none
  | fuel + 1, r, text =>
    match skip r.verbose text with
    | [] => some r
    | c :: rest =>
      match r.step? c rest with
      | some (r, rest) => finish? fuel r rest
      | none => none

end Reader

/-- The pattern that a text spells. -/
def parse? (text : List Char) : Option Pattern :=
  match Reader.initial.finish? (text.length + 1) text with
  | some r => if r.outer.isEmpty then some r.frame.content else none
  | none => none

/-- Whether a text spells a pattern that can be searched for. -/
def isValid (text : List Char) : Bool :=
  match parse? text with
  | some p => p.isSearchable
  | none => false

end TagWire.Pattern
