import TagWire.Pattern.Escape

/-!
# Classes in brackets

A class lists characters, ranges and other classes, and may combine them by the operators `&&`, `--` and
`~~`, which go from left to right.

- `Bracket.read?`: reads a class behind its opening bracket.
-/

namespace TagWire.Pattern

def classNames : List String :=
  ["alnum", "alpha", "ascii", "blank", "cntrl", "digit", "graph", "lower", "print", "punct", "space", "upper",
    "word", "xdigit"]

/-- A class with a name, behind its bracket. -/
def named? : List Char → Option (Leaf × List Char)
  | ':' :: rest =>
    let (negated, rest) := match rest with
      | '^' :: rest => (true, rest)
      | rest => (false, rest)
    match rest.dropWhile (· ≠ ':') with
    | ':' :: ']' :: after =>
      if String.ofList (rest.takeWhile (· ≠ ':')) ∈ classNames then some (.named negated, after) else none
    | _ => none
  | _ => none

/-- An item of a class that is not a class itself. -/
def item? (verbose : Bool) : List Char → Option (Leaf × List Char)
  | [] => none
  | '\\' :: rest => escape? verbose rest
  | c :: rest => some (.literal ⟨c, false⟩, rest)

/-- An item that stands for itself. -/
def single? : Leaf → Option Leaf
  | .literal l => some (.range l l)
  | .shorthand negated => some (.shorthand negated)
  | _ => none

def range? : Leaf → Leaf → Option Leaf
  | .literal first, .literal last => if first.char ≤ last.char then some (.range first last) else none
  | _, _ => none

/-- The character that follows. A comment mark is passed over like a blank, but its comment is not. -/
def next? (verbose : Bool) (text : List Char) : Option Char :=
  if verbose then
    match text.dropWhile isBlank with
    | '#' :: rest => (rest.dropWhile isBlank).head?
    | rest => rest.head?
  else text.head?

/-- Whether a hyphen with some text behind it makes a range. -/
def makesRange (verbose : Bool) (text : List Char) : Bool :=
  next? verbose text ≠ some ']' && next? verbose text ≠ some '-'

/-- An item or a range. -/
def members? (verbose : Bool) (text : List Char) : Option (Leaf × List Char) := do
  let (first, rest) ← item? verbose text
  match skip verbose rest with
  | '-' :: more =>
    if makesRange verbose more then
      let (last, rest) ← item? verbose (skip verbose more)
      return (← range? first last, rest)
    else return (← single? first, '-' :: more)
  | rest => return (← single? first, rest)

/-- A class that is not over yet. -/
structure Bracket where
  negated : Bool
  /-- Whether there is nothing but hyphens so far. -/
  isFresh : Bool
  /-- What stands on the left of the last operator. -/
  left : Option Pattern
  /-- The items since, the last one first. -/
  items : List Pattern
  deriving Repr

namespace Bracket

def add (b : Bracket) (item : Pattern) : Bracket :=
  { b with isFresh := false, items := item :: b.items }

/-- What the class holds before it is negated. -/
def content (b : Bracket) : Pattern :=
  let right := bundle .union b.items.reverse
  match b.left with
  | some left => .branch .operation [left, right]
  | none => right

def operator (b : Bracket) : Bracket :=
  { b with isFresh := false, left := some b.content, items := [] }

def toPattern (b : Bracket) : Pattern := .branch (.bracket b.negated) [b.content]

/-- A class behind its opening bracket. -/
def start (verbose : Bool) (text : List Char) : Bracket × List Char :=
  match skip verbose text with
  | '^' :: rest => (⟨true, true, none, []⟩, rest)
  | rest => (⟨false, true, none, []⟩, rest)

/-- Whether a character that stands in front of a text is the first one of an operator. -/
def beginsOperator (c : Char) (rest : List Char) : Bool :=
  c ∈ ['&', '-', '~'] && rest.head? = some c

/-- Whether a character is taken as it is where a class begins. -/
def isPlain (b : Bracket) (c : Char) : Bool :=
  b.isFresh && (c = '-' || (c = ']' && b.items.isEmpty))

def plain (b : Bracket) (c : Char) : Bracket :=
  { b.add (.leaf (.range ⟨c, false⟩ ⟨c, false⟩)) with isFresh := c = '-' }

/-- Reads on in a class that stands inside of others. -/
def finish? (verbose : Bool) : (fuel : Nat) → Bracket → List Bracket → List Char → Option (Pattern × List Char)
  | 0, _, _, _ => none
  | fuel + 1, b, outer, text =>
    match skip verbose text with
    | [] => none
    | c :: rest =>
      if b.isPlain c then finish? verbose fuel (b.plain c) outer rest
      else if c = '[' then
        match named? rest with
        | some (l, rest) => finish? verbose fuel (b.add (.leaf l)) outer rest
        | none =>
          let (inner, rest) := start verbose rest
          finish? verbose fuel inner (b :: outer) rest
      else if c = ']' then
        match outer with
        | parent :: outer => finish? verbose fuel (parent.add b.toPattern) outer rest
        | [] => some (b.toPattern, rest)
      else if beginsOperator c rest then finish? verbose fuel b.operator outer (rest.drop 1)
      else
        match members? verbose (c :: rest) with
        | some (l, rest) => finish? verbose fuel (b.add (.leaf l)) outer rest
        | none => none

/-- Reads a class behind its opening bracket. -/
def read? (verbose : Bool) (text : List Char) : Option (Pattern × List Char) :=
  let (b, rest) := start verbose text
  finish? verbose (rest.length + 1) b [] rest

end Bracket

end TagWire.Pattern
