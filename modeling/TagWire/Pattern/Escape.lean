import TagWire.Blank
import TagWire.Hex
import TagWire.Pattern.Basic

/-!
# Escapes of patterns

What a backslash makes of the characters behind it. In verbose text blanks mean nothing, and neither do
comments, which begin with `#` and reach to the end of their line.

- `skip`: passes over what means nothing.
- `escape?`: reads what stands behind a backslash.
-/

namespace TagWire.Pattern

def skipVerbose (inComment : Bool) : List Char → List Char
  | [] => []
  | c :: rest =>
    if inComment then skipVerbose (c ≠ '\n') rest
    else if isBlank c then skipVerbose false rest
    else if c = '#' then skipVerbose true rest
    else c :: rest

/-- Passes over what means nothing. -/
def skip (verbose : Bool) (text : List Char) : List Char :=
  if verbose then skipVerbose false text else text

/-- A number of characters, with nothing counted that means nothing. -/
def takeCounted? (verbose : Bool) : Nat → List Char → Option (List Char × List Char)
  | 0, text => some ([], text)
  | count + 1, text =>
    match skip verbose text with
    | c :: rest => (takeCounted? verbose count rest).map fun (taken, rest) => (c :: taken, rest)
    | [] => none

/-- A literal of so many hexadecimal digits. -/
def hexLiteral? (verbose : Bool) (count : Nat) (text : List Char) : Option (Leaf × List Char) := do
  let (digits, rest) ← takeCounted? verbose count text
  return (.literal ⟨← Hex.char? digits, count = 2⟩, rest)

/-- The control character that a letter stands for. -/
def control? (letter : Char) : Option Char :=
  if letter = 'a' then some '\x07'
  else if letter = 'f' then some '\x0c'
  else if letter = 't' then some '\t'
  else if letter = 'n' then some '\n'
  else if letter = 'r' then some '\r'
  else if letter = 'v' then some '\x0b'
  else none

/-- The part that a single character stands for. -/
def escaped? (c : Char) : Option Leaf :=
  if c ∈ ['d', 's', 'w'] then some (.shorthand false)
  else if c ∈ ['D', 'S', 'W'] then some (.shorthand true)
  else if c ∈ ['A', 'z'] then some .edge
  else if c ∈ ['b', 'B', '<', '>'] then some .wordEdge
  else if c.toNat < 0x80 ∧ !c.isAlphanum then some (.literal ⟨c, false⟩)
  else (control? c).map fun c => .literal ⟨c, false⟩

/-- Reads what stands behind a backslash. -/
def escape? (verbose : Bool) : List Char → Option (Leaf × List Char)
  | [] => none
  | 'x' :: rest => hexLiteral? verbose 2 rest
  | 'u' :: rest => hexLiteral? verbose 4 rest
  | 'U' :: rest => hexLiteral? verbose 8 rest
  | c :: rest => (escaped? c).map fun l => (l, rest)

end TagWire.Pattern
