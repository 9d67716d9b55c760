import TagWire.Decimal.Notation

/-!
# JSON, written

A tree of JSON with the two floating-point formats kept apart, because the shortest decimal of a number
depends on its format. A number that is not finite is written as null.

- `Json.compact`: without any blanks.
- `Json.pretty`: one item a line, indented by two.
-/

namespace TagWire

inductive Json where
  | null
  | bool (b : Bool)
  | int (i : Int)
  | single (bits : UInt32)
  | double (bits : UInt64)
  | string (chars : List Char)
  | array (items : List Json)
  | object (entries : List (List Char × Json))
  deriving Repr, Inhabited

namespace Json

def singleStyle : Decimal.Style where
  tie := .even
  positionalFrom := -6
  positionalUntil := 13
  plus := ['+']
  nan := "null"
  infinity := "null"

def doubleStyle : Decimal.Style where
  tie := .even
  positionalFrom := -5
  positionalUntil := 16
  plus := ['+']
  nan := "null"
  infinity := "null"

/-- The number of a floating-point format, where there is one. -/
def writeFloat (style : Decimal.Style) (f : Binary.Format) (bits : Nat) : List Char :=
  match Binary.read f bits with
  | .finite .. => style.write f bits
  | _ => ['n', 'u', 'l', 'l']

def writeInt (i : Int) : List Char :=
  if i < 0 then '-' :: Nat.toDigits 10 i.natAbs else Nat.toDigits 10 i.natAbs

/-- The letter that stands for a control character behind a backslash. -/
def escapeLetter? (c : Char) : Option Char :=
  if c = '"' then some '"'
  else if c = '\\' then some '\\'
  else if c = '\x08' then some 'b'
  else if c = '\x0c' then some 'f'
  else if c = '\n' then some 'n'
  else if c = '\r' then some 'r'
  else if c = '\t' then some 't'
  else none

def escapeChar (c : Char) : List Char :=
  match escapeLetter? c with
  | some letter => ['\\', letter]
  | none =>
    if c.toNat < 0x20 then
      ['\\', 'u', '0', '0', Nat.digitChar (c.toNat / 16), Nat.digitChar (c.toNat % 16)]
    else [c]

def writeString (chars : List Char) : List Char :=
  '"' :: chars.flatMap escapeChar ++ ['"']

/-- The text of a tree that is neither an array nor an object. -/
def writeLeaf : Json → List Char
  | null => "null".toList
  | bool b => (if b then "true" else "false").toList
  | int i => writeInt i
  | single bits => writeFloat singleStyle Binary.single bits.toNat
  | double bits => writeFloat doubleStyle Binary.double bits.toNat
  | string chars => writeString chars
  | array _ | object _ => []

mutual

/-- The text without any blanks. -/
def compact : Json → List Char
  | array items => '[' :: compactItems items ++ [']']
  | object entries => '\x7b' :: compactEntries entries ++ ['\x7d']
  | leaf => leaf.writeLeaf

def compactItems : List Json → List Char
  | [] => []
  | [item] => item.compact
  | item :: rest => item.compact ++ ',' :: compactItems rest

def compactEntries : List (List Char × Json) → List Char
  | [] => []
  | [(key, item)] => writeString key ++ ':' :: item.compact
  | (key, item) :: rest => writeString key ++ ':' :: item.compact ++ ',' :: compactEntries rest

end

/-- A new line, indented by `depth` steps. -/
def newLine (depth : Nat) : List Char := '\n' :: List.replicate (2 * depth) ' '

mutual

/-- The text with one item a line, `depth` steps in. -/
def prettyAt (depth : Nat) : Json → List Char
  | array [] => ['[', ']']
  | object [] => ['\x7b', '\x7d']
  | array items => '[' :: prettyItems (depth + 1) items ++ newLine depth ++ [']']
  | object entries => '\x7b' :: prettyEntries (depth + 1) entries ++ newLine depth ++ ['\x7d']
  | leaf => leaf.writeLeaf

def prettyItems (depth : Nat) : List Json → List Char
  | [] => []
  | [item] => newLine depth ++ item.prettyAt depth
  | item :: rest => newLine depth ++ item.prettyAt depth ++ ',' :: prettyItems depth rest

def prettyEntries (depth : Nat) : List (List Char × Json) → List Char
  | [] => []
  | [(key, item)] => newLine depth ++ writeString key ++ ':' :: ' ' :: item.prettyAt depth
  | (key, item) :: rest =>
    newLine depth ++ writeString key ++ ':' :: ' ' :: item.prettyAt depth ++ ',' :: prettyEntries depth rest

end

/-- The text with one item a line. -/
def pretty (j : Json) : List Char := j.prettyAt 0

end Json

end TagWire
