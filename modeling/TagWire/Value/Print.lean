import TagWire.Decimal.Notation
import TagWire.Value.Basic
import TagWire.Value.Quoted
import TagWire.Vocab

/-!
# Value text, written

Numbers are written in decimal, strings between quotes, vocabs in square brackets, blobs as hexadecimal
text in braces, and lists in parentheses with blanks between the items.
-/

namespace TagWire.Value

/-- Floats of value text keep a point or an exponent, so that they read back as floats. -/
def floatStyle : Decimal.Style where
  tie := .up
  positionalFrom := -4
  positionalUntil := 16
  plus := []
  nan := "NaN"
  infinity := "inf"

def printInt (i : Int) : List Char :=
  if i < 0 then '-' :: Nat.toDigits 10 i.natAbs else Nat.toDigits 10 i.natAbs

mutual

/-- The characters of a value's text. -/
def print : Value → List Char
  | int8 v => printInt v.toInt
  | int16 v => printInt v.toInt
  | int32 v => printInt v.toInt
  | int64 v => printInt v.toInt
  | vocab code => '[' :: (Vocab.unpack code).toList ++ [']']
  | float32 bits => floatStyle.write Binary.single bits.toNat
  | float64 bits => floatStyle.write Binary.double bits.toNat
  | string bytes => '"' :: Quoted.escape bytes ++ ['"']
  | blob bytes => '{' :: Hex.encodeChars bytes ++ ['}']
  | list items => '(' :: printItems items ++ [')']

/-- Items with a blank between each two. -/
def printItems : List Value → List Char
  | [] => []
  | [v] => v.print
  | v :: rest => v.print ++ ' ' :: printItems rest

end

/-- The text of a value. -/
def text (v : Value) : String := String.ofList v.print

/-- The text of a message, whose items stand without parentheses. -/
def messageText : Value → String
  | list items => String.ofList (printItems items)
  | v => v.text

end TagWire.Value
