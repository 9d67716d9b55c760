import TagWire.Bytes

/-!
# Hexadecimal text

Two digits stand for a byte, the high digit first. Writing uses lower case, reading takes either.
-/

namespace TagWire.Hex

/-- The digit for a number below sixteen. -/
def digit (n : Nat) : Char :=
  "0123456789abcdef".toList.getD n '0'

/-- The number that a digit of either case stands for. -/
def digit? (c : Char) : Option Nat :=
  if '0' ≤ c ∧ c ≤ '9' then some (c.toNat - 48)
  else if 'a' ≤ c ∧ c ≤ 'f' then some (c.toNat - 87)
  else if 'A' ≤ c ∧ c ≤ 'F' then some (c.toNat - 55)
  else none

/-- The character that digits give the code of; surrogates are none. -/
def char? (digits : List Char) : Option Char := do
  let values ← digits.mapM digit?
  let n := values.foldl (fun n d => 16 * n + d) 0
  if n < 0xd800 ∨ (0xdfff < n ∧ n < 0x110000) then some (Char.ofNat n) else none

def encodeByte (b : UInt8) : List Char :=
  [digit (b.toNat / 16), digit (b.toNat % 16)]

def encodeChars (bytes : Bytes) : List Char :=
  bytes.flatMap encodeByte

/-- Lower-case text of a byte string. -/
def encode (bytes : Bytes) : String :=
  String.ofList (encodeChars bytes)

/-- Divides bytes into groups of four, of which the last may be smaller. -/
def groups : Bytes → List Bytes
  | [] => []
  | a :: b :: c :: d :: rest => [a, b, c, d] :: groups rest
  | short => [short]

/-- Lower-case text with a blank between each two groups. -/
def encodeGroups (bytes : Bytes) : String :=
  " ".intercalate ((groups bytes).map encode)

/-- What can be wrong with hexadecimal text. -/
inductive Fault where
  | oddLength
  | badDigit (byte : UInt8) (position : Nat)
  deriving DecidableEq, Repr

/-- A Latin-1 character between quotes, spelled out where it does not print. -/
def quoteByte (b : UInt8) : String :=
  let body :=
    if b = 0x00 then "\\0"
    else if b = 0x09 then "\\t"
    else if b = 0x0a then "\\n"
    else if b = 0x0d then "\\r"
    else if b = 0x27 then "\\'"
    else if b = 0x5c then "\\\\"
    else if b < 0x20 ∨ (0x7f ≤ b ∧ b ≤ 0xa0) ∨ b = 0xad then
      "\\u\x7b" ++ String.ofList (Nat.toDigits 16 b.toNat) ++ "\x7d"
    else String.singleton (Char.ofNat b.toNat)
  "'" ++ body ++ "'"

def Fault.message : Fault → String
  | .oddLength => "Odd number of digits"
  | .badDigit byte position => "Invalid character " ++ quoteByte byte ++ " at position " ++ toString position

/-- The bytes of text that has an even length; `position` counts the bytes of text before it. -/
def decodeFrom (position : Nat) : Bytes → Except Fault Bytes
  | high :: low :: rest =>
    match digit? (Char.ofNat high.toNat), digit? (Char.ofNat low.toNat) with
    | none, _ => .error (.badDigit high position)
    | some _, none => .error (.badDigit low (position + 1))
    | some h, some l => do
      let bytes ← decodeFrom (position + 2) rest
      return UInt8.ofNat (16 * h + l) :: bytes
  | _ => .ok []

/-- The bytes that a text spells, given as the bytes of the text; its length is checked first. -/
def decode (text : Bytes) : Except Fault Bytes :=
  if text.length % 2 = 1 then .error .oddLength else decodeFrom 0 text

end TagWire.Hex
