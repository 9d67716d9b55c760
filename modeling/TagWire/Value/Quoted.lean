import TagWire.Error
import TagWire.Hex
import TagWire.Utf8

/-!
# Quoted strings

A string is written between quotes. A quote, a backslash and the common control characters are escaped,
and each byte of a faulty UTF-8 piece is written with two digits.
-/

namespace TagWire.Value.Quoted

/-- The spelling of a character between quotes. -/
def escapeChar (c : Char) : List Char :=
  if c = '"' then ['\\', '"']
  else if c = '\\' then ['\\', '\\']
  else if c = '\n' then ['\\', 'n']
  else if c = '\t' then ['\\', 't']
  else if c = '\r' then ['\\', 'r']
  else [c]

def escapePiece : Utf8.Piece → List Char
  | .char c => escapeChar c
  | .faulty bytes => bytes.flatMap fun b => '\\' :: 'x' :: Hex.encodeByte b

/-- The spelling of a byte string between quotes. -/
def escape (bytes : Bytes) : List Char :=
  (Utf8.pieces bytes).flatMap escapePiece

/-- The character that a letter stands for behind a backslash. -/
def unescapeChar (c : Char) : Char :=
  if c = 'n' then '\n' else if c = 't' then '\t' else if c = 'r' then '\r' else c

def badEscape (digits : List Char) : Error :=
  .parse "value text" ("bad escape '\\x" ++ String.ofList digits ++ "'")

/-- The bytes that a text between quotes spells. -/
def unescape : List Char → Except Error Bytes
  | '\\' :: 'x' :: high :: low :: rest =>
    match Hex.digit? high, Hex.digit? low with
    | some h, some l => do
      let bytes ← unescape rest
      return UInt8.ofNat (16 * h + l) :: bytes
    | _, _ => .error (badEscape [high, low])
  | '\\' :: 'x' :: digits => .error (badEscape digits)
  | '\\' :: c :: rest => do
    let bytes ← unescape rest
    return String.utf8EncodeChar (unescapeChar c) ++ bytes
  | c :: rest => do
    let bytes ← unescape rest
    return String.utf8EncodeChar c ++ bytes
  | [] => .ok []

end TagWire.Value.Quoted
