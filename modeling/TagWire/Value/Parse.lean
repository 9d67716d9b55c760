import TagWire.Decimal.Numeral
import TagWire.Value.Basic
import TagWire.Value.Lexeme
import TagWire.Value.Quoted
import TagWire.Vocab

/-!
# Value text, read

The items of a text form one list. A run is an integer, a float, or else a string of its own characters;
an integer takes four bytes if they hold it and eight otherwise. The text is checked from end to end
before any item is converted.
-/

namespace TagWire.Value

def malformed (fault : Malformed) : Error := .parse "value text" fault.message

/-- The number of an integer numeral, with the numeral at hand for the report. -/
def ofInteger (numeral : List Char) (i : Int) : Except Error Value :=
  let outOfRange (how : String) : Error :=
    .parse "value text" ("'" ++ String.ofList numeral ++ "': number too " ++ how ++ " to fit in target type")
  if 0x8000000000000000 ≤ i then .error (outOfRange "large")
  else if i < -0x8000000000000000 then .error (outOfRange "small")
  else if -0x80000000 ≤ i ∧ i < 0x80000000 then .ok (int32 (Int32.ofInt i))
  else .ok (int64 (Int64.ofInt i))

/-- The primitive that a run spells. -/
def ofRun (run : List Char) : Except Error Value :=
  match Decimal.Numeral.ofChars? run with
  | none => .ok (string (Utf8.encodeChars run))
  | some numeral =>
    match numeral.int? with
    | some i => ofInteger run i
    | none => .ok (float64 (UInt64.ofNat (numeral.bits Binary.double)))

def ofVocabText (text : List Char) : Except Error Value :=
  if 4 < (Utf8.encodeChars text).length then
    .error (.parse "value text" ("vocab '[" ++ String.ofList text ++ "]' longer than four characters"))
  else .ok (vocab (Vocab.pack (String.ofList text)))

def ofBlobDigits (digits : List Char) : Except Error Value :=
  match Hex.decode (Utf8.encodeChars digits) with
  | .ok bytes => .ok (blob bytes)
  | .error fault =>
    .error (.parse "value text" ("blob \x7b" ++ String.ofList digits ++ "\x7d: " ++ fault.message))

/-- Gathers items, last first, with the items of the lists around them. -/
def assemble : List Lexeme → (items : List Value) → (outer : List (List Value)) → Except Error (List Value)
  | [], items, [] => .ok items.reverse
  | [], _, _ :: _ => .error (malformed .openList)
  | .opening :: rest, items, outer => assemble rest [] (items :: outer)
  | .closing :: rest, items, siblings :: outer => assemble rest (list items.reverse :: siblings) outer
  | .closing :: _, _, [] => .error (malformed .strayClosing)
  | .vocab text :: rest, items, outer => do
    let v ← ofVocabText text
    assemble rest (v :: items) outer
  | .blob digits :: rest, items, outer => do
    let v ← ofBlobDigits digits
    assemble rest (v :: items) outer
  | .quoted raw :: rest, items, outer => do
    let bytes ← Quoted.unescape raw
    assemble rest (string bytes :: items) outer
  | .run text :: rest, items, outer => do
    let v ← ofRun text
    assemble rest (v :: items) outer

/-- The items of a text. -/
def parseItems (text : List Char) : Except Error (List Value) := do
  let lexemes ← (Lexeme.lex text).mapError malformed
  (Lexeme.checkNesting 0 lexemes).mapError malformed
  assemble lexemes [] []

/-- The list of all items of a text. -/
def parse (text : String) : Except Error Value := do
  return list (← parseItems text.toList)

end TagWire.Value
