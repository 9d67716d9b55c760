import TagWire.Json.Parse
import TagWire.Value.Basic

/-!
# Values as JSON

A value is an object with one entry, whose key names the kind. A string is JSON text if it holds UTF-8 and
an array of bytes otherwise; either form is read.
-/

namespace TagWire.Value

/-- The key that names a kind. -/
def jsonKey : Kind → String
  | .int8 => "Int8"
  | .int16 => "Int16"
  | .int32 => "Int32"
  | .int64 => "Int64"
  | .vocab => "Vocab"
  | .float32 => "Float32"
  | .float64 => "Float64"
  | .string => "String"
  | .blob => "Blob"

def listKey : String := "List"

def jsonBytes (bytes : Bytes) : Json := .array (bytes.map fun b => .int b.toNat)

def jsonString (bytes : Bytes) : Json :=
  match Utf8.chars? bytes with
  | some chars => .string chars
  | none => jsonBytes bytes

/-- The object whose one key names a kind. -/
def jsonEntry (kind : Kind) (j : Json) : Json := .object [((jsonKey kind).toList, j)]

mutual

def toJson : Value → Json
  | int8 v => jsonEntry .int8 (.int v.toInt)
  | int16 v => jsonEntry .int16 (.int v.toInt)
  | int32 v => jsonEntry .int32 (.int v.toInt)
  | int64 v => jsonEntry .int64 (.int v.toInt)
  | vocab code => jsonEntry .vocab (.int code.toInt)
  | float32 bits => jsonEntry .float32 (.single bits)
  | float64 bits => jsonEntry .float64 (.double bits)
  | string bytes => jsonEntry .string (jsonString bytes)
  | blob bytes => jsonEntry .blob (jsonBytes bytes)
  | list items => .object [(listKey.toList, .array (itemsToJson items))]

def itemsToJson : List Value → List Json
  | [] => []
  | v :: rest => v.toJson :: itemsToJson rest

end

/-- An integer of `width` bytes. -/
def jsonInt? (width : Nat) : Json → Option Int
  | .int i => if -(Bytes.card width / 2 : Nat) ≤ i ∧ i < (Bytes.card width / 2 : Nat) then some i else none
  | _ => none

def jsonByte? : Json → Option UInt8
  | .int i => if 0 ≤ i ∧ i < 256 then some (UInt8.ofNat i.toNat) else none
  | _ => none

def jsonBytes? : Json → Option Bytes
  | .array items => items.mapM jsonByte?
  | _ => none

def jsonString? : Json → Option Bytes
  | .string chars => some (Utf8.encodeChars chars)
  | j => jsonBytes? j

/-- The nearest float32 of a number. -/
def jsonFloat32? : Json → Option UInt32
  | .int i => some (UInt32.ofNat (Binary.single.ofInt i))
  | .double bits => some (Binary.narrow bits)
  | .single bits => some bits
  | _ => none

/-- The nearest float64 of a number. -/
def jsonFloat64? : Json → Option UInt64
  | .int i => some (UInt64.ofNat (Binary.double.ofInt i))
  | .double bits => some bits
  | .single bits => some (Binary.widen bits)
  | _ => none

/-- The primitive of a kind that a tree holds. -/
def primitiveOfJson? (kind : Kind) (j : Json) : Option Value :=
  match kind with
  | .int8 => (jsonInt? 1 j).map fun i => int8 (Int8.ofInt i)
  | .int16 => (jsonInt? 2 j).map fun i => int16 (Int16.ofInt i)
  | .int32 => (jsonInt? 4 j).map fun i => int32 (Int32.ofInt i)
  | .int64 => (jsonInt? 8 j).map fun i => int64 (Int64.ofInt i)
  | .vocab => (jsonInt? 4 j).map fun i => vocab (Word.ofInt i)
  | .float32 => (jsonFloat32? j).map float32
  | .float64 => (jsonFloat64? j).map float64
  | .string => (jsonString? j).map string
  | .blob => (jsonBytes? j).map blob

mutual

def ofJson? : Json → Option Value
  | .object [(key, j)] =>
    if key = listKey.toList then (listOfJson? j).map list
    else
      match Kind.all.find? fun kind => (jsonKey kind).toList = key with
      | some kind => primitiveOfJson? kind j
      | none => none
  | _ => none

def listOfJson? : Json → Option (List Value)
  | .array items => itemsOfJson? items
  | _ => none

def itemsOfJson? : List Json → Option (List Value)
  | [] => some []
  | j :: rest => do
    let v ← ofJson? j
    let others ← itemsOfJson? rest
    return v :: others

end

/-- The JSON text of a value. -/
def jsonText (v : Value) : String := String.ofList v.toJson.compact

/-- The value that a JSON text holds. -/
def ofJsonText? (text : String) : Option Value := (Json.parse? text.toList).bind ofJson?

end TagWire.Value
