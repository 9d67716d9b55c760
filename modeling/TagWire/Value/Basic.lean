import TagWire.Binary
import TagWire.Utf8
import TagWire.Word

/-!
# Values

A value is a primitive or a list of values; a message is a list. Floating-point numbers are kept as their
bits and strings as the bytes that were sent, so nothing is lost on the way through.

- `Value.shared`: the kind that all items of a list have in common.
- `Value.word`: the tag word that announces a value.
- `Value.payload`, `Value.ofPayload`: the bytes of a primitive.
-/

namespace TagWire

inductive Value where
  | int8 (v : Int8)
  | int16 (v : Int16)
  | int32 (v : Int32)
  | int64 (v : Int64)
  | vocab (code : Word)
  | float32 (bits : UInt32)
  | float64 (bits : UInt64)
  | string (bytes : Bytes)
  | blob (bytes : Bytes)
  | list (items : List Value)
  deriving Repr, Inhabited

namespace Value

/-- The string that holds a text. -/
def ofText (text : String) : Value := .string (Utf8.encode text)

/-- The kind of a primitive. -/
def kind? : Value → Option Kind
  | int8 _ => some .int8
  | int16 _ => some .int16
  | int32 _ => some .int32
  | int64 _ => some .int64
  | vocab _ => some .vocab
  | float32 _ => some .float32
  | float64 _ => some .float64
  | string _ => some .string
  | blob _ => some .blob
  | list _ => none

/-- The kind that all items have in common; an empty list has none, nor has one with a list in it. -/
def shared : List Value → Option Kind
  | [] => none
  | first :: rest => first.kind?.filter fun kind => rest.all fun v => v.kind? = some kind

/-- The tag word that announces the value. -/
def word : Value → Word
  | list items => Word.ofList (shared items)
  | v => Word.ofTag ((v.kind?.map Kind.tag).getD 0)

def items? : Value → Option (List Value)
  | list items => some items
  | _ => none

def isList (v : Value) : Bool := v.items?.isSome

/-- The number of items of a list, and zero for a primitive. -/
def length (v : Value) : Nat := (v.items?.map List.length).getD 0

/-- The item of a list at an index. -/
def get? (v : Value) (index : Nat) : Option Value := v.items?.bind (·[index]?)

/-- The number in an integer or a vocab. -/
def asInt : Value → Option Int
  | int8 v => some v.toInt
  | int16 v => some v.toInt
  | int32 v => some v.toInt
  | int64 v => some v.toInt
  | vocab code => some code.toInt
  | _ => none

/-- The number in a primitive, as the bits of the nearest float64. -/
def asFloat64 : Value → Option UInt64
  | float32 bits => some (Binary.widen bits)
  | float64 bits => some bits
  | v => v.asInt.map fun i => UInt64.ofNat (Binary.double.ofInt i)

/-- The bytes of a string. -/
def stringBytes? : Value → Option Bytes
  | string bytes => some bytes
  | _ => none

/-- The text of a string that holds UTF-8. -/
def text? (v : Value) : Option String := v.stringBytes?.bind Utf8.decode?

/-- The bytes that stand for a primitive, without the length of a string or a blob. -/
def payload : Value → Bytes
  | int8 v => Bytes.ofInt 1 v.toInt
  | int16 v => Bytes.ofInt 2 v.toInt
  | int32 v => Bytes.ofInt 4 v.toInt
  | int64 v => Bytes.ofInt 8 v.toInt
  | vocab code => code.toBytes
  | float32 bits => Bytes.ofNat 4 bits.toNat
  | float64 bits => Bytes.ofNat 8 bits.toNat
  | string bytes => bytes
  | blob bytes => bytes
  | list _ => []

/-- The primitive of a kind that the bytes stand for. -/
def ofPayload (kind : Kind) (bytes : Bytes) : Value :=
  match kind with
  | .int8 => int8 (Int8.ofInt (Bytes.toInt bytes))
  | .int16 => int16 (Int16.ofInt (Bytes.toInt bytes))
  | .int32 => int32 (Int32.ofInt (Bytes.toInt bytes))
  | .int64 => int64 (Int64.ofInt (Bytes.toInt bytes))
  | .vocab => vocab (Word.ofBytes bytes)
  | .float32 => float32 (UInt32.ofNat (Bytes.toNat bytes))
  | .float64 => float64 (UInt64.ofNat (Bytes.toNat bytes))
  | .string => string bytes
  | .blob => blob bytes

mutual

/-- Whether two values are the same with floats compared as numbers: a NaN equals nothing, and the zeros
equal each other. -/
def equal : Value → Value → Bool
  | int8 a, int8 b => a = b
  | int16 a, int16 b => a = b
  | int32 a, int32 b => a = b
  | int64 a, int64 b => a = b
  | vocab a, vocab b => a = b
  | float32 a, float32 b =>
    (Binary.read Binary.single a.toNat).equal (Binary.read Binary.single b.toNat)
  | float64 a, float64 b =>
    (Binary.read Binary.double a.toNat).equal (Binary.read Binary.double b.toNat)
  | string a, string b => a = b
  | blob a, blob b => a = b
  | list a, list b => equalItems a b
  | _, _ => false

def equalItems : List Value → List Value → Bool
  | [], [] => true
  | a :: as, b :: bs => a.equal b && equalItems as bs
  | _, _ => false

end

end Value

end TagWire
