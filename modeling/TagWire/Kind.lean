/-!
# Primitive kinds

A kind says what a primitive value is, which tag announces it and how many bytes one value takes.
Unsigned and Boolean keywords name the signed kind of their width.
-/

namespace TagWire

/-- What a primitive value of a message is. -/
inductive Kind where
  | int8
  | int16
  | int32
  | int64
  | vocab
  | float32
  | float64
  | string
  | blob
  deriving DecidableEq, Repr

namespace Kind

def all : List Kind :=
  [int8, int16, int32, int64, vocab, float32, float64, string, blob]

/-- The tag that announces a value of this kind. -/
def tag : Kind → Nat
  | int8 => 32
  | int16 => 64
  | int32 => 1
  | int64 => 17
  | vocab => 9
  | float32 => 128
  | float64 => 10
  | string => 4
  | blob => 12

/-- The kind that a tag announces. -/
def ofTag? (tag : Nat) : Option Kind :=
  all.find? fun kind => kind.tag = tag

/-- Bytes of one value; a string or a blob brings its own length. -/
def size? : Kind → Option Nat
  | int8 => some 1
  | int16 => some 2
  | int32 | vocab | float32 => some 4
  | int64 | float64 => some 8
  | string | blob => none

/-- The keyword that layouts and diagnostics use for this kind. -/
def name : Kind → String
  | int8 => "int8"
  | int16 => "int16"
  | int32 => "int32"
  | int64 => "int64"
  | vocab => "vocab"
  | float32 => "float32"
  | float64 => "float64"
  | string => "string"
  | blob => "blob"

/-- The kind that a layout keyword names. -/
def ofKeyword? (keyword : String) : Option Kind :=
  match keyword with
  | "uint8" | "bool" => some int8
  | "uint16" => some int16
  | "uint32" => some int32
  | "uint64" => some int64
  | _ => all.find? fun kind => kind.name = keyword

/-- Whether a layout keyword names an integer without a sign. -/
def unsignedKeyword (keyword : String) : Bool :=
  keyword ∈ ["uint8", "uint16", "uint32", "uint64", "bool"]

/-- Whether values of this kind are two's complement integers. A vocab is one. -/
def isInteger : Kind → Bool
  | int8 | int16 | int32 | int64 | vocab => true
  | float32 | float64 | string | blob => false

/-- Whether values of this kind are numbers that a wider integer can carry. -/
def isNumeral : Kind → Bool
  | int8 | int16 | int32 | int64 => true
  | vocab | float32 | float64 | string | blob => false

theorem ofTag?_tag (kind : Kind) : ofTag? kind.tag = some kind := by
  cases kind <;> rfl

theorem tag_ofTag? {tag : Nat} {kind : Kind} (h : ofTag? tag = some kind) : kind.tag = tag := by
  simpa using List.find?_some h

theorem ofKeyword?_name (kind : Kind) : ofKeyword? kind.name = some kind := by
  cases kind <;> rfl

theorem tag_pos (kind : Kind) : 0 < kind.tag := by
  cases kind <;> decide

theorem tag_lt (kind : Kind) : kind.tag < 256 := by
  cases kind <;> decide

end Kind

end TagWire
