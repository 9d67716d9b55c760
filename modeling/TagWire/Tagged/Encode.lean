import TagWire.Error
import TagWire.Value.Basic

/-!
# Writing tagged messages

A value follows its tag word. A list is its count and its items; items of a shared kind come without tag
words. Strings and blobs follow their length.

- `Tagged.encode`: the bytes of one message.
- `Tagged.Outbox`: messages one after the other, cut into blocks behind their headers.
-/

namespace TagWire.Tagged

/-- A count or a length, which has to fit a signed word. -/
def encodeLength (n : Nat) : Except Error Bytes :=
  if n < 0x80000000 then .ok (Bytes.ofNat 4 n)
  else .error (.parse "tagged value" ("length " ++ toString n ++ " too large"))

mutual

/-- The bytes of a value behind its tag word. -/
def encodeBody : Value → Except Error Bytes
  | .list items => do
    let count ← encodeLength items.length
    let bytes ← encodeItems (Value.shared items).isSome items
    return count ++ bytes
  | .string bytes => do
    let length ← encodeLength bytes.length
    return length ++ bytes
  | .blob bytes => do
    let length ← encodeLength bytes.length
    return length ++ bytes
  | v => .ok v.payload

/-- The items of a list, with their tag words unless the list shares them. -/
def encodeItems (isShared : Bool) : List Value → Except Error Bytes
  | [] => .ok []
  | v :: rest => do
    let bytes ← encodeBody v
    let others ← encodeItems isShared rest
    return (if isShared then [] else v.word.toBytes) ++ bytes ++ others

end

/-- The bytes of one message. -/
def encode (v : Value) : Except Error Bytes :=
  match v with
  | .list _ => do
    let body ← encodeBody v
    return v.word.toBytes ++ body
  | _ => .error (.parse "tagged value" "top-level value must be a list")

end TagWire.Tagged
