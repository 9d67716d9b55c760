import TagWire.Stream
import TagWire.Value.Basic

/-!
# Reading tagged messages

A message is read from any stream: the tag word of a list, then its body. Lists nest at most 129 deep.
-/

namespace TagWire.Tagged

variable {σ : Type} [ByteStream σ]

def readWord (context : String) : Reading σ Word := do
  return Word.ofBytes (← Reading.unit context 4)

/-- A count or a length. -/
def readLength (context : String) : Reading σ Nat := do
  let w ← readWord context
  match w.length? with
  | some n => return n
  | none => throw (.parse "tagged stream" ("negative " ++ context ++ " " ++ toString w.toInt))

/-- A primitive behind its tag word. -/
def readPrimitive (kind : Kind) : Reading σ Value :=
  match kind.size? with
  | some size => do return Value.ofPayload kind (← Reading.unit kind.name size)
  | none => do
    let length ← readLength kind.name
    return Value.ofPayload kind (← Reading.exactly kind.name length)

/-- An item behind its tag word, with the means to read the body of a list. -/
def readItem (readList : Nat → Reading σ Value) (w : Word) : Reading σ Value :=
  match Kind.ofTag? w.toNat with
  | some kind => readPrimitive kind
  | none =>
    if w.isList ∧ w.toNat < 512 then readList w.unit
    else throw (.parse "tagged stream" ("unrecognized tag " ++ toString w.toInt ++ " (" ++ w.describe ++ ")"))

/-- The body of a list whose items share a tag, or bring their own where it is zero. -/
def readBody : (depth sharedTag : Nat) → Reading σ Value
  | 0, _ => throw (.parse "tagged stream" "lists nested too deeply")
  | depth + 1, sharedTag => do
    let count ← readLength "list count"
    let readTag : Reading σ Word := if sharedTag = 0 then readWord "element tag" else pure (Word.ofTag sharedTag)
    let items ← Reading.times (do readItem (readBody depth) (← readTag)) count
    return .list items

/-- Lists nest at most this deep. -/
def maxDepth : Nat := 129

/-- One message. -/
def readMessage : Reading σ Value := do
  let w ← readWord "top-level tag"
  if w.isList then readBody maxDepth w.unit
  else throw (.parse "tagged stream" ("top-level tag is '" ++ w.describe ++ "', not a list"))

/-- The message at the start of a byte string. -/
def decode (bytes : Bytes) : Except Error Value :=
  (readMessage.run bytes).1

end TagWire.Tagged
