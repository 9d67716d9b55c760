import TagWire.Decoder.Basic
import TagWire.Encoder.Basic
import TagWire.Layout.Compile
import TagWire.Tagged.Blocks

/-!
# Messages under a layout

Whole messages in one step: from external bytes to a value, and back.
-/

namespace TagWire.Layout

/-- Reads one message from a source and leaves later bytes unread. -/
def readFrom {σ : Type} [ByteStream σ] (l : Layout) (source : σ) : Except Error Value × σ :=
  let (outcome, d) := (Decoder.start l source).readValue
  (outcome, d.source)

/-- Reads a message that takes up all of the bytes. -/
def read (l : Layout) (bytes : Bytes) : Except Error Value :=
  match l.readFrom bytes with
  | (.error e, _) => .error e
  | (.ok v, []) => .ok v
  | (.ok _, rest) => .error (.parse "external message" (toString rest.length ++ " bytes after the last field"))

/-- Why bytes do not divide into messages. -/
inductive Indivisible where
  /-- The message with this number, counted from zero, is faulty. -/
  | message (index : Nat) (error : Error)
  /-- Messages take up no bytes, but some are left. -/
  | left (count : Nat)
  deriving DecidableEq, Repr

/-- Reads messages until no bytes are left; `index` counts those before. -/
def readAllFrom (l : Layout) (index : Nat) (bytes : Bytes) : Except Indivisible (List Value) :=
  if bytes = [] then .ok []
  else
    match l.readFrom bytes with
    | (.error e, _) => .error (.message index e)
    | (.ok v, rest) =>
      if rest.length < bytes.length then do
        let others ← readAllFrom l (index + 1) rest
        return v :: others
      else .error (.left bytes.length)
termination_by bytes.length

/-- Reads bytes that are one message after the other. -/
def readAll (l : Layout) (bytes : Bytes) : Except Indivisible (List Value) :=
  l.readAllFrom 0 bytes

/-- Writes a value as the layout has it. -/
def write (l : Layout) (v : Value) : Except Error Bytes := do
  let outbox ← ({} : Tagged.Outbox).write v
  let e := (Encoder.start l outbox.finish).update
  match e.error with
  | some error => throw error
  | none => return e.output

end TagWire.Layout
