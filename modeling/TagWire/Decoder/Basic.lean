import TagWire.Decoder.Task
import TagWire.Tagged.Decode

/-!
# Decoding

A decoder is a stream of tagged bytes made from an external source: it works off the tasks of a layout,
each time up to the first bytes that it can deliver.

- `Decoder.read`: delivers bytes; a failure ends the stream for good.
- `Decoder.finish`: works off what is left, which must not send anything.
- `Decoder.readValue`: reads one message from the stream.
-/

namespace TagWire

/-- What a task comes to when it is taken up to its first bytes. -/
inductive Outcome where
  /-- It is done and sends nothing. -/
  | silent
  /-- It sends bytes, and other tasks are left of it. -/
  | sent (bytes : Bytes) (tasks : List Task)
  deriving DecidableEq, Repr

namespace Task

variable {σ : Type} [ByteStream σ]

/-- Takes a task up to its first bytes. At most `want` bytes go through as they are. -/
def step (want : Nat) : Task → Reading (Channel σ) Outcome
  | derive derivation => do
    deriveProperties derivation
    return .silent
  | send bytes => return if bytes = [] then .silent else .sent bytes []
  | hide p => do
    readHidden p
    return .silent
  | load name origin literal size => return .sent (← loaded name origin literal size) []
  | counted p => do
    let n ← readLength p.origin
    return .sent (lengthBytes n) [p.elements n]
  | forward origin n =>
    if n = 0 then return .silent
    else do
      let bytes ← Reading.once origin (min want n)
      if bytes = [] then throw (.exhausted origin n)
      return .sent bytes [forward origin (n - bytes.length)]
  | convert _ 0 => return .silent
  | convert p (n + 1) => return .sent (← convertElement p) [convert p n]
  | texts _ 0 => return .silent
  | texts origin (n + 1) => do
    let length ← readLength origin
    return .sent (lengthBytes length) [forward origin length, texts origin n]
  | close => return .silent

/-- Takes tasks until one sends bytes; with them come the tasks that are left. -/
def advance (want : Nat) : List Task → Channel σ → Except Error Bytes × List Task × Channel σ
  | [], channel => (.ok [], [], channel)
  | t :: rest, channel =>
    match (t.step want).run channel with
    | (.error e, channel) => (.error e, t :: rest, channel)
    | (.ok .silent, channel) => advance want rest channel
    | (.ok (.sent bytes tasks), channel) => (.ok bytes, tasks ++ rest, channel)

end Task

structure Decoder (σ : Type) where
  layout : Layout
  channel : Channel σ
  agenda : List Task
  /-- Bytes that are sent but not yet delivered. -/
  staged : Bytes := []
  /-- The failure that ended the stream. -/
  failed : Option Error := none

namespace Decoder

variable {σ : Type} [ByteStream σ]

/-- A decoder for one message from a source. -/
def start (layout : Layout) (source : σ) : Decoder σ where
  layout := layout
  channel := { source }
  agenda := layout.tasks

def source (d : Decoder σ) : σ := d.channel.source

def properties (d : Decoder σ) : Properties := d.channel.properties

/-- Adds a property, as if a field had left it. -/
def put (d : Decoder σ) (name : String) (value : Property) : Decoder σ :=
  { d with channel := { d.channel with properties := d.properties.put name value } }

/-- Whether all of the layout has been delivered. -/
def isFinished (d : Decoder σ) : Bool := d.agenda.isEmpty && d.staged.isEmpty

/-- Starts over for the next message of the same source. -/
def reset (d : Decoder σ) : Decoder σ := start d.layout d.source

/-- At most `n` bytes of the tagged message, and none only at its end. -/
def read (d : Decoder σ) (n : Nat) : Except Error Bytes × Decoder σ :=
  match d.failed with
  | some e => (.error e, d)
  | none =>
    if n = 0 then (.ok [], d)
    else if d.staged ≠ [] then (.ok (d.staged.take n), { d with staged := d.staged.drop n })
    else
      match Task.advance n d.agenda d.channel with
      | (.error e, agenda, channel) => (.error e, { d with agenda, channel, failed := some e })
      | (.ok bytes, agenda, channel) =>
        (.ok (bytes.take n), { d with agenda, channel, staged := bytes.drop n })

/-- A decoder makes the requests to its source again, and is never interrupted itself. -/
instance : ByteStream (Decoder σ) where
  read d n :=
    match d.read n with
    | (.ok bytes, d) => (some (.ok bytes), d)
    | (.error e, d) => (some (.error (.carried e)), d)
  patience _ := 0
  interrupted answered := by split at answered <;> cases answered

/-- Works off what is left of the layout. Only data that is hidden in the message may be left. -/
def finish (d : Decoder σ) : Except Error Unit × Decoder σ :=
  match d.failed with
  | some e => (.error e, d)
  | none =>
    match (Task.runAll d.agenda).run d.channel with
    | (.error e, channel) => (.error e, { d with channel, staged := [], failed := some e })
    | (.ok bytes, channel) =>
      let left := d.staged.length + bytes.length
      let d := { d with channel, agenda := [], staged := [] }
      if left = 0 then (.ok (), d)
      else (.error (.parse "twiddled stream" (toString left ++ " bytes left after the message")), d)

/-- Reads one message. A failure of the stream comes before any fault of the message made from it. -/
def readValue (d : Decoder σ) : Except Error Value × Decoder σ :=
  let (outcome, d) := Tagged.readMessage.run d
  match d.failed, outcome with
  | some e, _ => (.error e, d)
  | none, .error e => (.error e, d)
  | none, .ok v =>
    match d.finish with
    | (.ok (), d) => (.ok v, d)
    | (.error e, d) => (.error e, d)

end Decoder

end TagWire
