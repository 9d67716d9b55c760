import TagWire.Error

/-!
# Byte streams

A stream answers a request for at most `n` bytes with some of them, with none at its end, or with a
failure. A request can be interrupted, and the reader makes it again; a reader that needs more bytes
asks for the rest.

- `ByteStream`: what can be read from, such as bytes that are all there.
- `Source`: a stream given by the pieces in which its bytes arrive.
- `Reading`: a computation that reads and may fail.
-/

namespace TagWire

/-- Why a request to a stream failed. -/
inductive ReadError where
  /-- The device under the stream failed. -/
  | device (kind : FailureKind) (message : String)
  /-- The stream makes its bytes from other bytes, and those were faulty. -/
  | carried (error : Error)
  deriving DecidableEq, Repr

/-- The error of a reader that was reading `context`. -/
def ReadError.toError (context : String) : ReadError → Error
  | .carried error => error
  | .device .unexpectedEof _ => .exhausted context 0
  | .device _ message => .io message

class ByteStream (σ : Type) where
  /-- At most `n` bytes, and none only at the end. A request that is interrupted has no answer. -/
  read : σ → (n : Nat) → Option (Except ReadError Bytes) × σ
  /-- How many requests in a row may be interrupted. -/
  patience : σ → Nat
  interrupted : ∀ {s s' n}, read s n = (none, s') → patience s' < patience s

/-- Bytes that are all there give as many as are asked for. -/
instance : ByteStream Bytes where
  read bytes n := (some (.ok (bytes.take n)), bytes.drop n)
  patience _ := 0
  interrupted := nofun

/-- What arrives in one go from a device. -/
inductive Arrival where
  | bytes (bytes : Bytes)
  /-- Nothing arrives, and the request that waited for it is interrupted. -/
  | interruption
  | failure (kind : FailureKind) (message : String)
  deriving DecidableEq, Repr

/-- The bytes that an arrival brings. -/
def Arrival.content : Arrival → Bytes
  | .bytes content => content
  | _ => []

/-- A stream given by its arrivals; no request is answered with more than `chunk` bytes. -/
structure Source where
  arrivals : List Arrival
  chunk : Option Nat := none
  deriving DecidableEq, Repr

namespace Source

/-- Answers a request for at most `limit` bytes. -/
def next (limit : Nat) : List Arrival → Option (Except ReadError Bytes) × List Arrival
  | [] => (some (.ok []), [])
  | .bytes [] :: rest => next limit rest
  | .bytes bytes :: rest => (some (.ok (bytes.take limit)), .bytes (bytes.drop limit) :: rest)
  | .interruption :: rest => (none, rest)
  | .failure kind message :: rest => (some (.error (.device kind message)), rest)

def read (source : Source) (n : Nat) : Option (Except ReadError Bytes) × Source :=
  let limit := (source.chunk.map (min n)).getD n
  let (answer, rest) := next limit source.arrivals
  (answer, { source with arrivals := rest })

theorem next_interrupted {limit : Nat} {arrivals left : List Arrival}
    (answered : next limit arrivals = (none, left)) :
    left.count .interruption < arrivals.count .interruption := by
  induction arrivals with
  | nil => cases answered
  | cons arrival rest ih =>
    cases arrival with
    | bytes content =>
      cases content with
      | nil => simpa using ih answered
      | cons => cases answered
    | interruption =>
      cases answered
      simp
    | failure => cases answered

instance : ByteStream Source where
  read
  patience source := source.arrivals.count .interruption
  interrupted := by
    intro source source' n answered
    obtain ⟨interrupted, rfl⟩ := Prod.mk.inj answered
    exact next_interrupted (Prod.ext interrupted rfl)

/-- The bytes not yet read. -/
def rest (source : Source) : Bytes := source.arrivals.flatMap Arrival.content

/-- The number of bytes not yet read. -/
def left (source : Source) : Nat := source.rest.length

end Source

/-- A computation that reads from a stream and may fail. -/
abbrev Reading (σ : Type) := ExceptT Error (StateM σ)

namespace Reading

variable {σ : Type} [ByteStream σ]

/-- Makes a request, and makes it again if it is interrupted. -/
def request (stream : σ) (n : Nat) : Except ReadError Bytes × σ :=
  match _ : ByteStream.read stream n with
  | (some answer, stream) => (answer, stream)
  | (none, stream) => request stream n
termination_by ByteStream.patience stream
decreasing_by exact ByteStream.interrupted ‹_›

/-- Asks until `n` bytes are there or the stream ends. -/
def gather (n : Nat) (stream : σ) : Except ReadError Bytes × σ :=
  if n = 0 then (.ok [], stream)
  else
    match request stream n with
    | (.error e, stream) => (.error e, stream)
    | (.ok [], stream) => (.ok [], stream)
    | (.ok (b :: bytes), stream) =>
      match gather (n - 1 - bytes.length) stream with
      | (.error e, stream) => (.error e, stream)
      | (.ok rest, stream) => (.ok (b :: bytes ++ rest), stream)
termination_by n

/-- The answer to one request. -/
def once (context : String) (n : Nat) : Reading σ Bytes := fun stream =>
  match request stream n with
  | (.ok bytes, stream) => (.ok bytes, stream)
  | (.error e, stream) => (.error (e.toError context), stream)

/-- The next `n` bytes, or fewer at the end of the stream. -/
def upTo (context : String) (n : Nat) : Reading σ Bytes := fun stream =>
  match gather n stream with
  | (.ok bytes, stream) => (.ok bytes, stream)
  | (.error e, stream) => (.error (e.toError context), stream)

/-- The next `n` bytes; an early end is reported with the number of bytes that are missing. -/
def exactly (context : String) (n : Nat) : Reading σ Bytes := do
  let bytes ← upTo context n
  if bytes.length < n then throw (.exhausted context (n - bytes.length)) else return bytes

/-- The next `n` bytes as a unit; an early end is reported without a count. -/
def unit (context : String) (n : Nat) : Reading σ Bytes := do
  let bytes ← upTo context n
  if bytes.length < n then throw (.exhausted context 0) else return bytes

/-- Repeats a reading. -/
def times {α : Type} (reading : Reading σ α) : Nat → Reading σ (List α)
  | 0 => return []
  | n + 1 => do
    let first ← reading
    let rest ← times reading n
    return first :: rest

end Reading

end TagWire
