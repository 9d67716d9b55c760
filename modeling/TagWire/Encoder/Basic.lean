import TagWire.Decoder.Task
import TagWire.Encoder.Segment
import TagWire.Error
import TagWire.Layout.Basic

/-!
# Encoding

An encoder goes once over a buffered message. Tag words are compared with those of the layout and dropped,
data is put out as ranges of the message, and what looks different outside is put into a scratch buffer.
A difference does not end the walk, but the first one is what the encoder reports; the end of the message
does.

- `Encoder.update`: the walk.
- `Encoder.output`: the external bytes.
-/

namespace TagWire

/-- Tag words of a list that differ. They are let pass if the list turns out to be empty, because an empty
list has no items to tell their kind. -/
structure Deferred where
  expected : Word
  received : Word
  deriving DecidableEq, Repr

structure Encoder where
  layout : Layout
  buffer : BlockBuffer
  /-- What is left of the message. -/
  rest : List Piece
  /-- The last byte that was put out or skipped as data. -/
  lastByte : UInt8 := 0
  /-- The ranges put out so far, the last one first. -/
  latest : List Segment := []
  scratch : Bytes := []
  deferred : Option Deferred := none
  error : Option Error := none
  deriving DecidableEq, Repr

namespace Encoder

def start (layout : Layout) (buffer : BlockBuffer) : Encoder where
  layout := layout
  buffer := buffer
  rest := Piece.ofBuffer buffer

/-- A part of the walk. An error ends the walk. -/
abbrev Walk := ExceptT Error (StateM Encoder)

/-- Keeps an error unless there is one already. -/
def note (error : Error) (e : Encoder) : Encoder :=
  { e with error := e.error <|> some error }

def record (error : Error) : Walk Unit := modify (note error)

/-- The text that stands for a gap in reports: the whole grammar for tag words alone. -/
def originOf (e : Encoder) (g : Gap) : String :=
  if g.origin = "" then e.layout.grammar else g.origin

def recordMismatch (g : Gap) (expected received : Word) : Walk Unit := do
  record (.tagMismatch expected received ((← get).originOf g))

/-- Puts out pieces of the message. -/
def emit (pieces : List Piece) : Walk Unit :=
  modify fun e =>
    { e with
      latest := pieces.foldl (fun latest p => (Segment.source p.block p.start p.bytes.length).push latest) e.latest }

/-- Puts out bytes that the message does not have. -/
def emitScratch (bytes : Bytes) : Walk Unit :=
  if bytes = [] then pure ()
  else
    modify fun e =>
      { e with
        latest := (Segment.scratch e.scratch.length bytes.length).push e.latest
        scratch := e.scratch ++ bytes }

/-- The next `n` bytes of the message, put out if asked. -/
def take (n : Nat) (out : Bool) : Walk Bytes := do
  let split := Piece.split n (← get).rest
  modify fun e => { e with rest := split.rest }
  if out then emit split.taken
  if 0 < split.missing then throw (.exhausted "buffered message" split.missing)
  return Piece.bytesOf split.taken

/-- Goes over `n` bytes of data. -/
def pass (n : Nat) (out : Bool) : Walk Unit := do
  let bytes ← take n out
  modify fun e => { e with lastByte := bytes.getLast?.getD e.lastByte }

/-- Settles a deferred difference once the length of the list is known. -/
def settle (g : Gap) (length : Word) : Walk Unit := do
  match (← get).deferred with
  | none => pure ()
  | some d =>
    modify fun e => { e with deferred := none }
    if length ≠ 0 then recordMismatch g d.expected d.received

/-- A word of the message. -/
def takeWord (out : Bool) : Walk Word := do
  return Word.ofBytes (← take 4 out)

/-- Compares the length of a list. -/
def checkLength (g : Gap) (expected : Word) : Walk Unit := do
  let received ← takeWord false
  settle g received
  if expected ≠ received then
    record (.mismatch ("length " ++ toString expected.toInt) ("length " ++ toString received.toInt)
      ((← get).originOf g))

/-- Compares a tag word. -/
def checkTag (g : Gap) (expected : Word) : Walk Unit := do
  let received ← takeWord false
  if expected = received then pure ()
  else if expected.isList ∧ received.isList then
    modify fun e => { e with deferred := some ⟨expected, received⟩ }
  else recordMismatch g expected received

/-- Compares the tag words of a gap. The word behind the tag of a list is its length. -/
def checkWords (g : Gap) : List Word → Walk Unit
  | [] => pure ()
  | [tag] => checkTag g tag
  | tag :: next :: rest => do
    checkTag g tag
    if tag.isList then
      checkLength g next
      checkWords g rest
    else checkWords g (next :: rest)

/-- The number in front of data, which is put out as well. -/
def takeLength (g : Gap) : Walk Nat := do
  let w ← takeWord true
  settle g w
  match w.length? with
  | some n => return n
  | none =>
    throw (.parse ("length prefix of '" ++ g.origin ++ "'") ("negative length " ++ toString w.toInt))

/-- Repeats a part of the walk. -/
def times (part : Walk Unit) : Nat → Walk Unit
  | 0 => pure ()
  | n + 1 => do
    part
    times part n

/-- One element behind its length. -/
def passText (g : Gap) : Walk Unit := do
  let n ← takeLength g
  pass n true

/-- One float64 as a float32. -/
def passNarrow : Walk Unit := do
  let wide ← take 8 false
  emitScratch (Bytes.ofNat 4 (Binary.narrow (UInt64.ofNat (Bytes.toNat wide))).toNat)

/-- One integer, filled up. -/
def passPadded (size wire : Nat) (signed : Bool) : Walk Unit := do
  pass size true
  let fill := padByte signed [(← get).lastByte]
  emitScratch (List.replicate (wire - size) fill)

/-- The elements of data. -/
def passElements (g : Gap) (p : Payload) (n : Nat) : Walk Unit :=
  match p.kind.size?, p.conversion with
  | none, _ => times (passText g) n
  | some size, .identity => pass (n * size) true
  | some _, .narrow => times passNarrow n
  | some size, .pad wire signed => times (passPadded size wire signed) n

/-- The data of a gap. -/
def passPayload (g : Gap) (p : Payload) : Walk Unit :=
  match p.use with
  | .skipped | .saved _ => pure ()
  | .loaded .. => pass (p.kind.size?.getD 0) false
  | .exchanged => do
    let n ← match p.count with
      | .fixed n => pure n
      | .fromWire => takeLength g
    passElements g p n

def passGap (g : Gap) : Walk Unit := do
  checkWords g g.words
  match g.payload? with
  | some p => passPayload g p
  | none => pure ()

def passGaps : List Gap → Walk Unit
  | [] => pure ()
  | g :: rest => do
    passGap g
    passGaps rest

/-- The number of bytes of the message that are left. -/
def left (e : Encoder) : Nat := (Piece.bytesOf e.rest).length

/-- A message has to end with its layout. -/
def checkEnd (e : Encoder) : Encoder :=
  if e.error = none ∧ 0 < e.left then
    e.note (.mismatch "end of message" (toString e.left ++ " more bytes") e.layout.grammar)
  else e

/-- Goes over the whole message, from its beginning whatever has been done before. -/
def update (e : Encoder) : Encoder :=
  match (passGaps e.layout.gaps).run (start e.layout e.buffer) with
  | (.ok (), e) => e.checkEnd
  | (.error error, e) => e.note error

def isOk (e : Encoder) : Bool := e.error.isNone

/-- The ranges put out, in order. -/
def segments (e : Encoder) : List Segment := e.latest.reverse

def segmentBytes (e : Encoder) (s : Segment) : Bytes := s.bytes e.buffer.blocks e.scratch

def outputLength (e : Encoder) : Nat := e.segments.foldr (fun s total => s.length + total) 0

/-- The external bytes. -/
def output (e : Encoder) : Bytes := e.segments.flatMap e.segmentBytes

end Encoder

end TagWire
