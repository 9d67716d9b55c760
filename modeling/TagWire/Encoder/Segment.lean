import TagWire.Bytes
import TagWire.Tagged.Blocks

/-!
# Segments

What an encoder puts out is a list of ranges: of the blocks that hold the message, or of a scratch buffer
that holds bytes made on the way. Ranges that touch are one.

- `Piece.split`: takes bytes from what is left of the blocks.
- `Segment.push`: adds a range behind the others.
-/

namespace TagWire

/-- Bytes of a block, with their place in it. -/
structure Piece where
  block : Nat
  start : Nat
  bytes : Bytes
  deriving DecidableEq, Repr

namespace Piece

def take (p : Piece) (n : Nat) : Piece := { p with bytes := p.bytes.take n }

def drop (p : Piece) (n : Nat) : Piece := ⟨p.block, p.start + n, p.bytes.drop n⟩

/-- The payload blocks of a buffer, numbered behind its headers. -/
def ofBuffer (buffer : BlockBuffer) : List Piece :=
  buffer.body.zipIdx.map fun (bytes, i) => ⟨buffer.headers.length + i, 0, bytes⟩

/-- Bytes taken from pieces: the pieces that hold them, how many are missing, and what is left. -/
structure Split where
  taken : List Piece
  missing : Nat
  rest : List Piece
  deriving DecidableEq, Repr

/-- Takes `n` bytes from pieces. Empty pieces are passed over. -/
def split (n : Nat) : List Piece → Split
  | [] => ⟨[], n, []⟩
  | p :: rest =>
    if n = 0 then ⟨[], 0, p :: rest⟩
    else if n < p.bytes.length then ⟨[p.take n], 0, p.drop n :: rest⟩
    else
      let further := split (n - p.bytes.length) rest
      ⟨if p.bytes = [] then further.taken else p :: further.taken, further.missing, further.rest⟩

def bytesOf (pieces : List Piece) : Bytes := pieces.flatMap Piece.bytes

end Piece

/-- A range of what an encoder puts out. -/
inductive Segment where
  | source (block start length : Nat)
  | scratch (start length : Nat)
  deriving DecidableEq, Repr

namespace Segment

def length : Segment → Nat
  | source _ _ length => length
  | scratch _ length => length

/-- Two ranges as one, where the second goes on where the first ends. -/
def merge? : Segment → Segment → Option Segment
  | source block start length, source block' start' length' =>
    if block = block' ∧ start + length = start' then some (source block start (length + length')) else none
  | scratch start length, scratch start' length' =>
    if start + length = start' then some (scratch start (length + length')) else none
  | _, _ => none

/-- Adds a range behind others, of which the last comes first. -/
def push (s : Segment) : List Segment → List Segment
  | [] => [s]
  | last :: others =>
    match last.merge? s with
    | some merged => merged :: others
    | none => s :: last :: others

/-- The bytes of a range. -/
def bytes (blocks : List Bytes) (scratchBytes : Bytes) : Segment → Bytes
  | source block start length => ((blocks.getD block []).drop start).take length
  | scratch start length => (scratchBytes.drop start).take length

end Segment

end TagWire
