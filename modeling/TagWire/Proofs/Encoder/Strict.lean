import TagWire.Encoder.Basic

/-!
# The strict walk

What an encoder does to the bytes of a message, without blocks and ranges, by a walk that ends at
the first thing that is wrong.

- `Strict`: parts of the walk, over a tape of bytes.
- `Layout.encodeOnce`: the walk over a whole message.
-/

namespace TagWire

/-- The bytes of a message under a strict walk. -/
structure Tape where
  /-- What is left of the message. -/
  rest : Bytes
  /-- The last byte that was put out or skipped as data. -/
  lastByte : UInt8 := 0
  deferred : Option Deferred := none
  output : Bytes := []
  deriving DecidableEq, Repr

/-- A part of a strict walk. An error ends the walk. -/
abbrev Strict := StateT Tape (Except Error)

namespace Strict

/-- The next `n` bytes of the message, put out if asked. -/
def take (n : Nat) (out : Bool) : Strict Bytes := fun t =>
  if n ≤ t.rest.length then
    .ok (t.rest.take n,
      { t with rest := t.rest.drop n, output := t.output ++ if out then t.rest.take n else [] })
  else .error (.exhausted "buffered message" (n - t.rest.length))

/-- Puts out bytes that the message does not have. -/
def emit (bytes : Bytes) : Strict Unit := fun t => .ok ((), { t with output := t.output ++ bytes })

/-- Remembers the last byte of data. -/
def remember (bytes : Bytes) : Strict Unit := fun t =>
  .ok ((), { t with lastByte := bytes.getLast?.getD t.lastByte })

/-- Goes over `n` bytes of data. -/
def pass (n : Nat) (out : Bool) : Strict Unit := do
  let bytes ← take n out
  remember bytes

/-- Forgets a deferred difference. -/
def clear : Strict Unit := fun t => .ok ((), { t with deferred := none })

/-- Settles a deferred difference once the length of the list is known. -/
def settle (origin : String) (length : Word) : Strict Unit := do
  match (← get).deferred with
  | none => pure ()
  | some d =>
    clear
    if length ≠ 0 then throw (.tagMismatch d.expected d.received origin)

/-- Defers the difference between the tag words of two lists. -/
def defer (expected received : Word) : Strict Unit := fun t =>
  .ok ((), { t with deferred := some ⟨expected, received⟩ })

/-- A word of the message. -/
def takeWord (out : Bool) : Strict Word := do
  return Word.ofBytes (← take 4 out)

/-- Compares the length of a list. -/
def checkLength (origin : String) (expected : Word) : Strict Unit := do
  let received ← takeWord false
  settle origin received
  if expected ≠ received then
    throw (.mismatch ("length " ++ toString expected.toInt) ("length " ++ toString received.toInt)
      origin)

/-- Compares a tag word. -/
def checkTag (origin : String) (expected : Word) : Strict Unit := do
  let received ← takeWord false
  if expected = received then pure ()
  else if expected.isList ∧ received.isList then defer expected received
  else throw (.tagMismatch expected received origin)

/-- Compares the tag words of a gap. -/
def checkWords (origin : String) : List Word → Strict Unit
  | [] => pure ()
  | [tag] => checkTag origin tag
  | tag :: next :: rest => do
    checkTag origin tag
    if tag.isList then
      checkLength origin next
      checkWords origin rest
    else checkWords origin (next :: rest)

/-- The number in front of data, which is put out as well. -/
def takeLength (origin : String) (g : Gap) : Strict Nat := do
  let w ← takeWord true
  settle origin w
  match w.length? with
  | some n => return n
  | none =>
    throw (.parse ("length prefix of '" ++ g.origin ++ "'")
      ("negative length " ++ toString w.toInt))

/-- Repeats a part of the walk. -/
def times (part : Strict Unit) : Nat → Strict Unit
  | 0 => pure ()
  | n + 1 => do
    part
    times part n

/-- One element behind its length. -/
def passText (origin : String) (g : Gap) : Strict Unit := do
  let n ← takeLength origin g
  pass n true

/-- One float64 as a float32. -/
def passNarrow : Strict Unit := do
  let wide ← take 8 false
  emit (Bytes.ofNat 4 (Binary.narrow (UInt64.ofNat (Bytes.toNat wide))).toNat)

/-- One integer, filled up. -/
def passPadded (size wire : Nat) (signed : Bool) : Strict Unit := do
  pass size true
  emit (List.replicate (wire - size) (padByte signed [(← get).lastByte]))

/-- The elements of data. -/
def passElements (origin : String) (g : Gap) (p : Payload) (n : Nat) : Strict Unit :=
  match p.kind.size?, p.conversion with
  | none, _ => times (passText origin g) n
  | some size, .identity => pass (n * size) true
  | some _, .narrow => times passNarrow n
  | some size, .pad wire signed => times (passPadded size wire signed) n

/-- The data of a gap. -/
def passPayload (origin : String) (g : Gap) (p : Payload) : Strict Unit :=
  match p.use with
  | .skipped | .saved _ => pure ()
  | .loaded .. => pass (p.kind.size?.getD 0) false
  | .exchanged =>
    match p.count with
    | .fixed n => passElements origin g p n
    | .fromWire => do
      let n ← takeLength origin g
      passElements origin g p n

end Strict

/-- The text that stands for a gap in reports: the whole grammar for tag words alone. -/
def Layout.originOf (l : Layout) (g : Gap) : String := if g.origin = "" then l.grammar else g.origin

namespace Strict

def passGap (l : Layout) (g : Gap) : Strict Unit := do
  checkWords (l.originOf g) g.words
  match g.payload? with
  | some p => passPayload (l.originOf g) g p
  | none => pure ()

def passGaps (l : Layout) : List Gap → Strict Unit
  | [] => pure ()
  | g :: rest => do
    passGap l g
    passGaps l rest

end Strict

/-- The external bytes of a message, or the first thing that is wrong with it. A message has to end
with its layout. -/
def Layout.encodeOnce (l : Layout) (message : Bytes) : Except Error Bytes :=
  match (Strict.passGaps l l.gaps).run { rest := message } with
  | .error e => .error e
  | .ok ((), t) =>
    if t.rest = [] then .ok t.output
    else .error (.mismatch "end of message" (toString t.rest.length ++ " more bytes") l.grammar)

theorem Layout.encodeOnce_ok {l : Layout} {message wire : Bytes}
    (written : l.encodeOnce message = .ok wire) :
    ∃ t, (Strict.passGaps l l.gaps).run { rest := message } = .ok ((), t) ∧ t.rest = [] ∧
      t.output = wire := by
  rw [encodeOnce] at written
  split at written
  · cases written
  · rename_i t run
    split at written
    · rename_i ended
      cases written
      exact ⟨t, run, ended, rfl⟩
    · cases written

end TagWire
