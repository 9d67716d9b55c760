import TagWire.Binary
import TagWire.Layout.Basic
import TagWire.Properties.Image
import TagWire.Stream

/-!
# Decoding tasks

A layout is decoded by a list of tasks. Most of them send bytes of the tagged message: tag words of the
layout, or data from the external source in its tagged form. Others read what is hidden in the tagged
message, or work out properties.

- `Layout.tasks`: the tasks of a layout, in order.
- `Task.run`: all that a task sends.
-/

namespace TagWire

/-- The external source of a message and the properties that its fields have left. -/
structure Channel (σ : Type) where
  source : σ
  properties : Properties := {}

instance {σ : Type} [ByteStream σ] : ByteStream (Channel σ) where
  read channel n :=
    let (answer, source) := ByteStream.read channel.source n
    (answer, { channel with source })
  patience channel := ByteStream.patience channel.source
  interrupted := by
    intro channel channel' n answered
    obtain ⟨interrupted, rfl⟩ := Prod.mk.inj answered
    exact ByteStream.interrupted (Prod.ext interrupted rfl)

inductive Task where
  | derive (derivation : Derivation)
  | send (bytes : Bytes)
  /-- Reads data that the tagged message does not have. -/
  | hide (p : Payload)
  /-- Sends the lowest bytes of a property, or of the literal that stands for it. -/
  | load (name origin : String) (literal : Option Int64) (size : Nat)
  /-- Reads and sends the number of elements, then the elements. -/
  | counted (p : Payload)
  /-- Sends bytes as they are. -/
  | forward (origin : String) (n : Nat)
  /-- Sends elements that look different outside. -/
  | convert (p : Payload) (n : Nat)
  /-- Sends elements behind their lengths. -/
  | texts (origin : String) (n : Nat)
  /-- The end of a gap. -/
  | close
  deriving DecidableEq, Repr

/-- The task that sends `n` elements. -/
def Payload.elements (p : Payload) (n : Nat) : Task :=
  match p.kind.size?, p.conversion with
  | none, _ => .texts p.origin n
  | some size, .identity => .forward p.origin (n * size)
  | some _, _ => .convert p n

/-- The task for a piece of data. -/
def Payload.task (p : Payload) : Task :=
  match p.use with
  | .skipped | .saved _ => .hide p
  | .loaded name literal => .load name p.origin literal (p.kind.size?.getD 0)
  | .exchanged =>
    match p.count with
    | .fixed n => p.elements n
    | .fromWire => .counted p

def Gap.tasks (g : Gap) : List Task :=
  match g.content with
  | .nothing => [.send g.template, .close]
  | .derivation derivation _ => [.derive derivation, .send g.template, .close]
  | .data p => [.send g.template, p.task, .close]

/-- The tasks of a layout, in order. -/
def Layout.tasks (l : Layout) : List Task := l.gaps.flatMap Gap.tasks

/-- The byte that fills a padded integer up: it repeats the sign of a signed one. -/
def padByte (signed : Bool) (kept : Bytes) : UInt8 :=
  if signed ∧ 0x80 ≤ kept.getLast?.getD 0 then 0xff else 0

namespace Task

variable {σ : Type} [ByteStream σ]

/-- The number in front of data. -/
def readLength (origin : String) : Reading (Channel σ) Nat := do
  let w := Word.ofBytes (← Reading.exactly origin 4)
  match w.length? with
  | some n => return n
  | none =>
    throw (.parse ("length prefix of '" ++ origin ++ "'") ("negative length " ++ toString w.toInt))

def lengthBytes (n : Nat) : Bytes := Bytes.ofNat 4 n

/-- The tagged form of one element that looks different outside. -/
def tagged (p : Payload) (wire : Bytes) : Except Error Bytes :=
  match p.conversion with
  | .identity => .ok wire
  | .narrow => .ok (Bytes.ofNat 8 (Binary.widen (UInt32.ofNat (Bytes.toNat wire))).toNat)
  | .pad _ signed =>
    let size := p.kind.size?.getD 0
    let kept := wire.take size
    if (wire.drop size).all (· = padByte signed kept) then .ok kept
    else .error (.parse p.origin ("external value does not fit in " ++ toString size ++ " bytes"))

/-- Reads one element that looks different outside. -/
def convertElement (p : Payload) : Reading (Channel σ) Bytes := do
  let wire ← Reading.exactly p.origin (p.wireSize?.getD 0)
  tagged p wire

/-- Reads the elements of hidden data. -/
def hiddenBytes (p : Payload) : Reading (Channel σ) Bytes := do
  let n ← match p.count with
    | .fixed n => pure n
    | .fromWire => readLength p.origin
  match p.wireSize? with
  | some size => Reading.exactly p.origin (n * size)
  | none =>
    let elements ← Reading.times (do Reading.exactly p.origin (← readLength p.origin)) n
    return elements.flatten

/-- Hidden data as a property: a single integer is kept as a number. -/
def saved (p : Payload) (bytes : Bytes) : Property :=
  if p.count = .fixed 1 ∧ p.kind.isInteger then .int (Int64.ofInt (Bytes.toInt bytes))
  else .bytes bytes

def readHidden (p : Payload) : Reading (Channel σ) Unit := do
  let bytes ← hiddenBytes p
  match p.use with
  | .saved name => modify fun c => { c with properties := c.properties.put name (saved p bytes) }
  | _ => pure ()

def deriveProperties (derivation : Derivation) : Reading (Channel σ) Unit := do
  let channel ← get
  match channel.properties.derive derivation with
  | .ok properties => set { channel with properties }
  | .error e => throw e

/-- The bytes of a property that a field is loaded from. -/
def loaded (name origin : String) (literal : Option Int64) (size : Nat) : Reading (Channel σ) Bytes := do
  let channel ← get
  match literal <|> channel.properties.int? name with
  | some v => return Bytes.ofInt size v.toInt
  | none => throw (.missingProperty name origin)

/-- One element behind its length. -/
def text (origin : String) : Reading (Channel σ) Bytes := do
  let n ← readLength origin
  return lengthBytes n ++ (← Reading.exactly origin n)

/-- The elements of data in their tagged form. -/
def elements (p : Payload) (n : Nat) : Reading (Channel σ) Bytes :=
  match p.kind.size?, p.conversion with
  | none, _ => List.flatten <$> Reading.times (text p.origin) n
  | some size, .identity => Reading.exactly p.origin (n * size)
  | some _, _ => List.flatten <$> Reading.times (convertElement p) n

/-- All that a task sends. -/
def run : Task → Reading (Channel σ) Bytes
  | derive derivation => do
    deriveProperties derivation
    return []
  | send bytes => return bytes
  | hide p => do
    readHidden p
    return []
  | load name origin literal size => loaded name origin literal size
  | counted p => do
    let n ← readLength p.origin
    return lengthBytes n ++ (← elements p n)
  | forward origin n => Reading.exactly origin n
  | convert p n => List.flatten <$> Reading.times (convertElement p) n
  | texts origin n => List.flatten <$> Reading.times (text origin) n
  | close => return []

/-- All that several tasks send. -/
def runAll : List Task → Reading (Channel σ) Bytes
  | [] => return []
  | t :: rest => do
    let first ← t.run
    let others ← runAll rest
    return first ++ others

end Task

end TagWire
