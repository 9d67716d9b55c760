import TagWire.Bytes

/-!
# Byte sinks

A sink that is offered bytes accepts some of them, the first ones first, or fails. An offer can be
interrupted, and the writer makes it again; a writer that is left with bytes offers them in turn.

- `ByteSink`: what can be written to, such as bytes that grow.
- `Sink`: a sink given by what it does when it is offered bytes.
- `Writing`: a computation that writes and may fail.
-/

namespace TagWire

/-- Why bytes were not written. -/
inductive WriteError where
  /-- The device behind the sink failed. -/
  | device (message : String)
  /-- The sink accepted nothing more. -/
  | full
  deriving DecidableEq, Repr

class ByteSink (σ : Type) where
  /-- The number of bytes that are accepted. An offer that is interrupted has no answer. -/
  write : σ → Bytes → Option (Except WriteError Nat) × σ
  /-- How many offers in a row may be interrupted. -/
  patience : σ → Nat
  interrupted : ∀ {s s' bytes}, write s bytes = (none, s') → patience s' < patience s

/-- Bytes grow by all that is offered. -/
instance : ByteSink Bytes where
  write out bytes := (some (.ok bytes.length), out ++ bytes)
  patience _ := 0
  interrupted := nofun

/-- What a device does when it is offered bytes. -/
inductive Acceptance where
  /-- At most so many bytes are accepted. -/
  | room (n : Nat)
  /-- Nothing is accepted, and the offer is interrupted. -/
  | interruption
  | failure (message : String)
  deriving DecidableEq, Repr

/-- A sink given by its acceptances; behind them it accepts nothing. -/
structure Sink where
  acceptances : List Acceptance
  received : Bytes := []
  deriving DecidableEq, Repr

namespace Sink

/-- Answers an offer. -/
def accept (received bytes : Bytes) : List Acceptance → Option (Except WriteError Nat) × Sink
  | [] => (some (.ok 0), ⟨[], received⟩)
  | .room n :: rest => (some (.ok (min n bytes.length)), ⟨rest, received ++ bytes.take n⟩)
  | .interruption :: rest => (none, ⟨rest, received⟩)
  | .failure message :: rest => (some (.error (.device message)), ⟨rest, received⟩)

theorem accept_interrupted {received bytes : Bytes} {acceptances : List Acceptance} {sink : Sink}
    (answered : accept received bytes acceptances = (none, sink)) :
    acceptances = .interruption :: sink.acceptances := by
  cases acceptances with
  | nil => cases answered
  | cons acceptance rest =>
    cases acceptance with
    | room | failure => cases answered
    | interruption =>
      cases answered
      rfl

instance : ByteSink Sink where
  write sink bytes := accept sink.received bytes sink.acceptances
  patience sink := sink.acceptances.count .interruption
  interrupted answered := by simp [accept_interrupted answered]

end Sink

/-- A computation that writes to a sink and may fail. -/
abbrev Writing (σ : Type) := ExceptT WriteError (StateM σ)

namespace Writing

variable {σ : Type} [ByteSink σ]

/-- Makes an offer, and makes it again if it is interrupted. -/
def offer (sink : σ) (bytes : Bytes) : Except WriteError Nat × σ :=
  match _ : ByteSink.write sink bytes with
  | (some answer, sink) => (answer, sink)
  | (none, sink) => offer sink bytes
termination_by ByteSink.patience sink
decreasing_by exact ByteSink.interrupted ‹_›

/-- Offers bytes until all of them are accepted. -/
def all : Bytes → Writing σ Unit
  | [] => fun sink => (.ok (), sink)
  | b :: rest => fun sink =>
    match offer sink (b :: rest) with
    | (.error e, sink) => (.error e, sink)
    | (.ok 0, sink) => (.error .full, sink)
    | (.ok (n + 1), sink) => all (rest.drop n) sink
termination_by bytes => bytes.length

end Writing

end TagWire
