import TagWire.Proofs.Ranges
import TagWire.Proofs.Stream.Supply

/-!
# Readings with their ranges checked

A computation over a stream that checks its ranges gives nothing at all where one is out of bounds.

- `Checked`: computations with such checks.
- `Checked.Sure`: no check fails, and the computation does what it does without them.
- `Source.modest`: a source answers with no more than it was asked for.
-/

namespace TagWire

/-- A computation that reads and may fail. Where it goes out of range it gives nothing. -/
abbrev Checked (σ : Type) := ExceptT Error (StateT σ Option)

namespace Checked

variable {σ α β : Type}

/-- What a check lets through. -/
def within (range : Option α) : Checked σ α := fun s => range.map fun a => (.ok a, s)

/-- A reading that has no ranges to be checked. -/
def free (m : Reading σ α) : Checked σ α := fun s => some (m.run s)

/-- No check fails from a state on, and the computation does what the reading does. -/
def Sure (s : σ) (checked : Checked σ α) (m : Reading σ α) : Prop := checked.run s = some (m.run s)

variable {checked : Checked σ α} {further : α → Checked σ β} {s s' : σ}

theorem run_bind (checked : Checked σ α) (further : α → Checked σ β) (s : σ) :
    (checked >>= further).run s =
      (checked.run s).bind fun (answer, s') => ExceptT.bindCont further answer s' := rfl

theorem run_bind_error {e : Error} (ran : checked.run s = some (.error e, s')) :
    (checked >>= further).run s = some (.error e, s') := by
  rw [run_bind, ran]
  rfl

theorem run_bind_ok {a : α} (ran : checked.run s = some (.ok a, s')) :
    (checked >>= further).run s = (further a).run s' := by
  rw [run_bind, ran]
  rfl

namespace Sure

theorem done (a : α) : Sure s (pure a) (pure a) := rfl

theorem failed (e : Error) : Sure s (throw e : Checked σ α) (throw e) := rfl

theorem unchecked (m : Reading σ α) : Sure s (free m) m := rfl

theorem bind {m : Reading σ α} {f : α → Reading σ β} (first : Sure s checked m)
    (rest : ∀ a s', m.run s = (.ok a, s') → Sure s' (further a) (f a)) :
    Sure s (checked >>= further) (m >>= f) := by
  have first : checked.run s = some (m.run s) := first
  generalize ran : m.run s = answer at first rest
  obtain ⟨e | a, s'⟩ := answer
  · rw [Sure, Reading.run_bind_error ran, run_bind_error first]
  · rw [Sure, Reading.run_bind_ok ran, run_bind_ok first]
    exact rest a s' rfl

theorem map {m : Reading σ α} (first : Sure s checked m) (f : α → β) :
    Sure s (f <$> checked) (f <$> m) := by
  rw [map_eq_pure_bind, map_eq_pure_bind]
  exact first.bind fun a _ _ => .done (f a)

/-- A range that is in bounds. -/
theorem inside {range : Option α} {a : α} {m : Reading σ β} (found : range = some a)
    (rest : Sure s (further a) m) : Sure s (within range >>= further) m := by
  rw [found]
  exact rest

end Sure

/-- Repeats a computation. -/
def times (checked : Checked σ α) : Nat → Checked σ (List α)
  | 0 => return []
  | n + 1 => do
    let first ← checked
    let rest ← times checked n
    return first :: rest

theorem sure_times {m : Reading σ α} (each : ∀ s, Sure s checked m) (n : Nat) (s : σ) :
    Sure s (times checked n) (Reading.times m n) := by
  induction n generalizing s with
  | zero => exact .done []
  | succ n ih =>
    exact (each s).bind fun first s' _ => (ih s').bind fun rest _ _ => .done (first :: rest)

end Checked

/-- No request is answered with more bytes than were asked for. -/
def ByteStream.Modest (σ : Type) [ByteStream σ] : Prop :=
  ∀ (s s' : σ) (n : Nat) (bytes : Bytes),
    ByteStream.read s n = (some (.ok bytes), s') → bytes.length ≤ n

open ByteStream (Modest)

theorem Source.next_modest {limit : Nat} {arrivals left : List Arrival} {bytes : Bytes}
    (answered : next limit arrivals = (some (.ok bytes), left)) : bytes.length ≤ limit := by
  induction arrivals with
  | nil =>
    cases answered
    exact Nat.zero_le limit
  | cons arrival rest ih =>
    cases arrival with
    | bytes content =>
      cases content with
      | nil => exact ih answered
      | cons b content =>
        cases answered
        exact List.length_take_le _ _
    | interruption | failure => cases answered

/-- A source answers with no more than it was asked for. -/
theorem Source.modest : Modest Source := by
  intro s s' n bytes answered
  have limit : (s.chunk.map (min n)).getD n ≤ n := by
    cases s.chunk with
    | none => exact Nat.le_refl n
    | some chunk => exact Nat.min_le_left n chunk
  obtain ⟨same, -⟩ := Prod.mk.inj answered
  exact Nat.le_trans (Source.next_modest (Prod.ext same rfl)) limit

namespace Checked

variable {σ : Type} [ByteStream σ]

/-- Asks until `n` bytes are there or the stream ends; what has come is taken off what is asked for. -/
def gather (n : Nat) (stream : σ) : Option (Except ReadError Bytes × σ) :=
  if n = 0 then some (.ok [], stream)
  else
    match Reading.request stream n with
    | (.error e, stream) => some (.error e, stream)
    | (.ok [], stream) => some (.ok [], stream)
    | (.ok (b :: bytes), stream) =>
      if bytes.length + 1 ≤ n then
        (gather (n - (bytes.length + 1)) stream).map fun
          | (.error e, stream) => (.error e, stream)
          | (.ok rest, stream) => (.ok (b :: bytes ++ rest), stream)
      else none
termination_by n

def upTo (context : String) (n : Nat) : Checked σ Bytes := fun stream =>
  (gather n stream).map fun
    | (.ok bytes, stream) => (.ok bytes, stream)
    | (.error e, stream) => (.error (e.toError context), stream)

/-- The next `n` bytes. -/
def exactly (context : String) (n : Nat) : Checked σ Bytes := do
  let bytes ← upTo context n
  if bytes.length < n then throw (.exhausted context (← within (minus? n bytes.length)))
  else return bytes

section
variable (modest : Modest σ)
include modest

theorem length_request {n : Nat} {s s' : σ} {bytes : Bytes}
    (asked : Reading.request s n = (.ok bytes, s')) : bytes.length ≤ n := by
  fun_induction Reading.request s n with
  | case1 s answer left answered =>
    cases asked
    exact modest _ _ _ _ answered
  | case2 s left interrupted ih => exact ih asked

theorem gather_eq (n : Nat) (stream : σ) : gather n stream = some (Reading.gather n stream) := by
  induction n using Nat.strongRecOn generalizing stream with
  | ind n ih =>
    rw [gather, Reading.gather]
    split
    · rfl
    generalize asked : Reading.request stream n = answer
    obtain ⟨e | _ | ⟨b, bytes⟩, stream'⟩ := answer
    · rfl
    · rfl
    · have size : bytes.length + 1 ≤ n := length_request modest asked
      dsimp only
      rw [if_pos size, ih _ (by omega), Nat.sub_sub, Nat.add_comm 1]
      rfl

theorem sure_upTo (context : String) (n : Nat) (s : σ) :
    Sure s (upTo context n) (Reading.upTo context n) := by
  change (gather n s).map _ = some (Reading.upTo context n s)
  rw [gather_eq modest, Option.map_some, Reading.upTo]
  rfl

theorem sure_exactly (context : String) (n : Nat) (s : σ) :
    Sure s (exactly context n) (Reading.exactly context n) := by
  apply (sure_upTo modest context n s).bind
  intro bytes s' _
  split
  · rename_i short
    exact .inside (minus?_le (Nat.le_of_lt short)) (.failed _)
  · exact .done bytes

theorem length_once {context : String} {n : Nat} {s s' : σ} {bytes : Bytes}
    (read : (Reading.once context n).run s = (.ok bytes, s')) : bytes.length ≤ n := by
  change Reading.once context n s = _ at read
  rw [Reading.once] at read
  generalize asked : Reading.request s n = answer at read
  obtain ⟨e | found, left⟩ := answer
  · cases read
  · cases read
    exact length_request modest asked

theorem length_gather {n : Nat} {s s' : σ} {bytes : Bytes}
    (gathered : Reading.gather n s = (.ok bytes, s')) : bytes.length ≤ n := by
  induction n using Nat.strongRecOn generalizing s bytes with
  | ind n ih =>
    rw [Reading.gather] at gathered
    split at gathered
    · cases gathered
      exact Nat.zero_le n
    generalize asked : Reading.request s n = answer at gathered
    obtain ⟨e | _ | ⟨b, first⟩, left⟩ := answer
    · cases gathered
    · cases gathered
      exact Nat.zero_le n
    · have size : first.length + 1 ≤ n := length_request modest asked
      dsimp only at gathered
      generalize more : Reading.gather (n - 1 - first.length) left = answer at gathered
      obtain ⟨e | rest, left'⟩ := answer
      · cases gathered
      · cases gathered
        have further := ih _ (by omega) more
        rw [List.length_append, List.length_cons]
        omega

/-- Bytes that are there are as many as were asked for. -/
theorem length_exactly {context : String} {n : Nat} {s s' : σ} {bytes : Bytes}
    (read : (Reading.exactly context n).run s = (.ok bytes, s')) : bytes.length = n := by
  generalize gathered : Reading.gather n s = answer
  obtain ⟨e | found, left⟩ := answer
  · rw [Reading.exactly, Reading.run_bind_error (Reading.run_upTo_error gathered context)] at read
    cases read
  · rw [Reading.exactly, Reading.run_bind_ok (Reading.run_upTo_ok gathered context)] at read
    split at read
    · cases read
    · cases read
      have most := length_gather modest gathered
      omega

end

end Checked

end TagWire
