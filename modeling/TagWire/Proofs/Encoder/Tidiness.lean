import TagWire.Encoder.Flush
import TagWire.Proofs.Encoder.Merging
import TagWire.Proofs.Encoder.Moves
import TagWire.Proofs.Sink

/-!
# Tidy output

What a walk puts out, whether or not the message matches: ranges that go forward inside the payload
blocks, and each scratch byte once, in as few ranges as there can be. All ways to the external bytes
agree.

- `Encoder.Tidy`: the ranges of an encoder.
- `Encoder.Yields`: the bytes of an encoder, counted, found range by range, and written to a sink.
- `Encoder.tidy_update`: every walk leaves an encoder tidy.
-/

namespace TagWire

/-- A range of a block lies inside a payload block. -/
def Segment.InBody (buffer : BlockBuffer) : Segment → Prop
  | source block start length =>
    ∃ i bytes, block = buffer.headers.length + i ∧ buffer.body[i]? = some bytes ∧
      start + length ≤ bytes.length
  | scratch .. => True

namespace Segment

variable {buffer : BlockBuffer} {s : Segment} {blocks : List Bytes} {scratch bytes : Bytes}

theorem length_of_bytes? (found : s.bytes? blocks scratch = some bytes) :
    bytes.length = s.length := by
  cases s with
  | source block start length =>
    obtain ⟨content, -, sliced⟩ := Option.bind_eq_some_iff.mp found
    obtain ⟨-, within, rfl⟩ := Bytes.slice?_eq_some.mp sliced
    rw [List.length_take, List.length_drop, Segment.length]
    omega
  | scratch start length =>
    obtain ⟨-, within, rfl⟩ := Bytes.slice?_eq_some.mp found
    rw [List.length_take, List.length_drop, Segment.length]
    omega

/-- A range behind the headers that can be read is one of a payload block. -/
theorem inBody_of_bytes? (found : s.bytes? buffer.blocks scratch = some bytes)
    (behind : buffer.bodyStart.Precedes s) : s.InBody buffer := by
  cases s with
  | scratch => trivial
  | source block start length =>
    obtain ⟨content, block_found, sliced⟩ := Option.bind_eq_some_iff.mp found
    obtain ⟨-, within, -⟩ := Bytes.slice?_eq_some.mp sliced
    have headers : buffer.headers.length ≤ block := by
      simp only [BlockBuffer.bodyStart, Precedes] at behind
      omega
    rw [BlockBuffer.blocks, List.getElem?_append_right headers] at block_found
    have numbered := (Nat.add_sub_cancel' headers).symm
    exact ⟨block - buffer.headers.length, content, numbered, block_found, within⟩

end Segment

namespace Encoder

open Segment (Adds Apart Fills InBody Orderly Precedes adds_push)

/-- The ranges that an encoder has put out. -/
structure Tidy (e : Encoder) : Prop where
  filled : ∀ s ∈ e.segments, 0 < s.length
  inside : ∀ s ∈ e.segments, s.InBody e.buffer
  forward : e.segments.Pairwise Precedes
  fills : Fills 0 e.segments e.scratch.length
  apart : e.segments.IsChain Apart

/-- The external bytes of an encoder: how many there are, the ranges that they are in, and what a sink
receives that they are written to. -/
structure Yields (e : Encoder) (bytes : Bytes) : Prop where
  counted : e.outputLength = bytes.length
  copied : e.output = bytes
  found : ∀ s ∈ e.segments, e.segmentBytes? s = some (e.segmentBytes s) ∧
    (e.segmentBytes s).length = s.length
  joined : (e.segments.map e.segmentBytes).flatten = bytes
  delivered : ∀ {σ : Type} [ByteSink σ] {received : σ → Bytes}, ByteSink.Keeps received →
    ∀ s, Writing.Delivers received s bytes (e.writeTo.run s)
  finished : ∀ {σ : Type} [ByteSink σ], ByteSink.Willing σ →
    ∀ s : σ, ∃ s', e.writeTo.run s = (.ok (), s')

/-- What has been put out is in order, and so is what is left of the message. -/
def InOrder (e : Encoder) : Prop :=
  Orderly e.buffer.bodyStart e.segments (e.rest.map Piece.range) e.scratch.length

theorem forward_blocks (body : List Bytes) (first i : Nat) :
    (Segment.source (first + i) 0 0 ::
      ((body.zipIdx i).map fun (bytes, i) => (⟨first + i, 0, bytes⟩ : Piece)).map
        Piece.range).Pairwise Precedes := by
  induction body generalizing i with
  | nil => exact List.pairwise_singleton ..
  | cons bytes rest ih =>
    obtain ⟨behind, others⟩ := List.pairwise_cons.mp (ih (i + 1))
    have earlier (start length : Nat) (s : Segment)
        (later : (Segment.source (first + (i + 1)) 0 0).Precedes s) :
        (Segment.source (first + i) start length).Precedes s := by
      cases s with
      | source => exact .inl (by simp only [Precedes] at later; omega)
      | scratch => trivial
    simp only [List.zipIdx_cons, List.map_cons, Piece.range]
    refine .cons (List.forall_mem_cons.mpr ⟨.inr ⟨rfl, Nat.le_refl _⟩, ?_⟩) (.cons ?_ others)
    · exact fun s member => earlier 0 0 s (behind s member)
    · exact fun s member => earlier 0 bytes.length s (behind s member)

theorem inOrder_start (l : Layout) (buffer : BlockBuffer) : (start l buffer).InOrder where
  filled := List.forall_mem_nil _
  forward := forward_blocks buffer.body buffer.headers.length 0
  fills := rfl
  apart := .nil

/-- Pieces are put out in order. -/
theorem orderly_put {place : Segment} {size : Nat} {e : Encoder} {pieces rest : List Piece}
    (filled : ∀ p ∈ pieces, p.bytes ≠ [])
    (orderly : Orderly place e.segments ((pieces ++ rest).map Piece.range) size) :
    Orderly place (Simulates.put pieces e).segments (rest.map Piece.range) size := by
  induction pieces generalizing e with
  | nil => exact orderly
  | cons p others ih =>
    obtain ⟨some_bytes, others_filled⟩ := List.forall_mem_cons.mp filled
    have some_left := List.length_pos_iff.mpr some_bytes
    have first := orderly.add_source some_left (adds_push p.range e.latest)
    exact ih (e := { e with latest := p.range.push e.latest }) others_filled first

theorem InOrder.divided {e : Encoder} (inOrder : e.InOrder) (n : Nat) (out : Bool) :
    (e.divided n out).InOrder := by
  let split := Piece.split n e.rest
  have cut : Orderly e.buffer.bodyStart e.segments ((split.taken ++ split.rest).map Piece.range)
      e.scratch.length :=
    { inOrder with forward := Piece.forward_split n _ e.rest inOrder.forward }
  cases out with
  | true =>
    exact orderly_put (e := { e with rest := split.rest }) (Piece.filled_split n e.rest) cut
  | false => exact cut.skip ((List.sublist_append_right ..).map _)

theorem InOrder.made {e : Encoder} (inOrder : e.InOrder) {bytes : Bytes}
    (some_made : bytes ≠ []) : (e.made bytes).InOrder := by
  have adds := adds_push (.scratch e.scratch.length bytes.length) e.latest
  have added := inOrder.add_scratch (List.length_pos_iff.mpr some_made) adds
  rwa [← List.length_append] at added

/-- Every move keeps the order. -/
theorem InOrder.move {e e' : Encoder} (move : Move e e') (inOrder : e.InOrder) : e'.InOrder := by
  cases move with
  | take n out => exact inOrder.divided n out
  | make some_made => exact inOrder.made some_made
  | remember => exact inOrder

theorem inOrder_update (e : Encoder) : e.update.InOrder :=
  e.kept_update (inOrder_start ..) fun _ _ => InOrder.move

theorem foldr_length {part : Segment → Bytes} {xs : List Segment}
    (sized : ∀ s ∈ xs, (part s).length = s.length) :
    xs.foldr (fun s total => s.length + total) 0 = (xs.flatMap part).length := by
  induction xs with
  | nil => rfl
  | cons s rest ih =>
    obtain ⟨first, others⟩ := List.forall_mem_cons.mp sized
    rw [List.foldr_cons, ih others, List.flatMap_cons, List.length_append, first]

theorem yields_output {e : Encoder}
    (found : ∀ s ∈ e.segments, e.segmentBytes? s = some (e.segmentBytes s)) :
    e.Yields e.output where
  counted := foldr_length fun s member => Segment.length_of_bytes? (found s member)
  copied := rfl
  found s member := ⟨found s member, Segment.length_of_bytes? (found s member)⟩
  joined := List.flatMap_def.symm
  delivered keeps s := Writing.delivers_each e.segmentBytes e.segments s keeps
  finished willing s := Writing.each_ok e.segmentBytes e.segments s willing

/-- Every walk leaves an encoder tidy, and all ways to its external bytes agree, whether or not the
message matches. -/
theorem tidy_update (e : Encoder) :
    e.update.buffer = e.buffer ∧ e.update.Tidy ∧ e.update.Yields e.update.output := by
  have inOrder := e.inOrder_update
  have found := e.sure_update.2
  obtain ⟨behind, forward⟩ := List.pairwise_cons.mp (List.pairwise_append.mp inOrder.forward).1
  refine ⟨(alike_update rfl rfl).left.sameBuffer, ?_, yields_output found⟩
  exact {
    filled := inOrder.filled
    inside := fun s member => Segment.inBody_of_bytes? (found s member) (behind s member)
    forward
    fills := inOrder.fills
    apart := inOrder.apart }

/-- A list with a vector of integers that are filled up and a number that is narrowed. -/
def assortedList : Layout where
  gaps := [
    ⟨[256, 2, 320], .data ⟨.fromWire, .int16, .pad 4 true, .exchanged, "vector int16:4 *"⟩⟩,
    ⟨[10], .data ⟨.fixed 1, .float64, .narrow, .exchanged, "float64:4 *"⟩⟩]
  grammar := "list 2 vector int16:4 * float64:4 *"

/-- The message up to the number, in blocks that end within the length of the vector and behind its first
element. -/
def scattered (number : Bytes) : BlockBuffer where
  headers := [[9]]
  body := [[0, 1, 0, 0, 2, 0, 0, 0, 64, 1, 0, 0, 2, 0], [0, 0, 1, 0],
    [0xfe, 0xff, 10, 0, 0, 0] ++ number]

/-- A sink that is closed in the second range. -/
def closing : Sink := ⟨[.room 5, .interruption, .room 1, .failure "closed"], []⟩

/-- Ranges are merged where blocks end and where bytes are made one after the other, in a message that
matches and in one that ends within its number. -/
theorem tidy_scattered :
    let whole := (start assortedList (scattered [0, 0, 0, 0, 0, 0, 0xf0, 0x3f])).update
    let ended := (start assortedList (scattered [0, 0])).update
    (whole.isOk = true ∧ whole.Tidy ∧
        whole.segments =
          [.source 1 12 2, .source 2 0 4, .scratch 0 2, .source 3 0 2, .scratch 2 6]) ∧
      (ended.isOk = false ∧ ended.Tidy ∧
        ended.segments =
          [.source 1 12 2, .source 2 0 4, .scratch 0 2, .source 3 0 2, .scratch 2 2]) ∧
      (whole.writeTo.run closing).1.isOk = false ∧
      (∃ left, [2, 0, 0] ++ left = whole.output ∧ left ≠ []) ∧
      ∀ out : Bytes, whole.writeTo.run out = (.ok (), out ++ whole.output) := by
  intro whole ended
  obtain ⟨-, whole_tidy, yields⟩ :=
    tidy_update (start assortedList (scattered [0, 0, 0, 0, 0, 0, 0xf0, 0x3f]))
  have ended_tidy := (tidy_update (start assortedList (scattered [0, 0]))).2.1
  have closed : (whole.writeTo.run closing).1.isOk = false := by decide +kernel
  refine ⟨⟨by decide +kernel, whole_tidy, by decide +kernel⟩,
    ⟨by decide +kernel, ended_tidy, by decide +kernel⟩, closed, ?_, fun out => ?_⟩
  · have received : (whole.writeTo.run closing).2.received = [2, 0, 0] := by decide +kernel
    have delivered := yields.delivered Sink.keeps closing
    generalize whole.writeTo.run closing = answer at closed received delivered
    obtain ⟨x | _, sink⟩ := answer
    · obtain ⟨sent, left, together, some_left, grown⟩ := delivered
      obtain rfl : [2, 0, 0] = sent := received.symm.trans grown
      exact ⟨left, together, some_left⟩
    · cases closed
  · have delivered := yields.delivered Bytes.keeps out
    obtain ⟨out', run⟩ := yields.finished Bytes.willing out
    rw [run] at delivered ⊢
    exact congrArg (Prod.mk _) delivered

end Encoder

end TagWire
