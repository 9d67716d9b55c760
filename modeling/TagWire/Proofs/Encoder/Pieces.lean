import TagWire.Proofs.Encoder.Ranges
import TagWire.Proofs.Ranges

/-!
# Pieces and segments inside their blocks

What is cut out of the blocks of a message, with the blocks, the places in them and the sizes checked.

- `Piece.split?`, `Piece.last?`, `Piece.left?`: taking bytes from pieces, finding the last of them, and
  counting those that are left.
- `Piece.split?_tails`: what is left of blocks is divided in range.
- `Segment.bytes?`, `Segment.bytes?_inside`: the bytes of ranges inside their blocks.
-/

namespace TagWire

namespace Piece

/-- Takes `n` bytes from what is left of blocks. -/
def split? (blocks : List Bytes) (n : Nat) : List Piece → Option Split
  | [] => some ⟨[], n, []⟩
  | p :: rest =>
    if n = 0 then some ⟨[], 0, p :: rest⟩
    else do
      let block ← blocks[p.block]?
      let available ← minus? block.length p.start
      let bytes ← block.slice? p.start (p.start + min available n)
      if n < available then some ⟨[⟨p.block, p.start, bytes⟩], 0, p.drop n :: rest⟩
      else
        let further ← split? blocks (← minus? n bytes.length) rest
        some ⟨if bytes = [] then further.taken else ⟨p.block, p.start, bytes⟩ :: further.taken,
          further.missing, further.rest⟩

/-- The last byte of pieces, or the byte in front of them. -/
def last? (blocks : List Bytes) (byte : UInt8) : List Piece → Option UInt8
  | [] => some byte
  | p :: rest => do
    let block ← blocks[p.block]?
    let byte ← block[(← minus? (p.start + p.bytes.length) 1)]?
    last? blocks byte rest

/-- The number of bytes that are left of blocks. -/
def left? (blocks : List Bytes) : List Piece → Option Nat
  | [] => some 0
  | p :: rest => do
    let block ← blocks[p.block]?
    let current ← minus? block.length p.start
    return current + (← left? blocks rest)

/-- What is left of a block behind some place. -/
def Tail (blocks : List Bytes) (p : Piece) : Prop :=
  ∃ block, blocks[p.block]? = some block ∧ p.start ≤ block.length ∧ p.bytes = block.drop p.start

/-- Some bytes in a row of a block. -/
def Part (blocks : List Bytes) (p : Piece) : Prop :=
  ∃ block, blocks[p.block]? = some block ∧
    block.slice? p.start (p.start + p.bytes.length) = some p.bytes ∧ p.bytes ≠ []

variable {blocks : List Bytes} {pieces : List Piece}

theorem tail_ofBuffer (buffer : BlockBuffer) : ∀ p ∈ ofBuffer buffer, p.Tail buffer.blocks := by
  intro p member
  obtain ⟨⟨bytes, i⟩, numbered, rfl⟩ := List.mem_map.mp member
  have found : buffer.body[i]? = some bytes := List.mem_zipIdx_iff_getElem?.mp numbered
  refine ⟨bytes, ?_, Nat.zero_le _, rfl⟩
  rw [BlockBuffer.blocks, List.getElem?_append_right (Nat.le_add_right _ _), Nat.add_sub_cancel_left,
    found]

theorem Tail.part {p : Piece} (tail : p.Tail blocks) {n : Nat} (some_left : 0 < n)
    (enough : n ≤ p.bytes.length) : (p.take n).Part blocks := by
  obtain ⟨block, found, within, content⟩ := tail
  have size : (p.take n).bytes.length = n := List.length_take_of_le enough
  have short := enough
  rw [content, List.length_drop] at short
  refine ⟨block, found, ?_, List.ne_nil_of_length_pos (by rwa [size])⟩
  rw [size, take]
  dsimp only
  rw [content]
  exact Bytes.slice?_add (Nat.add_le_of_le_sub' within short)

theorem Tail.drop {p : Piece} (tail : p.Tail blocks) {n : Nat} (enough : n ≤ p.bytes.length) :
    (p.drop n).Tail blocks := by
  obtain ⟨block, found, within, content⟩ := tail
  have short := enough
  rw [content, List.length_drop] at short
  refine ⟨block, found, Nat.add_le_of_le_sub' within short, ?_⟩
  rw [Piece.drop, content, List.drop_drop]

/-- What is left of blocks is divided in range, and both parts are in range again. -/
theorem split?_tails (tails : ∀ p ∈ pieces, p.Tail blocks) (n : Nat) :
    split? blocks n pieces = some (split n pieces) ∧
      (∀ p ∈ (split n pieces).taken, p.Part blocks) ∧ ∀ p ∈ (split n pieces).rest, p.Tail blocks := by
  induction pieces generalizing n with
  | nil => exact ⟨rfl, List.forall_mem_nil _, tails⟩
  | cons p rest ih =>
    obtain ⟨first, others⟩ := List.forall_mem_cons.mp tails
    have ⟨block, found, within, content⟩ := first
    have size : block.length - p.start = p.bytes.length := by rw [content, List.length_drop]
    have slice {m : Nat} (enough : m ≤ p.bytes.length) :
        block.slice? p.start (p.start + m) = some (p.bytes.take m) := by
      rw [content]
      exact Bytes.slice?_add (by omega)
    rw [split?, split]
    by_cases zero : n = 0
    · rw [if_pos zero, if_pos zero]
      exact ⟨rfl, List.forall_mem_nil _, tails⟩
    rw [if_neg zero, if_neg zero, found]
    dsimp only [Option.bind_eq_bind, Option.bind_some]
    rw [minus?_le within, size, Option.bind_some, slice (Nat.min_le_left _ n), Option.bind_some]
    by_cases short : n < p.bytes.length
    -- The piece is divided, and what is left of it is still the tail of its block.
    · have enough := Nat.le_of_lt short
      rw [if_pos short, if_pos short, Nat.min_eq_right enough]
      exact ⟨rfl, List.forall_mem_singleton.mpr (first.part (Nat.pos_of_ne_zero zero) enough),
        List.forall_mem_cons.mpr ⟨first.drop enough, others⟩⟩
    · have enough := Nat.le_of_not_lt short
      obtain ⟨further, parts, left⟩ := ih others (n - p.bytes.length)
      rw [if_neg short, if_neg short, Nat.min_eq_left enough, List.take_length, minus?_le enough,
        Option.bind_some, further]
      refine ⟨rfl, ?_, left⟩
      dsimp only
      split
      · exact parts
      · rename_i filled
        have whole := first.part (List.length_pos_iff.mpr filled) (Nat.le_refl _)
        rw [take, List.take_length] at whole
        exact List.forall_mem_cons.mpr ⟨whole, parts⟩

/-- The last byte is found in its block. -/
theorem last?_parts (parts : ∀ p ∈ pieces, p.Part blocks) (byte : UInt8) :
    last? blocks byte pieces = some ((bytesOf pieces).getLast?.getD byte) := by
  induction pieces generalizing byte with
  | nil => rfl
  | cons p rest ih =>
    obtain ⟨⟨block, found, sliced, filled⟩, others⟩ := List.forall_mem_cons.mp parts
    obtain ⟨-, within, content⟩ := Bytes.slice?_eq_some.mp sliced
    have size := List.length_pos_iff.mpr filled
    have last : block[p.start + p.bytes.length - 1]? = some (p.bytes.getLast filled) := by
      have entry := congrArg (·[p.bytes.length - 1]?) content
      rw [List.getElem?_take_of_lt (by omega), List.getElem?_drop] at entry
      rw [← List.getLast?_eq_some_getLast filled, List.getLast?_eq_getElem?, ← entry,
        Nat.add_sub_assoc size]
    have further : (bytesOf (p :: rest)).getLast?.getD byte =
        (bytesOf rest).getLast?.getD (p.bytes.getLast filled) := by
      rw [bytesOf, List.flatMap_cons, List.getLast?_append, Option.getD_or,
        List.getLast?_eq_some_getLast filled, Option.getD_some, bytesOf]
    rw [last?, found]
    dsimp only [Option.bind_eq_bind, Option.bind_some]
    rw [minus?_le (by omega), Option.bind_some, last, Option.bind_some, ih others, further]

theorem left?_tails (tails : ∀ p ∈ pieces, p.Tail blocks) :
    left? blocks pieces = some (bytesOf pieces).length := by
  induction pieces with
  | nil => rfl
  | cons p rest ih =>
    obtain ⟨⟨block, found, within, content⟩, others⟩ := List.forall_mem_cons.mp tails
    rw [left?, found]
    dsimp only [Option.bind_eq_bind, Option.bind_some]
    rw [minus?_le within, Option.bind_some, ih others, ← List.length_drop, ← content]
    exact congrArg some List.length_append.symm

end Piece

namespace Segment

/-- The bytes of a range, none where it is not inside what it is a range of. -/
def bytes? (blocks : List Bytes) (scratchBytes : Bytes) : Segment → Option Bytes
  | source block start length => do (← blocks[block]?).slice? start (start + length)
  | scratch start length => scratchBytes.slice? start (start + length)

/-- A range of a block lies inside it. -/
def Held (blocks : List Bytes) : Segment → Prop
  | source block start length =>
    ∃ content, blocks[block]? = some content ∧ start + length ≤ content.length
  | scratch .. => True

theorem bytes?_inside {blocks : List Bytes} {scratch : Bytes} {s : Segment} (held : s.Held blocks)
    (stored : s.Stored scratch) : s.bytes? blocks scratch = some (s.bytes blocks scratch) := by
  cases s with
  | source block start length =>
    obtain ⟨content, found, within⟩ := held
    rw [bytes?, found, bytes, List.getD_eq_getElem?_getD, found]
    exact Bytes.slice?_add within
  | scratch start length => exact Bytes.slice?_add stored

theorem Held.merge {blocks : List Bytes} {s s' merged : Segment} (held' : s'.Held blocks)
    (held : s.Held blocks) (h : s.merge? s' = some merged) : merged.Held blocks := by
  cases s <;> cases s' <;> simp only [merge?, reduceCtorEq, Option.ite_none_right_eq_some] at h
  · obtain ⟨⟨rfl, rfl⟩, ⟨⟩⟩ := h
    obtain ⟨content, found, within⟩ := held'
    exact ⟨content, found, by omega⟩
  · obtain ⟨-, ⟨⟩⟩ := h
    trivial

theorem held_push {blocks : List Bytes} {s : Segment} {latest : List Segment} (first : s.Held blocks)
    (others : ∀ t ∈ latest, t.Held blocks) : ∀ t ∈ s.push latest, t.Held blocks := by
  cases latest with
  | nil => exact List.forall_mem_singleton.mpr first
  | cons last rest =>
    obtain ⟨last_held, rest_held⟩ := List.forall_mem_cons.mp others
    rw [push]
    split
    · rename_i merged h
      exact List.forall_mem_cons.mpr ⟨first.merge last_held h, rest_held⟩
    · exact List.forall_mem_cons.mpr ⟨first, others⟩

end Segment

end TagWire
