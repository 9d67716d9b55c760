import Mathlib.Data.List.Chain
import TagWire.Encoder.Segment

/-!
# Ranges in order

Ranges that are put out one after the other, with those that touch made one. They go forward through the
blocks, fill the scratch bytes, and no two neighbours are left that could be one.

- `Segment.Precedes`, `Segment.Fills`, `Segment.Apart`: these three, for ranges in the order of output.
- `Segment.Adds`, `Segment.adds_push`: how a range is added to others.
- `Segment.Orderly`: the three at once, for ranges with pieces of the message that are still to come.
-/

namespace TagWire

/-- The range of a block that a piece takes up. -/
def Piece.range (p : Piece) : Segment := .source p.block p.start p.bytes.length

/-- The place behind the headers. -/
def BlockBuffer.bodyStart (buffer : BlockBuffer) : Segment := .source buffer.headers.length 0 0

namespace Segment

/-- Of two ranges of blocks the first ends before the second begins. -/
def Precedes : Segment → Segment → Prop
  | source block start length, source block' start' _ =>
    block < block' ∨ block = block' ∧ start + length ≤ start'
  | _, _ => True

/-- Two neighbours that cannot be one: the second does not go on in a block where the first ends, and
not both are of scratch bytes. -/
def Apart : Segment → Segment → Prop
  | source block start length, source block' start' _ => ¬ (block = block' ∧ start + length = start')
  | scratch .., scratch .. => False
  | _, _ => True

/-- The ranges of scratch bytes lead from one place to another, each beginning where the one before
ends. -/
def Fills : (start : Nat) → List Segment → (stop : Nat) → Prop
  | start, [], stop => start = stop
  | start, source .. :: rest, stop => Fills start rest stop
  | start, scratch first length :: rest, stop => first = start ∧ Fills (start + length) rest stop

/-- Two ranges, of which the second goes on where the first ends, and both of them as one. -/
inductive Merges : Segment → Segment → Segment → Prop
  | source (block start n m : Nat) :
    Merges (source block start n) (source block (start + n) m) (source block start (n + m))
  | scratch (start n m : Nat) :
    Merges (scratch start n) (scratch (start + n) m) (scratch start (n + m))

theorem merges_of_merge? {s s' merged : Segment} (h : s.merge? s' = some merged) :
    Merges s s' merged := by
  cases s <;> cases s' <;> simp only [merge?, Option.ite_none_right_eq_some, reduceCtorEq] at h
  · obtain ⟨⟨rfl, rfl⟩, ⟨⟩⟩ := h
    exact .source ..
  · obtain ⟨rfl, ⟨⟩⟩ := h
    exact .scratch ..

/-- How a range is added behind others: as one more, or as a part of the last one. -/
inductive Adds (s : Segment) : List Segment → List Segment → Prop
  | behind (xs : List Segment) (parted : ∀ last ∈ xs.getLast?, last.merge? s = none) :
    Adds s xs (xs ++ [s])
  | merged (xs : List Segment) {last merged : Segment} (h : Merges last s merged) :
    Adds s (xs ++ [last]) (xs ++ [merged])

theorem adds_push (s : Segment) (latest : List Segment) :
    Adds s latest.reverse (s.push latest).reverse := by
  cases latest with
  | nil => exact .behind [] nofun
  | cons last others =>
    rw [push]
    cases h : last.merge? s with
    | some merged =>
      simp only [List.reverse_cons]
      exact .merged _ (merges_of_merge? h)
    | none =>
      rw [List.reverse_cons (a := s)]
      exact .behind _ (by simp [h])

theorem fills_append {start stop : Nat} {xs ys : List Segment} :
    Fills start (xs ++ ys) stop ↔ ∃ middle, Fills start xs middle ∧ Fills middle ys stop := by
  induction xs generalizing start with
  | nil => simp [Fills]
  | cons s rest ih =>
    cases s with
    | source => exact ih
    | scratch first length =>
      simp only [List.cons_append, Fills, ih, and_assoc, exists_and_left]

namespace Merges

variable {s s' merged : Segment}

theorem length (h : Merges s s' merged) : merged.length = s.length + s'.length := by
  cases h <;> rfl

theorem inOrder (h : Merges s s' merged) : s.Precedes s' := by
  cases h with
  | source => exact .inr ⟨rfl, Nat.le_refl _⟩
  | scratch => trivial

theorem behind_iff (h : Merges s s' merged) (t : Segment) :
    t.Precedes merged ↔ t.Precedes s ∧ t.Precedes s' := by
  cases h <;> cases t <;> simp only [Precedes, and_self]
  omega

theorem before_iff (h : Merges s s' merged) (t : Segment) :
    merged.Precedes t ↔ s.Precedes t ∧ s'.Precedes t := by
  cases h <;> cases t <;> simp only [Precedes, and_self]
  omega

theorem fills (h : Merges s s' merged) {start stop : Nat} (both : Fills start [s, s'] stop) :
    Fills start [merged] stop := by
  cases h with
  | source => exact both
  | scratch =>
    obtain ⟨rfl, -, stop⟩ := both
    exact ⟨rfl, (Nat.add_assoc ..).symm.trans stop⟩

/-- What is apart from a range is apart from all that begins with it. -/
theorem apart (h : Merges s s' merged) {t : Segment} (apart : t.Apart s) : t.Apart merged := by
  cases h <;> cases t <;> exact apart

/-- Two ranges that touch go forward where both of them as one do. -/
theorem forward_iff (h : Merges s s' merged) (xs ys : List Segment) :
    (xs ++ merged :: ys).Pairwise Precedes ↔ (xs ++ s :: s' :: ys).Pairwise Precedes := by
  simp only [List.pairwise_append, List.pairwise_cons, List.forall_mem_cons, h.behind_iff,
    h.before_iff, forall_and, h.inOrder, true_and]
  tauto

end Merges

/-- Ranges put out so far, with ranges of blocks that are still to come: they go forward from a place on,
fill the scratch bytes, and no two neighbours of those put out could be one. -/
structure Orderly (place : Segment) (xs coming : List Segment) (size : Nat) : Prop where
  filled : ∀ s ∈ xs, 0 < s.length
  forward : (place :: xs ++ coming).Pairwise Precedes
  fills : Fills 0 xs size
  apart : xs.IsChain Apart

section
variable {place s : Segment} {xs ys coming : List Segment} {size : Nat}

/-- What a range is added to stays in order, if it is in order with the range as one more. -/
theorem Adds.orderly (adds : Adds s xs ys) (filled : ∀ t ∈ xs ++ [s], 0 < t.length)
    (forward : (place :: xs ++ s :: coming).Pairwise Precedes) (fills : Fills 0 (xs ++ [s]) size)
    (apart : xs.IsChain Apart)
    (parts : ∀ last ∈ xs.getLast?, last.merge? s = none → last.Apart s) :
    Orderly place ys coming size := by
  cases adds with
  | behind _ parted =>
    refine ⟨filled, by simpa using forward, fills, apart.append (.singleton s) ?_⟩
    intro last ends _ begins
    obtain rfl := Option.some_inj.mp begins
    exact parts last ends (parted last ends)
  | @merged before last merged h =>
    obtain ⟨apart, -, link⟩ := List.isChain_append.mp apart
    refine ⟨?_, ?_, ?_, List.isChain_append.mpr ⟨apart, .singleton _, ?_⟩⟩
    · simp only [List.forall_mem_append, List.forall_mem_singleton] at filled ⊢
      rw [h.length]
      exact ⟨filled.1.1, Nat.add_pos_right _ filled.2⟩
    · have both : (place :: before ++ last :: s :: coming).Pairwise Precedes := by
        simpa using forward
      simpa using (h.forward_iff (place :: before) coming).mpr both
    · rw [List.append_assoc, fills_append] at fills
      obtain ⟨middle, front, behind⟩ := fills
      exact fills_append.mpr ⟨middle, front, h.fills behind⟩
    · intro last' ends _ begins
      obtain rfl := Option.some_inj.mp begins
      exact h.apart (link last' ends last rfl)

namespace Orderly

/-- Ranges to come may be left out. -/
theorem skip (orderly : Orderly place xs coming size) {fewer : List Segment}
    (part : fewer.Sublist coming) : Orderly place xs fewer size :=
  { orderly with forward := orderly.forward.sublist (part.append_left _) }

/-- The next range is put out. -/
theorem add_source {block start length : Nat}
    (orderly : Orderly place xs (source block start length :: coming) size) (some_left : 0 < length)
    (adds : Adds (source block start length) xs ys) : Orderly place ys coming size := by
  refine adds.orderly ?_ orderly.forward (fills_append.mpr ⟨size, orderly.fills, rfl⟩)
    orderly.apart ?_
  · exact List.forall_mem_append.mpr ⟨orderly.filled, List.forall_mem_singleton.mpr some_left⟩
  · intro last _ parted
    cases last with
    | source => simpa [merge?, Apart] using parted
    | scratch => trivial

/-- Ranges of scratch bytes do not count for the way through the blocks. -/
theorem forward_scratch (start length : Nat) (xs ys : List Segment) :
    (xs ++ scratch start length :: ys).Pairwise Precedes ↔ (xs ++ ys).Pairwise Precedes := by
  have before (t : Segment) : t.Precedes (scratch start length) := by cases t <;> trivial
  have behind (t : Segment) : (scratch start length).Precedes t := trivial
  simp [List.pairwise_append, List.pairwise_cons, before, behind]

/-- Scratch bytes are put out as soon as they are made. -/
theorem add_scratch (orderly : Orderly place xs coming size) {length : Nat} (some_made : 0 < length)
    (adds : Adds (scratch size length) xs ys) : Orderly place ys coming (size + length) := by
  refine adds.orderly ?_ ((forward_scratch ..).mpr orderly.forward)
    (fills_append.mpr ⟨size, orderly.fills, rfl, rfl⟩) orderly.apart ?_
  · exact List.forall_mem_append.mpr ⟨orderly.filled, List.forall_mem_singleton.mpr some_made⟩
  · intro last ends parted
    cases last with
    | source => trivial
    | scratch first len =>
      -- The last range ends where the scratch bytes do, so it would have been merged.
      have fills := orderly.fills
      rw [← List.dropLast_append_getLast? _ ends] at fills
      obtain ⟨_, -, rfl, stop⟩ := fills_append.mp fills
      have touches : first + len = size := stop
      simp [merge?, touches] at parted

end Orderly

end

end Segment

namespace Piece

open Segment (Merges Precedes)

theorem range_cut (p : Piece) {n : Nat} (short : n < p.bytes.length) :
    Merges (p.take n).range (p.drop n).range p.range := by
  have cut := Merges.source p.block p.start n (p.bytes.length - n)
  rw [Nat.add_sub_cancel' (Nat.le_of_lt short)] at cut
  rw [range, range, range, take, drop, List.length_take_of_le (Nat.le_of_lt short),
    List.length_drop]
  exact cut

/-- Nothing that is taken is empty. -/
theorem filled_split (n : Nat) (pieces : List Piece) :
    ∀ p ∈ (split n pieces).taken, p.bytes ≠ [] := by
  induction pieces generalizing n with
  | nil => exact List.forall_mem_nil _
  | cons p rest ih =>
    rw [split]
    by_cases zero : n = 0
    · rw [if_pos zero]
      exact List.forall_mem_nil _
    rw [if_neg zero]
    by_cases short : n < p.bytes.length
    · rw [if_pos short]
      refine List.forall_mem_singleton.mpr (List.ne_nil_of_length_pos ?_)
      rw [take, List.length_take_of_le (Nat.le_of_lt short)]
      exact Nat.pos_of_ne_zero zero
    · rw [if_neg short]
      dsimp only
      split
      · exact ih _
      · rename_i filled
        exact List.forall_mem_cons.mpr ⟨filled, ih _⟩

/-- What is taken goes in front of what is left. -/
theorem forward_split (n : Nat) (xs : List Segment) (pieces : List Piece)
    (forward : (xs ++ pieces.map range).Pairwise Precedes) :
    (xs ++ ((split n pieces).taken ++ (split n pieces).rest).map range).Pairwise Precedes := by
  induction pieces generalizing n xs with
  | nil => exact forward
  | cons p rest ih =>
    rw [split]
    by_cases zero : n = 0
    · rw [if_pos zero]
      exact forward
    rw [if_neg zero]
    by_cases short : n < p.bytes.length
    · rw [if_pos short]
      exact ((p.range_cut short).forward_iff xs _).mp forward
    · rw [if_neg short]
      have behind := ih (n - p.bytes.length) (xs ++ [p.range]) (by simpa using forward)
      dsimp only
      split
      · refine behind.sublist (List.Sublist.append_right ?_ _)
        exact List.sublist_append_left xs [p.range]
      · simpa using behind

end Piece

end TagWire
