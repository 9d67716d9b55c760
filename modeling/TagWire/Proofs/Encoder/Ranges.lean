import TagWire.Encoder.Basic

/-!
# Ranges and the bytes they stand for

Taking bytes from pieces and putting out ranges, seen from the bytes alone.

- `Piece.bytesOf_taken`, `Piece.bytesOf_rest`: pieces are taken as their bytes are.
- `Segment.render_push`: a range put out adds its bytes, whether or not it is merged.
-/

namespace TagWire

namespace Piece

/-- The piece holds the bytes at its place in the blocks. -/
def Inside (blocks : List Bytes) (p : Piece) : Prop :=
  ((blocks.getD p.block []).drop p.start).take p.bytes.length = p.bytes

theorem Inside.take {blocks : List Bytes} {p : Piece} (inside : p.Inside blocks) (n : Nat) :
    (p.take n).Inside blocks := by
  unfold Inside at *
  simp only [Piece.take, List.length_take]
  rw [← List.take_take, inside]

theorem Inside.drop {blocks : List Bytes} {p : Piece} (inside : p.Inside blocks) (n : Nat) :
    (p.drop n).Inside blocks := by
  unfold Inside at *
  simp only [Piece.drop, List.length_drop]
  rw [← List.drop_drop, ← List.drop_take, inside]

theorem bytesOf_taken (n : Nat) (pieces : List Piece) :
    bytesOf (split n pieces).taken = (bytesOf pieces).take n := by
  induction pieces generalizing n with
  | nil => simp [split, bytesOf]
  | cons p rest ih =>
    rw [split]
    by_cases zero : n = 0
    · simp [zero, bytesOf]
    · rw [if_neg zero]
      by_cases short : n < p.bytes.length
      · rw [if_pos short]
        simp [bytesOf, Piece.take, List.take_append_of_le_length (Nat.le_of_lt short)]
      · rw [if_neg short]
        have further := ih (n - p.bytes.length)
        have whole : (bytesOf (p :: rest)).take n =
            p.bytes ++ (bytesOf rest).take (n - p.bytes.length) := by
          simp only [bytesOf, List.flatMap_cons]
          rw [List.take_append, List.take_of_length_le (Nat.le_of_not_lt short)]
        rw [whole, ← further]
        by_cases empty : p.bytes = []
        · simp [empty]
        · simp [empty, bytesOf]

theorem bytesOf_rest (n : Nat) (pieces : List Piece) :
    bytesOf (split n pieces).rest = (bytesOf pieces).drop n := by
  induction pieces generalizing n with
  | nil => simp [split, bytesOf]
  | cons p rest ih =>
    rw [split]
    by_cases zero : n = 0
    · simp [zero]
    · rw [if_neg zero]
      by_cases short : n < p.bytes.length
      · rw [if_pos short]
        simp [bytesOf, Piece.drop, List.drop_append_of_le_length (Nat.le_of_lt short)]
      · rw [if_neg short]
        have further := ih (n - p.bytes.length)
        simp only [bytesOf, List.flatMap_cons] at further ⊢
        rw [further, List.drop_append, List.drop_of_length_le (Nat.le_of_not_lt short),
          List.nil_append]

theorem split_missing (n : Nat) (pieces : List Piece) :
    (split n pieces).missing = n - (bytesOf pieces).length := by
  induction pieces generalizing n with
  | nil => simp [split, bytesOf]
  | cons p rest ih =>
    rw [split]
    have size : (bytesOf (p :: rest)).length = p.bytes.length + (bytesOf rest).length := by
      simp [bytesOf]
    by_cases zero : n = 0
    · simp [zero]
    · rw [if_neg zero]
      by_cases short : n < p.bytes.length
      · rw [if_pos short, size]
        dsimp only
        omega
      · rw [if_neg short, size]
        dsimp only
        rw [ih]
        omega

theorem split_inside {blocks : List Bytes} {pieces : List Piece}
    (inside : ∀ p ∈ pieces, p.Inside blocks) (n : Nat) :
    (∀ p ∈ (split n pieces).taken, p.Inside blocks) ∧ ∀ p ∈ (split n pieces).rest,
      p.Inside blocks := by
  induction pieces generalizing n with
  | nil => exact ⟨inside, inside⟩
  | cons p rest ih =>
    have first := inside p List.mem_cons_self
    have further := fun m => ih (fun p member => inside p (List.mem_cons_of_mem _ member)) m
    rw [split]
    split
    · exact ⟨fun p member => absurd member List.not_mem_nil, inside⟩
    · split
      · constructor
        · rintro _ (_ | ⟨_, ⟨⟩⟩)
          exact first.take n
        · rintro q (_ | ⟨_, member⟩)
          · exact first.drop n
          · exact inside q (List.mem_cons_of_mem _ member)
      · refine ⟨?_, (further _).2⟩
        dsimp only
        split
        · exact (further _).1
        · rintro q (_ | ⟨_, member⟩)
          · exact first
          · exact (further _).1 q member

theorem bytesOf_zipIdx (blocks : List Bytes) (first i : Nat) :
    bytesOf ((blocks.zipIdx i).map fun (bytes, i) => ⟨first + i, 0, bytes⟩) = blocks.flatten := by
  induction blocks generalizing i with
  | nil => rfl
  | cons block rest ih =>
    simp only [List.zipIdx_cons, List.map_cons, List.flatten_cons, ← ih (i + 1)]
    simp [bytesOf]

theorem bytesOf_ofBuffer (buffer : BlockBuffer) : bytesOf (ofBuffer buffer) = buffer.payload :=
  bytesOf_zipIdx buffer.body buffer.headers.length 0

theorem inside_ofBuffer (buffer : BlockBuffer) : ∀ p ∈ ofBuffer buffer, p.Inside buffer.blocks := by
  intro p member
  obtain ⟨⟨bytes, i⟩, numbered, rfl⟩ := List.mem_map.mp member
  have found : buffer.body[i]? = some bytes := List.mem_zipIdx_iff_getElem?.mp numbered
  have block : buffer.blocks.getD (buffer.headers.length + i) [] = bytes := by
    simp [BlockBuffer.blocks, List.getD, List.getElem?_append_right, found]
  simp only [Inside, block, List.drop_zero, List.take_length]

end Piece

namespace Segment

/-- The bytes of ranges of which the last comes first. -/
def render (blocks : List Bytes) (scratch : Bytes) (latest : List Segment) : Bytes :=
  latest.reverse.flatMap (Segment.bytes blocks scratch)

theorem bytes_merge {blocks : List Bytes} {scratch : Bytes} {s s' merged : Segment}
    (h : s.merge? s' = some merged) :
    merged.bytes blocks scratch = s.bytes blocks scratch ++ s'.bytes blocks scratch := by
  cases s <;> cases s' <;> simp only [merge?, reduceCtorEq] at h
  all_goals
    split at h
    · cases h
      simp_all [Segment.bytes, List.take_add, List.drop_drop]
    · cases h

theorem render_cons (blocks : List Bytes) (scratch : Bytes) (s : Segment) (latest : List Segment) :
    render blocks scratch (s :: latest) =
      render blocks scratch latest ++ s.bytes blocks scratch := by
  simp [render]

/-- A range put out adds its bytes behind the others. -/
theorem render_push (blocks : List Bytes) (scratch : Bytes) (s : Segment) (latest : List Segment) :
    render blocks scratch (s.push latest) =
      render blocks scratch latest ++ s.bytes blocks scratch := by
  cases latest with
  | nil => exact render_cons ..
  | cons last others =>
    rw [push]
    split
    · rename_i merged h
      rw [render_cons, bytes_merge h, ← List.append_assoc, ← render_cons]
    · exact render_cons ..

/-- A range of the scratch buffer lies inside it. -/
def Stored (scratch : Bytes) : Segment → Prop
  | source .. => True
  | .scratch start length => start + length ≤ scratch.length

theorem Stored.bytes_append {blocks : List Bytes} {scratch : Bytes} {s : Segment}
    (stored : s.Stored scratch) (more : Bytes) :
    s.bytes blocks (scratch ++ more) = s.bytes blocks scratch := by
  cases s with
  | source => rfl
  | scratch start length =>
    have bound : start + length ≤ scratch.length := stored
    simp only [Segment.bytes]
    rw [List.drop_append_of_le_length (by omega),
      List.take_append_of_le_length (by rw [List.length_drop]; omega)]

theorem Stored.append {scratch : Bytes} {s : Segment} (stored : s.Stored scratch) (more : Bytes) :
    s.Stored (scratch ++ more) := by
  cases s with
  | source => trivial
  | scratch start length =>
    have bound : start + length ≤ scratch.length := stored
    simp only [Stored, List.length_append]
    omega

theorem stored_push {scratch : Bytes} {s : Segment} {latest : List Segment}
    (first : s.Stored scratch) (others : ∀ t ∈ latest, t.Stored scratch) :
    ∀ t ∈ s.push latest, t.Stored scratch := by
  cases latest with
  | nil =>
    rintro _ (_ | ⟨_, ⟨⟩⟩)
    exact first
  | cons last rest =>
    have last_stored := others last List.mem_cons_self
    have rest_stored : ∀ s ∈ rest, s.Stored scratch := by
      intro s member
      exact others s (List.mem_cons_of_mem _ member)
    rw [push]
    split
    · rename_i merged h
      rintro t (_ | ⟨_, member⟩)
      · cases last <;> cases s <;> simp only [merge?, reduceCtorEq] at h
        all_goals
          split at h
          · cases h
            simp_all [Stored] <;> omega
          · cases h
      · exact rest_stored t member
    · rintro t (_ | ⟨_, member⟩)
      · exact first
      · exact others t member

theorem render_scratch {blocks : List Bytes} {scratch : Bytes} {latest : List Segment}
    (stored : ∀ s ∈ latest, s.Stored scratch) (more : Bytes) :
    render blocks (scratch ++ more) latest = render blocks scratch latest := by
  induction latest with
  | nil => rfl
  | cons s rest ih =>
    rw [render_cons, render_cons, ih fun s member => stored s (List.mem_cons_of_mem _ member),
      (stored s List.mem_cons_self).bytes_append]

end Segment

end TagWire
