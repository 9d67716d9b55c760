import Mathlib.Logic.Function.Iterate
import TagWire.Proofs.Encoder.Parts
import TagWire.Proofs.Encoder.Simulation

/-!
# Where blocks end

An encoder goes by the bytes of a message and not by how they are cut into blocks. This is true of
what it puts out and of what it reports, also when it walks on behind an error or runs out of bytes.
The grammar text of its layout shows in reports only.

- `Alike`: encoders over the same bytes, cut in two ways.
- `Blind`: a part of the walk that cannot tell them apart.
- `Encoder.alike_update`: the whole walk.
- `Encoder.update_recut`: the whole walk over the blocks of one layout, made once or again.
-/

namespace TagWire

/-- The reports are the same, but that the one names `origin` where the other names `origin'`. -/
inductive Error.Renamed (origin origin' : String) : Error → Error → Prop
  | same (x : Error) : Renamed origin origin' x x
  | mismatch (expected received : String) :
    Renamed origin origin' (.mismatch expected received origin)
      (.mismatch expected received origin')

theorem Error.Renamed.eq {origin : String} {x y : Error} (h : Renamed origin origin x y) :
    x = y := by
  cases h <;> rfl

variable {α β : Type} {l l' : Layout} {b b' : BlockBuffer}

/-- An encoder in the course of its walk over a buffer. -/
structure Encoder.Over (l : Layout) (b : BlockBuffer) (e : Encoder) : Prop where
  sameLayout : e.layout = l
  sameBuffer : e.buffer = b
  inside : ∀ p ∈ e.rest, p.Inside b.blocks
  stored : ∀ s ∈ e.latest, s.Stored e.scratch

/-- Two encoders that have the same bytes before them and behind them. Over one buffer they have
also put out the same ranges. -/
structure Alike (l l' : Layout) (b b' : BlockBuffer) (e e' : Encoder) : Prop where
  left : e.Over l b
  right : e'.Over l' b'
  rest : Piece.bytesOf e.rest = Piece.bytesOf e'.rest
  output : e.output = e'.output
  lastByte : e.lastByte = e'.lastByte
  deferred : e.deferred = e'.deferred
  error : Option.Rel (Error.Renamed l.grammar l'.grammar) e.error e'.error
  ranges : b = b' → e.rest = e'.rest ∧ e.latest = e'.latest ∧ e.scratch = e'.scratch

/-- A part of the walk that gives the same answer for encoders that are alike and leaves them so. -/
def Blind (l l' : Layout) (b b' : BlockBuffer) (m : Encoder.Walk α) : Prop :=
  ∀ e e', Alike l l' b b' e e' →
    (m.run e).1 = (m.run e').1 ∧ Alike l l' b b' (m.run e).2 (m.run e').2

namespace Encoder

theorem over_start (l : Layout) (b : BlockBuffer) : (start l b).Over l b where
  sameLayout := rfl
  sameBuffer := rfl
  inside := Piece.inside_ofBuffer b
  stored _ member := absurd member List.not_mem_nil

theorem Over.note {e : Encoder} (walks : e.Over l b) (x : Error) :
    (e.note x).Over l b := { walks with }

theorem Over.origin {e : Encoder} (walks : e.Over l b) (g : Gap) :
    e.originOf g = l.originOf g := by
  rw [originOf, walks.sameLayout, Layout.originOf]

/-- Pieces that are put out add their bytes. -/
theorem Over.put {e : Encoder} (walks : e.Over l b) {pieces : List Piece}
    (inside : ∀ p ∈ pieces, p.Inside b.blocks) :
    (Simulates.put pieces e).Over l b ∧
      (Simulates.put pieces e).output = e.output ++ Piece.bytesOf pieces := by
  induction pieces generalizing e with
  | nil => exact ⟨walks, by simp [Simulates.put, Piece.bytesOf, Encoder.output, segments]⟩
  | cons p rest ih =>
    let e₁ := { e with latest := (Segment.source p.block p.start p.bytes.length).push e.latest }
    have walks₁ : e₁.Over l b :=
      { walks with stored := Segment.stored_push trivial walks.stored }
    have output₁ : e₁.output = e.output ++ p.bytes := by
      have bytes : (Segment.source p.block p.start p.bytes.length).bytes e.buffer.blocks e.scratch =
          p.bytes := by
        rw [walks.sameBuffer]
        exact inside p List.mem_cons_self
      change Segment.render e.buffer.blocks e.scratch (Segment.push _ e.latest) = _
      rw [Segment.render_push, bytes]
      rfl
    obtain ⟨walks₂, output₂⟩ := ih walks₁ fun p member => inside p (List.mem_cons_of_mem _ member)
    refine ⟨walks₂, ?_⟩
    rw [output₁, List.append_assoc] at output₂
    exact output₂

end Encoder

namespace Alike

variable {e e' : Encoder}

theorem sound_iff (alike : Alike l l' b b' e e') : e.error = none ↔ e'.error = none := by
  have errors := alike.error
  generalize e.error = y, e'.error = y' at errors
  cases errors <;> simp

theorem report (alike : Alike l l' b b' e e') {x x' : Error}
    (renamed : x.Renamed l.grammar l'.grammar x') : Alike l l' b b' (e.note x) (e'.note x') := by
  refine { alike with left := alike.left.note x, right := alike.right.note x', error := ?_ }
  have errors := alike.error
  rw [Encoder.note, Encoder.note]
  generalize e.error = y, e'.error = y' at errors
  cases errors with
  | some known => exact .some known
  | none => exact .some renamed

theorem note (alike : Alike l l' b b' e e') (x : Error) :
    Alike l l' b b' (e.note x) (e'.note x) := alike.report (.same x)

/-- Pieces of the same bytes are taken from both. -/
theorem move (alike : Alike l l' b b' e e') (n : Nat) :
    Alike l l' b b' { e with rest := (Piece.split n e.rest).rest }
      { e' with rest := (Piece.split n e'.rest).rest } :=
  { alike with
    left := { alike.left with inside := (Piece.split_inside alike.left.inside n).2 }
    right := { alike.right with inside := (Piece.split_inside alike.right.inside n).2 }
    rest := by rw [Piece.bytesOf_rest, Piece.bytesOf_rest, alike.rest]
    ranges := fun same => by
      obtain ⟨rest, ranges⟩ := alike.ranges same
      exact ⟨by rw [rest], ranges⟩ }

/-- Pieces of the same bytes are put out by both. -/
theorem put (alike : Alike l l' b b' e e') {pieces pieces' : List Piece}
    (same : Piece.bytesOf pieces = Piece.bytesOf pieces') (one : b = b' → pieces = pieces')
    (inside : ∀ p ∈ pieces, p.Inside b.blocks) (inside' : ∀ p ∈ pieces', p.Inside b'.blocks) :
    Alike l l' b b' (Simulates.put pieces e) (Simulates.put pieces' e') := by
  obtain ⟨walks, output⟩ := alike.left.put inside
  obtain ⟨walks', output'⟩ := alike.right.put inside'
  refine { alike with left := walks, right := walks', output := ?_, ranges := ?_ }
  · rw [output, output', alike.output, same]
  · intro same_buffer
    obtain ⟨rest, latest, scratch⟩ := alike.ranges same_buffer
    refine ⟨rest, ?_, scratch⟩
    rw [Simulates.put, Simulates.put, one same_buffer, latest]

end Alike

namespace Blind

open Encoder (Walk)

theorem bind {m : Walk α} {f : α → Walk β} (first : Blind l l' b b' m)
    (rest : ∀ a, Blind l l' b b' (f a)) : Blind l l' b b' (m >>= f) := by
  intro e e' alike
  obtain ⟨same, alike₁⟩ := first e e' alike
  generalize run : m.run e = answer at same alike₁
  generalize run' : m.run e' = answer' at same alike₁
  obtain ⟨x | a, e₁⟩ := answer
  · obtain ⟨_, e₁'⟩ := answer'
    obtain rfl := same
    rw [Encoder.run_bind_error run, Encoder.run_bind_error run']
    exact ⟨rfl, alike₁⟩
  · obtain ⟨_, e₁'⟩ := answer'
    obtain rfl := same
    rw [Encoder.run_bind_ok run, Encoder.run_bind_ok run']
    exact rest a e₁ e₁' alike₁

/-- A part of the walk that goes by something that the encoders have in common. -/
theorem look {γ : Type} {read : Encoder → γ} {f : γ → Walk α}
    (same : ∀ {e e'}, Alike l l' b b' e e' → read e = read e')
    (rest : ∀ c, Blind l l' b b' (f c)) :
    Blind l l' b b' (do f (read (← get))) := by
  intro e e' alike
  change ((f (read e)).run e).1 = ((f (read e')).run e').1 ∧
    Alike l l' b b' ((f (read e)).run e).2 ((f (read e')).run e').2
  rw [← same alike]
  exact rest (read e) e e' alike

/-- A difference is reported in a gap, or in the grammar where the gap has no text of its own. -/
theorem report (g : Gap) (expected received : String) :
    Blind l l' b b' (do Encoder.record (.mismatch expected received ((← get).originOf g))) := by
  intro e e' alike
  refine ⟨rfl, ?_⟩
  change Alike l l' b b' (e.note (.mismatch expected received (e.originOf g)))
    (e'.note (.mismatch expected received (e'.originOf g)))
  apply alike.report
  rw [alike.left.origin, alike.right.origin, Layout.originOf, Layout.originOf]
  split
  · exact .mismatch expected received
  · exact .same _

/-- The bytes that are taken, and those that are missing, do not depend on where blocks end. -/
theorem take (n : Nat) (out : Bool) : Blind l l' b b' (Encoder.take n out) := by
  intro e e' alike
  have taken : Piece.bytesOf (Piece.split n e.rest).taken =
      Piece.bytesOf (Piece.split n e'.rest).taken := by
    rw [Piece.bytesOf_taken, Piece.bytesOf_taken, alike.rest]
  have missing : (Piece.split n e.rest).missing = (Piece.split n e'.rest).missing := by
    rw [Piece.split_missing, Piece.split_missing, alike.rest]
  have one : b = b' → (Piece.split n e.rest).taken = (Piece.split n e'.rest).taken := by
    intro same
    rw [(alike.ranges same).1]
  have put := (alike.move n).put taken one (Piece.split_inside alike.left.inside n).1
    (Piece.split_inside alike.right.inside n).1
  rw [Simulates.run_take, Simulates.run_take]
  dsimp only
  rw [missing, taken]
  cases out <;> split <;> first | exact ⟨rfl, put⟩ | exact ⟨rfl, alike.move n⟩

theorem emitScratch (bytes : Bytes) : Blind l l' b b' (Encoder.emitScratch bytes) := by
  intro e e' alike
  unfold Encoder.emitScratch
  split
  · exact ⟨rfl, alike⟩
  · have stored {e : Encoder} {l : Layout} {b : BlockBuffer} (walks : e.Over l b) :
        ∀ s ∈ (Segment.scratch e.scratch.length bytes.length).push e.latest,
          s.Stored (e.scratch ++ bytes) := by
      apply Segment.stored_push
      · simp [Segment.Stored]
      · intro s member
        exact (walks.stored s member).append bytes
    have output {e : Encoder} {l : Layout} {b : BlockBuffer} (walks : e.Over l b) :
        Segment.render e.buffer.blocks (e.scratch ++ bytes)
          ((Segment.scratch e.scratch.length bytes.length).push e.latest) = e.output ++ bytes := by
      have made : (Segment.scratch e.scratch.length bytes.length).bytes e.buffer.blocks
          (e.scratch ++ bytes) = bytes := by
        simp [Segment.bytes]
      rw [Segment.render_push, made, Segment.render_scratch walks.stored]
      rfl
    refine ⟨rfl, { alike with left := ?_, right := ?_, output := ?_, ranges := ?_ }⟩
    · exact { alike.left with stored := stored alike.left }
    · exact { alike.right with stored := stored alike.right }
    · exact (output alike.left).trans (alike.output ▸ (output alike.right).symm)
    · intro same
      obtain ⟨rest, latest, scratch⟩ := alike.ranges same
      refine ⟨rest, ?_, congrArg (· ++ bytes) scratch⟩
      change (Segment.scratch e.scratch.length bytes.length).push e.latest =
        (Segment.scratch e'.scratch.length bytes.length).push e'.latest
      rw [latest, scratch]

/-- No step tells the encoders apart, so no walk does. -/
theorem of_part {m : Walk α} (part : Encoder.Part m) : Blind l l' b b' m := by
  induction part with
  | done | failed => exact fun _ _ alike => ⟨rfl, alike⟩
  | bind _ _ first rest => exact first.bind rest
  | take n out => exact take n out
  | emitScratch bytes => exact emitScratch bytes
  | report g expected received => exact report g expected received
  | remember bytes =>
    refine fun e e' alike => ⟨rfl, { alike with
      left := { alike.left with }, right := { alike.right with }, lastByte := ?_ }⟩
    change bytes.getLast?.getD e.lastByte = bytes.getLast?.getD e'.lastByte
    rw [alike.lastByte]
  | defer deferred =>
    exact fun _ _ alike => ⟨rfl, { alike with
      left := { alike.left with }, right := { alike.right with }, deferred := rfl }⟩
  | byDeferred _ rest => exact look (fun alike => alike.deferred) rest
  | byLastByte _ rest => exact look (fun alike => alike.lastByte) rest

end Blind

namespace Encoder

theorem alike_start (l l' : Layout) (same : b.payload = b'.payload) :
    Alike l l' b b' (start l b) (start l' b') where
  left := over_start l b
  right := over_start l' b'
  rest := by
    change Piece.bytesOf (Piece.ofBuffer b) = Piece.bytesOf (Piece.ofBuffer b')
    rw [Piece.bytesOf_ofBuffer, Piece.bytesOf_ofBuffer, same]
  output := rfl
  lastByte := rfl
  deferred := rfl
  error := .none
  ranges one := ⟨congrArg Piece.ofBuffer one, rfl, rfl⟩

/-- The bytes left over at the end are counted across blocks. -/
theorem alike_checkEnd {e e' : Encoder} (alike : Alike l l' b b' e e') :
    Alike l l' b b' e.checkEnd e'.checkEnd := by
  have left : e.left = e'.left := by rw [Encoder.left, Encoder.left, alike.rest]
  unfold checkEnd
  rw [left, alike.left.sameLayout, alike.right.sameLayout]
  by_cases lacking : e.error = none ∧ 0 < e'.left
  · rw [if_pos lacking, if_pos ⟨alike.sound_iff.mp lacking.1, lacking.2⟩]
    exact alike.report (.mismatch _ _)
  · rw [if_neg lacking, if_neg fun known => lacking ⟨alike.sound_iff.mpr known.1, known.2⟩]
    exact alike

/-- A whole walk leaves encoders alike, whatever they did before. Their layouts have to check and
pass the same. -/
theorem alike_update {e e' : Encoder} (walk : passGaps e.layout.gaps = passGaps e'.layout.gaps)
    (same : e.buffer.payload = e'.buffer.payload) :
    Alike e.layout e'.layout e.buffer e'.buffer e.update e'.update := by
  obtain ⟨answer, alike⟩ :=
    Blind.of_part (.passGaps e.layout.gaps) _ _ (alike_start e.layout e'.layout same)
  unfold update
  rw [← walk]
  generalize (passGaps e.layout.gaps).run (start e.layout e.buffer) = first at answer alike
  generalize (passGaps e.layout.gaps).run (start e'.layout e'.buffer) = second at answer alike
  obtain ⟨x | _, e₁⟩ := first <;> obtain ⟨_, e₁'⟩ := second <;> obtain rfl := answer
  · exact alike.note x
  · exact alike_checkEnd alike

theorem update_congr {e e' : Encoder} (layout : e.layout = e'.layout)
    (buffer : e.buffer = e'.buffer) : e.update = e'.update := by
  unfold update
  rw [layout, buffer]

/-- A walk that is made again, however often, ends as it has ended before. -/
theorem update_again (e : Encoder) (n : Nat) : update^[n] e.update = e.update := by
  have walked := (alike_update (e := e) rfl rfl).left
  have once : e.update.update = e.update := update_congr walked.sameLayout walked.sameBuffer
  exact Function.iterate_fixed once n

/-- Encoders of one layout answer alike, report alike and put out the same bytes for the same
message, whatever the headers in front of it are and wherever its blocks end. They do so again each
time. -/
theorem update_recut {e e' : Encoder} (layout : e.layout = e'.layout)
    (same : e.buffer.payload = e'.buffer.payload) :
    e.update.isOk = e'.update.isOk ∧ e.update.error = e'.update.error ∧
      e.update.output = e'.update.output ∧ ∀ n, update^[n] e.update = e.update := by
  have alike := alike_update (by rw [layout]) same
  have error : e.update.error = e'.update.error := by
    have errors := alike.error
    rw [layout] at errors
    generalize e.update.error = y, e'.update.error = y' at errors
    cases errors with
    | some renamed => rw [renamed.eq]
    | none => rfl
  refine ⟨?_, error, alike.output, e.update_again⟩
  rw [isOk, isOk, error]

/-- A vector of one integer that is filled up to four bytes, in a message with a byte too many. -/
def paddedVector : Layout where
  gaps := [⟨[320], .data ⟨.fromWire, .int16, .pad 4 true, .exchanged, "vector int16:4 *"⟩⟩]
  grammar := "vector int16:4 *"

def inOneBlock : BlockBuffer := ⟨[], [[64, 1, 0, 0, 1, 0, 0, 0, 0xfe, 0xff, 9]]⟩

def inManyBlocks : BlockBuffer := ⟨[[7]], [[64], [], [1, 0, 0, 1, 0], [0, 0, 0xfe], [0xff, 9], []]⟩

/-- The ranges differ, and the byte that is too many is found behind both. -/
theorem update_paddedVector :
    inOneBlock.payload = inManyBlocks.payload ∧
      (start paddedVector inOneBlock).update.segments ≠
        (start paddedVector inManyBlocks).update.segments ∧
      (start paddedVector inOneBlock).update.isOk =
        (start paddedVector inManyBlocks).update.isOk ∧
      (start paddedVector inOneBlock).update.error =
        some (.mismatch "end of message" "1 more bytes" "vector int16:4 *") ∧
      (start paddedVector inManyBlocks).update.error =
        some (.mismatch "end of message" "1 more bytes" "vector int16:4 *") ∧
      (start paddedVector inOneBlock).update.output = [1, 0, 0, 0, 0xfe, 0xff, 0xff, 0xff] ∧
      (start paddedVector inManyBlocks).update.output = [1, 0, 0, 0, 0xfe, 0xff, 0xff, 0xff] ∧
      ∀ n, update^[n] (start paddedVector inOneBlock).update =
        (start paddedVector inOneBlock).update := by
  have same : inOneBlock.payload = inManyBlocks.payload := by decide
  have ranges : (start paddedVector inOneBlock).update.segments ≠
      (start paddedVector inManyBlocks).update.segments := by decide +kernel
  have reported : (start paddedVector inOneBlock).update.error =
      some (.mismatch "end of message" "1 more bytes" "vector int16:4 *") := by decide +kernel
  have put_out : (start paddedVector inOneBlock).update.output =
      [1, 0, 0, 0, 0xfe, 0xff, 0xff, 0xff] := by decide +kernel
  have layout : (start paddedVector inOneBlock).layout = (start paddedVector inManyBlocks).layout :=
    rfl
  obtain ⟨ok, error, output, again⟩ := update_recut layout same
  exact ⟨same, ranges, ok, reported, error ▸ reported, put_out, output ▸ put_out, again⟩

end Encoder

end TagWire
