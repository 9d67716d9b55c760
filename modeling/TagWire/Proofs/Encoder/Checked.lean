import TagWire.Proofs.Encoder.Pieces
import TagWire.Proofs.Encoder.Recutting
import TagWire.Proofs.Stream.Checked

/-!
# Encoding with ranges checked

A walk over a message with all that it cuts out and takes off checked: what it takes from blocks, the last
byte that it goes over, and what is left at the end.

- `Encoder.Safe`, `Encoder.Guards`: a part of the walk that stays in range, and leaves the encoder so.
- `Encoder.update?`, `Encoder.sure_update`: the whole walk, and the ranges that it puts out.
-/

namespace TagWire

namespace Encoder

open Checked (within free Sure)

/-- Takes bytes from what is left of the message, and puts them out if asked. -/
def divide? (n : Nat) (out : Bool) : Checked Encoder Piece.Split := do
  let e ← free get
  let split ← within (Piece.split? e.buffer.blocks n e.rest)
  free (modify fun e => { e with rest := split.rest })
  if out then free (emit split.taken)
  return split

def take? (n : Nat) (out : Bool) : Checked Encoder Bytes := do
  let split ← divide? n out
  if 0 < split.missing then throw (.exhausted "buffered message" split.missing)
  return Piece.bytesOf split.taken

/-- Goes over `n` bytes of data. -/
def pass? (n : Nat) (out : Bool) : Checked Encoder Unit := do
  let split ← divide? n out
  let e ← free get
  let last ← within (Piece.last? e.buffer.blocks e.lastByte split.taken)
  if 0 < split.missing then throw (.exhausted "buffered message" split.missing)
  free (modify fun e => { e with lastByte := last })

def takeWord? (out : Bool) : Checked Encoder Word := do
  return Word.ofBytes (← take? 4 out)

def checkLength? (g : Gap) (expected : Word) : Checked Encoder Unit := do
  let received ← takeWord? false
  free (settle g received)
  free (do
    if expected ≠ received then
      record (.mismatch ("length " ++ toString expected.toInt) ("length " ++ toString received.toInt)
        ((← get).originOf g)))

def checkTag? (g : Gap) (expected : Word) : Checked Encoder Unit := do
  let received ← takeWord? false
  free (
    if expected = received then pure ()
    else if expected.isList ∧ received.isList then
      modify fun e => { e with deferred := some ⟨expected, received⟩ }
    else recordMismatch g expected received)

def checkWords? (g : Gap) : List Word → Checked Encoder Unit
  | [] => pure ()
  | [tag] => checkTag? g tag
  | tag :: next :: rest => do
    checkTag? g tag
    if tag.isList then
      checkLength? g next
      checkWords? g rest
    else checkWords? g (next :: rest)

def takeLength? (g : Gap) : Checked Encoder Nat := do
  let w ← takeWord? true
  free (settle g w)
  match w.length? with
  | some n => return n
  | none =>
    throw (.parse ("length prefix of '" ++ g.origin ++ "'") ("negative length " ++ toString w.toInt))

def times? (part : Checked Encoder Unit) : Nat → Checked Encoder Unit
  | 0 => pure ()
  | n + 1 => do
    part
    times? part n

def passText? (g : Gap) : Checked Encoder Unit := do
  let n ← takeLength? g
  pass? n true

def passNarrow? : Checked Encoder Unit := do
  let wide ← take? 8 false
  free (emitScratch (Bytes.ofNat 4 (Binary.narrow (UInt64.ofNat (Bytes.toNat wide))).toNat))

def passPadded? (size wire : Nat) (signed : Bool) : Checked Encoder Unit := do
  pass? size true
  free (do
    let fill := padByte signed [(← get).lastByte]
    emitScratch (List.replicate (wire - size) fill))

def passElements? (g : Gap) (p : Payload) (n : Nat) : Checked Encoder Unit :=
  match p.kind.size?, p.conversion with
  | none, _ => times? (passText? g) n
  | some size, .identity => pass? (n * size) true
  | some _, .narrow => times? passNarrow? n
  | some size, .pad wire signed => times? (passPadded? size wire signed) n

def passPayload? (g : Gap) (p : Payload) : Checked Encoder Unit :=
  match p.use with
  | .skipped | .saved _ => pure ()
  | .loaded .. => pass? (p.kind.size?.getD 0) false
  | .exchanged => do
    let n ← match p.count with
      | .fixed n => pure n
      | .fromWire => takeLength? g
    passElements? g p n

def passGap? (g : Gap) : Checked Encoder Unit := do
  checkWords? g g.words
  match g.payload? with
  | some p => passPayload? g p
  | none => pure ()

def passGaps? : List Gap → Checked Encoder Unit
  | [] => pure ()
  | g :: rest => do
    passGap? g
    passGaps? rest

/-- A message has to end with its layout. -/
def checkEnd? (e : Encoder) : Option Encoder :=
  if e.error = none then do
    let left ← Piece.left? e.buffer.blocks e.rest
    return if 0 < left then
      e.note (.mismatch "end of message" (toString left ++ " more bytes") e.layout.grammar)
    else e
  else return e

/-- Goes over the whole message. -/
def update? (e : Encoder) : Option Encoder :=
  match (passGaps? e.layout.gaps).run (start e.layout e.buffer) with
  | none => none
  | some (.ok (), e) => e.checkEnd?
  | some (.error error, e) => some (e.note error)

def segmentBytes? (e : Encoder) (s : Segment) : Option Bytes := s.bytes? e.buffer.blocks e.scratch

/-- What is left of the message and what has been put out of it lies inside its blocks. -/
structure Safe (e : Encoder) : Prop where
  tails : ∀ p ∈ e.rest, p.Tail e.buffer.blocks
  held : ∀ s ∈ e.latest, s.Held e.buffer.blocks

theorem safe_start (l : Layout) (buffer : BlockBuffer) : (start l buffer).Safe :=
  ⟨Piece.tail_ofBuffer buffer, List.forall_mem_nil _⟩

theorem Safe.move {e : Encoder} (safe : e.Safe) (n : Nat) :
    Safe { e with rest := (Piece.split n e.rest).rest } :=
  ⟨(Piece.split?_tails safe.tails n).2.2, safe.held⟩

theorem Safe.put {e : Encoder} (safe : e.Safe) {pieces : List Piece}
    (parts : ∀ p ∈ pieces, p.Part e.buffer.blocks) : (Simulates.put pieces e).Safe := by
  induction pieces generalizing e with
  | nil => exact safe
  | cons p rest ih =>
    obtain ⟨⟨block, found, sliced, -⟩, others⟩ := List.forall_mem_cons.mp parts
    have within := (Bytes.slice?_eq_some.mp sliced).2.1
    have first : Safe
        { e with latest := (Segment.source p.block p.start p.bytes.length).push e.latest } :=
      ⟨safe.tails, Segment.held_push ⟨block, found, within⟩ safe.held⟩
    exact ih first others

/-- An encoder that has divided off what it was asked for. -/
def divided (n : Nat) (out : Bool) (e : Encoder) : Encoder :=
  let split := Piece.split n e.rest
  if out then Simulates.put split.taken { e with rest := split.rest } else { e with rest := split.rest }

theorem Safe.divided {e : Encoder} (safe : e.Safe) (n : Nat) (out : Bool) : (e.divided n out).Safe := by
  cases out with
  | true => exact (safe.move n).put (Piece.split?_tails safe.tails n).2.1
  | false => exact safe.move n

theorem run_divide {e : Encoder} (safe : e.Safe) (n : Nat) (out : Bool) :
    (divide? n out).run e = some (.ok (Piece.split n e.rest), e.divided n out) := by
  have run : (divide? n out).run e =
      ((within (Piece.split? e.buffer.blocks n e.rest) >>= fun split => do
        free (modify fun e => { e with rest := split.rest })
        if out then free (emit split.taken)
        return split).run e) := rfl
  rw [run, (Piece.split?_tails safe.tails n).1]
  cases out <;> rfl

/-- A part of the walk that stays in range, and leaves the encoder so that others do. -/
def Guards {α : Type} (checked : Checked Encoder α) (m : Walk α) : Prop :=
  ∀ e, e.Safe → Sure e checked m ∧ (m.run e).2.Safe

namespace Guards

variable {α β : Type}

theorem done (a : α) : Guards (pure a) (pure a) := fun _ safe => ⟨.done a, safe⟩

theorem failed (x : Error) : Guards (throw x : Checked Encoder α) (throw x) :=
  fun _ safe => ⟨.failed x, safe⟩

theorem bind {checked : Checked Encoder α} {m : Walk α} {further : α → Checked Encoder β}
    {f : α → Walk β} (first : Guards checked m) (rest : ∀ a, Guards (further a) (f a)) :
    Guards (checked >>= further) (m >>= f) := by
  intro e safe
  obtain ⟨sure, safe'⟩ := first e safe
  refine ⟨sure.bind fun a e' run => ?_, ?_⟩
  · rw [run] at safe'
    exact (rest a e' safe').1
  · generalize run : m.run e = answer at safe'
    obtain ⟨x | a, e'⟩ := answer
    · rw [run_bind_error run]
      exact safe'
    · rw [run_bind_ok run]
      exact (rest a e' safe').2

/-- A part of the walk that goes over nothing has no ranges to be checked. -/
theorem unchecked {m : Walk α} (keeps : ∀ e, e.Safe → (m.run e).2.Safe) : Guards (free m) m :=
  fun e safe => ⟨.unchecked m, keeps e safe⟩

theorem safe_take (n : Nat) (out : Bool) (e : Encoder) (safe : e.Safe) :
    ((Encoder.take n out).run e).2.Safe := by
  have divided := safe.divided n out
  rw [Simulates.run_take]
  dsimp only
  split <;> exact divided

theorem take (n : Nat) (out : Bool) : Guards (take? n out) (Encoder.take n out) := by
  intro e safe
  refine ⟨?_, safe_take n out e safe⟩
  rw [Sure, take?, Checked.run_bind_ok (run_divide safe n out), Simulates.run_take]
  dsimp only
  split <;> rfl

/-- The last byte that is gone over is looked up in its block. -/
theorem run_pass {e : Encoder} (safe : e.Safe) (n : Nat) (out : Bool) :
    (pass? n out).run e =
      let split := Piece.split n e.rest
      let e := e.divided n out
      some (if 0 < split.missing then (.error (.exhausted "buffered message" split.missing), e)
        else (.ok (), { e with lastByte := (Piece.bytesOf split.taken).getLast?.getD e.lastByte })) := by
  have same : (e.divided n out).buffer = e.buffer := by cases out <;> rfl
  have last := Piece.last?_parts (Piece.split?_tails safe.tails n).2.1 (e.divided n out).lastByte
  rw [← same] at last
  rw [pass?, Checked.run_bind_ok (run_divide safe n out)]
  change (within (Piece.last? (e.divided n out).buffer.blocks _ _) >>= _).run _ = _
  rw [last]
  dsimp only
  split <;> rfl

theorem pass (n : Nat) (out : Bool) : Guards (pass? n out) (Encoder.pass n out) := by
  intro e safe
  have taken := Simulates.run_take n out e
  have divided := safe.divided n out
  rw [Sure, run_pass safe, Encoder.pass]
  dsimp only at taken ⊢
  split at taken
  · rename_i lacking
    rw [run_bind_error taken, if_pos lacking]
    exact ⟨rfl, divided⟩
  · rename_i enough
    rw [run_bind_ok taken, if_neg enough]
    exact ⟨rfl, divided.tails, divided.held⟩

theorem takeWord (out : Bool) : Guards (takeWord? out) (Encoder.takeWord out) :=
  (take 4 out).bind fun bytes => done (Word.ofBytes bytes)

theorem safe_recordMismatch (g : Gap) (expected received : Word) (e : Encoder) (safe : e.Safe) :
    ((recordMismatch g expected received).run e).2.Safe := ⟨safe.tails, safe.held⟩

theorem safe_settle (g : Gap) (length : Word) (e : Encoder) (safe : e.Safe) :
    ((settle g length).run e).2.Safe := by
  have got : (get : Walk Encoder).run e = (.ok e, e) := rfl
  rw [settle, run_bind_ok got]
  cases e.deferred with
  | none => exact safe
  | some d =>
    dsimp only
    split
    · exact ⟨safe.tails, safe.held⟩
    · exact ⟨safe.tails, safe.held⟩

theorem checkLength (g : Gap) (expected : Word) :
    Guards (checkLength? g expected) (Encoder.checkLength g expected) := by
  refine (takeWord false).bind fun received => (unchecked (safe_settle g received)).bind fun _ => ?_
  refine unchecked fun e safe => ?_
  split
  · exact ⟨safe.tails, safe.held⟩
  · exact safe

theorem checkTag (g : Gap) (expected : Word) :
    Guards (checkTag? g expected) (Encoder.checkTag g expected) := by
  refine (takeWord false).bind fun received => .unchecked fun e safe => ?_
  split
  · exact safe
  · split
    · exact ⟨safe.tails, safe.held⟩
    · exact safe_recordMismatch g expected received e safe

theorem checkWords (g : Gap) (words : List Word) :
    Guards (checkWords? g words) (Encoder.checkWords g words) := by
  induction words using Encoder.checkWords.induct with
  | case1 => exact done ()
  | case2 tag => exact checkTag g tag
  | case3 tag next rest behind following =>
    apply (checkTag g tag).bind
    intro _
    split
    · exact (checkLength g next).bind fun _ => behind
    · exact following

theorem takeLength (g : Gap) : Guards (takeLength? g) (Encoder.takeLength g) := by
  refine (takeWord true).bind fun w => (unchecked (safe_settle g w)).bind fun _ => ?_
  cases w.length? with
  | some n => exact done n
  | none => exact failed _

theorem times {checked : Checked Encoder Unit} {m : Walk Unit} (part : Guards checked m) (n : Nat) :
    Guards (times? checked n) (Encoder.times m n) := by
  induction n with
  | zero => exact done ()
  | succ n ih => exact part.bind fun _ => ih

theorem safe_emitScratch (bytes : Bytes) (e : Encoder) (safe : e.Safe) :
    ((emitScratch bytes).run e).2.Safe := by
  unfold emitScratch
  split
  · exact safe
  · exact ⟨safe.tails, Segment.held_push trivial safe.held⟩

theorem passText (g : Gap) : Guards (passText? g) (Encoder.passText g) :=
  (takeLength g).bind fun n => pass n true

theorem passNarrow : Guards passNarrow? Encoder.passNarrow :=
  (take 8 false).bind fun _ => unchecked (safe_emitScratch _)

theorem passPadded (size wire : Nat) (signed : Bool) :
    Guards (passPadded? size wire signed) (Encoder.passPadded size wire signed) :=
  (pass size true).bind fun _ => unchecked fun e => safe_emitScratch _ e

theorem passElements (g : Gap) (p : Payload) (n : Nat) :
    Guards (passElements? g p n) (Encoder.passElements g p n) := by
  unfold passElements? Encoder.passElements
  cases p.kind.size? with
  | none => exact times (passText g) n
  | some size =>
    cases p.conversion with
    | identity => exact pass (n * size) true
    | narrow => exact times passNarrow n
    | pad wire signed => exact times (passPadded size wire signed) n

theorem passPayload (g : Gap) (p : Payload) :
    Guards (passPayload? g p) (Encoder.passPayload g p) := by
  unfold passPayload? Encoder.passPayload
  cases p.use with
  | skipped | saved => exact done ()
  | loaded => exact pass _ false
  | exchanged =>
    cases p.count with
    | fixed n => exact (done n).bind (passElements g p)
    | fromWire => exact (takeLength g).bind (passElements g p)

theorem passGap (g : Gap) : Guards (passGap? g) (Encoder.passGap g) := by
  apply (checkWords g g.words).bind
  intro _
  cases g.payload? with
  | none => exact done ()
  | some p => exact passPayload g p

theorem passGaps (gaps : List Gap) : Guards (passGaps? gaps) (Encoder.passGaps gaps) := by
  induction gaps with
  | nil => exact done ()
  | cons g rest ih => exact (passGap g).bind fun _ => ih

end Guards

theorem sure_checkEnd {e : Encoder} (safe : e.Safe) : e.checkEnd? = some e.checkEnd := by
  unfold checkEnd? checkEnd left
  by_cases sound : e.error = none
  · rw [if_pos sound, Piece.left?_tails safe.tails]
    simp only [sound, true_and]
    rfl
  · rw [if_neg sound, if_neg fun known => sound known.1]
    rfl

theorem Safe.note {e : Encoder} (safe : e.Safe) (x : Error) : (e.note x).Safe := ⟨safe.tails, safe.held⟩

theorem Safe.checkEnd {e : Encoder} (safe : e.Safe) : e.checkEnd.Safe := by
  unfold Encoder.checkEnd
  split
  · exact safe.note _
  · exact safe

/-- A walk over any message stays in range, and so do the ranges that it puts out. -/
theorem sure_update (e : Encoder) :
    e.update? = some e.update ∧
      ∀ s ∈ e.update.segments, e.update.segmentBytes? s = some (e.update.segmentBytes s) := by
  obtain ⟨sure, safe⟩ := Guards.passGaps e.layout.gaps _ (safe_start e.layout e.buffer)
  have walked : e.update? = some e.update ∧ e.update.Safe := by
    rw [update?, update, sure]
    generalize (passGaps e.layout.gaps).run (start e.layout e.buffer) = answer at safe
    obtain ⟨x | _, e'⟩ := answer
    · exact ⟨rfl, safe.note x⟩
    · exact ⟨sure_checkEnd safe, safe.checkEnd⟩
  have stored := (alike_update (e := e) rfl rfl).left.stored
  refine ⟨walked.1, fun s member => ?_⟩
  have put := List.mem_reverse.mp member
  exact Segment.bytes?_inside (walked.2.held s put) (stored s put)

end Encoder

end TagWire
