import TagWire.Encoder.Basic

/-!
# What a walk is made of

A walk takes bytes, makes bytes, reports differences, and keeps in mind the last byte and a difference that
waits. What is true of these steps, and of parts one after the other, is true of whole walks.

- `Encoder.Part`: the steps, and parts that are put together.
- `Encoder.Part.passGaps`: the walk over any gaps.
-/

namespace TagWire.Encoder

/-- A part of the walk, by the steps that it is made of. -/
inductive Part : {α : Type} → Walk α → Prop
  | done {α : Type} (a : α) : Part (pure a)
  | failed {α : Type} (x : Error) : Part (throw x : Walk α)
  | bind {α β : Type} {m : Walk α} {f : α → Walk β} (first : Part m) (rest : ∀ a, Part (f a)) :
    Part (m >>= f)
  | take (n : Nat) (out : Bool) : Part (take n out)
  | emitScratch (bytes : Bytes) : Part (emitScratch bytes)
  /-- A difference is reported in a gap. -/
  | report (g : Gap) (expected received : String) :
    Part (do record (.mismatch expected received ((← get).originOf g)))
  | remember (bytes : Bytes) :
    Part (modify fun e => { e with lastByte := bytes.getLast?.getD e.lastByte })
  | defer (deferred : Option Deferred) : Part (modify fun e => { e with deferred := deferred })
  | byDeferred {α : Type} {f : Option Deferred → Walk α} (rest : ∀ deferred, Part (f deferred)) :
    Part (do f (← get).deferred)
  | byLastByte {α : Type} {f : UInt8 → Walk α} (rest : ∀ last, Part (f last)) :
    Part (do f (← get).lastByte)

namespace Part

theorem recordMismatch (g : Gap) (expected received : Word) :
    Part (Encoder.recordMismatch g expected received) :=
  report g expected.describe received.describe

theorem pass (n : Nat) (out : Bool) : Part (Encoder.pass n out) := (take n out).bind remember

theorem takeWord (out : Bool) : Part (Encoder.takeWord out) :=
  (take 4 out).bind fun bytes => done (Word.ofBytes bytes)

theorem settleDeferred (g : Gap) (length : Word) (deferred : Option Deferred) :
    Part (match deferred with
      | none => pure ()
      | some d => do
        modify fun e => { e with deferred := none }
        if length ≠ 0 then Encoder.recordMismatch g d.expected d.received) := by
  cases deferred with
  | none => exact done ()
  | some d =>
    apply (defer none).bind
    intro _
    split
    · exact recordMismatch g d.expected d.received
    · exact done ()

theorem settle (g : Gap) (length : Word) : Part (Encoder.settle g length) :=
  byDeferred (settleDeferred g length)

theorem checkLength (g : Gap) (expected : Word) : Part (Encoder.checkLength g expected) := by
  refine (takeWord false).bind fun received => (settle g received).bind fun _ => ?_
  split
  · exact report g _ _
  · exact done ()

theorem checkTag (g : Gap) (expected : Word) : Part (Encoder.checkTag g expected) := by
  apply (takeWord false).bind
  intro received
  split
  · exact done ()
  · split
    · exact defer (some ⟨expected, received⟩)
    · exact recordMismatch g expected received

theorem checkWords (g : Gap) (words : List Word) : Part (Encoder.checkWords g words) := by
  induction words using Encoder.checkWords.induct with
  | case1 => exact done ()
  | case2 tag => exact checkTag g tag
  | case3 tag next rest behind following =>
    apply (checkTag g tag).bind
    intro _
    split
    · exact (checkLength g next).bind fun _ => behind
    · exact following

theorem takeLength (g : Gap) : Part (Encoder.takeLength g) := by
  refine (takeWord true).bind fun w => (settle g w).bind fun _ => ?_
  cases w.length? with
  | some n => exact done n
  | none => exact failed _

theorem times {m : Walk Unit} (part : Part m) (n : Nat) : Part (Encoder.times m n) := by
  induction n with
  | zero => exact done ()
  | succ n ih => exact part.bind fun _ => ih

theorem passText (g : Gap) : Part (Encoder.passText g) :=
  (takeLength g).bind fun n => pass n true

theorem passNarrow : Part Encoder.passNarrow := (take 8 false).bind fun _ => emitScratch _

theorem passPadded (size wire : Nat) (signed : Bool) :
    Part (Encoder.passPadded size wire signed) :=
  (pass size true).bind fun _ =>
    byLastByte fun last => emitScratch (List.replicate (wire - size) (padByte signed [last]))

theorem passElements (g : Gap) (p : Payload) (n : Nat) : Part (Encoder.passElements g p n) := by
  unfold Encoder.passElements
  cases p.kind.size? with
  | none => exact times (passText g) n
  | some size =>
    cases p.conversion with
    | identity => exact pass (n * size) true
    | narrow => exact times passNarrow n
    | pad wire signed => exact times (passPadded size wire signed) n

theorem passPayload (g : Gap) (p : Payload) : Part (Encoder.passPayload g p) := by
  unfold Encoder.passPayload
  cases p.use with
  | skipped | saved => exact done ()
  | loaded => exact pass _ false
  | exchanged =>
    cases p.count with
    | fixed n => exact (done n).bind (passElements g p)
    | fromWire => exact (takeLength g).bind (passElements g p)

theorem passGap (g : Gap) : Part (Encoder.passGap g) := by
  apply (checkWords g g.words).bind
  intro _
  cases g.payload? with
  | none => exact done ()
  | some p => exact passPayload g p

theorem passGaps (gaps : List Gap) : Part (Encoder.passGaps gaps) := by
  induction gaps with
  | nil => exact done ()
  | cons g rest ih => exact (passGap g).bind fun _ => ih

end Part

end TagWire.Encoder
