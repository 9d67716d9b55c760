import TagWire.Proofs.Encoder.Ranges
import TagWire.Proofs.Encoder.Strict
import TagWire.Proofs.Stream.Supply

/-!
# Walking on changes nothing

An encoder walks on when something is wrong, and keeps the first error. It puts out what the strict
walk puts out, and it reports what the strict walk ends with.

- `Simulates`: a part of the walk and the part of the strict walk that it stands for.
- `Encoder.update_encodeOnce`: the whole walk.
-/

namespace TagWire

variable {α β : Type}

/-- An encoder that nothing has gone wrong with, and the tape that it stands for. -/
structure Views (l : Layout) (buffer : BlockBuffer) (e : Encoder) (t : Tape) : Prop where
  sameLayout : e.layout = l
  sameBuffer : e.buffer = buffer
  sound : e.error = none
  rest : Piece.bytesOf e.rest = t.rest
  lastByte : e.lastByte = t.lastByte
  deferred : e.deferred = t.deferred
  output : Segment.render buffer.blocks e.scratch e.latest = t.output
  inside : ∀ p ∈ e.rest, p.Inside buffer.blocks
  stored : ∀ s ∈ e.latest, s.Stored e.scratch

/-- The encoder has come to an error, which a part of the walk has kept or ends with. -/
def Fails (x : Error) : Except Error α × Encoder → Prop
  | (.ok _, e) => e.error = some x
  | (.error y, e) => e.error = some x ∨ e.error = none ∧ y = x

/-- How parts of the two walks end. -/
def Agrees (l : Layout) (buffer : BlockBuffer) (answer : Except Error α × Encoder) :
    Except Error (α × Tape) → Prop
  | .ok (a, t) => ∃ e, answer = (.ok a, e) ∧ Views l buffer e t
  | .error x => Fails x answer

/-- A part of the walk keeps an error, and does what a part of the strict walk does. -/
structure Simulates (l : Layout) (buffer : BlockBuffer) (m : Encoder.Walk α) (p : Strict α) :
    Prop where
  keeps : ∀ {e x}, e.error = some x → (m.run e).2.error = some x
  agrees : ∀ {e t}, Views l buffer e t → Agrees l buffer (m.run e) (p.run t)

namespace Strict

theorem run_bind_ok {p : Strict α} {q : α → Strict β} {t t' : Tape} {a : α}
    (h : p.run t = .ok (a, t')) :
    (p >>= q).run t = (q a).run t' := by
  change Except.bind (p.run t) (fun (a, t) => (q a).run t) = _
  rw [h]
  rfl

theorem run_bind_error {p : Strict α} {q : α → Strict β} {t : Tape} {x : Error}
    (h : p.run t = .error x) :
    (p >>= q).run t = .error x := by
  change Except.bind (p.run t) (fun (a, t) => (q a).run t) = _
  rw [h]
  rfl

theorem bind_ok {p : Strict α} {q : α → Strict β} {t t'' : Tape} {b : β}
    (h : (p >>= q).run t = .ok (b, t'')) :
    ∃ a t', p.run t = .ok (a, t') ∧ (q a).run t' = .ok (b, t'') := by
  cases first : p.run t with
  | error x =>
    rw [run_bind_error first] at h
    cases h
  | ok answer =>
    obtain ⟨a, t'⟩ := answer
    exact ⟨a, t', rfl, run_bind_ok first ▸ h⟩

end Strict

namespace Encoder

theorem run_bind_ok {m : Walk α} {f : α → Walk β} {e e' : Encoder} {a : α}
    (h : m.run e = (.ok a, e')) :
    (m >>= f).run e = (f a).run e' := Reading.run_bind_ok h

theorem run_bind_error {m : Walk α} {f : α → Walk β} {e e' : Encoder} {x : Error}
    (h : m.run e = (.error x, e')) :
    (m >>= f).run e = (.error x, e') := Reading.run_bind_error h

end Encoder

namespace Simulates

open Encoder (Walk)

variable {l : Layout} {buffer : BlockBuffer}

theorem done (a : α) : Simulates l buffer (pure a) (pure a) where
  keeps h := h
  agrees views := ⟨_, rfl, views⟩

theorem failed (x : Error) : Simulates l buffer (throw x : Walk α) (throw x) where
  keeps h := h
  agrees views := .inr ⟨views.sound, rfl⟩

theorem bind {m : Walk α} {p : Strict α} {f : α → Walk β} {q : α → Strict β}
    (first : Simulates l buffer m p) (rest : ∀ a, Simulates l buffer (f a) (q a)) :
    Simulates l buffer (m >>= f) (p >>= q) where
  keeps {e x} h := by
    have kept := first.keeps h
    generalize hm : m.run e = answer at kept
    obtain ⟨_ | a, e'⟩ := answer
    · rwa [Encoder.run_bind_error hm]
    · rw [Encoder.run_bind_ok hm]
      exact (rest a).keeps kept
  agrees {e t} views := by
    have agrees := first.agrees views
    cases hp : p.run t with
    | ok answer =>
      obtain ⟨a, t'⟩ := answer
      rw [hp] at agrees
      obtain ⟨e', hm, views'⟩ := agrees
      rw [Encoder.run_bind_ok hm, Strict.run_bind_ok hp]
      exact (rest a).agrees views'
    | error x =>
      rw [hp] at agrees
      rw [Strict.run_bind_error hp]
      generalize hm : m.run e = answer at agrees
      obtain ⟨y | a, e'⟩ := answer
      · rw [Encoder.run_bind_error hm]
        exact agrees
      · rw [Encoder.run_bind_ok hm]
        have kept : ((f a).run e').2.error = some x := (rest a).keeps agrees
        generalize (f a).run e' = answer at kept
        obtain ⟨_ | _, e''⟩ := answer
        · exact .inl kept
        · exact kept

/-- Parts of the walks that depend on something that the encoder and the tape have in common. -/
theorem look {γ : Type} {read : Encoder → γ} {read' : Tape → γ} {f : γ → Walk α}
    {q : γ → Strict α} (same : ∀ {e t}, Views l buffer e t → read e = read' t)
    (rest : ∀ c, Simulates l buffer (f c) (q c)) :
    Simulates l buffer (do f (read (← get))) (do q (read' (← get))) where
  keeps {e x} h := (rest (read e)).keeps h
  agrees {e t} views := by
    change Agrees l buffer ((f (read e)).run e) ((q (read' t)).run t)
    rw [← same views]
    exact (rest (read e)).agrees views

theorem record (x : Error) : Simulates l buffer (Encoder.record x) (throw x) where
  keeps {e y} h := by
    change (Encoder.note x e).error = some y
    simp only [Encoder.note, h]
    rfl
  agrees {e t} views := by
    change (Encoder.note x e).error = some x
    simp only [Encoder.note, views.sound]
    rfl

theorem origin {g : Gap} {f : String → Walk α} {q : Strict α}
    (rest : Simulates l buffer (f (l.originOf g)) q)
    (keeps : ∀ origin e x, e.error = some x → ((f origin).run e).2.error = some x) :
    Simulates l buffer (do f ((← get).originOf g)) q where
  keeps {e x} h := keeps (e.originOf g) e x h
  agrees {e t} views := by
    have same : e.originOf g = l.originOf g := by
      rw [Encoder.originOf, views.sameLayout, Layout.originOf]
    change Agrees l buffer ((f (e.originOf g)).run e) (q.run t)
    rw [same]
    exact rest.agrees views

theorem recordMismatch (g : Gap) (expected received : Word) :
    Simulates l buffer (Encoder.recordMismatch g expected received)
      (throw (.tagMismatch expected received (l.originOf g))) :=
  origin (record _) fun _ _ _ h => (@record l buffer _).keeps h

/-- The encoder with pieces put out. -/
def put (pieces : List Piece) (e : Encoder) : Encoder :=
  { e with
    latest := pieces.foldl
      (fun latest p => (Segment.source p.block p.start p.bytes.length).push latest) e.latest }

theorem put_views {e : Encoder} {t : Tape} (views : Views l buffer e t) {pieces : List Piece}
    (inside : ∀ p ∈ pieces, p.Inside buffer.blocks) :
    Views l buffer (put pieces e) { t with output := t.output ++ Piece.bytesOf pieces } := by
  induction pieces generalizing e t with
  | nil => simpa [put, Piece.bytesOf] using views
  | cons p rest ih =>
    have p_bytes : (Segment.source p.block p.start p.bytes.length).bytes buffer.blocks e.scratch =
      p.bytes :=
      inside p List.mem_cons_self
    have first : Views l buffer
        { e with latest := (Segment.source p.block p.start p.bytes.length).push e.latest }
        { t with output := t.output ++ p.bytes } := {
      views with
      output := by rw [Segment.render_push, p_bytes, views.output]
      stored := Segment.stored_push trivial views.stored }
    have further := ih first fun p member => inside p (List.mem_cons_of_mem _ member)
    rw [List.append_assoc] at further
    exact further

theorem run_take (n : Nat) (out : Bool) (e : Encoder) :
    (Encoder.take n out).run e =
      let split := Piece.split n e.rest
      let e := if out then put split.taken { e with rest := split.rest }
        else { e with rest := split.rest }
      if 0 < split.missing then (.error (.exhausted "buffered message" split.missing), e)
      else (.ok (Piece.bytesOf split.taken), e) := by
  have run : (Encoder.take n out).run e =
      (if 0 < (Piece.split n e.rest).missing then
        throw (.exhausted "buffered message" (Piece.split n e.rest).missing)
        else pure (Piece.bytesOf (Piece.split n e.rest).taken) : Walk Bytes).run
        (if out then put (Piece.split n e.rest).taken { e with rest := (Piece.split n e.rest).rest }
          else { e with rest := (Piece.split n e.rest).rest }) := by
    cases out <;> rfl
  rw [run]
  dsimp only
  split <;> rfl

theorem take (n : Nat) (out : Bool) :
    Simulates l buffer (Encoder.take n out) (Strict.take n out) where
  keeps {e x} h := by
    rw [run_take]
    cases out <;> dsimp only <;> split <;> exact h
  agrees {e t} views := by
    have inside := Piece.split_inside views.inside n
    have taken := Piece.bytesOf_taken n e.rest
    have rest := Piece.bytesOf_rest n e.rest
    have missing := Piece.split_missing n e.rest
    rw [views.rest] at taken rest missing
    let e₁ := { e with rest := (Piece.split n e.rest).rest }
    let t₁ := { t with rest := t.rest.drop n }
    have moved : Views l buffer e₁ t₁ := { views with rest := rest, inside := inside.2 }
    have views' : Views l buffer (if out then put (Piece.split n e.rest).taken e₁ else e₁)
        { t₁ with output := t.output ++ if out then t.rest.take n else [] } := by
      cases out with
      | true =>
        have out_views := put_views moved inside.1
        rw [taken] at out_views
        exact out_views
      | false => simpa using moved
    rw [run_take]
    change Agrees l buffer _ (if n ≤ t.rest.length then _ else _)
    by_cases enough : n ≤ t.rest.length
    · rw [if_pos enough, if_neg (by omega), taken]
      exact ⟨_, rfl, views'⟩
    · rw [if_neg enough, if_pos (by omega), missing]
      exact .inr ⟨views'.sound, rfl⟩

theorem emit (bytes : Bytes) :
    Simulates l buffer (Encoder.emitScratch bytes) (Strict.emit bytes) where
  keeps {e x} h := by
    unfold Encoder.emitScratch
    split <;> exact h
  agrees {e t} views := by
    unfold Encoder.emitScratch
    split
    · rename_i empty
      subst empty
      exact ⟨e, rfl, { views with output := by simpa using views.output }⟩
    · refine ⟨_, rfl, { views with output := ?_, stored := ?_ }⟩
      · have made : (Segment.scratch e.scratch.length bytes.length).bytes buffer.blocks
            (e.scratch ++ bytes) = bytes := by
          simp [Segment.bytes]
        dsimp only
        rw [Segment.render_push, made, Segment.render_scratch views.stored, views.output]
      · refine Segment.stored_push ?_ fun s member => (views.stored s member).append bytes
        simp [Segment.Stored]

theorem pass (n : Nat) (out : Bool) : Simulates l buffer (Encoder.pass n out) (Strict.pass n out) :=
  (take n out).bind fun bytes => {
    keeps := fun h => h
    agrees := fun {e t} views => by
      refine ⟨_, rfl, { views with lastByte := ?_ }⟩
      dsimp only
      rw [views.lastByte] }

theorem takeWord (out : Bool) : Simulates l buffer (Encoder.takeWord out) (Strict.takeWord out) :=
  (take 4 out).bind fun bytes => done (Word.ofBytes bytes)

theorem settleDeferred (g : Gap) (length : Word) (deferred : Option Deferred) :
    Simulates l buffer
      (match deferred with
        | none => pure ()
        | some d => do
          modify fun e => { e with deferred := none }
          if length ≠ 0 then Encoder.recordMismatch g d.expected d.received)
      (match deferred with
        | none => pure ()
        | some d => do
          Strict.clear
          if length ≠ 0 then throw (.tagMismatch d.expected d.received (l.originOf g))) := by
  cases deferred with
  | none => exact done ()
  | some d =>
    have clear : Simulates l buffer (modify fun e => { e with deferred := none }) Strict.clear := {
      keeps := fun h => h
      agrees := fun {e t} views => ⟨_, rfl, { views with deferred := rfl }⟩ }
    apply clear.bind
    intro _
    split
    · exact recordMismatch g d.expected d.received
    · exact done ()

theorem settle (g : Gap) (length : Word) :
    Simulates l buffer (Encoder.settle g length) (Strict.settle (l.originOf g) length) :=
  look (fun views => views.deferred) (settleDeferred g length)

theorem checkLength (g : Gap) (expected : Word) :
    Simulates l buffer (Encoder.checkLength g expected)
      (Strict.checkLength (l.originOf g) expected) := by
  refine (takeWord false).bind fun received => (settle g received).bind fun _ => ?_
  by_cases differs : expected ≠ received
  · rw [if_pos differs, if_pos differs]
    exact origin (record _) fun _ _ _ h => (@record l buffer _).keeps h
  · rw [if_neg differs, if_neg differs]
    exact done ()

theorem checkTag (g : Gap) (expected : Word) :
    Simulates l buffer (Encoder.checkTag g expected) (Strict.checkTag (l.originOf g) expected) := by
  apply (takeWord false).bind
  intro received
  split
  · exact done ()
  · split
    · exact {
        keeps := fun h => h
        agrees := fun {e t} views => ⟨_, rfl, { views with deferred := rfl }⟩ }
    · exact recordMismatch g expected received

theorem checkWords (g : Gap) (words : List Word) :
    Simulates l buffer (Encoder.checkWords g words) (Strict.checkWords (l.originOf g) words) := by
  induction words using Encoder.checkWords.induct with
  | case1 => exact done ()
  | case2 tag => exact checkTag g tag
  | case3 tag next rest behind following =>
    apply (checkTag g tag).bind
    intro _
    split
    · exact (checkLength g next).bind fun _ => behind
    · exact following

theorem takeLength (g : Gap) :
    Simulates l buffer (Encoder.takeLength g) (Strict.takeLength (l.originOf g) g) := by
  refine (takeWord true).bind fun w => (settle g w).bind fun _ => ?_
  cases w.length? with
  | some n => exact done n
  | none => exact failed _

theorem times {m : Walk Unit} {p : Strict Unit} (part : Simulates l buffer m p) (n : Nat) :
    Simulates l buffer (Encoder.times m n) (Strict.times p n) := by
  induction n with
  | zero => exact done ()
  | succ n ih => exact part.bind fun _ => ih

theorem passText (g : Gap) :
    Simulates l buffer (Encoder.passText g) (Strict.passText (l.originOf g) g) :=
  (takeLength g).bind fun n => pass n true

theorem passNarrow : Simulates l buffer Encoder.passNarrow Strict.passNarrow :=
  (take 8 false).bind fun _ => emit _

theorem passPadded (size wire : Nat) (signed : Bool) :
    Simulates l buffer (Encoder.passPadded size wire signed)
      (Strict.passPadded size wire signed) := by
  have filled (last : UInt8) : Simulates l buffer
      (Encoder.emitScratch (List.replicate (wire - size) (padByte signed [last])))
      (Strict.emit (List.replicate (wire - size) (padByte signed [last]))) := emit _
  have looked := look (fun views => views.lastByte) filled
  exact (pass size true).bind fun _ => looked

theorem passElements (g : Gap) (p : Payload) (n : Nat) :
    Simulates l buffer (Encoder.passElements g p n) (Strict.passElements (l.originOf g) g p n) := by
  unfold Encoder.passElements Strict.passElements
  cases p.kind.size? with
  | none => exact times (passText g) n
  | some size =>
    cases p.conversion with
    | identity => exact pass (n * size) true
    | narrow => exact times passNarrow n
    | pad wire signed => exact times (passPadded size wire signed) n

theorem passPayload (g : Gap) (p : Payload) :
    Simulates l buffer (Encoder.passPayload g p) (Strict.passPayload (l.originOf g) g p) := by
  unfold Encoder.passPayload Strict.passPayload
  cases p.use with
  | skipped | saved => exact done ()
  | loaded => exact pass _ false
  | exchanged =>
    cases p.count with
    | fixed n => exact (done n).bind (passElements g p)
    | fromWire => exact (takeLength g).bind (passElements g p)

theorem passGap (g : Gap) : Simulates l buffer (Encoder.passGap g) (Strict.passGap l g) := by
  apply (checkWords g g.words).bind
  intro _
  cases g.payload? with
  | none => exact done ()
  | some p => exact passPayload g p

theorem passGaps (gaps : List Gap) :
    Simulates l buffer (Encoder.passGaps gaps) (Strict.passGaps l gaps) := by
  induction gaps with
  | nil => exact done ()
  | cons g rest ih => exact (passGap g).bind fun _ => ih

end Simulates

namespace Encoder

theorem views_start (l : Layout) (buffer : BlockBuffer) :
    Views l buffer (start l buffer) { rest := buffer.payload } where
  sameLayout := rfl
  sameBuffer := rfl
  sound := rfl
  rest := Piece.bytesOf_ofBuffer buffer
  lastByte := rfl
  deferred := rfl
  output := rfl
  inside := Piece.inside_ofBuffer buffer
  stored _ member := absurd member List.not_mem_nil

/-- An encoder ends with the error that the strict walk ends with, and otherwise puts out what that
walk puts out. -/
theorem update_encodeOnce (e : Encoder) :
    match e.layout.encodeOnce e.buffer.payload with
    | .ok bytes => e.update.error = none ∧ e.update.output = bytes
    | .error x => e.update.error = some x := by
  have agrees := (Simulates.passGaps e.layout.gaps).agrees (views_start e.layout e.buffer)
  unfold update Layout.encodeOnce
  cases walked : (Strict.passGaps e.layout e.layout.gaps).run { rest := e.buffer.payload } with
  | error x =>
    rw [walked] at agrees
    generalize (passGaps e.layout.gaps).run (start e.layout e.buffer) = answer at agrees
    obtain ⟨y | _, e'⟩ := answer
    · rcases agrees with kept | ⟨sound, rfl⟩
      · simp [note, kept]
      · simp [note, sound]
    · have kept : e'.error = some x := agrees
      simp [checkEnd, kept]
  | ok answer =>
    obtain ⟨_, t⟩ := answer
    rw [walked] at agrees
    obtain ⟨e', walked', views⟩ := agrees
    rw [walked']
    have left : e'.left = t.rest.length := by rw [Encoder.left, views.rest]
    have output : e'.output = t.output := by
      rw [← views.output, ← views.sameBuffer]
      rfl
    by_cases ended : t.rest = []
    · simp [ended, checkEnd, left, views.sound, output]
    · have some_left : 0 < t.rest.length := List.length_pos_iff.mpr ended
      simp [ended, checkEnd, left, views.sound, some_left, note, views.sameLayout]

/-- What an encoder that accepts its message puts out is what the strict walk puts out. -/
theorem encodeOnce_of_ok {e : Encoder} (accepted : e.update.isOk = true) :
    e.layout.encodeOnce e.buffer.payload = .ok e.update.output := by
  have sound : e.update.error = none := Option.isNone_iff_eq_none.mp accepted
  have update := e.update_encodeOnce
  cases walked : e.layout.encodeOnce e.buffer.payload with
  | error x =>
    rw [walked] at update
    cases sound.symm.trans update
  | ok bytes =>
    rw [walked] at update
    rw [update.2]

/-- The answer that is drawn from an encoder is that of the strict walk. -/
theorem answer_encodeOnce (e : Encoder) :
    (match e.update.error with
      | some x => throw x
      | none => return e.update.output : Except Error Bytes) =
        e.layout.encodeOnce e.buffer.payload := by
  have update := e.update_encodeOnce
  cases walked : e.layout.encodeOnce e.buffer.payload with
  | error x =>
    rw [walked] at update
    rw [show e.update.error = some x from update]
    rfl
  | ok bytes =>
    rw [walked] at update
    obtain ⟨sound, rfl⟩ := update
    rw [sound]
    rfl

end Encoder

end TagWire
