import TagWire.Decoder.Basic
import TagWire.Proofs.Tagged.Reading

/-!
# Histories of a decoder

What can be done with a decoder, in any order. A decoder that has failed and one that has come to
its end answer the same ever after, without a look at their source, and starting over forgets all
that has happened.

- `Decoder.Op`, `Decoder.performAll`: what is asked of a decoder, and what it answers.
- `Decoder.requested`, `Decoder.finished`: what a request leaves of a decoder, and working off the
  rest.
- `Decoder.Relays`: a reading that ends with the failure of the decoder that it reads from.
- `Decoder.performAll_stays`: answers that stay the same.
- `Decoder.after_settled`: how a decoder answers after any history.
-/

namespace TagWire.Decoder

open Tagged (readMessage)

variable {σ α β : Type}

/-- What can be asked of a decoder. -/
inductive Op where
  | read (n : Nat)
  | readValue
  | finish
  | put (name : String) (value : Property)
  | reset
  deriving DecidableEq, Repr

/-- What a decoder answers. -/
inductive Answer where
  | bytes (answer : Except Error Bytes)
  | value (answer : Except Error Value)
  | ended (answer : Except Error Unit)
  | done
  deriving Repr

/-- The answer of a decoder that has failed. -/
def Op.refused (e : Error) : Op → Answer
  | .read _ => .bytes (.error e)
  | .readValue => .value (.error e)
  | .finish => .ended (.error e)
  | .put .. | .reset => .done

/-- The answer of a decoder that has delivered all of its layout. -/
def Op.idle : Op → Answer
  | .read _ => .bytes (.ok [])
  | .readValue => .value (.error (.exhausted "top-level tag" 0))
  | .finish => .ended (.ok ())
  | .put .. | .reset => .done

/-- A decoder of a layout, which has something left to do if it has failed. -/
structure Valid (layout : Layout) (d : Decoder σ) : Prop where
  same : d.layout = layout
  unfinished : ∀ {e}, d.failed = some e → d.agenda ≠ []

/-- A decoder that has nothing left to do or to deliver. -/
structure Idle (d : Decoder σ) : Prop where
  agenda : d.agenda = []
  staged : d.staged = []
  alive : d.failed = none

theorem Valid.idle {layout : Layout} {d : Decoder σ} (valid : d.Valid layout)
    (finished : d.isFinished = true) : d.Idle := by
  obtain ⟨agenda, staged⟩ := Bool.and_eq_true_iff.mp finished
  have none_left := List.isEmpty_iff.mp agenda
  exact ⟨none_left, List.isEmpty_iff.mp staged,
    Option.eq_none_iff_forall_ne_some.mpr fun e failed => valid.unfinished failed none_left⟩

theorem Idle.isFinished {d : Decoder σ} (idle : d.Idle) : d.isFinished = true := by
  rw [Decoder.isFinished, idle.agenda, idle.staged]
  rfl

/-- A reading from a decoder that keeps what is sure of it and ends with the failure of the decoder,
if that fails. -/
def Relays (P : Decoder σ → Prop) (m : Reading (Decoder σ) α) : Prop :=
  ∀ d, P d → d.failed = none →
    P (m.run d).2 ∧ ∀ e, (m.run d).2.failed = some e → (m.run d).1 = .error e

namespace Relays

variable {P : Decoder σ → Prop}

theorem done (a : α) : Relays P (pure a) := fun d sure alive =>
  ⟨sure, fun e failed => by cases alive.symm.trans failed⟩

theorem failed (e : Error) : Relays P (throw e : Reading (Decoder σ) α) := fun d sure alive =>
  ⟨sure, fun e failed => by cases alive.symm.trans failed⟩

theorem bind {m : Reading (Decoder σ) α} {f : α → Reading (Decoder σ) β} (first : Relays P m)
    (second : ∀ a, Relays P (f a)) : Relays P (m >>= f) := by
  intro d sure alive
  obtain ⟨kept, relayed⟩ := first d sure alive
  generalize run : m.run d = answer at kept relayed
  obtain ⟨e | a, d'⟩ := answer
  · rw [Reading.run_bind_error run]
    exact ⟨kept, fun e' failed => congrArg Except.error (Except.error.inj (relayed e' failed))⟩
  · rw [Reading.run_bind_ok run]
    have alive' : d'.failed = none :=
      Option.eq_none_iff_forall_ne_some.mpr fun e failed => by cases relayed e failed
    exact second a d' kept alive'

end Relays

variable [ByteStream σ]

def perform (d : Decoder σ) : Op → Answer × Decoder σ
  | .read n => (.bytes (d.read n).1, (d.read n).2)
  | .readValue => (.value d.readValue.1, d.readValue.2)
  | .finish => (.ended d.finish.1, d.finish.2)
  | .put name value => (.done, d.put name value)
  | .reset => (.done, d.reset)

def performAll (d : Decoder σ) : List Op → List Answer × Decoder σ
  | [] => ([], d)
  | op :: rest =>
    (((d.perform op).1 :: ((d.perform op).2.performAll rest).1),
      ((d.perform op).2.performAll rest).2)

/-- A decoder with a history. -/
def after (layout : Layout) (source : σ) (history : List Op) : Decoder σ :=
  ((start layout source).performAll history).2

theorem advance_nonempty {want : Nat} {agenda left : List Task} {c c' : Channel σ} {e : Error}
    (failed : Task.advance want agenda c = (.error e, left, c')) : left ≠ [] := by
  induction agenda generalizing c with
  | nil => cases failed
  | cons t rest ih =>
    rw [Task.advance] at failed
    split at failed
    · cases failed
      exact List.cons_ne_nil _ _
    · exact ih failed
    · cases failed

/-- A request fails just where the decoder has failed. -/
theorem read_fails (d : Decoder σ) (n : Nat) (e : Error) :
    (d.read n).2.failed = some e ↔ (d.read n).1 = .error e := by
  rw [read]
  cases failed : d.failed with
  | some e' => simp [failed]
  | none =>
    dsimp only
    split
    · simp [failed]
    split
    · simp
    generalize Task.advance n d.agenda d.channel = answer
    obtain ⟨e' | bytes, agenda, channel⟩ := answer <;> simp

/-- What a request can leave of a decoder. -/
inductive Requested (d : Decoder σ) (n : Nat) : Decoder σ → Prop
  | idle : Requested d n d
  | delivered (alive : d.failed = none) (staged : Bytes) :
      Requested d n { d with staged, failed := none }
  | stopped {e agenda channel} (alive : d.failed = none) (positive : 0 < n)
      (advanced : Task.advance n d.agenda d.channel = (.error e, agenda, channel)) :
      Requested d n { d with agenda, channel, failed := some e }
  | further {bytes agenda channel} (alive : d.failed = none) (positive : 0 < n)
      (advanced : Task.advance n d.agenda d.channel = (.ok bytes, agenda, channel))
      (staged : Bytes) : Requested d n { d with agenda, channel, staged, failed := none }

theorem requested (d : Decoder σ) (n : Nat) : d.Requested n (d.read n).2 := by
  rw [read]
  cases alive : d.failed with
  | some e => exact .idle
  | none =>
    dsimp only
    split
    · exact .idle
    split
    · exact .delivered alive _
    rename_i some_asked _
    have positive := Nat.pos_of_ne_zero some_asked
    generalize advanced : Task.advance n d.agenda d.channel = answer
    obtain ⟨e | bytes, agenda, channel⟩ := answer
    · exact .stopped alive positive advanced
    · exact .further alive positive advanced _

/-- What working off the rest can leave of a decoder. -/
inductive Finished (d : Decoder σ) : Decoder σ → Prop
  | idle : Finished d d
  | stopped {e channel} (alive : d.failed = none)
      (ran : (Task.runAll d.agenda).run d.channel = (.error e, channel)) :
      Finished d { d with channel, staged := [], failed := some e }
  | done {bytes channel} (alive : d.failed = none)
      (ran : (Task.runAll d.agenda).run d.channel = (.ok bytes, channel)) :
      Finished d { d with channel, agenda := [], staged := [], failed := none }

theorem finished (d : Decoder σ) : d.Finished d.finish.2 := by
  rw [finish]
  cases alive : d.failed with
  | some e => exact .idle
  | none =>
    dsimp only
    generalize ran : (Task.runAll d.agenda).run d.channel = answer
    obtain ⟨e | bytes, channel⟩ := answer
    · exact .stopped alive ran
    · dsimp only
      split <;> exact .done alive ran

/-- Requests keep what is sure of a decoder. -/
def Lasts (P : Decoder σ → Prop) : Prop := ∀ d, P d → ∀ n, P (d.read n).2

theorem lasts_valid (layout : Layout) : Lasts (Valid layout : Decoder σ → Prop) := by
  intro d valid n
  have left := requested d n
  generalize (d.read n).2 = d' at left
  cases left with
  | idle => exact valid
  | delivered => exact ⟨valid.same, fun failed => by cases failed⟩
  | stopped _ _ advanced => exact ⟨valid.same, fun _ => advance_nonempty advanced⟩
  | further => exact ⟨valid.same, fun failed => by cases failed⟩

/-- A request to a decoder is never made again. -/
theorem request_eq (d : Decoder σ) (n : Nat) :
    Reading.request d n = ((d.read n).1.mapError .carried, (d.read n).2) := by
  apply Reading.request_answered
  simp only [ByteStream.read]
  generalize d.read n = answer
  obtain ⟨e | bytes, d'⟩ := answer <;> rfl

/-- The end of a request to the stream of a decoder, with its failure if it has failed. -/
def Reported (P : Decoder σ → Prop) (answer : Except ReadError Bytes × Decoder σ) : Prop :=
  P answer.2 ∧ ∀ e, answer.2.failed = some e → answer.1 = .error (.carried e)

section
variable {P : Decoder σ → Prop} (lasts : Lasts P) {d : Decoder σ}
include lasts

theorem reported_request (sure : P d) (n : Nat) : Reported P (Reading.request d n) := by
  have kept := lasts d sure n
  have fails := read_fails d n
  rw [request_eq]
  generalize d.read n = answer at kept fails
  obtain ⟨e | bytes, d'⟩ := answer
  · exact ⟨kept, fun e' failed => by cases (fails e').mp failed; rfl⟩
  · exact ⟨kept, fun e failed => by cases (fails e).mp failed⟩

theorem reported_gather (sure : P d) (alive : d.failed = none) (n : Nat) :
    Reported P (Reading.gather n d) := by
  induction n using Nat.strongRecOn generalizing d with
  | ind n ih =>
    rw [Reading.gather]
    split
    · exact ⟨sure, fun e failed => by cases alive.symm.trans failed⟩
    have reported := reported_request lasts sure n
    generalize Reading.request d n = answer at reported
    obtain ⟨e | _ | ⟨b, bytes⟩, d'⟩ := answer
    · exact reported
    · exact reported
    · have alive' : d'.failed = none :=
        Option.eq_none_iff_forall_ne_some.mpr fun e failed => by cases reported.2 e failed
      have further := ih (n - 1 - bytes.length) (by omega) reported.1 alive'
      dsimp only
      generalize Reading.gather (n - 1 - bytes.length) d' = answer at further
      obtain ⟨e | more, d''⟩ := answer
      · exact further
      · exact ⟨further.1, fun e failed => by cases further.2 e failed⟩

end

namespace Relays

variable {P : Decoder σ → Prop} (lasts : Lasts P)
include lasts

theorem upTo (context : String) (n : Nat) :
    Relays P (Reading.upTo context n) := by
  intro d sure alive
  have reported := reported_gather lasts sure alive n
  generalize gathered : Reading.gather n d = answer at reported
  obtain ⟨e | bytes, d'⟩ := answer
  · rw [Reading.run_upTo_error gathered context]
    exact ⟨reported.1, fun e' failed => by cases reported.2 e' failed; rfl⟩
  · rw [Reading.run_upTo_ok gathered context]
    exact ⟨reported.1, fun e failed => by cases reported.2 e failed⟩

theorem partwise : Partwise fun _ m (_ : Reading Bytes _) => Relays P m where
  done := done
  failed _ := failed _
  bind := bind
  demand context n missing := by
    refine (upTo lasts context n).bind fun bytes => ?_
    split
    · exact failed _
    · exact done bytes

/-- A message is read from a decoder as long as that does not fail. -/
theorem readMessage : Relays P (Tagged.readMessage : Reading (Decoder σ) Value) :=
  (partwise lasts).readMessage

end Relays

section
variable {layout : Layout} {d : Decoder σ}

theorem finish_fails (d : Decoder σ) {e : Error} (failed : d.finish.2.failed = some e) :
    d.finish.1 = .error e := by
  rw [finish] at failed ⊢
  cases before : d.failed with
  | some e =>
    rw [before] at failed
    cases before.symm.trans failed
    rfl
  | none =>
    rw [before] at failed
    dsimp only at failed ⊢
    generalize (Task.runAll d.agenda).run d.channel = answer at failed ⊢
    obtain ⟨e | bytes, channel⟩ := answer
    · cases failed
      rfl
    · dsimp only at failed
      split at failed <;> cases failed

theorem finish_valid (valid : d.Valid layout) : d.finish.2.Valid layout := by
  have left := finished d
  generalize d.finish.2 = d' at left
  cases left with
  | idle => exact valid
  | stopped _ ran =>
    refine ⟨valid.same, fun _ none_left => ?_⟩
    rw [show d.agenda = [] from none_left] at ran
    cases ran
  | done => exact ⟨valid.same, fun failed => by cases failed⟩

theorem read_refused {e : Error} (failed : d.failed = some e) (n : Nat) :
    d.read n = (.error e, d) := by
  rw [read, failed]

theorem finish_refused {e : Error} (failed : d.failed = some e) : d.finish = (.error e, d) := by
  rw [finish, failed]

/-- The first word of a message is asked for in vain. -/
theorem readMessage_refused {e : Error} (failed : d.failed = some e) :
    (readMessage : Reading (Decoder σ) Value).run d = (.error e, d) := by
  have asked : Reading.request d 4 = (.error (.carried e), d) := by
    rw [request_eq, read_refused failed]
    rfl
  have gathered : Reading.gather 4 d = (.error (.carried e), d) := by
    rw [Reading.gather, asked]
    rfl
  exact Reading.run_bind_error (Reading.run_bind_error
    (Reading.run_bind_error (Reading.run_upTo_error gathered _)))

theorem readValue_refused {e : Error} (failed : d.failed = some e) :
    d.readValue = (.error e, d) := by
  rw [readValue, readMessage_refused failed]
  dsimp only
  rw [failed]

/-- Reading a value keeps what requests and working off the rest keep. It ends with the failure of
the decoder, if that has failed before or fails on the way. -/
theorem readValue_keeps {P : Decoder σ → Prop} (lasts : Lasts P) (ends : ∀ d, P d → P d.finish.2)
    (sure : P d) :
    P d.readValue.2 ∧ ∀ e, d.readValue.2.failed = some e → d.readValue.1 = .error e := by
  cases failed : d.failed with
  | some e =>
    rw [readValue_refused failed]
    exact ⟨sure, fun e' failed' => by cases failed.symm.trans failed'; rfl⟩
  | none =>
    obtain ⟨kept, relayed⟩ := Relays.readMessage lasts d sure failed
    rw [readValue]
    generalize (readMessage : Reading (Decoder σ) Value).run d = answer at kept relayed
    obtain ⟨x | v, d'⟩ := answer
    · dsimp only at kept relayed ⊢
      cases failed' : d'.failed with
      | some e => exact ⟨kept, fun e' failed'' => by cases failed'.symm.trans failed''; rfl⟩
      | none => exact ⟨kept, fun e' failed'' => by cases failed'.symm.trans failed''⟩
    · have alive : d'.failed = none :=
        Option.eq_none_iff_forall_ne_some.mpr fun e failed => by cases relayed e failed
      have kept' := ends d' kept
      have reported := @finish_fails _ _ d'
      dsimp only
      rw [alive]
      dsimp only
      generalize d'.finish = answer at kept' reported
      obtain ⟨e | _, d''⟩ := answer
      · exact ⟨kept', fun e' failed => congrArg Except.error (Except.error.inj (reported failed))⟩
      · exact ⟨kept', fun e failed => by cases reported failed⟩

theorem readValue_valid (valid : d.Valid layout) :
    d.readValue.2.Valid layout ∧ ∀ e, d.readValue.2.failed = some e → d.readValue.1 = .error e :=
  readValue_keeps (lasts_valid layout) (fun _ => finish_valid) valid

theorem Idle.read (idle : d.Idle) (n : Nat) : d.read n = (.ok [], d) := by
  obtain ⟨layout, channel, agenda, staged, failed⟩ := d
  obtain ⟨rfl, rfl, rfl⟩ := idle
  rw [Decoder.read]
  split
  · cases ‹none = some _›
  · split
    · rfl
    · simp [Task.advance]

theorem Idle.finish (idle : d.Idle) : d.finish = (.ok (), d) := by
  obtain ⟨layout, channel, agenda, staged, failed⟩ := d
  obtain ⟨rfl, rfl, rfl⟩ := idle
  rfl

theorem Idle.readValue (idle : d.Idle) :
    d.readValue = (.error (.exhausted "top-level tag" 0), d) := by
  have asked : Reading.request d 4 = (.ok [], d) := by
    rw [request_eq, idle.read]
    rfl
  have gathered : Reading.gather 4 d = (.ok [], d) := by
    rw [Reading.gather, asked]
    rfl
  have message : (readMessage : Reading (Decoder σ) Value).run d =
      (.error (.exhausted "top-level tag" 0), d) :=
    Reading.run_bind_error (Reading.run_bind_error
      ((Reading.run_bind_ok (Reading.run_upTo_ok gathered _)).trans rfl))
  rw [Decoder.readValue, message]
  dsimp only
  rw [idle.alive]

theorem perform_valid (valid : d.Valid layout) (op : Op) : (d.perform op).2.Valid layout := by
  cases op with
  | read n => exact lasts_valid layout d valid n
  | readValue => exact (readValue_valid valid).1
  | finish => exact finish_valid valid
  | put name value => exact ⟨valid.same, valid.unfinished⟩
  | reset => exact ⟨valid.same, nofun⟩

theorem performAll_valid (valid : d.Valid layout) (ops : List Op) :
    (d.performAll ops).2.Valid layout := by
  induction ops generalizing d with
  | nil => exact valid
  | cons op rest ih => exact ih (perform_valid valid op)

theorem valid_after (layout : Layout) (source : σ) (history : List Op) :
    (after layout source history).Valid layout :=
  performAll_valid (d := start layout source) ⟨rfl, nofun⟩ history

/-- Answers stay the same as long as nothing but starting over leads out of what they follow from.
-/
theorem performAll_stays {P : Decoder σ → Prop} {reply : Op → Answer}
    (step : ∀ d, P d → ∀ op ≠ .reset, (d.perform op).1 = reply op ∧ P (d.perform op).2 ∧
      (d.perform op).2.source = d.source)
    (holds : P d) {ops : List Op} (onward : .reset ∉ ops) :
    (d.performAll ops).1 = ops.map reply ∧ P (d.performAll ops).2 ∧
      (d.performAll ops).2.source = d.source := by
  induction ops generalizing d with
  | nil => exact ⟨rfl, holds, rfl⟩
  | cons op rest ih =>
    obtain ⟨first, last⟩ := not_or.mp (mt List.mem_cons.mpr onward)
    obtain ⟨answer, holds', source⟩ := step d holds op (Ne.symm first)
    obtain ⟨answers, holds'', source'⟩ := ih holds' last
    exact ⟨List.cons_eq_cons.mpr ⟨answer, answers⟩, holds'', source'.trans source⟩

theorem perform_refused {e : Error} (failed : d.failed = some e) (op : Op) (onward : op ≠ .reset) :
    (d.perform op).1 = op.refused e ∧ (d.perform op).2.failed = some e ∧
      (d.perform op).2.source = d.source := by
  cases op with
  | read n => simp [perform, read_refused failed, Op.refused, failed]
  | readValue => simp [perform, readValue_refused failed, Op.refused, failed]
  | finish => simp [perform, finish_refused failed, Op.refused, failed]
  | put name value => exact ⟨rfl, failed, rfl⟩
  | reset => exact absurd rfl onward

theorem perform_idle (idle : d.Idle) (op : Op) (onward : op ≠ .reset) :
    (d.perform op).1 = op.idle ∧ (d.perform op).2.Idle ∧ (d.perform op).2.source = d.source := by
  cases op with
  | read n => simp [perform, idle.read, Op.idle, idle]
  | readValue => simp [perform, idle.readValue, Op.idle, idle]
  | finish => simp [perform, idle.finish, Op.idle, idle]
  | put name value => exact ⟨rfl, ⟨idle.agenda, idle.staged, idle.alive⟩, rfl⟩
  | reset => exact absurd rfl onward

/-- What has happened to a decoder settles how it goes on. Where a request fails, where a value is
read or where the rest is worked off, the decoder fails with the error that is answered. A decoder
that has failed answers everything with this error, one that has delivered all of its layout
delivers nothing more, and both leave their source alone, until they are started over. Then a
decoder answers like a new one over what is left of its source. -/
theorem after_settled (layout : Layout) (source : σ) (history : List Op) :
    (∀ n e, ((after layout source history).read n).2.failed = some e ↔
      ((after layout source history).read n).1 = .error e) ∧
    (∀ e, (after layout source history).readValue.2.failed = some e →
      (after layout source history).readValue.1 = .error e) ∧
    (∀ e, (after layout source history).finish.2.failed = some e →
      (after layout source history).finish.1 = .error e) ∧
    (∀ e, (after layout source history).failed = some e → ∀ ops, .reset ∉ ops →
      ((after layout source history).performAll ops).1 = ops.map (Op.refused e) ∧
      ((after layout source history).performAll ops).2.failed = some e ∧
      ((after layout source history).performAll ops).2.source =
        (after layout source history).source) ∧
    ((after layout source history).isFinished = true → ∀ ops, .reset ∉ ops →
      ((after layout source history).performAll ops).1 = ops.map Op.idle ∧
      ((after layout source history).performAll ops).2.isFinished = true ∧
      ((after layout source history).performAll ops).2.source =
        (after layout source history).source) ∧
    ∀ ops, (after layout source history).performAll (.reset :: ops) =
      (.done :: ((start layout (after layout source history).source).performAll ops).1,
        ((start layout (after layout source history).source).performAll ops).2) := by
  have valid := valid_after layout source history
  generalize after layout source history = d at valid
  refine ⟨read_fails d, (readValue_valid valid).2, fun _ => finish_fails d,
    fun e failed ops onward => performAll_stays (fun _ => perform_refused) failed onward,
    fun finished ops onward => ?_, fun ops => ?_⟩
  · obtain ⟨answers, idle, source⟩ :=
      performAll_stays (fun _ => perform_idle) (valid.idle finished) onward
    exact ⟨answers, idle.isFinished, source⟩
  · rw [performAll, perform, reset, valid.same]

end

/-- Two messages of one integer, of which the second ends early. -/
def torn : Source := ⟨[.bytes [7, 0, 0, 0, 8, 0]], none⟩

def single : Layout :=
  ⟨[⟨[256, 1, 1], .data ⟨.fixed 1, .int32, .identity, .exchanged, "list 1 int32 *"⟩⟩],
    "list 1 int32 *"⟩

/-- Nothing is left to deliver behind the first message. The second fails at its end, whatever is
tried then. -/
theorem settled_torn :
    (after single torn [.finish]).isFinished = true ∧
      ((after single torn [.finish]).performAll [.read 4, .finish]).1 =
        [.bytes (.ok []), .ended (.ok ())] ∧
      (after single torn [.finish, .reset, .read 12]).failed = none ∧
      (after single torn [.finish, .reset, .read 12, .finish]).failed =
        some (.exhausted "list 1 int32 *" 2) ∧
      ((after single torn [.finish, .reset, .read 12, .finish]).performAll
        [.read 5, .put "n" (.int 1), .readValue]).1 =
          [.bytes (.error (.exhausted "list 1 int32 *" 2)), .done,
            .value (.error (.exhausted "list 1 int32 *" 2))] := by
  have finished : (after single torn [.finish]).isFinished = true := by decide +kernel
  have failed : (after single torn [.finish, .reset, .read 12, .finish]).failed =
      some (.exhausted "list 1 int32 *" 2) := by decide +kernel
  obtain ⟨-, -, -, -, idles, -⟩ := after_settled single torn [.finish]
  obtain ⟨-, -, -, refuses, -⟩ := after_settled single torn [.finish, .reset, .read 12, .finish]
  exact ⟨finished, (idles finished _ (by decide)).1, by decide +kernel, failed,
    (refuses _ failed _ (by decide)).1⟩

end TagWire.Decoder
