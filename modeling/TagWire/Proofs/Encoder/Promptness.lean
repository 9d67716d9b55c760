import Mathlib.Tactic.IntervalCases
import TagWire.Proofs.Encoder.Simulation

/-!
# The first problem

A strict walk asks for bytes only when it cannot go on without them, so what it ends with is settled
by the bytes up to there. An encoder walks on after a problem, and what it reports is settled by the
same bytes.

- `Strict.Decides`: bytes that settle how a part of the walk ends.
- `Strict.Prompt`: a part of the walk that is settled by the bytes it has taken.
- `Layout.Stops`, `Layout.Ends`: bytes that a walk stops at, and bytes that a whole walk takes.
- `Encoder.update_first`: an encoder reports the first problem of its message.
-/

namespace TagWire

/-- The tape with other bytes to come. -/
def Tape.over (t : Tape) (rest : Bytes) : Tape := { t with rest }

/-- A walk came to the end of the message before it came to anything else. -/
def RunsOut {α : Type} (answer : Except Error α) : Prop :=
  ∃ missing, 0 < missing ∧ answer = .error (.exhausted "buffered message" missing)

namespace Strict

variable {α β γ : Type}

/-- How a part of the walk ends, whatever is behind the bytes that it has taken. -/
inductive Halt (α : Type) where
  | stopped (x : Error)
  | passed (a : α) (t : Tape)

def Halt.over : Halt α → Bytes → Except Error (α × Tape)
  | stopped x, _ => .error x
  | passed a t, later => .ok (a, t.over later)

/-- With the bytes `seen` in front the part of the walk comes to its end, whatever is behind them,
and it runs out of fewer. -/
structure Decides (p : Strict α) (t : Tape) (seen : Bytes) (halt : Halt α) : Prop where
  whole : ∀ later, p.run (t.over (seen ++ later)) = halt.over later
  short : ∀ front missing, seen = front ++ missing → missing ≠ [] → RunsOut (p.run (t.over front))

/-- The part of the walk runs out of bytes, or the bytes that it takes decide how it ends. -/
def Prompt (p : Strict α) : Prop :=
  ∀ t, RunsOut (p.run t) ∨ ∃ seen later halt, t.rest = seen ++ later ∧ Decides p t seen halt

theorem runsOut_bind {p : Strict α} {t : Tape} (out : RunsOut (p.run t)) (q : α → Strict β) :
    RunsOut ((p >>= q).run t) := by
  obtain ⟨missing, positive, ended⟩ := out
  exact ⟨missing, positive, run_bind_error ended⟩

namespace Decides

theorem run {p : Strict α} {t : Tape} {seen later : Bytes} {halt : Halt α}
    (decides : Decides p t seen halt) (split : t.rest = seen ++ later) :
    p.run t = halt.over later := by
  rw [← decides.whole later, ← split]
  rfl

/-- What takes nothing is decided at once. -/
theorem still {p : Strict α} {t : Tape} {halt : Halt α}
    (whole : ∀ later, p.run (t.over later) = halt.over later) : Decides p t [] halt where
  whole := whole
  short _ _ split some_missing := absurd (List.append_eq_nil_iff.mp split.symm).2 some_missing

theorem bind_stopped {p : Strict α} {t : Tape} {seen : Bytes} {x : Error}
    (first : Decides p t seen (.stopped x)) (q : α → Strict β) :
    Decides (p >>= q) t seen (.stopped x) where
  whole later := run_bind_error (first.whole later)
  short front missing split some_missing :=
    runsOut_bind (first.short front missing split some_missing) q

/-- Bytes that are too few for both parts are too few for one of them. -/
theorem bind_passed {p : Strict α} {q : α → Strict β} {t t' : Tape} {seen more : Bytes} {a : α}
    {halt : Halt β} {behind : Bytes} (first : Decides p t seen (.passed a t'))
    (second : Decides (q a) (t'.over behind) more halt) :
    Decides (p >>= q) t (seen ++ more) halt where
  whole later := by
    rw [List.append_assoc, run_bind_ok (first.whole (more ++ later))]
    exact second.whole later
  short front missing split some_missing := by
    rcases List.append_eq_append_iff.mp split with ⟨within, rfl, more_eq⟩ | ⟨lacking, rfl, rest_eq⟩
    · rw [run_bind_ok (first.whole within)]
      exact second.short within missing more_eq some_missing
    · by_cases none_lacking : lacking = []
      · subst none_lacking
        have began := first.whole []
        rw [List.append_nil, List.append_nil] at began
        rw [run_bind_ok began]
        exact second.short [] missing rest_eq.symm some_missing
      · exact runsOut_bind (first.short front lacking rfl none_lacking) q

end Decides

namespace Prompt

theorem still {p : Strict α}
    (blind : ∀ t : Tape, ∃ halt : Halt α, ∀ later, p.run (t.over later) = halt.over later) :
    Prompt p := by
  intro t
  obtain ⟨halt, whole⟩ := blind t
  exact .inr ⟨[], t.rest, halt, rfl, .still whole⟩

theorem done (a : α) : Prompt (pure a) := still fun t => ⟨.passed a t, fun _ => rfl⟩

theorem failed (x : Error) : Prompt (throw x : Strict α) :=
  still fun _ => ⟨.stopped x, fun _ => rfl⟩

theorem bind {p : Strict α} {q : α → Strict β} (first : Prompt p) (second : ∀ a, Prompt (q a)) :
    Prompt (p >>= q) := by
  intro t
  rcases first t with out | ⟨seen, later, x | ⟨a, t'⟩, split, decides⟩
  · exact .inl (runsOut_bind out q)
  · exact .inr ⟨seen, later, .stopped x, split, decides.bind_stopped q⟩
  · rcases second a (t'.over later) with out | ⟨more, last, halt, split', decides'⟩
    · left
      rwa [run_bind_ok (decides.run split)]
    · have further : later = more ++ last := split'
      refine .inr ⟨seen ++ more, last, halt, ?_, decides.bind_passed decides'⟩
      rw [split, further, List.append_assoc]

/-- Looking at the tape does not look at the bytes that are to come. -/
theorem look {see : Tape → γ} (blind : ∀ t rest, see (t.over rest) = see t) {q : γ → Strict α}
    (further : ∀ c, Prompt (q c)) : Prompt (do q (see (← get))) := by
  intro t
  have run (rest : Bytes) :
      (do q (see (← get)) : Strict α).run (t.over rest) = (q (see t)).run (t.over rest) := by
    rw [← blind t rest]
    rfl
  rcases further (see t) t with out | ⟨seen, later, halt, split, decides⟩
  · exact .inl out
  · refine .inr ⟨seen, later, halt, split, fun later => ?_,
      fun front missing split some_missing => ?_⟩
    · rw [run, decides.whole]
    · rw [run]
      exact decides.short front missing split some_missing

theorem take (n : Nat) (out : Bool) : Prompt (Strict.take n out) := by
  intro t
  by_cases enough : n ≤ t.rest.length
  · have size : (t.rest.take n).length = n := List.length_take_of_le enough
    have split := List.take_append_drop n t.rest
    generalize t.rest.take n = taken at size split
    generalize t.rest.drop n = later at split
    refine .inr ⟨taken, later,
      .passed taken { t with output := t.output ++ if out then taken else [] }, split.symm,
      fun later => ?_, fun front missing cut some_missing => ?_⟩
    · have within : n ≤ (taken ++ later).length := by
        rw [List.length_append]
        omega
      change (if n ≤ (taken ++ later).length then _ else _) = _
      rw [if_pos within]
      dsimp only [Tape.over]
      rw [List.take_left' size, List.drop_left' size]
      rfl
    · have lacking : front.length < n := by
        rw [← size, cut, List.length_append]
        have := List.length_pos_iff.mpr some_missing
        omega
      exact ⟨n - front.length, Nat.sub_pos_of_lt lacking, if_neg (Nat.not_le_of_lt lacking)⟩
  · exact .inl ⟨n - t.rest.length, by omega, if_neg enough⟩

theorem emit (bytes : Bytes) : Prompt (Strict.emit bytes) :=
  still fun t => ⟨.passed () { t with output := t.output ++ bytes }, fun _ => rfl⟩

theorem remember (bytes : Bytes) : Prompt (Strict.remember bytes) :=
  still fun t => ⟨.passed () { t with lastByte := bytes.getLast?.getD t.lastByte }, fun _ => rfl⟩

theorem clear : Prompt Strict.clear :=
  still fun t => ⟨.passed () { t with deferred := none }, fun _ => rfl⟩

theorem defer (expected received : Word) : Prompt (Strict.defer expected received) :=
  still fun t => ⟨.passed () { t with deferred := some ⟨expected, received⟩ }, fun _ => rfl⟩

theorem pass (n : Nat) (out : Bool) : Prompt (Strict.pass n out) :=
  (take n out).bind remember

theorem takeWord (out : Bool) : Prompt (Strict.takeWord out) :=
  (take 4 out).bind fun bytes => done (Word.ofBytes bytes)

theorem settleDeferred (origin : String) (length : Word) (deferred : Option Deferred) :
    Prompt (match deferred with
      | none => pure ()
      | some d => do
        Strict.clear
        if length ≠ 0 then throw (.tagMismatch d.expected d.received origin)) := by
  cases deferred with
  | none => exact done ()
  | some d =>
    refine clear.bind fun _ => ?_
    split
    · exact failed _
    · exact done ()

theorem settle (origin : String) (length : Word) : Prompt (Strict.settle origin length) :=
  look (fun _ _ => rfl) (settleDeferred origin length)

theorem checkLength (origin : String) (expected : Word) :
    Prompt (Strict.checkLength origin expected) := by
  refine (takeWord false).bind fun received => (settle origin received).bind fun _ => ?_
  split
  · exact failed _
  · exact done ()

theorem checkTag (origin : String) (expected : Word) :
    Prompt (Strict.checkTag origin expected) := by
  refine (takeWord false).bind fun received => ?_
  split
  · exact done ()
  · split
    · exact defer _ _
    · exact failed _

theorem checkWords (origin : String) (words : List Word) :
    Prompt (Strict.checkWords origin words) := by
  induction words using Strict.checkWords.induct with
  | case1 => exact done ()
  | case2 tag => exact checkTag origin tag
  | case3 tag next rest behind following =>
    refine (checkTag origin tag).bind fun _ => ?_
    split
    · exact (checkLength origin next).bind fun _ => behind
    · exact following

theorem takeLength (origin : String) (g : Gap) : Prompt (Strict.takeLength origin g) := by
  refine (takeWord true).bind fun w => (settle origin w).bind fun _ => ?_
  cases w.length? with
  | none => exact failed _
  | some n => exact done n

theorem times {part : Strict Unit} (each : Prompt part) (n : Nat) :
    Prompt (Strict.times part n) := by
  induction n with
  | zero => exact done ()
  | succ n ih => exact each.bind fun _ => ih

theorem passText (origin : String) (g : Gap) : Prompt (Strict.passText origin g) :=
  (takeLength origin g).bind fun n => pass n true

theorem passNarrow : Prompt Strict.passNarrow :=
  (take 8 false).bind fun _ => emit _

theorem passPadded (size wire : Nat) (signed : Bool) :
    Prompt (Strict.passPadded size wire signed) := by
  have filled (last : UInt8) :
      Prompt (Strict.emit (List.replicate (wire - size) (padByte signed [last]))) := emit _
  have blind (t : Tape) (rest : Bytes) : (t.over rest).lastByte = t.lastByte := rfl
  exact (pass size true).bind fun _ => look blind filled

theorem passElements (origin : String) (g : Gap) (p : Payload) (n : Nat) :
    Prompt (Strict.passElements origin g p n) := by
  unfold Strict.passElements
  cases p.kind.size? with
  | none => exact times (passText origin g) n
  | some size =>
    cases p.conversion with
    | identity => exact pass (n * size) true
    | narrow => exact times passNarrow n
    | pad wire signed => exact times (passPadded size wire signed) n

theorem passPayload (origin : String) (g : Gap) (p : Payload) :
    Prompt (Strict.passPayload origin g p) := by
  unfold Strict.passPayload
  cases p.use with
  | skipped | saved => exact done ()
  | loaded => exact pass _ false
  | exchanged =>
    cases p.count with
    | fixed n => exact passElements origin g p n
    | fromWire => exact (takeLength origin g).bind (passElements origin g p)

theorem passGap (l : Layout) (g : Gap) : Prompt (Strict.passGap l g) := by
  refine (checkWords (l.originOf g) g.words).bind fun _ => ?_
  cases g.payload? with
  | none => exact done ()
  | some p => exact passPayload (l.originOf g) g p

theorem passGaps (l : Layout) (gaps : List Gap) : Prompt (Strict.passGaps l gaps) := by
  induction gaps with
  | nil => exact done ()
  | cons g rest ih => exact (passGap l g).bind fun _ => ih

end Prompt

end Strict

namespace Layout

variable {l : Layout} {seen : Bytes}

/-- The walk stops at the end of the bytes `seen`, whatever is behind them, and not before. -/
structure Stops (l : Layout) (seen : Bytes) (x : Error) : Prop where
  whole : ∀ later, l.encodeOnce (seen ++ later) = .error x
  short : ∀ front missing, seen = front ++ missing → missing ≠ [] → RunsOut (l.encodeOnce front)

/-- The bytes `seen` are a whole message: fewer are too few, and it is only their number that counts
of the bytes that are too many. -/
structure Ends (l : Layout) (seen : Bytes) (output : Bytes) : Prop where
  whole : l.encodeOnce seen = .ok output
  surplus : ∀ later, later ≠ [] → l.encodeOnce (seen ++ later) =
    .error (.mismatch "end of message" (toString later.length ++ " more bytes") l.grammar)
  short : ∀ front missing, seen = front ++ missing → missing ≠ [] → RunsOut (l.encodeOnce front)

theorem runsOut_encodeOnce {message : Bytes}
    (out : RunsOut ((Strict.passGaps l l.gaps).run { rest := message })) :
    RunsOut (l.encodeOnce message) := by
  obtain ⟨missing, positive, ended⟩ := out
  refine ⟨missing, positive, ?_⟩
  rw [encodeOnce, ended]

/-- A walk runs out of bytes, stops somewhere or comes to the end of the layout. -/
theorem encodeOnce_prompt (l : Layout) (message : Bytes) :
    RunsOut (l.encodeOnce message) ∨ ∃ seen later, message = seen ++ later ∧
      ((∃ x, l.Stops seen x) ∨ ∃ output, l.Ends seen output) := by
  rcases Strict.Prompt.passGaps l l.gaps { rest := message } with
    out | ⟨seen, later, x | ⟨a, t⟩, split, decides⟩
  · exact .inl (runsOut_encodeOnce out)
  · refine .inr ⟨seen, later, split, .inl ⟨x, fun later => ?_,
      fun front missing cut some_missing => ?_⟩⟩
    · have stopped : (Strict.passGaps l l.gaps).run { rest := seen ++ later } = .error x :=
        decides.whole later
      rw [encodeOnce, stopped]
    · exact runsOut_encodeOnce (decides.short front missing cut some_missing)
  · have passed (later : Bytes) :
        (Strict.passGaps l l.gaps).run { rest := seen ++ later } = .ok ((), t.over later) :=
      decides.whole later
    refine .inr ⟨seen, later, split, .inr ⟨t.output, ?_, fun later surplus => ?_,
      fun front missing cut some_missing => ?_⟩⟩
    · have ended := passed []
      rw [List.append_nil] at ended
      rw [encodeOnce, ended]
      rfl
    · rw [encodeOnce, passed later]
      exact if_neg surplus
    · exact runsOut_encodeOnce (decides.short front missing cut some_missing)

/-- A walk that fails for want of nothing stops there, if it runs out of fewer bytes. -/
theorem Stops.of_short {x : Error} (failed : l.encodeOnce seen = .error x)
    (enough : ¬ RunsOut (l.encodeOnce seen))
    (short : ∀ n < seen.length, RunsOut (l.encodeOnce (seen.take n))) : l.Stops seen x := by
  rcases l.encodeOnce_prompt seen with out | ⟨begun, later, split, settled⟩
  · exact absurd out enough
  by_cases all : later = []
  · rw [all, List.append_nil] at split
    subst split
    rcases settled with ⟨y, stops⟩ | ⟨output, ends⟩
    · have same := stops.whole []
      rw [List.append_nil, failed] at same
      cases same
      exact stops
    · cases failed.symm.trans ends.whole
  · have further := List.length_pos_iff.mpr all
    have out := short begun.length (by rw [split, List.length_append]; omega)
    rw [split, List.take_left] at out
    rcases settled with ⟨y, stops⟩ | ⟨output, ends⟩
    · have early := stops.whole []
      rw [List.append_nil] at early
      rw [early, ← stops.whole later, ← split] at out
      exact absurd out enough
    · obtain ⟨missing, -, early⟩ := out
      cases early.symm.trans ends.whole

end Layout

namespace Encoder

/-- An encoder refuses a message just where the strict walk fails, and it reports what that walk
fails with. Either the whole message is too short, or some bytes in front of it settle what is
reported: the walk stops there whatever is behind them, or they are a whole message, and then it is
only the number of the bytes behind them that is reported. With these bytes in front every other
message gets the same report from every encoder of the layout. -/
theorem update_first (e : Encoder) :
    (e.update.isOk = false ↔ ∃ x, e.layout.encodeOnce e.buffer.payload = .error x) ∧
    (∀ x, e.update.error = some x ↔ e.layout.encodeOnce e.buffer.payload = .error x) ∧
    (RunsOut (e.layout.encodeOnce e.buffer.payload) ∨
      ∃ seen later, e.buffer.payload = seen ++ later ∧
        ((∃ x, e.layout.Stops seen x) ∨ ∃ output, e.layout.Ends seen output)) ∧
    ∀ seen x, e.layout.Stops seen x → ∀ e' : Encoder, e'.layout = e.layout →
      seen <+: e'.buffer.payload → e'.update.error = some x := by
  have reported (e : Encoder) (x : Error) :
      e.update.error = some x ↔ e.layout.encodeOnce e.buffer.payload = .error x := by
    have update := e.update_encodeOnce
    cases walked : e.layout.encodeOnce e.buffer.payload with
    | ok bytes =>
      rw [walked] at update
      simp [update.1]
    | error y =>
      rw [walked] at update
      simp [show e.update.error = some y from update]
  refine ⟨?_, reported e, Layout.encodeOnce_prompt _ _, ?_⟩
  · simp only [← reported e, isOk, Option.isNone_eq_false_iff, Option.isSome_iff_exists]
  · rintro seen x stops e' same ⟨later, split⟩
    rw [reported, same, ← split]
    exact stops.whole later

/-- A vector of a length that is known. -/
def couple : Layout :=
  ⟨[⟨[257, 2], .data ⟨.fixed 2, .int32, .identity, .exchanged, "vector int32 2 *"⟩⟩],
    "vector int32 2 *"⟩

/-- A vector of other integers is only wrong once it is known to have some. -/
theorem stops_couple :
    couple.Stops [32, 1, 0, 0, 3, 0, 0, 0] (.tagMismatch 257 288 "vector int32 2 *") := by
  have short (n : Nat) (fewer : n < 8) : couple.encodeOnce ([32, 1, 0, 0, 3, 0, 0, 0].take n) =
      .error (.exhausted "buffered message" (4 - n % 4)) := by
    interval_cases n <;> rfl
  refine .of_short rfl ?_ fun n fewer => ⟨4 - n % 4, by omega, short n fewer⟩
  rintro ⟨missing, _, out⟩
  cases out

/-- The length of the vector is wrong as well, and its items end early. -/
theorem reported_couple :
    couple.Stops [32, 1, 0, 0, 3, 0, 0, 0] (.tagMismatch 257 288 "vector int32 2 *") ∧
      (start couple ⟨[], [[32, 1, 0], [0, 3, 0, 0, 0, 7]]⟩).update.error =
        some (.tagMismatch 257 288 "vector int32 2 *") :=
  ⟨stops_couple, (update_first (start couple ⟨[], []⟩)).2.2.2 _ _ stops_couple _ rfl ⟨[7], rfl⟩⟩

end Encoder

end TagWire
