import TagWire.Stream

/-!
# What a stream will give

A stream is known by the bytes that it still holds and by how it ends, not by the requests that it
is asked. A supply says this of the states of a stream, and what a reading gathers depends on
nothing else.

- `Supply`: states that hold bytes, however these are asked for.
- `Supply.ofBytes`, `Supply.ofSource`: bytes that are all there, and bytes that arrive in pieces.
- `Supply.gather_enough`, `Supply.gather_short`: what is gathered from a supply.
-/

namespace TagWire

/-- The answer at the end of a stream. -/
def ending : Option ReadError → Except ReadError Bytes
  | none => .ok []
  | some e => .error e

/-- States of a stream that hold bytes and then meet their end, which may be a failure. A request that
is interrupted takes nothing; one that is answered takes some of the bytes that are left, as many as the
stream likes. -/
structure Supply (σ : Type) [ByteStream σ] where
  Holds : Bytes → σ → Prop
  failure : Option ReadError
  Spent : σ → Prop
  calm : ∀ {wire s s' n}, Holds wire s → ByteStream.read s n = (none, s') → Holds wire s'
  more : ∀ {wire s s' n answer}, Holds wire s → wire ≠ [] → 0 < n →
    ByteStream.read s n = (some answer, s') →
      ∃ b first later, wire = b :: first ++ later ∧ first.length < n ∧
        answer = .ok (b :: first) ∧ Holds later s'
  stop : ∀ {s s' n answer}, Holds [] s → 0 < n → ByteStream.read s n = (some answer, s') →
    answer = ending failure ∧ Spent s'

namespace Reading

variable {σ α β : Type}

theorem run_pure (a : α) (s : σ) : (pure a : Reading σ α).run s = (.ok a, s) := rfl

theorem run_throw (e : Error) (s : σ) : (throw e : Reading σ α).run s = (.error e, s) := rfl

theorem run_get (s : σ) : (get : Reading σ σ).run s = (.ok s, s) := rfl

theorem run_bind_ok {m : Reading σ α} {f : α → Reading σ β} {s s' : σ} {a : α}
    (h : m.run s = (.ok a, s')) : (m >>= f).run s = (f a).run s' := by
  change (match m.run s with | (r, t) => (ExceptT.bindCont f r).run t) = _
  rw [h]
  rfl

theorem run_bind_error {m : Reading σ α} {f : α → Reading σ β} {s s' : σ} {e : Error}
    (h : m.run s = (.error e, s')) : (m >>= f).run s = (.error e, s') := by
  change (match m.run s with | (r, t) => (ExceptT.bindCont f r).run t) = _
  rw [h]
  rfl

/-- A reading that meets the end of its stream fails with the failure of the stream, or else with
what it says of the bytes that there were. -/
theorem run_bind_ending {m : Reading σ Bytes} {f : Bytes → Reading σ α} {s s' : σ}
    {failure : Option ReadError} {context : String} {bytes : Bytes} {e : Error}
    (met : m.run s = (((ending failure).map fun _ => bytes).mapError (·.toError context), s'))
    (fails : (f bytes).run s' = (.error e, s')) :
    (m >>= f).run s = (.error ((failure.map (·.toError context)).getD e), s') := by
  cases failure with
  | none => exact (run_bind_ok met).trans fails
  | some error => exact run_bind_error met

section
variable [ByteStream σ] {s s' : σ} {n : Nat}

theorem request_answered {answer : Except ReadError Bytes}
    (answered : ByteStream.read s n = (some answer, s')) : request s n = (answer, s') := by
  rw [request]
  split <;> simp_all

/-- Behind its interruptions a request is answered, in a state of which is true what they keep. -/
theorem request_calm {P : σ → Prop}
    (calm : ∀ {s s'}, P s → ByteStream.read s n = (none, s') → P s') (start : P s) :
    ∃ s₀ answer s', P s₀ ∧ ByteStream.read s₀ n = (some answer, s') ∧
      request s n = (answer, s') := by
  fun_induction request s n with
  | case1 s answer s' answered => exact ⟨s, answer, s', start, answered, rfl⟩
  | case2 s s' interrupted ih => exact ih (calm start interrupted)

end

end Reading

namespace Supply

variable {σ : Type} [ByteStream σ] (supply : Supply σ)

theorem request_more {wire : Bytes} {s : σ} {n : Nat} (holds : supply.Holds wire s)
    (some_left : wire ≠ []) (positive : 0 < n) :
    ∃ b first later s', wire = b :: first ++ later ∧ first.length < n ∧
      Reading.request s n = (.ok (b :: first), s') ∧ supply.Holds later s' := by
  obtain ⟨s₀, answer, s', holds₀, answered, asked⟩ := Reading.request_calm supply.calm holds
  obtain ⟨b, first, later, split, bound, rfl, holds'⟩ :=
    supply.more holds₀ some_left positive answered
  exact ⟨b, first, later, s', split, bound, asked, holds'⟩

/-- Where no bytes are left, a request meets the end of the stream. -/
theorem request_stop {s : σ} {n : Nat} (holds : supply.Holds [] s) (positive : 0 < n) :
    ∃ s', Reading.request s n = (ending supply.failure, s') ∧ supply.Spent s' := by
  obtain ⟨s₀, answer, s', holds₀, answered, asked⟩ := Reading.request_calm supply.calm holds
  obtain ⟨rfl, spent⟩ := supply.stop holds₀ positive answered
  exact ⟨s', asked, spent⟩

/-- As many bytes are gathered as are asked for, if the stream holds them. -/
theorem gather_enough {bytes rest : Bytes} {s : σ} (holds : supply.Holds (bytes ++ rest) s) :
    ∃ s', Reading.gather bytes.length s = (.ok bytes, s') ∧ supply.Holds rest s' := by
  generalize size : bytes.length = n
  induction n using Nat.strongRecOn generalizing bytes s with
  | ind n ih =>
    rw [Reading.gather]
    by_cases zero : n = 0
    · obtain rfl : bytes = [] := List.length_eq_zero_iff.mp (size.trans zero)
      exact ⟨s, by simp [zero], by simpa using holds⟩
    · have positive : 0 < n := Nat.pos_of_ne_zero zero
      obtain ⟨b, first, later, s₁, wire_eq, bound, read, holds₁⟩ := supply.request_more holds
        (by intro none_left; simp [← size, List.append_eq_nil_iff.mp none_left] at zero) positive
      obtain ⟨others, rfl, rfl⟩ :
        ∃ others, bytes = b :: first ++ others ∧ later = others ++ rest := by
        rcases List.append_eq_append_iff.mp
          wire_eq with ⟨excess, first_eq, rest_eq⟩ | ⟨others, h, h'⟩
        · have length_eq := congrArg List.length first_eq
          simp only [List.length_cons, List.length_append] at length_eq
          obtain rfl : excess = [] := List.length_eq_zero_iff.mp (by omega)
          exact ⟨[], by simpa using first_eq.symm, by simpa using rest_eq.symm⟩
        · exact ⟨others, h, h'⟩
      have others_length : others.length = n - 1 - first.length := by
        simp only [List.length_append, List.length_cons] at size
        omega
      obtain ⟨s₂, gathered, holds₂⟩ := ih (n - 1 - first.length) (by omega) holds₁ others_length
      exact ⟨s₂, by simp [zero, read, gathered], holds₂⟩

/-- Asking for more than there is meets the end of the stream; all bytes are gathered if that is no
failure. -/
theorem gather_short {wire : Bytes} {s : σ} {n : Nat} (holds : supply.Holds wire s)
    (short : wire.length < n) :
    ∃ s', Reading.gather n s = ((ending supply.failure).map fun _ => wire, s') ∧
      supply.Spent s' := by
  induction n using Nat.strongRecOn generalizing wire s with
  | ind n ih =>
    rw [Reading.gather]
    have positive : 0 < n := by omega
    have nonzero : n ≠ 0 := by omega
    by_cases none_left : wire = []
    · subst none_left
      obtain ⟨s', read, spent⟩ := supply.request_stop holds positive
      refine ⟨s', ?_, spent⟩
      cases failure : supply.failure <;> simp [read, failure, ending, Except.map, nonzero]
    · obtain ⟨b, first, later, s₁, rfl, bound, read, holds₁⟩ :=
        supply.request_more holds none_left positive
      simp only [List.length_append, List.length_cons] at short
      obtain ⟨s₂, gathered, spent⟩ := ih (n - 1 - first.length) (by omega) holds₁ (by omega)
      refine ⟨s₂, ?_, spent⟩
      cases failure : supply.failure <;> simp [read, gathered, failure, ending, Except.map, nonzero]

/-- Bytes that are all there. -/
def ofBytes : Supply Bytes where
  Holds wire s := s = wire
  failure := none
  Spent s := s = []
  calm _ := nofun
  more := by
    rintro (_ | ⟨b, wire⟩) _ _ n _ rfl some_left positive answered
    · exact absurd rfl some_left
    · cases answered
      obtain ⟨m, rfl⟩ := Nat.exists_eq_add_of_lt positive
      refine ⟨b, wire.take m, wire.drop m, by simp, ?_, by simp, by simp⟩
      simp only [List.length_take]
      omega
  stop := by
    rintro _ _ n _ rfl positive answered
    cases answered
    exact ⟨by simp [ending], by simp⟩

end Supply

namespace Reading

section
variable {σ : Type} [ByteStream σ] {n : Nat} {s s' : σ}

theorem run_once {answer : Except ReadError Bytes} (read : request s n = (answer, s'))
    (context : String) :
    (once context n : Reading σ Bytes).run s = (answer.mapError (·.toError context), s') := by
  rw [ExceptT.run, once, read]
  cases answer <;> rfl

theorem run_upTo_gather {answer : Except ReadError Bytes} (gathered : gather n s = (answer, s'))
    (context : String) :
    (upTo context n : Reading σ Bytes).run s = (answer.mapError (·.toError context), s') := by
  rw [ExceptT.run, upTo, gathered]
  cases answer <;> rfl

theorem run_upTo_ok {bytes : Bytes} (gathered : gather n s = (.ok bytes, s')) (context : String) :
    (upTo context n : Reading σ Bytes).run s = (.ok bytes, s') :=
  run_upTo_gather gathered context

theorem run_upTo_error {e : ReadError} (failed : gather n s = (.error e, s'))
    (context : String) :
    (upTo context n : Reading σ Bytes).run s = (.error (e.toError context), s') :=
  run_upTo_gather failed context

end

/-- From bytes that are all there, as many are gathered as there are. -/
theorem run_upTo (context : String) (n : Nat) (bytes : Bytes) :
    (upTo context n : Reading Bytes Bytes).run bytes = (.ok (bytes.take n), bytes.drop n) := by
  by_cases enough : n ≤ bytes.length
  · have size : (bytes.take n).length = n := List.length_take_of_le enough
    have holds : Supply.ofBytes.Holds (bytes.take n ++ bytes.drop n) bytes :=
      (List.take_append_drop n bytes).symm
    obtain ⟨rest, gathered, rest_eq⟩ := Supply.ofBytes.gather_enough holds
    rw [size] at gathered
    rw [run_upTo_ok gathered context, show rest = bytes.drop n from rest_eq]
  · have short : bytes.length < n := Nat.lt_of_not_le enough
    have holds : Supply.ofBytes.Holds bytes bytes := rfl
    obtain ⟨rest, gathered, rest_eq⟩ := Supply.ofBytes.gather_short holds short
    rw [run_upTo_ok gathered context, show rest = [] from rest_eq,
      List.take_of_length_le (Nat.le_of_lt short), List.drop_of_length_le (Nat.le_of_lt short)]

end Reading

/-- What a source holds: bytes, perhaps a failure behind them, and the bytes behind the failure. -/
structure Contents where
  wire : Bytes
  failure : Option ReadError := none
  after : Bytes := []
  deriving DecidableEq, Repr

namespace Source

/-- What arrives, however it is divided and interrupted. -/
def contentsOf : List Arrival → Contents
  | [] => ⟨[], none, []⟩
  | .bytes bytes :: rest => { contentsOf rest with wire := bytes ++ (contentsOf rest).wire }
  | .interruption :: rest => contentsOf rest
  | .failure kind message :: rest => ⟨[], some (.device kind message), rest.flatMap Arrival.content⟩

def contents (source : Source) : Contents := contentsOf source.arrivals

theorem contentsOf_rest (arrivals : List Arrival) :
    arrivals.flatMap Arrival.content =
      (contentsOf arrivals).wire ++ (contentsOf arrivals).after := by
  induction arrivals with
  | nil => rfl
  | cons arrival rest ih => cases arrival <;> simp [contentsOf, Arrival.content, ih]

theorem next_calm {limit : Nat} {arrivals left : List Arrival}
    (interrupted : next limit arrivals = (none, left)) : contentsOf left = contentsOf arrivals := by
  induction arrivals with
  | nil => cases interrupted
  | cons arrival rest ih =>
    cases arrival with
    | bytes content =>
      cases content with
      | nil => exact ih interrupted
      | cons => cases interrupted
    | interruption =>
      cases interrupted
      rfl
    | failure => cases interrupted

theorem next_more {limit : Nat} {arrivals left : List Arrival} {answer : Except ReadError Bytes}
    (some_left : (contentsOf arrivals).wire ≠ []) (positive : 0 < limit)
    (answered : next limit arrivals = (some answer, left)) :
    ∃ b first later, (contentsOf arrivals).wire = b :: first ++ later ∧ first.length < limit ∧
      answer = .ok (b :: first) ∧ contentsOf left = { contentsOf arrivals with wire := later } := by
  induction arrivals with
  | nil => exact absurd rfl some_left
  | cons arrival rest ih =>
    cases arrival with
    | interruption => cases answered
    | failure => exact absurd rfl some_left
    | bytes bytes =>
      cases bytes with
      | nil => exact ih some_left answered
      | cons b bytes =>
        cases answered
        obtain ⟨m, rfl⟩ := Nat.exists_eq_add_of_lt positive
        refine ⟨b, bytes.take m, bytes.drop m ++ (contentsOf rest).wire, ?_, ?_, ?_, ?_⟩
        · simp [contentsOf, ← List.append_assoc]
        · simp only [List.length_take]
          omega
        · simp
        · simp [contentsOf]

theorem next_stop {limit : Nat} {arrivals left : List Arrival} {answer : Except ReadError Bytes}
    (none_left : (contentsOf arrivals).wire = [])
    (answered : next limit arrivals = (some answer, left)) :
    answer = ending (contentsOf arrivals).failure ∧
      left.flatMap Arrival.content = (contentsOf arrivals).after := by
  induction arrivals with
  | nil =>
    cases answered
    exact ⟨rfl, rfl⟩
  | cons arrival rest ih =>
    cases arrival with
    | interruption => cases answered
    | failure kind message =>
      cases answered
      exact ⟨rfl, rfl⟩
    | bytes bytes =>
      obtain ⟨rfl, none_left⟩ := List.append_eq_nil_iff.mp none_left
      exact ih none_left answered

/-- A source answers requests that are not empty with bytes, as long as it has any. -/
def Answers (source : Source) : Prop := source.chunk ≠ some 0

theorem limit_pos {source : Source} {n : Nat} (answers : source.Answers) (positive : 0 < n) :
    0 < (source.chunk.map (min n)).getD n ∧ (source.chunk.map (min n)).getD n ≤ n := by
  cases chunk : source.chunk with
  | none => simpa using positive
  | some size =>
    have : size ≠ 0 := by
      rintro rfl
      exact answers chunk
    simp only [Option.map_some, Option.getD_some]
    omega

end Source

namespace Supply

/-- Bytes that arrive in pieces, with interruptions, and with a failure behind them. -/
def ofSource (failure : Option ReadError) (after : Bytes) : Supply Source where
  Holds wire source := source.Answers ∧ source.contents = ⟨wire, failure, after⟩
  failure := failure
  Spent source := source.rest = after
  calm := by
    rintro wire source _ n ⟨answers, contents⟩ answered
    obtain ⟨interrupted, rfl⟩ := Prod.mk.inj answered
    exact ⟨answers, (Source.next_calm (Prod.ext interrupted rfl)).trans contents⟩
  more := by
    rintro wire source _ n answer ⟨answers, contents⟩ some_left positive answered
    obtain ⟨limit_pos, limit_le⟩ := Source.limit_pos answers positive
    have wire_eq : (Source.contentsOf source.arrivals).wire = wire :=
      congrArg Contents.wire contents
    obtain ⟨found, rfl⟩ := Prod.mk.inj answered
    obtain ⟨b, first, later, split, bound, given, contents'⟩ :=
      Source.next_more (wire_eq ▸ some_left) limit_pos (Prod.ext found rfl)
    refine ⟨b, first, later, wire_eq ▸ split, by omega, given, answers, ?_⟩
    rw [Source.contents, contents', ← Source.contents, contents]
  stop := by
    rintro source _ n answer ⟨answers, contents⟩ positive answered
    have none_left : (Source.contentsOf source.arrivals).wire = [] :=
      congrArg Contents.wire contents
    obtain ⟨found, rfl⟩ := Prod.mk.inj answered
    have ended := Source.next_stop none_left (Prod.ext found rfl)
    rwa [← Source.contents, contents] at ended

theorem ofSource_rest {failure : Option ReadError} {after wire : Bytes} {source : Source}
    (holds : (ofSource failure after).Holds wire source) : source.rest = wire ++ after := by
  rw [Source.rest, Source.contentsOf_rest, ← Source.contents, holds.2]

end Supply

end TagWire
