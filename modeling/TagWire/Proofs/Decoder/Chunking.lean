import TagWire.Proofs.Decoder.Agenda

/-!
# Streams of tagged bytes

A decoder is itself a supply: it gives what a single pass over its layout delivers, and ends as that
pass ends, whatever the pieces in which the external bytes arrive and whatever the requests it is
asked.

- `Supply.decoder`: a decoder over a supply.
- `Decoder.drain`: reads until the stream ends or fails.
- `Decoder.drain_spec`: what is drained from a decoder.
-/

namespace TagWire

variable {σ : Type} [ByteStream σ] {supply : Supply σ}

/-- How tasks end that are taken until one sends bytes. -/
inductive Advances (supply : Supply σ) (delivered : Bytes) :
    Except Error Bytes × List Task × Channel σ → Except Error Unit × Ledger → Prop
  | ended {c l} (silent : l.delivered = delivered) (tracks : Tracks supply c l) :
      Advances supply delivered (.ok [], [], c) (.ok (), l)
  | sent {b bytes agenda c l} (sent : l.delivered = delivered ++ b :: bytes) (tracks :
    Tracks supply c l)
      (sound : ∀ t ∈ agenda, t.Sound) :
      Advances supply delivered (.ok (b :: bytes), agenda, c) ((Task.passAll agenda).run l)
  | failed {e agenda c l} (silent : l.delivered = delivered) (parted : Parted supply c l) :
      Advances supply delivered (.error e, agenda, c) (.error e, l)

theorem Task.advances {agenda : List Task} (sound : ∀ t ∈ agenda, t.Sound) {want : Nat}
    {c : Channel σ} {l : Ledger} (tracks : Tracks supply c l) (positive : 0 < want) :
    Advances supply l.delivered (Task.advance want agenda c) ((Task.passAll agenda).run l) := by
  induction agenda generalizing c l with
  | nil => exact .ended rfl tracks
  | cons t rest ih =>
    have steps := Task.steps tracks t (sound t List.mem_cons_self) positive
    have rest_sound : ∀ t ∈ rest, t.Sound := fun t member => sound t (List.mem_cons_of_mem _ member)
    rw [Task.advance]
    generalize (t.step want).run c = answer, hp : t.pass.run l = answer' at steps
    cases steps with
    | silent silent tracks' =>
      rw [Task.passAll, Pass.run_bind_ok hp, ← silent]
      exact ih rest_sound tracks'
    | error silent parted =>
      rw [Task.passAll, Pass.run_bind_error hp]
      exact .failed silent parted
    | @sent bytes tasks c' l' some_sent sent tracks' tasks_sound =>
      obtain ⟨b, bytes, rfl⟩ := List.exists_cons_of_ne_nil some_sent
      rw [Task.passAll_resumed hp]
      exact .sent sent tracks' (List.forall_mem_append.mpr ⟨tasks_sound, rest_sound⟩)

/-- What a decoder over a supply still gives, where the pass over its layout ends with `outcome` and
`final`. -/
structure Decoder.Holds (supply : Supply σ) (outcome : Except Error Unit) (final : Ledger) (bytes :
    Bytes)
    (d : Decoder σ) : Prop where
  alive : d.failed = none
  sound : ∀ t ∈ d.agenda, t.Sound
  pass : ∃ l later, Tracks supply d.channel l ∧ (Task.passAll d.agenda).run l = (outcome, final) ∧
    final.delivered = l.delivered ++ later ∧ bytes = d.staged ++ later

/-- A decoder whose stream has come to its end. -/
def Decoder.Spent (supply : Supply σ) (final : Ledger) (d : Decoder σ) : Except Error Unit → Prop
  | .ok () => d.failed = none ∧ d.agenda = [] ∧ d.staged = [] ∧ Tracks supply d.channel final
  | .error e => d.failed = some e ∧ Parted supply d.channel final

/-- The failure that ends the stream of a decoder. -/
def Decoder.failureOf : Except Error Unit → Option ReadError
  | .ok () => none
  | .error e => some (.carried e)

theorem Decoder.read_more {outcome : Except Error Unit} {final : Ledger} {bytes : Bytes}
    {d : Decoder σ} {n : Nat} (holds : d.Holds supply outcome final bytes)
    (some_left : bytes ≠ []) (positive : 0 < n) :
    ∃ b first later d', bytes = b :: first ++ later ∧ first.length < n ∧
      d.read n = (.ok (b :: first), d') ∧
      d'.Holds supply outcome final later := by
  obtain ⟨alive, sound, l, later, tracks, passed, final_eq, rfl⟩ := holds
  have nonzero : n ≠ 0 := by omega
  obtain ⟨m, rfl⟩ := Nat.exists_eq_succ_of_ne_zero nonzero
  cases staged : d.staged with
  | cons b first =>
    let d' := { d with staged := first.drop m }
    have read : d.read (m + 1) = (.ok (b :: first.take m), d') := by
      simp [d', Decoder.read, alive, staged]
    have holds' : d'.Holds supply outcome final (first.drop m ++ later) :=
      ⟨alive, sound, l, later, tracks, passed, final_eq, rfl⟩
    refine ⟨b, first.take m, first.drop m ++ later, d', ?_, ?_, read, holds'⟩
    · simp [← List.append_assoc]
    · simp only [List.length_take]
      omega
  | nil =>
    have advances := Task.advances sound tracks positive
    rw [passed] at advances
    generalize next : Task.advance (m + 1) d.agenda d.channel = answer at advances
    generalize verdict : (outcome, final) = answer' at advances passed
    cases advances with
    | ended silent _ | failed silent _ =>
      obtain ⟨rfl, rfl⟩ := Prod.mk.inj verdict
      rw [silent] at final_eq
      rw [staged, List.self_eq_append_right.mp final_eq] at some_left
      exact absurd rfl some_left
    | @sent b bytes agenda c l' sent tracks' sound' =>
      obtain ⟨later', appended⟩ := (Task.keeps_passAll agenda l').delivered
      rw [← verdict, sent, final_eq, List.append_assoc] at appended
      obtain rfl := (List.append_cancel_left appended).symm
      let d' := { d with agenda, channel := c, staged := bytes.drop m }
      have read : d.read (m + 1) = (.ok (b :: bytes.take m), d') := by
        simp [d', Decoder.read, alive, staged, next]
      have rest_eq : final.delivered = l'.delivered ++ later' := by
        rw [final_eq, sent, List.append_assoc]
      have holds' : d'.Holds supply outcome final (bytes.drop m ++ later') :=
        ⟨alive, sound', l', later', tracks', verdict.symm, rest_eq, rfl⟩
      refine ⟨b, bytes.take m, bytes.drop m ++ later', d', ?_, ?_, read, holds'⟩
      · simp [← List.append_assoc]
      · simp only [List.length_take]
        omega

theorem Decoder.read_stop {outcome : Except Error Unit} {final : Ledger} {d : Decoder σ} {n : Nat}
    (holds : d.Holds supply outcome final []) (positive : 0 < n) :
    ∃ d', d.read n = (outcome.map fun _ => [], d') ∧ d'.Spent supply final outcome := by
  obtain ⟨alive, sound, l, later, tracks, passed, final_eq, empty⟩ := holds
  obtain ⟨staged, rfl⟩ := List.append_eq_nil_iff.mp empty.symm
  have nonzero : n ≠ 0 := by omega
  have advances := Task.advances sound tracks positive
  rw [passed] at advances
  generalize next : Task.advance n d.agenda d.channel = answer at advances
  generalize verdict : (outcome, final) = answer' at advances passed
  cases advances with
  | @ended c l' silent tracks' =>
    obtain ⟨rfl, rfl⟩ := Prod.mk.inj verdict
    let d' := { d with agenda := [], channel := c, staged := [] }
    have read : d.read n = (.ok [], d') := by
      simp [d', Decoder.read, alive, staged, next, nonzero]
    exact ⟨d', read, alive, rfl, rfl, tracks'⟩
  | @failed e agenda c l' silent parted =>
    obtain ⟨rfl, rfl⟩ := Prod.mk.inj verdict
    let d' := { d with agenda, channel := c, failed := some e }
    have read : d.read n = (.error e, d') := by
      simp [d', Decoder.read, alive, staged, next, nonzero]
    exact ⟨d', read, rfl, parted⟩
  | @sent b bytes agenda c l' sent _ _ =>
    obtain ⟨later', appended⟩ := (Task.keeps_passAll agenda l').delivered
    rw [← verdict, sent, final_eq, List.append_assoc] at appended
    have := List.append_cancel_left appended
    simp at this

/-- A decoder gives the tagged bytes of its layout. -/
def Supply.decoder (supply : Supply σ) (outcome : Except Error Unit) (final : Ledger) :
    Supply (Decoder σ) where
  Holds bytes d := d.Holds supply outcome final bytes
  failure := Decoder.failureOf outcome
  Spent d := d.Spent supply final outcome
  calm _ interrupted := absurd (ByteStream.interrupted interrupted) (Nat.not_lt_zero _)
  more := by
    intro bytes d _ n answer holds some_left positive answered
    obtain ⟨b, first, later, d', split, bound, read, holds'⟩ :=
      Decoder.read_more holds some_left positive
    simp only [ByteStream.read, read, Prod.mk.injEq, Option.some.injEq] at answered
    obtain ⟨rfl, rfl⟩ := answered
    exact ⟨b, first, later, split, bound, rfl, holds'⟩
  stop := by
    intro d _ n answer holds positive answered
    obtain ⟨d', read, spent⟩ := Decoder.read_stop holds positive
    cases outcome <;>
      simp only [ByteStream.read, read, Except.map, Prod.mk.injEq, Option.some.injEq] at answered <;>
      exact ⟨answered.1.symm, answered.2 ▸ spent⟩

namespace Decoder

/-- A decoder that starts with some properties. -/
def seeded (layout : Layout) (source : σ) (properties : Properties) : Decoder σ where
  layout := layout
  channel := { source, properties }
  agenda := layout.tasks

/-- What has been read from a decoder, how its stream ended if it did, and the decoder behind it. -/
structure Drained (σ : Type) where
  bytes : Bytes
  outcome : Option (Except Error Unit)
  decoder : Decoder σ

/-- Reads with requests of the given sizes until the stream ends or fails. -/
def drain : List Nat → Decoder σ → Drained σ
  | [], d => ⟨[], none, d⟩
  | n :: sizes, d =>
    match d.read n with
    | (.error e, d) => ⟨[], some (.error e), d⟩
    | (.ok [], d) => ⟨[], some (.ok ()), d⟩
    | (.ok (b :: first), d) => { d.drain sizes with bytes := b :: first ++ (d.drain sizes).bytes }

/-- A decoder over a supply holds what a single pass delivers. -/
theorem holds_seeded {layout : Layout} (sound : layout.Sound) {wire after : Bytes} {source : σ}
    (holds : supply.Holds wire source) (properties : Properties) :
    (seeded layout source properties).Holds supply
      (layout.decodeOnce ⟨wire, supply.failure, after⟩ properties).1
      (layout.decodeOnce ⟨wire, supply.failure, after⟩ properties).2
      (layout.decodeOnce ⟨wire, supply.failure, after⟩ properties).2.delivered where
  alive := rfl
  sound := Task.sound_tasks sound
  pass := by
    refine ⟨⟨[], ⟨wire, supply.failure, after⟩, properties⟩, _, ⟨holds, rfl, rfl⟩, ?_,
      (List.nil_append _).symm, rfl⟩
    rw [Layout.decodeOnce, ← Task.passAll_tasks]
    rfl

/-- What is drained from a decoder is what it holds, and more requests than bytes reach its end. -/
theorem drain_spec {outcome : Except Error Unit} {final : Ledger} {bytes : Bytes} {d : Decoder σ}
    (holds : d.Holds supply outcome final bytes) {sizes : List Nat}
    (positive : ∀ n ∈ sizes, 0 < n) :
    match (d.drain sizes).outcome with
    | none => (d.drain sizes).bytes <+: bytes ∧ sizes.length ≤ (d.drain sizes).bytes.length
    | some reached =>
      reached = outcome ∧ (d.drain sizes).bytes = bytes ∧
        (d.drain sizes).decoder.Spent supply final outcome := by
  induction sizes generalizing bytes d with
  | nil => exact ⟨List.nil_prefix, Nat.le_refl 0⟩
  | cons n sizes ih =>
    have n_pos := positive n List.mem_cons_self
    have sizes_pos : ∀ n ∈ sizes, 0 < n := by
      intro n member
      exact positive n (List.mem_cons_of_mem _ member)
    by_cases none_left : bytes = []
    · subst none_left
      obtain ⟨d', read, spent⟩ := read_stop holds n_pos
      rw [drain, read]
      cases outcome <;> exact ⟨rfl, rfl, spent⟩
    · obtain ⟨b, first, later, d', rfl, bound, read, holds'⟩ := read_more holds none_left n_pos
      have rest := ih holds' sizes_pos
      simp only [drain, read]
      cases reached : (d'.drain sizes).outcome with
      | none =>
        rw [reached] at rest
        refine ⟨(List.prefix_append_right_inj _).mpr rest.1, ?_⟩
        have := rest.2
        simp only [List.length_cons, List.length_append]
        omega
      | some o =>
        rw [reached] at rest
        exact ⟨rest.1, congrArg (b :: first ++ ·) rest.2.1, rest.2.2⟩

end Decoder

end TagWire
