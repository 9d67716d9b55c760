import TagWire.Proofs.Decoder.OnePass

/-!
# Readings that follow a pass

A reading over a supply follows a part of a pass if it gives the same answer, leaves the same
properties and takes the same bytes from its source, whatever the requests that the source answers.

- `Follows`: readings that send nothing, such as those of lengths and hidden data.
- `Sends`: readings that hand on what the pass delivers.
- `Follows.hidden`, `Sends.forward`: the readings of a decoder.
-/

namespace TagWire

variable {σ α β : Type} [ByteStream σ]

/-- A channel gives what its source gives, and its properties stay. -/
def Supply.channel (supply : Supply σ) (properties : Properties) : Supply (Channel σ) where
  Holds wire c := supply.Holds wire c.source ∧ c.properties = properties
  failure := supply.failure
  Spent c := supply.Spent c.source ∧ c.properties = properties
  calm := by
    rintro wire c _ n ⟨holds, properties⟩ answered
    obtain ⟨interrupted, rfl⟩ := Prod.mk.inj answered
    exact ⟨supply.calm holds (Prod.ext interrupted rfl), properties⟩
  more := by
    rintro wire c _ n answer ⟨holds, properties⟩ some_left positive answered
    obtain ⟨found, rfl⟩ := Prod.mk.inj answered
    obtain ⟨b, first, later, split, bound, given, holds'⟩ :=
      supply.more holds some_left positive (Prod.ext found rfl)
    exact ⟨b, first, later, split, bound, given, holds', properties⟩
  stop := by
    rintro c _ n answer ⟨holds, properties⟩ positive answered
    obtain ⟨found, rfl⟩ := Prod.mk.inj answered
    obtain ⟨given, spent⟩ := supply.stop holds positive (Prod.ext found rfl)
    exact ⟨given, spent, properties⟩

/-- The channel and the ledger have the same bytes before them, and the same properties. -/
structure Tracks (supply : Supply σ) (c : Channel σ) (l : Ledger) : Prop where
  holds : supply.Holds l.wire c.source
  failure : l.contents.failure = supply.failure
  properties : c.properties = l.properties

/-- The channel and the ledger after an error: the bytes may be used up, and their end met. -/
structure Parted (supply : Supply σ) (c : Channel σ) (l : Ledger) : Prop where
  source : supply.Holds l.wire c.source ∨ l.wire = [] ∧ supply.Spent c.source
  properties : c.properties = l.properties

theorem Tracks.parted {supply : Supply σ} {c : Channel σ} {l : Ledger} (h : Tracks supply c l) :
    Parted supply c l :=
  ⟨.inl h.holds, h.properties⟩

/-- How a reading and a part of a pass end that start from the same bytes, and deliver nothing. -/
inductive Ends (supply : Supply σ) (delivered : Bytes) :
    Except Error α × Channel σ → Except Error α × Ledger → Prop
  | ok {a c l} (silent : l.delivered = delivered) (tracks : Tracks supply c l) :
      Ends supply delivered (.ok a, c) (.ok a, l)
  | error {e c l} (silent : l.delivered = delivered) (parted : Parted supply c l) :
      Ends supply delivered (.error e, c) (.error e, l)

/-- How a reading ends that hands on what a part of a pass delivers. -/
inductive Hands (supply : Supply σ) (delivered : Bytes) :
    Except Error Bytes × Channel σ → Except Error Unit × Ledger → Prop
  | ok {bytes c l} (sent : l.delivered = delivered ++ bytes) (tracks : Tracks supply c l) :
      Hands supply delivered (.ok bytes, c) (.ok (), l)
  | error {e c l} (parted : Parted supply c l) : Hands supply delivered (.error e, c) (.error e, l)

/-- The reading does what the part of the pass does, which delivers nothing. -/
def Follows (supply : Supply σ) (m : Reading (Channel σ) α) (p : Pass α) : Prop :=
  ∀ c l, Tracks supply c l → Ends supply l.delivered (m.run c) (p.run l)

/-- The reading hands on what the part of the pass delivers. -/
def Sends (supply : Supply σ) (m : Reading (Channel σ) Bytes) (p : Pass Unit) : Prop :=
  ∀ c l, Tracks supply c l → Hands supply l.delivered (m.run c) (p.run l)

namespace Follows

variable {supply : Supply σ}

theorem done (a : α) : Follows supply (pure a) (pure a) := fun _ _ tracks => .ok rfl tracks

theorem failed (e : Error) : Follows supply (throw e : Reading (Channel σ) α) (throw e) :=
  fun _ _ tracks => .error rfl tracks.parted

theorem bind {m : Reading (Channel σ) α} {p : Pass α} {f : α → Reading (Channel σ) β}
    {q : α → Pass β} (first : Follows supply m p) (rest : ∀ a, Follows supply (f a) (q a)) :
    Follows supply (m >>= f) (p >>= q) := by
  intro c l tracks
  have ends := first c l tracks
  generalize hm : m.run c = answer, hp : p.run l = answer' at ends
  cases ends with
  | @ok a c' l' silent tracks' =>
    rw [Reading.run_bind_ok hm, Pass.run_bind_ok hp, ← silent]
    exact rest a c' l' tracks'
  | error silent parted =>
    rw [Reading.run_bind_error hm, Pass.run_bind_error hp]
    exact .error silent parted

theorem exactly (origin : String) (n : Nat) :
    Follows supply (Reading.exactly origin n) (Pass.exactly origin n) := by
  intro c l tracks
  have holds : (supply.channel l.properties).Holds l.wire c := ⟨tracks.holds, tracks.properties⟩
  by_cases enough : n ≤ l.wire.length
  · rw [← List.take_append_drop n l.wire] at holds
    obtain ⟨c', gathered, holds'⟩ := Supply.gather_enough _ holds
    rw [List.length_take_of_le enough] at gathered
    have taken : (Reading.exactly origin n).run c = (.ok (l.wire.take n), c') := by
      rw [Reading.exactly, Reading.run_bind_ok (Reading.run_upTo_ok gathered origin)]
      simp [List.length_take_of_le enough, Reading.run_pure]
    have passed : (Pass.exactly origin n).run l =
        (.ok (l.wire.take n), l.withWire (l.wire.drop n)) := by
      simp [Pass.exactly, ExceptT.run, enough]
    rw [taken, passed]
    exact .ok rfl ⟨holds'.1, tracks.failure, holds'.2⟩
  · obtain ⟨c', gathered, spent⟩ := Supply.gather_short _ holds (Nat.lt_of_not_le enough)
    have failed : (Reading.exactly origin n).run c =
        (.error (l.contents.shortage origin (n - l.wire.length)), c') := by
      rw [Contents.shortage_eq_getD, tracks.failure]
      apply Reading.run_bind_ending (Reading.run_upTo_gather gathered origin)
      rw [if_pos (Nat.lt_of_not_le enough), Reading.run_throw]
    have passed : (Pass.exactly origin n).run l =
        (.error (l.contents.shortage origin (n - l.wire.length)), l.withWire []) := by
      simp [Pass.exactly, ExceptT.run, enough]
    rw [failed, passed]
    exact .error rfl ⟨.inr ⟨rfl, spent.1⟩, spent.2⟩

theorem length (origin : String) :
    Follows supply (Task.readLength origin) (Pass.length origin) := by
  apply (exactly origin 4).bind
  intro bytes
  dsimp only
  cases (Word.ofBytes bytes).length? with
  | some n => exact done n
  | none => exact failed _

theorem times {m : Reading (Channel σ) α} {p : Pass α} (part : Follows supply m p) (n : Nat) :
    Follows supply (Reading.times m n) (Pass.times p n) := by
  induction n with
  | zero => exact done []
  | succ n ih => exact part.bind fun first => ih.bind fun rest => done (first :: rest)

theorem hiddenElements (p : Payload) (n : Nat) :
    Follows supply
      (match p.wireSize? with
        | some size => Reading.exactly p.origin (n * size)
        | none => do
          let elements ← Reading.times (do Reading.exactly p.origin (← Task.readLength p.origin)) n
          return elements.flatten)
      (Pass.hiddenElements p n) := by
  unfold Pass.hiddenElements
  cases p.wireSize? with
  | some size => exact exactly p.origin (n * size)
  | none =>
    have element : Follows supply (do Reading.exactly p.origin (← Task.readLength p.origin))
        (do Pass.exactly p.origin (← Pass.length p.origin)) :=
      (length p.origin).bind fun n => exactly p.origin n
    exact (element.times n).bind fun elements => done elements.flatten

theorem hidden (p : Payload) : Follows supply (Task.hiddenBytes p) (Pass.hidden p) := by
  unfold Task.hiddenBytes Pass.hidden
  cases p.count with
  | fixed n => exact (done n).bind (hiddenElements p)
  | fromWire => exact (length p.origin).bind (hiddenElements p)

theorem element (p : Payload) : Follows supply (Task.convertElement p) (Pass.element p) := by
  apply (exactly _ _).bind
  intro wire
  cases Task.tagged p wire with
  | ok bytes => exact done bytes
  | error e => exact failed e

theorem hide (p : Payload) : Follows supply (Task.readHidden p) (Pass.hide p) := by
  apply (hidden p).bind
  intro bytes
  cases p.use with
  | saved name =>
    intro c l tracks
    have properties : c.properties.put name (Task.saved p bytes) =
        l.properties.put name (Task.saved p bytes) := by
      rw [tracks.properties]
    exact .ok rfl ⟨tracks.holds, tracks.failure, properties⟩
  | skipped | loaded | exchanged => exact done ()

theorem derive (derivation : Derivation) :
    Follows supply (Task.deriveProperties derivation) (Pass.derive derivation) := by
  intro c l tracks
  rw [Pass.run_derive, ← tracks.properties, Task.deriveProperties,
    Reading.run_bind_ok (Reading.run_get c)]
  cases c.properties.derive derivation with
  | ok properties => exact .ok rfl ⟨tracks.holds, tracks.failure, rfl⟩
  | error e => exact .error rfl tracks.parted

end Follows

namespace Sends

variable {supply : Supply σ}

variable (supply) in
theorem deliver (bytes : Bytes) : Sends supply (pure bytes) (Pass.deliver bytes) :=
  fun _ _ tracks => .ok rfl ⟨tracks.holds, tracks.failure, tracks.properties⟩

variable (supply) in
theorem nothing :
    Sends supply (pure []) (pure ()) := fun _ l tracks =>
      .ok (List.append_nil l.delivered).symm tracks

theorem bind {m : Reading (Channel σ) α} {p : Pass α} {f : α → Reading (Channel σ) Bytes}
    {q : α → Pass Unit} (first : Follows supply m p) (rest : ∀ a, Sends supply (f a) (q a)) :
    Sends supply (m >>= f) (p >>= q) := by
  intro c l tracks
  have ends := first c l tracks
  generalize hm : m.run c = answer, hp : p.run l = answer' at ends
  cases ends with
  | @ok a c' l' silent tracks' =>
    rw [Reading.run_bind_ok hm, Pass.run_bind_ok hp, ← silent]
    exact rest a c' l' tracks'
  | error silent parted =>
    rw [Reading.run_bind_error hm, Pass.run_bind_error hp]
    exact .error parted

theorem append {m m' : Reading (Channel σ) Bytes} {p q : Pass Unit} (first : Sends supply m p)
    (rest : Sends supply m' q) :
    Sends supply (do let bytes ← m; let others ← m'; return bytes ++ others) (do p; q) := by
  intro c l tracks
  have hands := first c l tracks
  generalize hm : m.run c = answer, hp : p.run l = answer' at hands
  cases hands with
  | @ok bytes c' l' sent tracks' =>
    rw [Reading.run_bind_ok hm, Pass.run_bind_ok hp]
    have hands := rest c' l' tracks'
    generalize hm : m'.run c' = answer, hp : q.run l' = answer' at hands
    cases hands with
    | ok sent' tracks'' =>
      rw [Reading.run_bind_ok hm]
      exact .ok (by rw [sent', sent, List.append_assoc]) tracks''
    | error parted =>
      rw [Reading.run_bind_error hm]
      exact .error parted
  | error parted =>
    rw [Reading.run_bind_error hm, Pass.run_bind_error hp]
    exact .error parted

/-- Bytes that are delivered as soon as they are read. -/
theorem of_follows {m : Reading (Channel σ) Bytes} {p : Pass Bytes} (h : Follows supply m p) :
    Sends supply m (do Pass.deliver (← p)) := by
  have sends := bind h fun bytes => deliver supply bytes
  rwa [bind_pure] at sends

theorem repeated {m : Reading (Channel σ) Bytes} {p : Pass Unit} (part : Sends supply m p)
    (n : Nat) :
    Sends supply (List.flatten <$> Reading.times m n) (Pass.repeated p n) := by
  induction n with
  | zero => exact nothing supply
  | succ n ih =>
    have sends := part.append ih
    have unfolded : List.flatten <$> Reading.times m (n + 1) = (do
        let bytes ← m
        let others ← List.flatten <$> Reading.times m n
        return bytes ++ others) := by
      simp [Reading.times]
    rw [unfolded]
    exact sends

theorem forward (origin : String) (n : Nat) :
    Sends supply (Reading.exactly origin n) (Pass.forward origin n) := by
  intro c l tracks
  have ends := Follows.exactly origin n c l tracks
  rw [Pass.run_exactly] at ends
  rw [Pass.run_forward]
  generalize (Reading.exactly origin n).run c = answer at ends ⊢
  by_cases enough : n ≤ l.wire.length
  · simp only [enough, ↓reduceIte] at ends ⊢
    cases ends with
    | ok _ tracks' => exact .ok rfl ⟨tracks'.holds, tracks'.failure, tracks'.properties⟩
  · simp only [enough, ↓reduceIte] at ends ⊢
    cases ends with
    | error _ parted => exact .error ⟨parted.source, parted.properties⟩

theorem text (origin : String) : Sends supply (Task.text origin) (Pass.text origin) :=
  bind (.length origin) fun n => by
    have sends := (deliver supply (Task.lengthBytes n)).append (forward origin n)
    simpa using sends

theorem elements (p : Payload) (n : Nat) :
    Sends supply (Task.elements p n) (Pass.elements p n) := by
  unfold Task.elements Pass.elements
  cases p.kind.size? with
  | none => exact repeated (text p.origin) n
  | some size =>
    cases p.conversion with
    | identity => exact forward p.origin (n * size)
    | narrow | pad => exact repeated (of_follows (.element p)) n

theorem loaded (name origin : String) (literal : Option Int64) (size : Nat) :
    Sends supply (Task.loaded name origin literal size) (Pass.loaded name origin literal size) := by
  intro c l tracks
  rw [Task.loaded, Reading.run_bind_ok (Reading.run_get c), Pass.loaded,
    Pass.run_bind_ok (Reading.run_get l),
    tracks.properties]
  cases literal <|> l.properties.int? name with
  | some v => exact deliver supply _ c l tracks
  | none => exact .error tracks.parted

theorem counted (p : Payload) : Sends supply (Task.run (.counted p)) (Pass.counted p) :=
  bind (.length p.origin) fun n => by
    have sends := (deliver supply (Task.lengthBytes n)).append (elements p n)
    simpa using sends

theorem silent {m : Reading (Channel σ) Unit} {p : Pass Unit} (h : Follows supply m p) :
    Sends supply (do m; return []) p := by
  have sends := bind h fun _ => nothing supply
  rwa [Pass.bind_unit] at sends

end Sends

end TagWire
