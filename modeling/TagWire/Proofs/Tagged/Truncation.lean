import TagWire.Proofs.Tagged.Reading

/-!
# Messages that end early

A reading asks for bytes only when it cannot do without them. What it accepts is therefore exhausted
by every byte string that ends earlier.

- `Takes`: a reading takes bytes as a whole, and is exhausted by less.
- `Thorough`: a reading takes whatever it accepts as a whole.
- `Tagged.thorough_readMessage`: this holds of whole messages.
-/

namespace TagWire.Tagged

variable {α β : Type}

/-- The reading ends because there are not enough bytes. -/
def Exhausts (m : Reading Bytes α) (bytes : Bytes) : Prop :=
  ∃ context missing, (m.run bytes).1 = .error (.exhausted context missing)

/-- The reading takes `taken` from the front of bytes and gives `a`, and it is exhausted by bytes
that end earlier. -/
structure Takes (m : Reading Bytes α) (taken : Bytes) (a : α) : Prop where
  yields : Yields m taken a
  short : ∀ {first later}, taken = first ++ later → later ≠ [] → Exhausts m first

/-- The reading takes whatever it accepts as a whole. -/
def Thorough (m : Reading Bytes α) : Prop :=
  ∀ bytes a rest, m.run bytes = (.ok a, rest) → ∃ taken, bytes = taken ++ rest ∧ Takes m taken a

theorem Exhausts.bind {m : Reading Bytes α} {bytes : Bytes} (exhausts : Exhausts m bytes)
    (f : α → Reading Bytes β) : Exhausts (m >>= f) bytes := by
  obtain ⟨context, missing, ended⟩ := exhausts
  refine ⟨context, missing, ?_⟩
  generalize run : m.run bytes = answer at ended
  obtain ⟨_, rest⟩ := answer
  obtain rfl := ended
  rw [Reading.run_bind_error run]

theorem Exhausts.behind {m : Reading Bytes α} {f : α → Reading Bytes β} {bytes rest : Bytes} {a : α}
    (run : m.run bytes = (.ok a, rest)) (exhausts : Exhausts (f a) rest) :
    Exhausts (m >>= f) bytes := by
  rw [Exhausts, Reading.run_bind_ok run]
  exact exhausts

namespace Takes

theorem done (a : α) : Takes (pure a) [] a where
  yields := .done a
  short split some_left := absurd (List.append_eq_nil_iff.mp split.symm).2 some_left

/-- Bytes that end within the second part are exhausted by the second reading. -/
theorem bind {m : Reading Bytes α} {f : α → Reading Bytes β} {taken more : Bytes} {a : α} {b : β}
    (first : Takes m taken a) (second : Takes (f a) more b) :
    Takes (m >>= f) (taken ++ more) b where
  yields := first.yields.bind second.yields
  short {bytes later} split some_left := by
    rcases List.append_eq_append_iff.mp split with ⟨within, rfl, more_eq⟩ | ⟨lacking, taken_eq, rfl⟩
    · exact (second.short more_eq some_left).behind (first.yields within)
    · by_cases whole : lacking = []
      · subst whole
        rw [List.append_nil] at taken_eq
        subst taken_eq
        have run := first.yields []
        rw [List.append_nil] at run
        exact (second.short (List.nil_append _).symm some_left).behind run
      · exact (first.short taken_eq whole).bind f

end Takes

namespace Thorough

theorem done (a : α) : Thorough (pure a) := by
  intro bytes b rest run
  cases run
  exact ⟨[], rfl, .done a⟩

theorem failed (e : Error) : Thorough (throw e : Reading Bytes α) := by
  intro bytes a rest run
  cases run

theorem bind {m : Reading Bytes α} {f : α → Reading Bytes β} (first : Thorough m)
    (second : ∀ a, Thorough (f a)) : Thorough (m >>= f) := by
  intro bytes b rest run
  generalize began : m.run bytes = answer
  obtain ⟨e | a, left⟩ := answer
  · rw [Reading.run_bind_error began] at run
    cases run
  · rw [Reading.run_bind_ok began] at run
    obtain ⟨taken, rfl, takes⟩ := first bytes a left began
    obtain ⟨more, rfl, takes'⟩ := second a left b rest run
    exact ⟨taken ++ more, (List.append_assoc ..).symm, takes.bind takes'⟩

/-- A demand for bytes takes as many as are asked for. -/
theorem demand (context : String) (n : Nat) (missing : Bytes → Nat) :
    Thorough
      (do
        let bytes ← Reading.upTo context n
        if bytes.length < n then throw (.exhausted context (missing bytes)) else return bytes) := by
  have short (bytes : Bytes) (lacking : bytes.length < n) :
      Exhausts (do
        let bytes ← Reading.upTo context n
        if bytes.length < n then throw (.exhausted context (missing bytes)) else return bytes)
        bytes := by
    refine Exhausts.behind (Reading.run_upTo context n bytes) ⟨context, missing (bytes.take n), ?_⟩
    rw [if_pos (by rw [List.length_take]; omega)]
    rfl
  intro bytes a rest run
  by_cases enough : n ≤ bytes.length
  · have size : (bytes.take n).length = n := List.length_take_of_le enough
    rw [Reading.run_bind_ok (Reading.run_upTo context n bytes), if_neg (by omega)] at run
    cases run
    refine ⟨bytes.take n, (List.take_append_drop n bytes).symm, ?_, ?_⟩
    · apply (Yields.upTo context size).bind_silent
      rw [if_neg (by omega)]
      exact .done _
    · intro first later split some_left
      apply short
      have lengths := congrArg List.length split
      rw [size, List.length_append] at lengths
      have := List.length_pos_iff.mpr some_left
      omega
  · obtain ⟨_, _, ended⟩ := short bytes (Nat.lt_of_not_le enough)
    rw [run] at ended
    cases ended

theorem partwise : Partwise fun _ m (_ : Reading Bytes _) => Thorough m where
  done := done
  failed _ := failed _
  bind := bind
  demand := demand

end Thorough

/-- A message that is accepted is exhausted by each of its beginnings. -/
theorem thorough_readMessage : Thorough readMessage := Thorough.partwise.readMessage

/-- Bytes that end within a message are exhausted. -/
theorem decode_short {bytes p : Bytes} {v : Value} (message : Message bytes v)
    (within : p <+: bytes) (strict : p ≠ bytes) :
    ∃ context missing, decode p = .error (.exhausted context missing) := by
  obtain ⟨later, rfl⟩ := within
  obtain ⟨taken, bytes_eq, takes⟩ := thorough_readMessage _ v [] (decode_message message)
  rw [List.append_nil] at bytes_eq
  apply takes.short bytes_eq.symm
  rintro rfl
  exact strict (List.append_nil p).symm

end TagWire.Tagged
