import TagWire.Sink

/-!
# What a sink receives

A sink is known by the bytes that it has received. Bytes that are written are received in order, all of
them, or those in front of the bytes that are left when the sink fails.

- `ByteSink.Keeps`: what a sink has received grows by what it accepts.
- `Writing.Delivers`: how a writing of bytes ends.
- `Writing.delivers_each`, `Writing.each_ok`: bytes that are written part by part.
-/

namespace TagWire

variable {σ : Type}

/-- What a sink has received behind an offer: the bytes that it has accepted, and no others. -/
def ByteSink.Grows (received : σ → Bytes) (s : σ) (bytes : Bytes) :
    Option (Except WriteError Nat) × σ → Prop
  | (some (.ok n), s') => n ≤ bytes.length ∧ received s' = received s ++ bytes.take n
  | (_, s') => received s' = received s

def ByteSink.Keeps [ByteSink σ] (received : σ → Bytes) : Prop :=
  ∀ s bytes, Grows received s bytes (write s bytes)

/-- A sink that accepts something of all that it is offered, if it answers. -/
def ByteSink.Willing (σ : Type) [ByteSink σ] : Prop :=
  ∀ (s s' : σ) (b : UInt8) (rest : Bytes) (answer : Except WriteError Nat),
    write s (b :: rest) = (some answer, s') → ∃ n, answer = .ok (n + 1)

theorem Bytes.keeps : ByteSink.Keeps (id : Bytes → Bytes) := fun out _ =>
  ⟨Nat.le_refl _, congrArg (out ++ ·) List.take_length.symm⟩

theorem Bytes.willing : ByteSink.Willing Bytes := by
  intro out _ b rest answer answered
  cases answered
  exact ⟨rest.length, rfl⟩

theorem Sink.keeps : ByteSink.Keeps Sink.received := by
  rintro ⟨acceptances, received⟩ bytes
  cases acceptances with
  | nil => exact ⟨Nat.zero_le _, (List.append_nil _).symm⟩
  | cons acceptance rest =>
    cases acceptance with
    | room n =>
      refine ⟨Nat.min_le_right .., ?_⟩
      rw [← List.take_eq_take_min]
    | interruption | failure => exact rfl

namespace Writing

theorem run_bind_ok {m : Writing σ Unit} {f : Unit → Writing σ Unit} {s s' : σ}
    (h : m.run s = (.ok (), s')) : (m >>= f).run s = (f ()).run s' := by
  change (match m.run s with | (r, t) => (ExceptT.bindCont f r).run t) = _
  rw [h]
  rfl

theorem run_bind_error {m : Writing σ Unit} {f : Unit → Writing σ Unit} {s s' : σ}
    {x : WriteError} (h : m.run s = (.error x, s')) : (m >>= f).run s = (.error x, s') := by
  change (match m.run s with | (r, t) => (ExceptT.bindCont f r).run t) = _
  rw [h]
  rfl

/-- A writing ends with all bytes received, or fails with some of them left. -/
def Delivers (received : σ → Bytes) (s : σ) (bytes : Bytes) :
    Except WriteError Unit × σ → Prop
  | (.ok (), s') => received s' = received s ++ bytes
  | (.error _, s') =>
    ∃ sent left, sent ++ left = bytes ∧ left ≠ [] ∧ received s' = received s ++ sent

variable {received : σ → Bytes}

theorem Delivers.behind {s s' : σ} {first rest : Bytes} {answer : Except WriteError Unit × σ}
    (delivered : received s' = received s ++ first) (further : Delivers received s' rest answer) :
    Delivers received s (first ++ rest) answer := by
  obtain ⟨x | _, s''⟩ := answer
  · obtain ⟨sent, left, rfl, some_left, grown⟩ := further
    refine ⟨first ++ sent, left, List.append_assoc .., some_left, ?_⟩
    rw [grown, delivered, List.append_assoc]
  · have grown : received s'' = received s' ++ rest := further
    change received s'' = received s ++ (first ++ rest)
    rw [grown, delivered, List.append_assoc]

variable [ByteSink σ]

theorem run_all_cons (s : σ) (b : UInt8) (rest : Bytes) :
    (all (b :: rest)).run s =
      match offer s (b :: rest) with
      | (.error e, s) => (.error e, s)
      | (.ok 0, s) => (.error .full, s)
      | (.ok (n + 1), s) => (all (rest.drop n)).run s := by
  rw [all]
  rfl

/-- Behind its interruptions an offer is answered, by a sink that has received nothing more. -/
theorem grows_offer (keeps : ByteSink.Keeps received) (s : σ) (bytes : Bytes) :
    ByteSink.Grows received s bytes ((offer s bytes).map some id) := by
  fun_induction offer s bytes with
  | case1 s answer s' answered =>
    have grown := keeps s bytes
    rwa [answered] at grown
  | case2 s s' interrupted ih =>
    have same : received s' = received s := by
      have grown := keeps s bytes
      rwa [interrupted] at grown
    generalize offer s' bytes = answer at ih
    obtain ⟨x | n, s''⟩ := answer
    · exact Eq.trans ih same
    · exact ⟨ih.1, ih.2.trans (congrArg (· ++ bytes.take n) same)⟩

theorem offer_ok (willing : ByteSink.Willing σ) (s : σ) (b : UInt8) (rest : Bytes) :
    ∃ n s', offer s (b :: rest) = (.ok (n + 1), s') := by
  fun_induction offer s (b :: rest) with
  | case1 s answer s' answered =>
    obtain ⟨n, rfl⟩ := willing s s' b rest answer answered
    exact ⟨n, s', rfl⟩
  | case2 s s' interrupted ih => exact ih

theorem delivers_all (keeps : ByteSink.Keeps received) (bytes : Bytes) (s : σ) :
    Delivers received s bytes ((all bytes).run s) := by
  induction bytes using all.induct generalizing s with
  | case1 =>
    rw [all]
    exact (List.append_nil _).symm
  | case2 b rest ih =>
    have grown := grows_offer keeps s (b :: rest)
    have some_left : b :: rest ≠ [] := List.cons_ne_nil b rest
    rw [run_all_cons]
    generalize offer s (b :: rest) = answer at grown
    obtain ⟨x | _ | n, s'⟩ := answer
    · exact ⟨[], b :: rest, rfl, some_left, Eq.trans grown (List.append_nil _).symm⟩
    · exact ⟨[], b :: rest, rfl, some_left, grown.2⟩
    · have further := (ih n s').behind grown.2
      rwa [List.take_succ_cons, List.cons_append, List.take_append_drop] at further

theorem all_ok (willing : ByteSink.Willing σ) (bytes : Bytes) (s : σ) :
    ∃ s', (all bytes).run s = (.ok (), s') := by
  induction bytes using all.induct generalizing s with
  | case1 => exact ⟨s, by rw [all]; rfl⟩
  | case2 b rest ih =>
    obtain ⟨n, s', accepted⟩ := offer_ok willing s b rest
    rw [run_all_cons, accepted]
    exact ih n s'

section
variable {α : Type} (part : α → Bytes) (xs : List α) (s : σ)

/-- Bytes that are written part by part are received as if they were one. -/
theorem delivers_each (keeps : ByteSink.Keeps received) :
    Delivers received s (xs.flatMap part) ((xs.forM fun x => all (part x)).run s) := by
  induction xs generalizing s with
  | nil => exact (List.append_nil _).symm
  | cons x rest ih =>
    change Delivers received s (part x ++ rest.flatMap part)
      ((all (part x) >>= fun _ => rest.forM fun x => all (part x)).run s)
    have first := delivers_all keeps (part x) s
    generalize run : (all (part x)).run s = answer at first
    obtain ⟨e | _, s'⟩ := answer
    · rw [run_bind_error run]
      obtain ⟨sent, left, together, some_left, grown⟩ := first
      refine ⟨sent, left ++ rest.flatMap part, ?_, ?_, grown⟩
      · rw [← List.append_assoc, together]
      · exact List.append_ne_nil_of_left_ne_nil some_left _
    · rw [run_bind_ok run]
      exact (ih s').behind first

theorem each_ok (willing : ByteSink.Willing σ) :
    ∃ s', (xs.forM fun x => all (part x)).run s = (.ok (), s') := by
  induction xs generalizing s with
  | nil => exact ⟨s, rfl⟩
  | cons x rest ih =>
    obtain ⟨s', first⟩ := all_ok willing (part x) s
    change ∃ s'', (all (part x) >>= fun _ => rest.forM fun x => all (part x)).run s = (.ok (), s'')
    rw [run_bind_ok first]
    exact ih s'

end

end Writing

end TagWire
