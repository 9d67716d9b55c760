import TagWire.Proofs.Decoder.OnePass

/-!
# Where a pass stops

A pass takes bytes only when it cannot do without them. What it makes of bytes it makes of them
whatever is behind them, and it falls short over every piece of them from the front, after it has
delivered no more than it delivers over all of them.

- `Pass.Takes`: the bytes that a part of a pass takes, and what becomes of it with fewer.
- `Pass.Delimited`: a part of a pass that takes its bytes as a whole wherever it comes to its end.
- `Layout.decodeOnce_delimited`: this holds of whole messages.
-/

namespace TagWire

/-- The ledger over another source. -/
def Ledger.withContents (l : Ledger) (contents : Contents) : Ledger := { l with contents }

namespace Pass

variable {α β : Type}

/-- Between two ledgers the part of the pass takes `taken`, gives `a`, and does so over any source
that begins with these bytes. A source that ends earlier falls short. -/
structure Takes (p : Pass α) (l l' : Ledger) (taken : Bytes) (a : α) : Prop where
  wire : l.wire = taken ++ l'.wire
  delivered : l.delivered <+: l'.delivered
  whole : ∀ c rest, c.wire = taken ++ rest →
    p.run (l.withContents c) = (.ok a, l'.withContents { c with wire := rest })
  short : ∀ c later, taken = c.wire ++ later → later ≠ [] →
    ∃ origin missing l'', p.run (l.withContents c) = (.error (c.shortage origin missing), l'') ∧
      l''.delivered <+: l'.delivered

/-- The part of the pass takes its bytes as a whole wherever it comes to its end. -/
def Delimited (p : Pass α) : Prop :=
  ∀ l a l', p.run l = (.ok a, l') → ∃ taken, Takes p l l' taken a

/-- A part of a pass that does not look at the source takes nothing. -/
theorem Takes.still {p : Pass α} {l l' : Ledger} {a : α}
    (same : ∀ c, p.run (l.withContents c) = (.ok a, l'.withContents c)) (contents : l'.contents = l.contents)
    (delivered : l.delivered <+: l'.delivered) : Takes p l l' [] a where
  wire := by rw [List.nil_append, Ledger.wire, Ledger.wire, contents]
  delivered := delivered
  whole c rest split := by
    rw [List.nil_append] at split
    subst split
    exact same c
  short c later split some_left :=
    absurd (List.append_eq_nil_iff.mp split.symm).2 some_left

namespace Delimited

theorem done (a : α) : Delimited (pure a) := by
  intro l b l' run
  cases run
  exact ⟨[], .still (fun _ => rfl) rfl (List.prefix_refl _)⟩

theorem failed (e : Error) : Delimited (throw e : Pass α) := by
  intro l a l' run
  cases run

/-- Bytes that end within the second part are too few for it, and others for the first. -/
theorem bind {p : Pass α} {q : α → Pass β} (first : Delimited p) (second : ∀ a, Delimited (q a)) :
    Delimited (p >>= q) := by
  intro l b l'' run
  obtain ⟨a, l', began, went⟩ := bind_ok run
  obtain ⟨taken, head⟩ := first l a l' began
  obtain ⟨more, tail⟩ := second a l' b l'' went
  refine ⟨taken ++ more, ?_, head.delivered.trans tail.delivered, ?_, ?_⟩
  · rw [head.wire, tail.wire, List.append_assoc]
  · intro c rest split
    rw [List.append_assoc] at split
    rw [run_bind_ok (head.whole c (more ++ rest) split)]
    exact tail.whole { c with wire := more ++ rest } rest rfl
  · intro c later split some_left
    rcases List.append_eq_append_iff.mp split with ⟨within, wire_eq, more_eq⟩ |
      ⟨lacking, taken_eq, later_eq⟩
    · rw [run_bind_ok (head.whole c within wire_eq)]
      exact tail.short { c with wire := within } later more_eq some_left
    · by_cases none_lacking : lacking = []
      · subst none_lacking
        rw [List.append_nil] at taken_eq
        rw [List.nil_append] at later_eq
        rw [run_bind_ok (head.whole c [] (by rw [taken_eq, List.append_nil]))]
        exact tail.short { c with wire := [] } later later_eq.symm some_left
      · obtain ⟨origin, missing, left, ended, kept⟩ := head.short c lacking taken_eq none_lacking
        exact ⟨origin, missing, left, run_bind_error ended, kept.trans tail.delivered⟩

end Delimited

theorem delimited_deliver (bytes : Bytes) : Delimited (deliver bytes) := by
  intro l a l' run
  cases run
  exact ⟨[], .still (fun _ => rfl) rfl (List.prefix_append _ _)⟩

theorem delimited_exactly (origin : String) (n : Nat) : Delimited (exactly origin n) := by
  intro l bytes l' run
  obtain ⟨size, split, left⟩ := exactly_ok run
  refine ⟨bytes, split, ?_, ?_, ?_⟩
  · rw [left]
    exact List.prefix_refl _
  · intro c rest c_split
    have wire_eq : (l.withContents c).wire = bytes ++ rest := c_split
    rw [run_exactly, wire_eq, List.take_left' size, List.drop_left' size,
      if_pos (by rw [List.length_append]; omega), left]
    rfl
  · intro c later c_split some_left
    have lacking : c.wire.length < n := by
      rw [← size, c_split, List.length_append]
      have := List.length_pos_iff.mpr some_left
      omega
    refine ⟨origin, n - c.wire.length, (l.withContents c).withWire [], ?_, ?_⟩
    · rw [run_exactly]
      exact if_neg (Nat.not_le_of_lt lacking)
    · rw [left]
      exact List.prefix_refl _

theorem delimited_forward (origin : String) (n : Nat) : Delimited (forward origin n) := by
  intro l a l' run
  rw [run_forward] at run
  split at run
  · rename_i enough
    have size : (l.wire.take n).length = n := List.length_take_of_le enough
    generalize taken_eq : l.wire.take n = taken at run size
    cases run
    refine ⟨taken, ?_, List.prefix_append _ _, ?_, ?_⟩
    · rw [← taken_eq]
      exact (List.take_append_drop n l.wire).symm
    · intro c rest split
      have wire_eq : (l.withContents c).wire = taken ++ rest := split
      rw [run_forward, wire_eq, List.take_left' size, List.drop_left' size,
        if_pos (by rw [List.length_append]; omega)]
      rfl
    · intro c later split some_left
      have lacking : c.wire.length < n := by
        rw [← size, split, List.length_append]
        have := List.length_pos_iff.mpr some_left
        omega
      refine ⟨origin, n - c.wire.length,
        { (l.withContents c).withWire [] with delivered := l.delivered ++ c.wire.take n }, ?_, ?_⟩
      · rw [run_forward]
        exact if_neg (Nat.not_le_of_lt lacking)
      · refine (List.prefix_append_right_inj l.delivered).mpr ?_
        rw [split]
        exact (List.take_prefix n c.wire).trans (List.prefix_append _ _)
  · cases run

theorem delimited_length (origin : String) : Delimited (length origin) := by
  apply (delimited_exactly origin 4).bind
  intro bytes
  dsimp only
  cases (Word.ofBytes bytes).length? with
  | some n => exact .done n
  | none => exact .failed _

theorem delimited_times {p : Pass α} (part : Delimited p) (n : Nat) : Delimited (times p n) := by
  induction n with
  | zero => exact .done []
  | succ n ih => exact part.bind fun first => ih.bind fun rest => .done (first :: rest)

theorem delimited_repeated {p : Pass Unit} (part : Delimited p) (n : Nat) :
    Delimited (repeated p n) := by
  induction n with
  | zero => exact .done ()
  | succ n ih => exact part.bind fun _ => ih

theorem delimited_converted (p : Payload) : Delimited (do deliver (← element p)) := by
  have read : Delimited (element p) := by
    apply (delimited_exactly _ _).bind
    intro wire
    cases Task.tagged p wire with
    | ok bytes => exact .done bytes
    | error e => exact .failed e
  exact read.bind delimited_deliver

theorem delimited_text (origin : String) : Delimited (text origin) := by
  apply (delimited_length origin).bind
  intro n
  exact (delimited_deliver _).bind fun _ => delimited_forward origin n

theorem delimited_elements (p : Payload) (n : Nat) : Delimited (elements p n) := by
  unfold elements
  cases p.kind.size? with
  | none => exact delimited_repeated (delimited_text p.origin) n
  | some size =>
    cases p.conversion with
    | identity => exact delimited_forward p.origin (n * size)
    | narrow | pad => exact delimited_repeated (delimited_converted p) n

theorem delimited_hiddenElements (p : Payload) (n : Nat) : Delimited (hiddenElements p n) := by
  unfold hiddenElements
  cases p.wireSize? with
  | some size => exact delimited_exactly p.origin (n * size)
  | none =>
    have element : Delimited (do exactly p.origin (← length p.origin)) :=
      (delimited_length p.origin).bind fun n => delimited_exactly p.origin n
    exact (delimited_times element n).bind fun elements => .done elements.flatten

theorem delimited_hide (p : Payload) : Delimited (hide p) := by
  have hidden : Delimited (hidden p) := by
    unfold Pass.hidden
    cases p.count with
    | fixed n => exact (Delimited.done n).bind (delimited_hiddenElements p)
    | fromWire => exact (delimited_length p.origin).bind (delimited_hiddenElements p)
  apply hidden.bind
  intro bytes
  cases p.use with
  | saved name =>
    intro l a l' run
    cases run
    exact ⟨[], .still (fun _ => rfl) rfl (List.prefix_refl _)⟩
  | skipped | loaded | exchanged => exact .done ()

theorem delimited_loaded (name origin : String) (literal : Option Int64) (size : Nat) :
    Delimited (loaded name origin literal size) := by
  intro l a l' run
  rw [loaded, run_bind_ok (Reading.run_get l)] at run
  cases value : (literal <|> l.properties.int? name) with
  | none =>
    rw [value] at run
    cases run
  | some v =>
    rw [value] at run
    cases run
    refine ⟨[], .still (fun c => ?_) rfl (List.prefix_append _ _)⟩
    have value' : (literal <|> (l.withContents c).properties.int? name) = some v := value
    rw [loaded, run_bind_ok (Reading.run_get _), value']
    rfl

theorem delimited_derive (derivation : Derivation) : Delimited (derive derivation) := by
  intro l a l' run
  rw [run_derive] at run
  cases derived : l.properties.derive derivation with
  | error e =>
    rw [derived] at run
    cases run
  | ok properties =>
    rw [derived] at run
    cases run
    refine ⟨[], .still (fun c => ?_) rfl (List.prefix_refl _)⟩
    have derived' : (l.withContents c).properties.derive derivation = .ok properties := derived
    rw [run_derive, derived']
    rfl

theorem delimited_payload (p : Payload) : Delimited (payload p) := by
  unfold payload
  cases p.use with
  | skipped | saved => exact delimited_hide p
  | loaded name literal => exact delimited_loaded name p.origin literal _
  | exchanged =>
    cases p.count with
    | fixed n => exact delimited_elements p n
    | fromWire =>
      apply (delimited_length p.origin).bind
      intro n
      exact (delimited_deliver _).bind fun _ => delimited_elements p n

theorem delimited_gap (g : Gap) : Delimited (gap g) := by
  unfold gap
  cases g.content with
  | nothing => exact delimited_deliver g.template
  | derivation derivation =>
    exact (delimited_derive derivation).bind fun _ => delimited_deliver g.template
  | data p => exact (delimited_deliver g.template).bind fun _ => delimited_payload p

/-- A pass over gaps stops behind the bytes that it needs, by induction on the gaps. -/
theorem delimited_gaps (gs : List Gap) : Delimited (gaps gs) := by
  induction gs with
  | nil => exact .done ()
  | cons g rest ih => exact (delimited_gap g).bind fun _ => ih

end Pass

/-- What a pass makes of bytes that it uses up, it makes of them whatever is behind them. Over a
beginning of these bytes it falls short, and delivers a beginning of what it delivers over all. -/
theorem Layout.decodeOnce_delimited {layout : Layout} {c : Contents} {properties : Properties}
    {final : Ledger} (once : layout.decodeOnce c properties = (.ok (), final))
    (used_up : final.wire = []) :
    (∀ c' r, c'.wire = c.wire ++ r →
      layout.decodeOnce c' properties = (.ok (), final.withContents { c' with wire := r })) ∧
    ∀ c', c'.wire <+: c.wire → c'.wire ≠ c.wire →
      ∃ origin missing l, layout.decodeOnce c' properties =
          (.error (c'.shortage origin missing), l) ∧
        l.delivered <+: final.delivered := by
  obtain ⟨taken, takes⟩ := Pass.delimited_gaps layout.gaps _ () final once
  have taken_eq : c.wire = taken := by
    have wire_eq : c.wire = taken ++ final.wire := takes.wire
    rwa [used_up, List.append_nil] at wire_eq
  rw [taken_eq]
  refine ⟨fun c' r split => takes.whole c' r split, ?_⟩
  rintro c' ⟨later, split⟩ strict
  apply takes.short c' later split.symm
  rintro rfl
  exact strict ((List.append_nil _).symm.trans split)

end TagWire
